import Jaunder.Storage.MediaSafety

namespace Jaunder.Storage.MediaQuota

open Foundation.Run Foundation.UniqueIndex
open Jaunder.Common.Hash Jaunder.Common.References
open Jaunder.Host.ContentEtag
open Jaunder.Storage.Media Jaunder.Storage.MediaManager Jaunder.Storage.MediaSafety
open Jaunder.Storage.WriteScope
open Jaunder.Storage.Posts.Runs (Operation)

section Usage

variable {userId : ℤ} {rows rows' : List MediaRecord} {record : MediaRecord}

theorem uploadBytes_append : uploadBytes userId (rows ++ rows') =
    uploadBytes userId rows + uploadBytes userId rows' := by
  unfold uploadBytes uploadsOf
  rw [List.filter_append, List.map_append, List.sum_append]

theorem uploadBytes_singleton_le : uploadBytes userId [record] ≤ record.sizeBytes.value := by
  unfold uploadBytes uploadsOf
  by_cases hcounts : record.userId = userId ∧ record.source = .upload
  · rw [List.filter_cons_of_pos (by simpa using hcounts)]
    simp
  · rw [List.filter_cons_of_neg (by simpa using hcounts)]
    simp

theorem uploadBytes_singleton_of_ne (h : record.userId ≠ userId) :
    uploadBytes userId [record] = 0 := by
  unfold uploadBytes uploadsOf
  rw [List.filter_cons_of_neg (by simp [h])]
  rfl

theorem uploadBytes_sublist (h : rows.Sublist rows') :
    uploadBytes userId rows ≤ uploadBytes userId rows' :=
  ((h.filter _).map _).sum_le_sum (fun _ _ ↦ Nat.zero_le _)

theorem quotaAllows_iff {currentUsage sizeBytes : ByteSize} {quota : UserQuota} :
    quotaAllows currentUsage sizeBytes quota = true ↔
      currentUsage.value + sizeBytes.value ≤ quota.value := by
  have hfits := quota.fits
  unfold quotaAllows ByteSize.checkedAdd ByteSize.ofNat
  split_ifs with h
  · simp
  · simp only [Option.any_none, Bool.false_eq_true, false_iff]
    omega

end Usage

/-- What an activity may still add to the uploads of a user. -/
def Fits (userId : ℤ) (quota : UserQuota) : Activity → Prop
  | .upload record uploadQuota .received => record.userId = userId → uploadQuota = quota
  | .upload record _ (.checked currentUsage) => Room record currentUsage
  | .upload record _ (.locked currentUsage) => Room record currentUsage
  | .upload record _ (.placed currentUsage _) => Room record currentUsage
  | .post _ localMedia _ => localMedia = []
  | _ => True
where
  /-- The usage that the check read leaves room for the upload. -/
  Room (record : MediaRecord) (currentUsage : ByteSize) : Prop :=
    record.userId = userId → currentUsage.value + record.sizeBytes.value ≤ quota.value

/-- Is the row of a record there already? -/
def Recorded (t : MediaTables) (record : MediaRecord) : Prop :=
  ∃ r ∈ t.media, r.userId = record.userId ∧ r.media = record.media

/-- The uploads of the user are under the quota in force, no post write copies rows, and a
registration that adds a row finds the usage of the user no larger than its own check did. -/
def Undisturbed (userId : ℤ) (quota : UserQuota) (w : World) : Event → Prop
  | .startUpload uploader _ _ uploadQuota => uploader = userId → uploadQuota = quota
  | .startPost _ localMedia => localMedia = []
  | .advance operation (.register _) => ∀ record uploadQuota currentUsage disposition,
      w.activities operation = .upload record uploadQuota (.placed currentUsage disposition) →
      record.userId = userId → ¬Recorded w.tables record →
      uploadBytes userId w.tables.media ≤ currentUsage.value
  | _ => True

structure Within (userId : ℤ) (quota : UserQuota) (w : World) : Prop where
  usage : uploadBytes userId w.tables.media ≤ quota.value
  fits : ∀ operation, Fits userId quota (w.activities operation)

variable {userId : ℤ} {quota uploadQuota : UserQuota} {w w' : World} {operation : ℕ}
  {a : Activity} {record : MediaRecord} {move : Move}

theorem Within.update (h : Within userId quota w)
    (hactivities : w'.activities = Function.update w.activities operation a)
    (ha : Fits userId quota a) (husage : uploadBytes userId w'.tables.media ≤ quota.value) :
    Within userId quota w' := by
  refine ⟨husage, fun o ↦ ?_⟩
  rw [hactivities]
  by_cases ho : o = operation
  · rw [ho, Function.update_self]
    exact ha
  · rw [Function.update_of_ne ho]
    exact h.fits o

theorem Within.finish (h : Within userId quota w) : Within userId quota (w.finish operation) :=
  h.update rfl trivial h.usage

theorem Within.setActivity (h : Within userId quota w) (ha : Fits userId quota a) :
    Within userId quota (w.setActivity operation a) :=
  h.update rfl ha h.usage

theorem Within.acquire {sha256 : ContentHash} (h : Within userId quota w)
    (hs : w.acquire operation sha256 a = some w') (ha : Fits userId quota a) :
    Within userId quota w' := by
  obtain ⟨locks, -, rfl⟩ := Option.map_eq_some_iff.mp hs
  exact h.update rfl ha h.usage

theorem registered_of_recorded {t : MediaTables} (h : Recorded t record) :
    registered t record = t := by
  obtain ⟨r, hr, huser, hmedia⟩ := h
  rw [registered, createMedia_exists hr huser hmedia]
  rfl

theorem registered_usage {t : MediaTables} {bound : ℕ}
    (husage : uploadBytes userId t.media ≤ bound)
    (hroom : record.userId = userId → ¬Recorded t record →
      uploadBytes userId t.media + record.sizeBytes.value ≤ bound) :
    uploadBytes userId (registered t record).media ≤ bound := by
  by_cases hrecorded : Recorded t record
  · rw [registered_of_recorded hrecorded]
    exact husage
  · unfold registered
    cases hcreate : createMedia t record with
    | error e => exact husage
    | ok t' =>
      rw [createMedia_ok hcreate]
      refine uploadBytes_append.trans_le ?_
      by_cases huser : record.userId = userId
      · have hsize : uploadBytes userId [record] ≤ record.sizeBytes.value := uploadBytes_singleton_le
        have := hroom huser hrecorded
        omega
      · rw [uploadBytes_singleton_of_ne huser]
        exact husage

theorem checkQuota_within (h : Within userId quota w)
    (hactivity : w.activities operation = .upload record uploadQuota .received) :
    Within userId quota (checkQuota w operation record uploadQuota) := by
  have hquota : record.userId = userId → uploadQuota = quota := by
    have hfits := h.fits operation
    rwa [hactivity] at hfits
  unfold checkQuota
  cases getUserUploadUsage w.tables record.userId with
  | none => exact h.finish
  | some currentUsage =>
    dsimp only
    split_ifs with hallows
    · refine h.setActivity (fun huser ↦ ?_)
      rw [← hquota huser]
      exact quotaAllows_iff.mp hallows
    · exact h.finish

theorem registerUpload_within {currentUsage : ByteSize} {disposition : TargetDisposition}
    {commit : Commit} (h : Within userId quota w)
    (hactivity : w.activities operation =
      .upload record uploadQuota (.placed currentUsage disposition))
    (hfound : record.userId = userId → ¬Recorded w.tables record →
      uploadBytes userId w.tables.media ≤ currentUsage.value) :
    Within userId quota (registerUpload w operation record uploadQuota disposition commit) := by
  have hroom : record.userId = userId →
      currentUsage.value + record.sizeBytes.value ≤ quota.value := by
    have hfits := h.fits operation
    rwa [hactivity] at hfits
  unfold registerUpload
  split_ifs with hfailed happlies
  · exact h.setActivity trivial
  · refine h.update rfl trivial (registered_usage h.usage (fun huser hnew ↦ ?_))
    have hread := hfound huser hnew
    have hchecked := hroom huser
    omega
  · exact h.update rfl trivial h.usage

theorem UploadStep.within {stage : UploadStage} (h : Within userId quota w)
    (hactivity : w.activities operation = .upload record uploadQuota stage)
    (hcondition : Undisturbed userId quota w (.advance operation move))
    (hs : UploadStep w operation record uploadQuota stage move w') : Within userId quota w' := by
  have hfits := h.fits operation
  rw [hactivity] at hfits
  cases hs with
  | checkQuota => exact checkQuota_within h hactivity
  | acquire hs => exact h.acquire hs hfits
  | unlocked => exact h.finish
  | place => exact h.update rfl hfits h.usage
  | unplaced => exact h.finish
  | register hwriter =>
    exact registerUpload_within h hactivity (hcondition _ _ _ _ hactivity)
  | reject => exact h.setActivity trivial
  | cleanUp => exact h.update rfl trivial h.usage

theorem DeleteStep.within {deleter : ℤ} {media : MediaRef} {forced : Bool} {stage : DeleteStage}
    (h : Within userId quota w) (hs : DeleteStep w operation deleter media forced stage move w') :
    Within userId quota w' := by
  cases hs with
  | resolve => exact h.setActivity trivial
  | acquire hs => exact h.acquire hs trivial
  | @deleteRow evidence commit hwriter =>
    have husage : uploadBytes userId (if commit.applies then
        (tryDeleteMedia w.tables deleter media evidence forced).2 else w.tables).media ≤
        quota.value := by
      split_ifs
      · exact (uploadBytes_sublist tryDeleteMedia_sublist).trans h.usage
      · exact h.usage
    unfold deleteRow
    dsimp only
    generalize (if commit.applies then (tryDeleteMedia w.tables deleter media evidence forced).2
      else w.tables) = tables at husage ⊢
    split_ifs
    · exact h.update rfl trivial husage
    · exact h.update rfl trivial husage
  | beginReclaim hwriter =>
    unfold beginReclaim
    split_ifs
    · exact h.update rfl trivial h.usage
    · exact h.finish
  | unlink => exact h.update rfl trivial h.usage
  | finish => exact h.finish

section Runs

variable {projection : Option String → String → String} {digest : PostContentEtag → String}
  {write : Operation} {pending : List ContentHash} {event : Event}

theorem writePost_nothing_local {t : MediaTables} :
    (writePost projection digest t write []).media = t.media := by
  cases write with
  | create input now =>
    unfold writePost
    dsimp only
    split <;> rfl
  | update postId editorUserId input =>
    unfold writePost
    dsimp only
    split
    · split_ifs <;> rfl
    · rfl
  | _ => rfl

theorem PostStep.within (h : Within userId quota w)
    (hs : PostStep w operation projection digest write [] pending move w') :
    Within userId quota w' := by
  cases hs with
  | acquire hs => exact h.acquire hs rfl
  | @commit commit hwriter =>
    refine h.update rfl trivial ?_
    unfold commitPost
    dsimp only
    split_ifs
    · rw [writePost_nothing_local]
      exact h.usage
    · exact h.usage
  | abort => exact h.finish

theorem Within.start (h : Within userId quota w) (ha : Fits userId quota a) :
    Within userId quota (w.start a) :=
  h.update rfl ha h.usage

/-- Whatever an upload does, it leaves the tables alone while its row is there already. -/
theorem UploadStep.recorded {stage : UploadStage} (hrecorded : Recorded w.tables record)
    (hs : UploadStep w operation record uploadQuota stage move w') : w'.tables = w.tables := by
  cases hs with
  | checkQuota =>
    unfold checkQuota
    cases getUserUploadUsage w.tables record.userId with
    | none => rfl
    | some currentUsage =>
      dsimp only
      split_ifs <;> rfl
  | acquire hs =>
    obtain ⟨-, htables, -, -, -⟩ := acquire_spec hs
    exact htables
  | register hwriter =>
    unfold registerUpload
    split_ifs
    · rfl
    · exact registered_of_recorded hrecorded
    · rfl
  | _ => rfl

theorem step_recorded {stage : UploadStage}
    (hactivity : w.activities operation = .upload record uploadQuota stage)
    (hrecorded : Recorded w.tables record) :
    (step projection digest w (.advance operation move)).tables = w.tables := by
  unfold step
  cases hs : next projection digest w (.advance operation move) with
  | none => rfl
  | some w' =>
    unfold next advance at hs
    dsimp only at hs
    rw [hactivity] at hs
    exact UploadStep.recorded hrecorded (advanceUpload_step hs)

end Runs

end Jaunder.Storage.MediaQuota
