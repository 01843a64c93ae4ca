import Jaunder.Storage.MediaManager

namespace Jaunder.Storage.MediaSafety

open Foundation.Locks Foundation.Run
open Jaunder.Common.Hash Jaunder.Common.References
open Jaunder.Host.ContentEtag
open Jaunder.Storage.Media Jaunder.Storage.MediaManager Jaunder.Storage.WriteScope
open Jaunder.Storage.Posts.Runs (Operation)

section Files

variable {files : List StoredFile} {media other : MediaRef} {f : StoredFile} {operation : ℕ}

theorem mem_filesAt : f ∈ filesAt files media ↔ f ∈ files ∧ f.media = media := by
  rw [filesAt, List.mem_filter, decide_eq_true_iff]

theorem filesAt_cons_of_ne (h : f.media ≠ media) : filesAt (f :: files) media = filesAt files media :=
  List.filter_cons_of_neg (by simpa using h)

theorem handleDeduplication_other (h : other ≠ media) :
    filesAt (handleDeduplication files operation media).2 other = filesAt files other := by
  unfold handleDeduplication
  split_ifs
  · rfl
  · exact filesAt_cons_of_ne (Ne.symm h)
  · exact filesAt_cons_of_ne (Ne.symm h)

theorem handleDeduplication_ne_nil :
    filesAt (handleDeduplication files operation media).2 media ≠ [] := by
  have hcons : filesAt (⟨media, .upload operation⟩ :: files) media ≠ [] :=
    List.ne_nil_of_mem (mem_filesAt.mpr ⟨List.mem_cons_self, rfl⟩)
  unfold handleDeduplication
  split_ifs with hexists
  · exact hexists
  · exact hcons
  · exact hcons

/-- A target that the upload created was not there before. -/
theorem handleDeduplication_created
    (h : (handleDeduplication files operation media).1.wasCreatedByUpload = true) :
    filesAt files media = [] ∧
      (handleDeduplication files operation media).2 = ⟨media, .upload operation⟩ :: files := by
  unfold handleDeduplication at h ⊢
  split_ifs at h ⊢ with hexists
  · cases h
  · exact ⟨not_not.mp hexists, rfl⟩
  · exact ⟨not_not.mp hexists, rfl⟩

theorem removeMediaFile_other (h : other ≠ media) :
    filesAt (removeMediaFile files media) other = filesAt files other := by
  unfold filesAt removeMediaFile
  rw [List.filter_filter]
  refine List.filter_congr fun f _ ↦ ?_
  by_cases hf : f.media = other
  · simp [hf, h]
  · simp [hf]

theorem mem_removeMediaFile : f ∈ removeMediaFile files media ↔ f ∈ files ∧ f.media ≠ media := by
  rw [removeMediaFile, List.mem_filter, decide_eq_true_iff]

end Files

/-- The content that an upload or a deletion has locked. -/
def contentLock : Activity → Option ContentHash
  | .upload record _ (.locked _) => some record.sha256
  | .upload record _ (.placed _ _) => some record.sha256
  | .upload record _ (.rejected _) => some record.sha256
  | .delete _ media _ (.locked _) => some media.sha256
  | .delete _ media _ (.deleted _) => some media.sha256
  | .delete _ media _ (.reclaiming _) => some media.sha256
  | .delete _ media _ .reclaimed => some media.sha256
  | _ => none

/-- The media whose file an upload is about to record. -/
def placedMedia : Activity → Option MediaRef
  | .upload record _ (.placed _ _) => some record.media
  | _ => none

/-- The media whose file an upload removes if it fails. -/
def createdMedia : Activity → Option MediaRef
  | .upload record _ (.placed _ disposition) =>
    if disposition.wasCreatedByUpload then some record.media else none
  | .upload record _ (.rejected disposition) =>
    if disposition.wasCreatedByUpload then some record.media else none
  | _ => none

/-- The media whose file a deletion unlinks, with its evidence. -/
def reclaimedMedia : Activity → Option (MediaRef × MediaReferenceEvidence)
  | .delete _ media _ (.reclaiming evidence) => some (media, evidence)
  | _ => none

section Activities

variable {a : Activity} {media : MediaRef} {evidence : MediaReferenceEvidence}

theorem contentLock_of_placed (h : placedMedia a = some media) :
    contentLock a = some media.sha256 := by
  unfold placedMedia at h
  split at h
  · rw [← Option.some.inj h]
    rfl
  · cases h

theorem contentLock_of_created (h : createdMedia a = some media) :
    contentLock a = some media.sha256 := by
  unfold createdMedia at h
  split at h
  · split_ifs at h
    rw [← Option.some.inj h]
    rfl
  · split_ifs at h
    rw [← Option.some.inj h]
    rfl
  · cases h

theorem contentLock_of_reclaimed (h : reclaimedMedia a = some (media, evidence)) :
    contentLock a = some media.sha256 := by
  unfold reclaimedMedia at h
  split at h
  · obtain ⟨rfl, rfl⟩ := Prod.mk.inj (Option.some.inj h)
    rfl
  · cases h

end Activities

/-- What one operation in flight relies on. -/
structure Own (w : World) (operation : ℕ) : Prop where
  lock : ∀ sha256, contentLock (w.activities operation) = some sha256 →
    w.contentLocks sha256 = some operation
  placed : ∀ media, placedMedia (w.activities operation) = some media →
    filesAt w.files media ≠ []
  created : ∀ media, createdMedia (w.activities operation) = some media →
    (∀ r ∈ w.tables.media, r.media ≠ media) ∧
      ∀ f ∈ filesAt w.files media, f.origin = .upload operation
  reclaiming : ∀ media evidence, reclaimedMedia (w.activities operation) = some (media, evidence) →
    w.writer = some operation ∧ mediaEntryIsReclaimable w.tables media evidence = true

/-- Every row has its file, and every operation has what it relies on. -/
structure Sound (w : World) : Prop where
  intact : ∀ r ∈ w.tables.media, filesAt w.files r.media ≠ []
  fresh : ∀ operation, w.started ≤ operation → w.activities operation = .idle
  own : ∀ operation, Own w operation

/-- The discipline of one step: a file changes under the lock of its content, a new row names
locked content or media that a row names already, the tables change while no other operation is in
its transaction, and the locks of the others stay. -/
structure Turn (operation : ℕ) (w w' : World) : Prop where
  started : w.started ≤ w'.started
  others : ∀ o, o ≠ operation → w'.activities o = w.activities o
  locks : ∀ o sha256, o ≠ operation → w.contentLocks sha256 = some o →
    w'.contentLocks sha256 = some o
  writer : ∀ o, o ≠ operation → w.writer = some o → w'.writer = some o
  files : ∀ media, filesAt w'.files media = filesAt w.files media ∨
    w.contentLocks media.sha256 = some operation
  rows : ∀ r ∈ w'.tables.media, (∃ r' ∈ w.tables.media, r'.media = r.media) ∨
    w.contentLocks r.media.sha256 = some operation
  tables : w'.tables = w.tables ∨ w.writer = none

variable {w w' : World} {operation o : ℕ}

/-- The discipline keeps what the other operations rely on. -/
theorem Own.kept (h : Own w o) (hne : o ≠ operation) (turn : Turn operation w w') : Own w' o := by
  have hfiles : ∀ media : MediaRef, w.contentLocks media.sha256 = some o →
      filesAt w'.files media = filesAt w.files media := by
    intro media hheld
    rcases turn.files media with hsame | hmine
    · exact hsame
    · exact absurd (Option.some.inj (hheld.symm.trans hmine)) hne
  constructor
  · intro sha256 hlock
    rw [turn.others o hne] at hlock
    exact turn.locks o sha256 hne (h.lock sha256 hlock)
  · intro media hplaced
    rw [turn.others o hne] at hplaced
    rw [hfiles media (h.lock _ (contentLock_of_placed hplaced))]
    exact h.placed media hplaced
  · intro media hcreated
    rw [turn.others o hne] at hcreated
    have hheld := h.lock _ (contentLock_of_created hcreated)
    obtain ⟨hrows, horigin⟩ := h.created media hcreated
    refine ⟨fun r hr hmedia ↦ ?_, ?_⟩
    · rcases turn.rows r hr with ⟨r', hr', hmedia'⟩ | hmine
      · exact hrows r' hr' (hmedia'.trans hmedia)
      · rw [hmedia] at hmine
        exact hne (Option.some.inj (hheld.symm.trans hmine))
    · rw [hfiles media hheld]
      exact horigin
  · intro media evidence hreclaims
    rw [turn.others o hne] at hreclaims
    obtain ⟨hwriter, hreclaimable⟩ := h.reclaiming media evidence hreclaims
    refine ⟨turn.writer o hne hwriter, ?_⟩
    rcases turn.tables with hsame | hnone
    · rw [hsame]
      exact hreclaimable
    · rw [hnone] at hwriter
      cases hwriter

theorem Sound.turn (h : Sound w) (hop : operation < w'.started) (turn : Turn operation w w')
    (hown : Own w' operation)
    (hintact : ∀ r ∈ w'.tables.media, filesAt w'.files r.media ≠ []) : Sound w' where
  intact := hintact
  fresh := by
    intro o ho
    have hne : o ≠ operation := by omega
    rw [turn.others o hne]
    exact h.fresh o (turn.started.trans ho)
  own := by
    intro o
    by_cases hne : o = operation
    · rw [hne]
      exact hown
    · exact (h.own o).kept hne turn

theorem Sound.lt_started (h : Sound w) (hactive : w.activities operation ≠ .idle) :
    operation < w.started := by
  by_contra hle
  exact hactive (h.fresh operation (by omega))

theorem own_of {a : Activity} (ha : w.activities operation = a)
    (lock : ∀ sha256, contentLock a = some sha256 → w.contentLocks sha256 = some operation)
    (placed : ∀ media, placedMedia a = some media → filesAt w.files media ≠ [])
    (created : ∀ media, createdMedia a = some media → (∀ r ∈ w.tables.media, r.media ≠ media) ∧
      ∀ f ∈ filesAt w.files media, f.origin = .upload operation)
    (reclaiming : ∀ media evidence, reclaimedMedia a = some (media, evidence) →
      w.writer = some operation ∧ mediaEntryIsReclaimable w.tables media evidence = true) :
    Own w operation := by
  subst ha
  exact ⟨lock, placed, created, reclaiming⟩

/-- An operation without a content lock relies on nothing. -/
theorem own_of_unlocked {a : Activity} (ha : w.activities operation = a)
    (h : contentLock a = none) : Own w operation := by
  refine own_of ha (fun sha256 hlock ↦ ?_) (fun media hplaced ↦ ?_) (fun media hcreated ↦ ?_)
    (fun media evidence hreclaims ↦ ?_)
  · rw [h] at hlock
    cases hlock
  · rw [contentLock_of_placed hplaced] at h
    cases h
  · rw [contentLock_of_created hcreated] at h
    cases h
  · rw [contentLock_of_reclaimed hreclaims] at h
    cases h

/-- An operation that only holds the lock of its content. -/
theorem own_of_locked {a : Activity} {sha256 : ContentHash} (ha : w.activities operation = a)
    (hlock : contentLock a = some sha256) (hheld : w.contentLocks sha256 = some operation)
    (hplaced : placedMedia a = none) (hcreated : createdMedia a = none)
    (hreclaims : reclaimedMedia a = none) : Own w operation := by
  refine own_of ha (fun k hk ↦ ?_) (fun media h ↦ ?_) (fun media h ↦ ?_) (fun media evidence h ↦ ?_)
  · rw [hlock] at hk
    rw [← Option.some.inj hk]
    exact hheld
  · rw [hplaced] at h
    cases h
  · rw [hcreated] at h
    cases h
  · rw [hreclaims] at h
    cases h

section Turns

variable {a : Activity} {sha256 : ContentHash} {t : MediaTables} {files : List StoredFile}

theorem turn_setActivity : Turn operation w (w.setActivity operation a) where
  started := le_rfl
  others _ hne := Function.update_of_ne hne _ _
  locks _ _ _ h := h
  writer _ _ h := h
  files _ := .inl rfl
  rows r hr := .inl ⟨r, hr, rfl⟩
  tables := .inl rfl

theorem turn_finish : Turn operation w (w.finish operation) where
  started := le_rfl
  others _ hne := Function.update_of_ne hne _ _
  locks _ _ hne h := release_of_held hne h
  writer := by
    intro o hne h
    have hother : w.writer ≠ some operation := by
      rw [h]
      exact fun he ↦ hne (Option.some.inj he)
    exact (if_neg hother).trans h
  files _ := .inl rfl
  rows r hr := .inl ⟨r, hr, rfl⟩
  tables := .inl rfl

theorem Turn.setTables (turn : Turn operation w w') (hwriter : w.writer = none)
    (hrows : ∀ r ∈ t.media, (∃ r' ∈ w.tables.media, r'.media = r.media) ∨
      w.contentLocks r.media.sha256 = some operation) :
    Turn operation w { w' with tables := t } :=
  { turn with rows := hrows, tables := .inr hwriter }

theorem Turn.setFiles (turn : Turn operation w w')
    (hfiles : ∀ media, filesAt files media = filesAt w.files media ∨
      w.contentLocks media.sha256 = some operation) :
    Turn operation w { w' with files := files } :=
  { turn with files := hfiles }

theorem acquire_spec (h : w.acquire operation sha256 a = some w') :
    Turn operation w w' ∧ w'.tables = w.tables ∧ w'.files = w.files ∧
      w'.activities operation = a ∧ w'.contentLocks sha256 = some operation := by
  obtain ⟨locks, hlocks, rfl⟩ := Option.map_eq_some_iff.mp h
  refine ⟨{ turn_setActivity with locks := fun o sha256 _ hheld ↦ ?_ }, rfl, rfl,
    Function.update_self _ _ _, acquire_self hlocks⟩
  exact acquire_of_held hlocks hheld

theorem finish_activity : (w.finish operation).activities operation = .finished :=
  Function.update_self _ _ _

theorem setActivity_activity : (w.setActivity operation a).activities operation = a :=
  Function.update_self _ _ _

theorem finish_sound (h : Sound w) (hop : operation < w.started) : Sound (w.finish operation) :=
  h.turn hop turn_finish (own_of_unlocked finish_activity rfl) h.intact

theorem setActivity_sound (h : Sound w) (hop : operation < w.started)
    (ha : contentLock a = none) : Sound (w.setActivity operation a) :=
  h.turn hop turn_setActivity (own_of_unlocked setActivity_activity ha) h.intact

/-- An operation that takes a content lock relies on the lock alone. -/
theorem acquire_sound (h : Sound w) (hop : operation < w.started)
    (hs : w.acquire operation sha256 a = some w') (hlock : contentLock a = some sha256)
    (hplaced : placedMedia a = none) (hcreated : createdMedia a = none)
    (hreclaims : reclaimedMedia a = none) : Sound w' := by
  obtain ⟨turn, htables, hfiles, hactivity, hheld⟩ := acquire_spec hs
  refine h.turn (hop.trans_le turn.started) turn (own_of_locked hactivity hlock hheld hplaced hcreated hreclaims) ?_
  rw [htables, hfiles]
  exact h.intact

end Turns

section Uploads

variable {record : MediaRecord} {quota : UserQuota} {currentUsage : ByteSize}
  {disposition : TargetDisposition} {stage : UploadStage} {move : Move}

theorem createdMedia_placed : createdMedia (.upload record quota (.placed currentUsage disposition)) =
    if disposition.wasCreatedByUpload then some record.media else none := rfl

theorem createdMedia_rejected : createdMedia (.upload record quota (.rejected disposition)) =
    if disposition.wasCreatedByUpload then some record.media else none := rfl

theorem placeUpload_sound (h : Sound w) (hop : operation < w.started)
    (hactivity : w.activities operation = .upload record quota (.locked currentUsage)) :
    Sound (placeUpload w operation record quota currentUsage) := by
  have hheld : w.contentLocks record.media.sha256 = some operation :=
    (h.own operation).lock _ (by rw [hactivity]; rfl)
  have hother : ∀ media, filesAt (handleDeduplication w.files operation record.media).2 media =
      filesAt w.files media ∨ w.contentLocks media.sha256 = some operation := by
    intro media
    by_cases hmedia : media = record.media
    · rw [hmedia]
      exact .inr hheld
    · exact .inl (handleDeduplication_other hmedia)
  refine h.turn hop (turn_setActivity.setFiles hother)
    (own_of setActivity_activity (fun sha256 hlock ↦ ?_) (fun media hplaced ↦ ?_)
      (fun media hcreated ↦ ?_) (fun media evidence hreclaims ↦ ?_)) (fun r hr hnil ↦ ?_)
  · rw [← Option.some.inj hlock]
    exact hheld
  · rw [← Option.some.inj hplaced]
    exact handleDeduplication_ne_nil
  · rw [createdMedia_placed] at hcreated
    split_ifs at hcreated with hnew
    obtain ⟨habsent, hfiles⟩ := handleDeduplication_created hnew
    rw [← Option.some.inj hcreated]
    refine ⟨fun r hr hmedia ↦ h.intact r hr (by rw [hmedia]; exact habsent), fun f hf ↦ ?_⟩
    rw [placeUpload, hfiles, filesAt, List.filter_cons_of_pos (by simp), List.mem_cons] at hf
    rcases hf with rfl | hold
    · rfl
    · rw [← filesAt, habsent] at hold
      cases hold
  · cases hreclaims
  · by_cases hmedia : r.media = record.media
    · rw [hmedia] at hnil
      exact handleDeduplication_ne_nil hnil
    · exact h.intact r hr ((handleDeduplication_other hmedia).symm.trans hnil)

/-- A rejected upload still owns the target that it created. -/
theorem reject_sound (h : Sound w) (hop : operation < w.started)
    (hactivity : w.activities operation = .upload record quota (.placed currentUsage disposition)) :
    Sound (w.setActivity operation (.upload record quota (.rejected disposition))) := by
  have hown := h.own operation
  have hheld : w.contentLocks record.sha256 = some operation :=
    hown.lock _ (by rw [hactivity]; rfl)
  refine h.turn hop turn_setActivity
    (own_of setActivity_activity (fun sha256 hlock ↦ ?_) (fun media hplaced ↦ ?_)
      (fun media hcreated ↦ ?_) (fun media evidence hreclaims ↦ ?_)) h.intact
  · rw [← Option.some.inj hlock]
    exact hheld
  · cases hplaced
  · refine hown.created media ?_
    rw [hactivity, createdMedia_placed]
    exact hcreated
  · cases hreclaims

theorem registered_mem {t : MediaTables} {r : MediaRecord} (hr : r ∈ (registered t record).media) :
    r ∈ t.media ∨ r = record := by
  unfold registered at hr
  cases hcreate : createMedia t record with
  | ok t' =>
    rw [hcreate, createMedia_ok hcreate] at hr
    exact (List.mem_append.mp hr).imp id List.mem_singleton.mp
  | error e =>
    rw [hcreate] at hr
    exact .inl hr

theorem register_sound {t : MediaTables} (h : Sound w) (hop : operation < w.started)
    (hactivity : w.activities operation = .upload record quota (.placed currentUsage disposition))
    (hwriter : w.writer = none) (ht : t = registered w.tables record ∨ t = w.tables) :
    Sound { w.finish operation with tables := t } := by
  have hown := h.own operation
  have hheld : w.contentLocks record.media.sha256 = some operation :=
    hown.lock _ (by rw [hactivity]; rfl)
  have hplaced : filesAt w.files record.media ≠ [] :=
    hown.placed _ (by rw [hactivity]; rfl)
  have hmem : ∀ r ∈ t.media, r ∈ w.tables.media ∨ r = record := by
    intro r hr
    rcases ht with rfl | rfl
    · exact registered_mem hr
    · exact .inl hr
  refine h.turn hop (turn_finish.setTables hwriter (fun r hr ↦ ?_))
    (own_of_unlocked finish_activity rfl) (fun r hr ↦ ?_)
  · rcases hmem r hr with hold | rfl
    · exact .inl ⟨r, hold, rfl⟩
    · exact .inr hheld
  · rcases hmem r hr with hold | rfl
    · exact h.intact r hold
    · exact hplaced

/-- Without a row that names it, a file goes under the lock of its content. -/
theorem unnamed_removal {media : MediaRef} (hnone : ∀ r ∈ w.tables.media, r.media ≠ media)
    (hintact : ∀ r ∈ w.tables.media, filesAt w.files r.media ≠ []) :
    ∀ r ∈ w.tables.media, filesAt (removeMediaFile w.files media) r.media ≠ [] := by
  intro r hr
  rw [removeMediaFile_other (hnone r hr)]
  exact hintact r hr

theorem removal_other {media : MediaRef} (hheld : w.contentLocks media.sha256 = some operation) :
    ∀ other, filesAt (removeMediaFile w.files media) other = filesAt w.files other ∨
      w.contentLocks other.sha256 = some operation := by
  intro other
  by_cases hother : other = media
  · rw [hother]
    exact .inr hheld
  · exact .inl (removeMediaFile_other hother)

theorem cleanUpTarget_sound {succeeds : Bool} (h : Sound w) (hop : operation < w.started)
    (hactivity : w.activities operation = .upload record quota (.rejected disposition)) :
    Sound (cleanUpTarget w operation record disposition succeeds) := by
  have hown := h.own operation
  unfold cleanUpTarget
  split_ifs with hremoves
  · have hheld : w.contentLocks record.media.sha256 = some operation :=
      hown.lock _ (by rw [hactivity]; rfl)
    have hnone := (hown.created record.media
      (by rw [hactivity, createdMedia_rejected, if_pos hremoves.1])).1
    exact h.turn hop (turn_finish.setFiles (removal_other hheld))
      (own_of_unlocked finish_activity rfl) (unnamed_removal hnone h.intact)
  · exact finish_sound h hop

theorem checkQuota_sound (h : Sound w) (hop : operation < w.started) :
    Sound (checkQuota w operation record quota) := by
  unfold checkQuota
  cases getUserUploadUsage w.tables record.userId with
  | none => exact finish_sound h hop
  | some currentUsage =>
    dsimp only
    split_ifs
    · exact setActivity_sound h hop rfl
    · exact finish_sound h hop

theorem registerUpload_sound {commit : Commit} (h : Sound w) (hop : operation < w.started)
    (hactivity : w.activities operation = .upload record quota (.placed currentUsage disposition))
    (hwriter : w.writer = none) :
    Sound (registerUpload w operation record quota disposition commit) := by
  unfold registerUpload
  split_ifs
  · exact reject_sound h hop hactivity
  · exact register_sound h hop hactivity hwriter (.inl rfl)
  · exact register_sound h hop hactivity hwriter (.inr rfl)

theorem UploadStep.sound (h : Sound w) (hop : operation < w.started)
    (hactivity : w.activities operation = .upload record quota stage)
    (hs : UploadStep w operation record quota stage move w') : Sound w' := by
  cases hs with
  | checkQuota => exact checkQuota_sound h hop
  | acquire hs => exact acquire_sound h hop hs rfl rfl rfl rfl
  | unlocked => exact finish_sound h hop
  | place => exact placeUpload_sound h hop hactivity
  | unplaced => exact finish_sound h hop
  | register hwriter => exact registerUpload_sound h hop hactivity hwriter
  | reject => exact reject_sound h hop hactivity
  | cleanUp => exact cleanUpTarget_sound h hop hactivity

end Uploads

section Deletions

variable {userId : ℤ} {media : MediaRef} {forced : Bool} {evidence : MediaReferenceEvidence}
  {stage : DeleteStage} {move : Move}

theorem tryDeleteMedia_mem {t : MediaTables} {r : MediaRecord}
    (hr : r ∈ (tryDeleteMedia t userId media evidence forced).2.media) : r ∈ t.media :=
  tryDeleteMedia_sublist.subset hr

theorem deleteRow_sound {commit : Commit} (h : Sound w) (hop : operation < w.started)
    (hactivity : w.activities operation = .delete userId media forced (.locked evidence))
    (hwriter : w.writer = none) :
    Sound (deleteRow w operation userId media forced evidence commit) := by
  have hheld : w.contentLocks media.sha256 = some operation :=
    (h.own operation).lock _ (by rw [hactivity]; rfl)
  have hmem : ∀ r ∈ (if commit.applies then (tryDeleteMedia w.tables userId media evidence forced).2
      else w.tables).media, r ∈ w.tables.media := by
    intro r hr
    split_ifs at hr
    · exact tryDeleteMedia_mem hr
    · exact hr
  unfold deleteRow
  dsimp only
  generalize (if commit.applies then (tryDeleteMedia w.tables userId media evidence forced).2
    else w.tables) = tables at hmem ⊢
  split_ifs
  · refine h.turn hop (turn_setActivity.setTables hwriter (fun r hr ↦ .inl ⟨r, hmem r hr, rfl⟩))
      (own_of_locked setActivity_activity rfl hheld rfl rfl rfl)
      (fun r hr ↦ h.intact r (hmem r hr))
  · exact h.turn hop (turn_finish.setTables hwriter (fun r hr ↦ .inl ⟨r, hmem r hr, rfl⟩))
      (own_of_unlocked finish_activity rfl) (fun r hr ↦ h.intact r (hmem r hr))

theorem beginReclaim_sound (h : Sound w) (hop : operation < w.started)
    (hactivity : w.activities operation = .delete userId media forced (.deleted evidence))
    (hwriter : w.writer = none) :
    Sound (beginReclaim w operation userId media forced evidence) := by
  have hheld : w.contentLocks media.sha256 = some operation :=
    (h.own operation).lock _ (by rw [hactivity]; rfl)
  unfold beginReclaim
  split_ifs with hreclaimable
  · have turn : Turn operation w { w.setActivity operation
        (.delete userId media forced (.reclaiming evidence)) with writer := some operation } :=
      { turn_setActivity with
        writer := by
          intro o _ ho
          rw [hwriter] at ho
          cases ho }
    refine h.turn hop turn (own_of setActivity_activity (fun sha256 hlock ↦ ?_) (fun _ hplaced ↦ ?_)
      (fun _ hcreated ↦ ?_) (fun _ _ hreclaims ↦ ?_)) h.intact
    · rw [← Option.some.inj hlock]
      exact hheld
    · cases hplaced
    · cases hcreated
    · obtain ⟨rfl, rfl⟩ := Prod.mk.inj (Option.some.inj hreclaims)
      exact ⟨rfl, hreclaimable⟩
  · exact finish_sound h hop

theorem unlinkReclaimed_sound {succeeds : Bool} (h : Sound w) (hop : operation < w.started)
    (hactivity : w.activities operation = .delete userId media forced (.reclaiming evidence)) :
    Sound (unlinkReclaimed w operation userId media forced succeeds) := by
  have hheld : w.contentLocks media.sha256 = some operation :=
    (h.own operation).lock _ (by rw [hactivity]; rfl)
  have hreclaimable := ((h.own operation).reclaiming media evidence (by rw [hactivity]; rfl)).2
  have hnone := (mediaEntryIsReclaimable_iff.mp hreclaimable).1
  unfold unlinkReclaimed
  split_ifs
  · exact h.turn hop (turn_setActivity.setFiles (removal_other hheld))
      (own_of_locked setActivity_activity rfl hheld rfl rfl rfl) (unnamed_removal hnone h.intact)
  · exact h.turn hop turn_setActivity
      (own_of_locked setActivity_activity rfl hheld rfl rfl rfl) h.intact

theorem DeleteStep.sound (h : Sound w) (hop : operation < w.started)
    (hactivity : w.activities operation = .delete userId media forced stage)
    (hs : DeleteStep w operation userId media forced stage move w') : Sound w' := by
  cases hs with
  | resolve => exact setActivity_sound h hop rfl
  | acquire hs => exact acquire_sound h hop hs rfl rfl rfl rfl
  | deleteRow hwriter => exact deleteRow_sound h hop hactivity hwriter
  | beginReclaim hwriter => exact beginReclaim_sound h hop hactivity hwriter
  | unlink => exact unlinkReclaimed_sound h hop hactivity
  | finish => exact finish_sound h hop

end Deletions

section Runs

variable {projection : Option String → String → String} {digest : PostContentEtag → String}
  {write : Operation} {localMedia : List MediaRef} {pending : List ContentHash} {move : Move}
  {event : Event}

/-- A post write adds rows only for media that a row names already. -/
theorem writePost_mem {t : MediaTables} {r : MediaRecord}
    (hr : r ∈ (writePost projection digest t write localMedia).media) :
    ∃ r' ∈ t.media, r'.media = r.media := by
  cases write with
  | create input now =>
    unfold writePost at hr
    dsimp only at hr
    split at hr
    · rename_i created _
      exact materialize_mem (t := { t with posts := created.2 }) hr
    · exact ⟨r, hr, rfl⟩
  | update postId editorUserId input =>
    unfold writePost at hr
    dsimp only at hr
    split at hr
    · rename_i updated _
      split_ifs at hr
      · exact materialize_mem (t := { t with posts := updated.2 }) hr
      · exact ⟨r, hr, rfl⟩
    · exact ⟨r, hr, rfl⟩
  | _ => exact ⟨r, hr, rfl⟩

theorem commitPost_sound {commit : Commit} (h : Sound w) (hop : operation < w.started)
    (hwriter : w.writer = none) :
    Sound (commitPost projection digest w operation write localMedia commit) := by
  unfold commitPost
  have hmem : ∀ r ∈ (if commit.applies then writePost projection digest w.tables write localMedia
      else w.tables).media, ∃ r' ∈ w.tables.media, r'.media = r.media := by
    intro r hr
    split_ifs at hr
    · exact writePost_mem hr
    · exact ⟨r, hr, rfl⟩
  refine h.turn hop (turn_finish.setTables hwriter (fun r hr ↦ .inl (hmem r hr)))
    (own_of_unlocked finish_activity rfl) (fun r hr ↦ ?_)
  obtain ⟨r', hr', hmedia⟩ := hmem r hr
  have hfile := h.intact r' hr'
  rwa [hmedia] at hfile

theorem PostStep.sound (h : Sound w) (hop : operation < w.started)
    (hs : PostStep w operation projection digest write localMedia pending move w') :
    Sound w' := by
  cases hs with
  | acquire hs =>
    obtain ⟨turn, htables, hfiles, hactivity, -⟩ := acquire_spec hs
    refine h.turn (hop.trans_le turn.started) turn (own_of_unlocked hactivity rfl) ?_
    rw [htables, hfiles]
    exact h.intact
  | commit hwriter => exact commitPost_sound h hop hwriter
  | abort => exact finish_sound h hop

theorem advance_sound (h : Sound w) (hs : advance projection digest w operation move = some w') :
    Sound w' := by
  unfold advance at hs
  cases hactivity : w.activities operation with
  | idle =>
    rw [hactivity] at hs
    cases hs
  | upload record quota stage =>
    rw [hactivity] at hs
    exact UploadStep.sound h (h.lt_started (by rw [hactivity]; simp)) hactivity
      (advanceUpload_step hs)
  | delete userId media forced stage =>
    rw [hactivity] at hs
    exact DeleteStep.sound h (h.lt_started (by rw [hactivity]; simp)) hactivity
      (advanceDelete_step hs)
  | post write localMedia pending =>
    rw [hactivity] at hs
    exact PostStep.sound h (h.lt_started (by rw [hactivity]; simp)) (advancePost_step hs)
  | finished =>
    rw [hactivity] at hs
    cases hs

theorem start_sound {a : Activity} (h : Sound w) (ha : contentLock a = none) :
    Sound (w.start a) := by
  have turn : Turn w.started w (w.start a) :=
    { started := Nat.le_succ _
      others := fun o hne ↦ Function.update_of_ne hne _ _
      locks := fun _ _ _ hheld ↦ hheld
      writer := fun _ _ hwriter ↦ hwriter
      files := fun _ ↦ .inl rfl
      rows := fun r hr ↦ .inl ⟨r, hr, rfl⟩
      tables := .inl rfl }
  exact h.turn (Nat.lt_succ_self _) turn (own_of_unlocked (Function.update_self _ _ _) ha) h.intact

/-- No operation is in its transaction while the theme tables change. -/
theorem bindThemes_sound {themeMedia : List ThemeMedia} (h : Sound w) (hwriter : w.writer = none) :
    Sound { w with tables := { w.tables with themeMedia := themeMedia } } := by
  have turn : ∀ o, Turn o w { w with tables := { w.tables with themeMedia := themeMedia } } :=
    fun o ↦
      { started := le_rfl
        others := fun _ _ ↦ rfl
        locks := fun _ _ _ hheld ↦ hheld
        writer := fun _ _ hwriter ↦ hwriter
        files := fun _ ↦ .inl rfl
        rows := fun r hr ↦ .inl ⟨r, hr, rfl⟩
        tables := .inr hwriter }
  exact ⟨h.intact, h.fresh, fun o ↦ (h.own o).kept (Nat.succ_ne_self o).symm (turn (o + 1))⟩

theorem next_sound (h : Sound w) (hs : next projection digest w event = some w') : Sound w' := by
  cases event with
  | startUpload userId metadata createdAt quota =>
    cases hs
    exact start_sound h rfl
  | startDelete userId media forced =>
    cases hs
    exact start_sound h rfl
  | startPost write localMedia =>
    cases hs
    exact start_sound h rfl
  | bindThemes themeMedia =>
    unfold next at hs
    dsimp only at hs
    split_ifs at hs with hfree
    obtain rfl := Option.some.inj hs
    exact bindThemes_sound h (by simpa using hfree.1)
  | advance operation move => exact advance_sound h hs

theorem step_sound (h : Sound w) : Sound (step projection digest w event) := by
  unfold step
  cases hs : next projection digest w event with
  | none => exact h
  | some w' => exact next_sound h hs

theorem run_sound {events : List Event} (h : Sound w) :
    Sound (run (step projection digest) w events) :=
  run_preserves (P := Sound) (fun _ _ h _ ↦ step_sound h) h (along_true w events)

end Runs

section Removals

variable {projection : Option String → String → String} {digest : PostContentEtag → String}
  {move : Move} {event : Event} {f : StoredFile}

theorem handleDeduplication_subset {files : List StoredFile} {media : MediaRef} :
    files ⊆ (handleDeduplication files operation media).2 := by
  unfold handleDeduplication
  split_ifs
  · exact List.Subset.refl _
  · exact List.subset_cons_self _ _
  · exact List.subset_cons_self _ _

theorem acquire_files {sha256 : ContentHash} {a : Activity}
    (hs : w.acquire operation sha256 a = some w') : w.files ⊆ w'.files := by
  obtain ⟨-, -, hfiles, -, -⟩ := acquire_spec hs
  rw [hfiles]
  exact List.Subset.refl _

theorem checkQuota_files {record : MediaRecord} {quota : UserQuota} :
    (checkQuota w operation record quota).files = w.files := by
  unfold checkQuota
  cases getUserUploadUsage w.tables record.userId with
  | none => rfl
  | some currentUsage =>
    dsimp only
    split_ifs <;> rfl

/-- An upload takes no file away, but for the target that it created and could not record. -/
theorem UploadStep.files {record : MediaRecord} {quota : UserQuota} {stage : UploadStage}
    (hs : UploadStep w operation record quota stage move w') :
    w.files ⊆ w'.files ∨ ∃ disposition, stage = .rejected disposition ∧ move = .remove true ∧
      disposition.wasCreatedByUpload = true ∧ w'.files = removeMediaFile w.files record.media ∧
      w'.tables = w.tables := by
  cases hs with
  | checkQuota =>
    rw [checkQuota_files]
    exact .inl (List.Subset.refl _)
  | acquire hs => exact .inl (acquire_files hs)
  | place => exact .inl handleDeduplication_subset
  | @register currentUsage disposition commit hwriter =>
    unfold registerUpload
    split_ifs <;> exact .inl (List.Subset.refl _)
  | @cleanUp disposition succeeds =>
    by_cases hremoves : disposition.wasCreatedByUpload = true ∧ succeeds = true
    · refine .inr ⟨disposition, rfl, by rw [hremoves.2], hremoves.1, ?_, rfl⟩
      rw [cleanUpTarget, if_pos hremoves]
    · rw [cleanUpTarget, if_neg hremoves]
      exact .inl (List.Subset.refl _)
  | _ => exact .inl (List.Subset.refl _)

/-- A deletion takes no file away, but for the unlink under its lease. -/
theorem DeleteStep.files {userId : ℤ} {media : MediaRef} {forced : Bool} {stage : DeleteStage}
    (hs : DeleteStep w operation userId media forced stage move w') :
    w.files ⊆ w'.files ∨ ∃ evidence, stage = .reclaiming evidence ∧ move = .unlink true ∧
      w'.files = removeMediaFile w.files media ∧ w'.tables = w.tables := by
  cases hs with
  | acquire hs => exact .inl (acquire_files hs)
  | deleteRow hwriter =>
    unfold deleteRow
    dsimp only
    split_ifs <;> exact .inl (List.Subset.refl _)
  | beginReclaim hwriter =>
    unfold beginReclaim
    split_ifs <;> exact .inl (List.Subset.refl _)
  | @unlink evidence succeeds =>
    cases succeeds with
    | true => exact .inr ⟨evidence, rfl, rfl, rfl, rfl⟩
    | false => exact .inl (List.Subset.refl _)
  | _ => exact .inl (List.Subset.refl _)

theorem PostStep.files {write : Operation} {localMedia : List MediaRef} {pending : List ContentHash}
    (hs : PostStep w operation projection digest write localMedia pending move w') :
    w.files ⊆ w'.files := by
  cases hs with
  | acquire hs => exact acquire_files hs
  | _ => exact List.Subset.refl _

/-- The two ways in which a file goes: a deletion unlinks it with no row, no reference that its
evidence leaves live and no theme binding, or an upload that could not record it takes back its own
file. -/
inductive Unlinks (w : World) : Event → StoredFile → Prop
  | reclaimed {operation : ℕ} {userId : ℤ} {forced : Bool} {evidence : MediaReferenceEvidence}
      {f : StoredFile}
      (hactivity : w.activities operation = .delete userId f.media forced (.reclaiming evidence))
      (hreferences : ∀ r ∈ referencesTo w.tables f.media, r.toPersistedMediaReference ∈ evidence)
      (hthemes : ∀ b ∈ w.tables.themeMedia, b.media ≠ f.media) :
      Unlinks w (.advance operation (.unlink true)) f
  | cleanedUp {operation : ℕ} {record : MediaRecord} {quota : UserQuota}
      {disposition : TargetDisposition} {f : StoredFile}
      (hactivity : w.activities operation = .upload record quota (.rejected disposition))
      (hmedia : record.media = f.media) (horigin : f.origin = .upload operation) :
      Unlinks w (.advance operation (.remove true)) f

theorem media_of_removed {files : List StoredFile} {media : MediaRef} (hf : f ∈ files)
    (hgone : f ∉ removeMediaFile files media) : f.media = media := by
  by_contra hmedia
  exact hgone (mem_removeMediaFile.mpr ⟨hf, hmedia⟩)

theorem UploadStep.unlinks {record : MediaRecord} {quota : UserQuota} {stage : UploadStage}
    (h : Sound w) (hactivity : w.activities operation = .upload record quota stage)
    (hs : UploadStep w operation record quota stage move w') (hf : f ∈ w.files)
    (hgone : f ∉ w'.files) :
    (∀ r ∈ w'.tables.media, r.media ≠ f.media) ∧ Unlinks w (.advance operation move) f := by
  rcases UploadStep.files hs with hsubset | ⟨disposition, rfl, rfl, hcreated, hfiles, htables⟩
  · exact absurd (hsubset hf) hgone
  · rw [hfiles] at hgone
    have hmedia := media_of_removed hf hgone
    obtain ⟨hrows, horigin⟩ := (h.own operation).created record.media
      (by rw [hactivity, createdMedia_rejected, if_pos hcreated])
    rw [htables, hmedia]
    exact ⟨hrows, .cleanedUp hactivity hmedia.symm (horigin f (mem_filesAt.mpr ⟨hf, hmedia⟩))⟩

theorem DeleteStep.unlinks {userId : ℤ} {media : MediaRef} {forced : Bool} {stage : DeleteStage}
    (h : Sound w) (hactivity : w.activities operation = .delete userId media forced stage)
    (hs : DeleteStep w operation userId media forced stage move w') (hf : f ∈ w.files)
    (hgone : f ∉ w'.files) :
    (∀ r ∈ w'.tables.media, r.media ≠ f.media) ∧ Unlinks w (.advance operation move) f := by
  rcases DeleteStep.files hs with hsubset | ⟨evidence, rfl, rfl, hfiles, htables⟩
  · exact absurd (hsubset hf) hgone
  · rw [hfiles] at hgone
    obtain rfl := media_of_removed hf hgone
    obtain ⟨hrows, hlive, hthemes⟩ := mediaEntryIsReclaimable_iff.mp
      ((h.own operation).reclaiming f.media evidence (by rw [hactivity]; rfl)).2
    rw [htables]
    refine ⟨hrows, .reclaimed hactivity (fun r hr ↦ ?_) (fun b hb hmedia ↦ ?_)⟩
    · by_contra hmissing
      have hmem : r ∈ liveReferences w.tables evidence f.media :=
        List.mem_filter.mpr ⟨hr, decide_eq_true hmissing⟩
      rw [hlive] at hmem
      cases hmem
    · have hmem : b ∈ themeBindings w.tables f.media :=
        List.mem_filter.mpr ⟨hb, decide_eq_true hmedia⟩
      rw [hthemes] at hmem
      cases hmem

theorem advance_unlinks (h : Sound w) (hs : advance projection digest w operation move = some w')
    (hf : f ∈ w.files) (hgone : f ∉ w'.files) :
    (∀ r ∈ w'.tables.media, r.media ≠ f.media) ∧ Unlinks w (.advance operation move) f := by
  unfold advance at hs
  cases hactivity : w.activities operation with
  | idle =>
    rw [hactivity] at hs
    cases hs
  | upload record quota stage =>
    rw [hactivity] at hs
    exact UploadStep.unlinks h hactivity (advanceUpload_step hs) hf hgone
  | delete userId media forced stage =>
    rw [hactivity] at hs
    exact DeleteStep.unlinks h hactivity (advanceDelete_step hs) hf hgone
  | post write localMedia pending =>
    rw [hactivity] at hs
    exact absurd (PostStep.files (advancePost_step hs) hf) hgone
  | finished =>
    rw [hactivity] at hs
    cases hs

theorem step_unlinks (h : Sound w) (hf : f ∈ w.files)
    (hgone : f ∉ (step projection digest w event).files) :
    (∀ r ∈ (step projection digest w event).tables.media, r.media ≠ f.media) ∧
      Unlinks w event f := by
  unfold step at hgone ⊢
  cases hs : next projection digest w event with
  | none =>
    rw [hs] at hgone
    exact absurd hf hgone
  | some w' =>
    rw [hs] at hgone
    cases event with
    | startUpload userId metadata createdAt quota =>
      cases hs
      exact absurd hf hgone
    | startDelete userId media forced =>
      cases hs
      exact absurd hf hgone
    | startPost write localMedia =>
      cases hs
      exact absurd hf hgone
    | bindThemes themeMedia =>
      unfold next at hs
      dsimp only at hs
      split_ifs at hs
      obtain rfl := Option.some.inj hs
      exact absurd hf hgone
    | advance operation move => exact advance_unlinks h hs hf hgone

/-- No operation in flight, and every row has its file. -/
structure AtRest (w : World) : Prop where
  intact : ∀ r ∈ w.tables.media, filesAt w.files r.media ≠ []
  idle : ∀ operation, w.activities operation = .idle

theorem AtRest.sound (h : AtRest w) : Sound w :=
  ⟨h.intact, fun operation _ ↦ h.idle operation,
    fun operation ↦ own_of_unlocked (h.idle operation) rfl⟩

/-- From a world at rest, under every interleaving, every row has its file, and a file goes only
with no row that names it: unlinked by a deletion without a live reference or a theme binding, or
taken back by the upload that created it. -/
theorem media_files_safe (h : AtRest w) (events : List Event) :
    (∀ r ∈ (run (step projection digest) w events).tables.media,
      ∃ f ∈ (run (step projection digest) w events).files, f.media = r.media) ∧
    ∀ event f, f ∈ (run (step projection digest) w events).files →
      f ∉ (step projection digest (run (step projection digest) w events) event).files →
      (∀ r ∈ (step projection digest (run (step projection digest) w events) event).tables.media,
        r.media ≠ f.media) ∧
      Unlinks (run (step projection digest) w events) event f := by
  have hsound : Sound (run (step projection digest) w events) := run_sound h.sound
  refine ⟨fun r hr ↦ ?_, fun event f hf hgone ↦ step_unlinks hsound hf hgone⟩
  obtain ⟨f, hf⟩ := List.exists_mem_of_ne_nil _ (hsound.intact r hr)
  exact ⟨f, (mem_filesAt.mp hf).1, (mem_filesAt.mp hf).2⟩

/-- User 1 uploads the photo, deletes it and is about to unlink its file. -/
def photoReclaimed : List Event :=
  [.startUpload 1 photoMetadata photoTaken tenBytes, .advance 0 .checkQuota, .advance 0 .acquire,
    .advance 0 .place, .advance 0 (.register .confirmed), .startDelete 1 photo false,
    .advance 1 (.resolve []), .advance 1 .acquire, .advance 1 (.tryDelete .confirmed),
    .advance 1 .beginReclaim]

theorem emptyWorld_atRest : AtRest emptyWorld :=
  ⟨fun _ hr ↦ absurd hr List.not_mem_nil, fun _ ↦ rfl⟩

theorem photo_unlinked :
    ⟨photo, .upload 0⟩ ∈ (run (step plainProjection plainDigest) emptyWorld photoReclaimed).files ∧
      Unlinks (run (step plainProjection plainDigest) emptyWorld photoReclaimed)
        (.advance 1 (.unlink true)) ⟨photo, .upload 0⟩ := by
  have hf : ⟨photo, .upload 0⟩ ∈
      (run (step plainProjection plainDigest) emptyWorld photoReclaimed).files := by
    decide +kernel
  exact ⟨hf, ((media_files_safe emptyWorld_atRest photoReclaimed).2 _ _ hf (by decide +kernel)).2⟩

end Removals

end Jaunder.Storage.MediaSafety
