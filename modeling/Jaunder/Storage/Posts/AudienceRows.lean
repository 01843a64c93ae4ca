import Jaunder.Storage.Posts.Runs

namespace Jaunder.Storage.Posts.AudienceRows

open Foundation.Outcome Foundation.Run Foundation.UniqueIndex
open Jaunder.Common.Org Jaunder.Common.Tag Jaunder.Common.Time Jaunder.Common.Visibility
open Jaunder.Host.ContentEtag Jaunder.Host.Render
open Jaunder.Storage.Posts.Bulk Jaunder.Storage.Posts.Lifecycle Jaunder.Storage.Posts.Runs
open Jaunder.Storage.Posts.Tables Jaunder.Storage.Posts.Update

/-- At most one row for each built-in kind and for each named audience. -/
structure AudienceSet (rows : List AudienceRow) : Prop where
  builtin : ∀ kind, kind ≠ .named → rows.countP (fun row ↦ row.kind = kind) ≤ 1
  named : ∀ id, rows.countP (fun row ↦ row.kind = .named ∧ row.audienceId = some id) ≤ 1

def NamesBuiltinsOnce (audiences : List AudienceTarget) : Prop :=
  audiences.count .public_ ≤ 1 ∧ audiences.count .subscribers ≤ 1

/-- The lists that are stored as they come; a bulk operation removes the repetitions. -/
def AcceptedOnce : Operation → Prop
  | .create input _ => NamesBuiltinsOnce input.audiences
  | .update _ _ input => NamesBuiltinsOnce input.audiences
  | _ => True

section Rows

variable {rows : List AudienceRow} {audiences : List AudienceTarget} {d : Dialect}
  {s : PostTables}

theorem audienceSet_of_nodup (hcheck : ∀ row ∈ rows, revisionAudienceCheck row = true)
    (hrows : rows.Nodup) : AudienceSet rows := by
  constructor
  · intro kind hkind
    have hcount : rows.countP (fun row ↦ row.kind = kind) = rows.count ⟨kind, none⟩ := by
      refine List.countP_congr (fun row hrow ↦ ?_)
      obtain ⟨k, i⟩ := row
      have hrow := hcheck _ hrow
      have hkind := hkind.symm
      cases i <;> simp_all [revisionAudienceCheck]
    rw [hcount]
    exact List.nodup_iff_count_le_one.mp hrows _
  · intro id
    have hcount : rows.countP (fun row ↦ row.kind = .named ∧ row.audienceId = some id) =
        rows.count ⟨.named, some id⟩ := by
      refine List.countP_congr (fun row _ ↦ ?_)
      obtain ⟨k, i⟩ := row
      simp
    rw [hcount]
    exact List.nodup_iff_count_le_one.mp hrows _

theorem count_builtin {target : AudienceTarget} {kind : TargetKind}
    (htarget : ∀ t, audienceTargetRow t = some ⟨kind, none⟩ ↔ t = target) :
    (audiences.filterMap audienceTargetRow).count ⟨kind, none⟩ = audiences.count target := by
  rw [List.count, List.count, List.countP_filterMap]
  refine List.countP_congr (fun t _ ↦ ?_)
  rw [beq_iff_eq, ← htarget t]
  cases audienceTargetRow t <;> simp

theorem replacePostAudiences_nodup (h : replacePostAudiences d s audiences = .ok rows)
    (honce : d = .postgres ∨ NamesBuiltinsOnce audiences) : rows.Nodup := by
  obtain ⟨rfl, hunique⟩ := replacePostAudiences_ok h
  rw [List.nodup_iff_count_le_one]
  rintro ⟨kind, id⟩
  cases id with
  | some id =>
    refine hunique.count_le_one ?_
    cases d <;> simp [Dialect.audienceClash]
  | none =>
    rcases honce with rfl | honce
    · refine hunique.count_le_one ?_
      simp [Dialect.audienceClash]
    · cases kind with
      | public_ =>
        have hcount : (audiences.filterMap audienceTargetRow).count ⟨.public_, none⟩ =
            audiences.count .public_ :=
          count_builtin (fun t ↦ by cases t <;> simp [audienceTargetRow])
        rw [hcount]
        exact honce.1
      | subscribers =>
        have hcount : (audiences.filterMap audienceTargetRow).count ⟨.subscribers, none⟩ =
            audiences.count .subscribers :=
          count_builtin (fun t ↦ by cases t <;> simp [audienceTargetRow])
        rw [hcount]
        exact honce.2
      | named =>
        have hnot : (⟨.named, none⟩ : AudienceRow) ∉ audiences.filterMap audienceTargetRow := by
          intro hmem
          cases check_targetRows hmem
        rw [List.count_eq_zero_of_not_mem hnot]
        exact Nat.zero_le 1

end Rows

def constraintOf : DbError → Option Constraint
  | .uniqueViolation constraint => some constraint
  | .checkViolation constraint => some constraint
  | .foreignKeyViolation constraint => some constraint
  | _ => none

/-- Not refused because of the audience rows that are stored. -/
def NotBlocked (error : DbError) : Prop := constraintOf error ≠ some .postRevisionAudiences

/-- Databases in which every copy goes through. -/
structure Copyable (projection : Option String → String → String) (s : PostTables) : Prop where
  stored : AllStored projection s
  nodup : ∀ postId p, s.posts.lookup postId = some p → p.audiences.Nodup

section Errors

variable {d : Dialect} {projection : Option String → String → String}
  {digest : PostContentEtag → String} {s s' : PostTables} {postId userId : ℤ} {now : UtcInstant}

theorem Copyable.congr (h : Copyable projection s) (hsame : SameContent s s') :
    Copyable projection s' := by
  refine ⟨fun postId p hp ↦ ?_, fun postId p hp ↦ ?_⟩
  · rw [hsame.posts] at hp
    exact h.stored postId p hp
  · rw [hsame.posts] at hp
    exact h.nodup postId p hp

theorem fetchPost_errors : ErrorsIn NotBlocked (fetchPost s postId) := by
  refine (errorsIn_orError (by simp [NotBlocked, constraintOf])).bind (fun p _ ↦ ?_)
  refine (errorsIn_orError (by simp [NotBlocked, constraintOf])).bind (fun u _ ↦ ?_)
  refine (errorsIn_require (by simp [NotBlocked, constraintOf])).bind (fun _ _ ↦ ?_)
  exact errorsIn_pure _

theorem capture_errors (h : Copyable projection s) :
    ErrorsIn NotBlocked (captureCompletePostRevision s postId now) := by
  cases hp : s.posts.lookup postId with
  | none =>
    have hnone : captureCompletePostRevision s postId now = .error .rowNotFound := by
      unfold captureCompletePostRevision
      rw [hp, orError_none, error_bind]
    rw [hnone]
    exact errorsIn_error (by simp [NotBlocked, constraintOf])
  | some p =>
    obtain ⟨s', hs'⟩ : ∃ s', captureCompletePostRevision s postId now = .ok s' :=
      capture_of_stored hp (h.stored _ _ hp) (h.nodup _ _ hp)
    rw [hs']
    exact errorsIn_ok s'

theorem replacePostAudiences_errors {audiences : List AudienceTarget} :
    ErrorsIn NotBlocked (replacePostAudiences d s audiences) := by
  refine (errorsIn_orError (by simp [NotBlocked, constraintOf])).bind (fun rows _ ↦ ?_)
  refine (errorsIn_require (by simp [NotBlocked, constraintOf])).bind (fun _ _ ↦ ?_)
  exact errorsIn_pure _

/-- The part of a refusal that comes from the database. -/
def RefusalNotBlocked (refusal : Refusal) : Prop := ∀ error ∈ refusal.dbError, NotBlocked error

theorem writePostInTx_errors {input : CreatePostInput} :
    ErrorsIn (fun e ↦ RefusalNotBlocked (.create e)) (writePostInTx d projection s input now) := by
  have hmapping : ∀ mapping : Option IdempotencyMapping,
      ErrorsIn (fun e ↦ RefusalNotBlocked (.create e)) (mapping.elim (.ok ())
        (fun m ↦ .error (.idempotencyConflict m.postId)) : Except _ Unit) := by
    rintro (_ | m)
    · exact errorsIn_ok ()
    · exact errorsIn_error (by simp [RefusalNotBlocked, Refusal.dbError])
  refine (hmapping _).bind (fun _ _ ↦ ?_)
  refine (errorsIn_require (by
    simp [RefusalNotBlocked, Refusal.dbError, NotBlocked, constraintOf])).bind (fun _ _ ↦ ?_)
  refine (errorsIn_require (by
    simp [RefusalNotBlocked, Refusal.dbError, NotBlocked, constraintOf])).bind (fun _ _ ↦ ?_)
  refine (errorsIn_require (by simp [RefusalNotBlocked, Refusal.dbError])).bind (fun _ _ ↦ ?_)
  refine (errorsIn_require (by simp [RefusalNotBlocked, Refusal.dbError])).bind (fun _ _ ↦ ?_)
  refine ErrorsIn.bind ?_ (fun _ _ ↦ errorsIn_pure _)
  refine ErrorsIn.mapError (fun e he ↦ ?_)
  simpa [RefusalNotBlocked, Refusal.dbError] using replacePostAudiences_errors e he

theorem internal_notBlocked {e : DbError} (h : NotBlocked e) :
    RefusalNotBlocked (.update (.internal e)) := by
  simpa [RefusalNotBlocked, Refusal.dbError] using h

theorem updateExpectationError_errors {p : PostColumns} {tags : List TagLabel}
    {audiences : List AudienceTarget} {input : UpdatePostInput} :
    ErrorsIn (fun e ↦ RefusalNotBlocked (.update e))
      ((updateExpectationError digest postId p tags audiences input).elim (.ok ()) .error :
        Except _ Unit) := by
  cases he : updateExpectationError digest postId p tags audiences input with
  | none => exact errorsIn_ok ()
  | some e =>
    refine errorsIn_error ?_
    rcases updateExpectationError_cases he with rfl | rfl <;>
      simp [RefusalNotBlocked, Refusal.dbError]

theorem applyPostUpdate_errors {p : Post} {input : UpdatePostInput} {diff : PostTagDiff}
    (h : Copyable projection s) : ErrorsIn (fun e ↦ RefusalNotBlocked (.update e))
      (applyPostUpdate d projection s postId p input diff) := by
  refine ErrorsIn.bind (ErrorsIn.mapError (fun e he ↦ ?_)) (fun _ _ ↦ ?_)
  · exact internal_notBlocked (capture_errors h e he)
  refine (errorsIn_require (by simp [RefusalNotBlocked, Refusal.dbError])).bind (fun _ _ ↦ ?_)
  refine ErrorsIn.bind (ErrorsIn.mapError (fun e he ↦ ?_)) (fun _ _ ↦ errorsIn_pure _)
  exact internal_notBlocked (replacePostAudiences_errors e he)

theorem updatePost_errors {input : UpdatePostInput} (h : Copyable projection s) :
    ErrorsIn (fun e ↦ RefusalNotBlocked (.update e))
      (updatePost d projection digest s postId userId input) := by
  have hfetch : ∀ s : PostTables, ErrorsIn (fun e ↦ RefusalNotBlocked (.update e))
      ((fetchPost s postId).mapError .internal) :=
    fun s ↦ ErrorsIn.mapError (fun e he ↦ internal_notBlocked (fetchPost_errors e he))
  refine (errorsIn_orError (by simp [RefusalNotBlocked, Refusal.dbError])).bind (fun p _ ↦ ?_)
  refine (errorsIn_require (by simp [RefusalNotBlocked, Refusal.dbError])).bind (fun _ _ ↦ ?_)
  refine ErrorsIn.bind (ErrorsIn.mapError (errorsIn_require ?_)) (fun _ _ ↦ ?_)
  · exact internal_notBlocked (by simp [NotBlocked, constraintOf])
  refine updateExpectationError_errors.bind (fun _ _ ↦ ?_)
  refine (hfetch s).bind (fun previous _ ↦ ?_)
  dsimp only
  split_ifs
  · exact errorsIn_pure _
  · refine (applyPostUpdate_errors h).bind (fun s' _ ↦ ?_)
    exact (hfetch s').bind (fun _ _ ↦ errorsIn_pure _)

theorem lifecyclePost_errors {change : PostLifecycleChange} (h : Copyable projection s) :
    ErrorsIn NotBlocked (lifecyclePost s postId userId change now) := by
  unfold lifecyclePost
  cases s.posts.lookup postId with
  | none => exact errorsIn_ok _
  | some p =>
    dsimp only
    split_ifs
    · exact errorsIn_ok _
    · refine fetchPost_errors.bind (fun previous _ ↦ ?_)
      refine (capture_errors h).bind (fun captured _ ↦ ?_)
      exact fetchPost_errors.bind (fun _ _ ↦ errorsIn_pure _)
    · exact fetchPost_errors.bind (fun _ _ ↦ errorsIn_pure _)

theorem changeLifecycle_errors {change : PostLifecycleChange} (h : Copyable projection s) :
    ErrorsIn (fun e ↦ RefusalNotBlocked (.update e)) (changeLifecycle s postId userId change now) := by
  refine ErrorsIn.bind (ErrorsIn.mapError (fun e he ↦ ?_)) (fun mutation _ ↦ ?_)
  · exact internal_notBlocked (lifecyclePost_errors h e he)
  cases mutation with
  | some mutation => exact errorsIn_pure _
  | none =>
    refine errorsIn_error ?_
    split_ifs <;> simp [RefusalNotBlocked, Refusal.dbError]

theorem setPostTags_errors {desired : List TagLabel} (h : Copyable projection s) :
    ErrorsIn (fun e ↦ RefusalNotBlocked (.tagging e)) (setPostTags s postId userId desired now) := by
  refine (errorsIn_orError (by simp [RefusalNotBlocked, Refusal.dbError])).bind (fun p _ ↦ ?_)
  refine (errorsIn_require (by simp [RefusalNotBlocked, Refusal.dbError])).bind (fun _ _ ↦ ?_)
  dsimp only
  split_ifs
  · exact errorsIn_pure s
  · refine ErrorsIn.bind (ErrorsIn.mapError (fun e he ↦ ?_)) (fun _ _ ↦ errorsIn_pure _)
    simpa [RefusalNotBlocked, Refusal.dbError] using capture_errors h e he

theorem captureRevisions_errors {ids : List ℤ} (h : Copyable projection s) :
    ErrorsIn NotBlocked (captureRevisions s ids now) := by
  induction ids generalizing s with
  | nil => exact errorsIn_pure s
  | cons id ids ih =>
    exact (capture_errors h).bind (fun s' hs' ↦ ih (h.congr (capture_ok hs')))

theorem lockSnapshot_errors {snapshot : ManagementSelectionSnapshot} :
    ErrorsIn (fun e ↦ RefusalNotBlocked (.bulk e)) (lockSnapshot s userId snapshot) := by
  have hlock : ∀ target, ErrorsIn (fun e ↦ RefusalNotBlocked (.bulk (.db e)))
      (lockTarget s userId target) := by
    intro target
    unfold lockTarget
    cases s.posts.lookup target.postId with
    | none => exact errorsIn_ok _
    | some p =>
      dsimp only
      split_ifs
      · refine ErrorsIn.bind (fun e he ↦ ?_) (fun _ _ ↦ errorsIn_pure _)
        simpa [RefusalNotBlocked, Refusal.dbError] using fetchPost_errors e he
      · exact errorsIn_ok _
  refine ErrorsIn.bind (ErrorsIn.mapError ?_) (fun found _ ↦ ?_)
  · exact errorsIn_mapM (fun target _ ↦ hlock target)
  refine (errorsIn_require (by simp [RefusalNotBlocked, Refusal.dbError])).bind (fun _ _ ↦ ?_)
  exact errorsIn_pure _

theorem changeAudiences_errors {ids : List ℤ} {audiences : List AudienceTarget} :
    ErrorsIn NotBlocked (changeAudiences d s ids audiences now) := by
  refine (errorsIn_orError (by simp [NotBlocked, constraintOf])).bind (fun rows _ ↦ ?_)
  refine (errorsIn_require (by simp [NotBlocked, constraintOf])).bind (fun _ _ ↦ ?_)
  exact errorsIn_pure _

theorem applyBulkPostOperation_errors {snapshot : ManagementSelectionSnapshot}
    {operation : BulkPostOperation} (h : Copyable projection s) :
    ErrorsIn (fun e ↦ RefusalNotBlocked (.bulk e))
      (applyBulkPostOperation d s userId snapshot operation now) := by
  refine lockSnapshot_errors.bind (fun locked _ ↦ ?_)
  dsimp only
  split_ifs
  · exact errorsIn_pure _
  refine ErrorsIn.bind (ErrorsIn.mapError (fun e he ↦ ?_)) (fun captured _ ↦ ?_)
  · simpa [RefusalNotBlocked, Refusal.dbError] using captureRevisions_errors h e he
  cases operation with
  | delete => exact errorsIn_pure _
  | changeAudience audiences =>
    refine ErrorsIn.bind (ErrorsIn.mapError (fun e he ↦ ?_)) (fun _ _ ↦ errorsIn_pure _)
    simpa [RefusalNotBlocked, Refusal.dbError] using changeAudiences_errors e he

/-- Where every copy goes through, the stored audience rows block no operation. -/
theorem outcome_errors {operation : Operation} (h : Copyable projection s) :
    ErrorsIn RefusalNotBlocked (outcome d projection digest s operation) := by
  cases operation with
  | reserve => exact errorsIn_ok _
  | create input now => exact writePostInTx_errors.mapError.map
  | update postId editorUserId input => exact (updatePost_errors h).mapError.map
  | lifecycle change postId userId now => exact (changeLifecycle_errors h).mapError.map
  | setTags postId userId desired now => exact (setPostTags_errors h).mapError
  | bulk userId snapshot operation now => exact (applyBulkPostOperation_errors h).mapError.map

end Errors

section Runs

variable {d : Dialect} {projection : Option String → String → String}
  {digest : PostContentEtag → String} {s : PostTables} {operation : Operation}

theorem written_nodup {postId : ℤ} {p : Post} (h : Written d projection s operation postId p)
    (honce : d = .postgres ∨ AcceptedOnce operation) (hs : Copyable projection s) :
    p.audiences.Nodup := by
  cases h with
  | @created input now rows hrows _ => exact replacePostAudiences_nodup hrows honce
  | @updated postId editor input p rows diff hp hrows _ =>
    exact replacePostAudiences_nodup hrows honce
  | @moved change postId userId now p hp =>
    have hrows := hs.nodup _ _ hp
    cases change <;> exact hrows
  | @retagged postId userId desired now p diff hp => exact hs.nodup _ p hp
  | @bulk userId snapshot operation now postId p hp =>
    cases operation with
    | changeAudience audiences => exact List.nodup_dedup _
    | delete => exact hs.nodup _ p hp

theorem Copyable.step (h : Copyable projection s) (honce : d = .postgres ∨ AcceptedOnce operation) :
    Copyable projection (step d projection digest s operation) := by
  refine ⟨h.stored.step, fun postId p hp ↦ ?_⟩
  rcases lookup_step hp with hold | hwritten
  · exact h.nodup postId p hold
  · exact written_nodup hwritten honce h

theorem copyable_of_empty (hs : s.posts = ∅) : Copyable projection s := by
  have hnone : ∀ postId p, s.posts.lookup postId ≠ some p := by
    intro postId p hp
    rw [hs, AList.lookup_empty] at hp
    cases hp
  exact ⟨fun postId p hp ↦ absurd hp (hnone postId p), fun postId p hp ↦ absurd hp (hnone postId p)⟩

/-- Audience rows are a set and block no post, in every run from an empty table in which the
lists that are stored name Public and Subscribers at most once. -/
theorem audience_rows_never_block {operations : List Operation} (hs : s.posts = ∅)
    (honce : Along (step d projection digest)
      (fun _ operation ↦ d = .postgres ∨ AcceptedOnce operation) s operations) :
    (∀ postId p, (run (step d projection digest) s operations).posts.lookup postId = some p →
      AudienceSet p.audiences ∧ ∀ now, ∃ s',
        captureCompletePostRevision (run (step d projection digest) s operations) postId now = .ok s') ∧
    ∀ operation refusal,
      outcome d projection digest (run (step d projection digest) s operations) operation =
        .error refusal → RefusalNotBlocked refusal := by
  have hcopyable : Copyable projection (run (step d projection digest) s operations) :=
    run_preserves (fun s operation h hC ↦ h.step hC) (copyable_of_empty hs) honce
  refine ⟨fun postId p hp ↦ ⟨?_, fun now ↦ ?_⟩, fun operation refusal h ↦ ?_⟩
  · exact audienceSet_of_nodup (hcopyable.stored _ _ hp).audiences (hcopyable.nodup _ _ hp)
  · exact capture_of_stored hp (hcopyable.stored _ _ hp) (hcopyable.nodup _ _ hp)
  · exact outcome_errors hcopyable refusal h

def noticeProjection (title : Option String) (slug : String) : String :=
  (title.elim slug (fun title ↦ title ++ " " ++ slug)).toLower

def noticeDigest (content : PostContentEtag) : String := content.slug

def noticeTables : PostTables where
  users := [⟨1, "alice", none⟩]
  audiences := [⟨7, 1⟩]
  posts := ∅
  lastPostId := 0
  revisions := []
  lastRevisionId := 0
  idempotencyKeys := []

def noticeClock : UtcInstant := .epoch

def untitledOrg (body html : String) : PostRenderOutput :=
  ⟨none, none, body, .org, html, [], rfl⟩

def notice : PostRenderOutput := untitledOrg "Closed today." "<p>Closed today.</p>"

def createNotice (audiences : List AudienceTarget) : Operation :=
  .create ⟨1, none, "notice", notice, some noticeClock, none, audiences, [], .none, none⟩ noticeClock

def addressNotice (audiences : List AudienceTarget) : Operation :=
  .update 1 1 ⟨"notice", notice, .publish none, none, audiences, none, noticeClock, .none⟩

theorem notices_never_blocked :
    (∀ postId p, (run (step .sqlite noticeProjection noticeDigest) noticeTables
        [createNotice [.public_], addressNotice [.named 7, .public_]]).posts.lookup postId = some p →
      AudienceSet p.audiences ∧ ∀ now, ∃ s', captureCompletePostRevision
        (run (step .sqlite noticeProjection noticeDigest) noticeTables
          [createNotice [.public_], addressNotice [.named 7, .public_]]) postId now = .ok s') ∧
    ∀ operation refusal, outcome .sqlite noticeProjection noticeDigest
        (run (step .sqlite noticeProjection noticeDigest) noticeTables
          [createNotice [.public_], addressNotice [.named 7, .public_]]) operation =
      .error refusal → RefusalNotBlocked refusal :=
  audience_rows_never_block rfl
    ⟨.inr ⟨by decide, by decide⟩, .inr ⟨by decide, by decide⟩, trivial⟩

/-- Two `JAUNDER_AUDIENCE` lines that say `public` store two rows, and the post can not be deleted. -/
theorem repeated_public_blocks_delete :
    effectiveAudiences .absent ["public", "public"] = .ok (.present [.public_, .public_]) ∧
    ((run (step .sqlite noticeProjection noticeDigest) noticeTables
        [createNotice [.public_, .public_]]).posts.lookup 1).map (fun p ↦ p.audiences) =
      some [⟨.public_, none⟩, ⟨.public_, none⟩] ∧
    (captureCompletePostRevision (run (step .sqlite noticeProjection noticeDigest) noticeTables
        [createNotice [.public_, .public_]]) 1 noticeClock).map PostTables.lastRevisionId =
      .error (.uniqueViolation .postRevisionAudiences) ∧
    (outcome .sqlite noticeProjection noticeDigest
        (run (step .sqlite noticeProjection noticeDigest) noticeTables
          [createNotice [.public_, .public_]])
        (.lifecycle .softDelete 1 1 noticeClock)).map PostTables.lastRevisionId =
      .error (.update (.internal (.uniqueViolation .postRevisionAudiences))) ∧
    ¬AudienceSet [⟨.public_, none⟩, ⟨.public_, none⟩] := by
  refine ⟨by decide +kernel, by decide +kernel, by decide +kernel, by decide +kernel, fun h ↦ ?_⟩
  have hcount := h.builtin .public_ (by decide)
  revert hcount
  decide

end Runs

end Jaunder.Storage.Posts.AudienceRows
