import Jaunder.Foundation.Run
import Jaunder.Storage.Posts.Bulk
import Jaunder.Storage.Posts.Update

namespace Jaunder.Storage.Posts.Runs

open Foundation.Outcome Foundation.Run Foundation.UniqueIndex
open Jaunder.Common.Tag Jaunder.Common.Time Jaunder.Common.Visibility
open Jaunder.Host.ContentEtag
open Jaunder.Storage.Posts.Bulk Jaunder.Storage.Posts.Lifecycle Jaunder.Storage.Posts.Tables
open Jaunder.Storage.Posts.Update

inductive Operation
  | reserve
  | create (input : CreatePostInput) (now : UtcInstant)
  | update (postId editorUserId : ℤ) (input : UpdatePostInput)
  | lifecycle (change : PostLifecycleChange) (postId userId : ℤ) (now : UtcInstant)
  | setTags (postId userId : ℤ) (desired : List TagLabel) (now : UtcInstant)
  | bulk (userId : ℤ) (snapshot : ManagementSelectionSnapshot) (operation : BulkPostOperation)
      (now : UtcInstant)

inductive Refusal
  | create (error : CreatePostError)
  | update (error : UpdatePostError)
  | tagging (error : TaggingError)
  | bulk (error : BulkPostMutationError)
deriving DecidableEq

/-- The statement that failed, when the database itself refused. -/
def Refusal.dbError : Refusal → Option DbError
  | .create (.internal error) => some error
  | .update (.internal error) => some error
  | .tagging (.internal error) => some error
  | .bulk (.db error) => some error
  | _ => none

variable (d : Dialect) (projection : Option String → String → String)
  (digest : PostContentEtag → String)

/-- One write scope. -/
def outcome (s : PostTables) : Operation → Except Refusal PostTables
  | .reserve => .ok (reserve d s)
  | .create input now => ((writePostInTx d projection s input now).mapError .create).map Prod.snd
  | .update postId editorUserId input =>
    ((updatePost d projection digest s postId editorUserId input).mapError .update).map Prod.snd
  | .lifecycle change postId userId now =>
    ((changeLifecycle s postId userId change now).mapError .update).map Prod.snd
  | .setTags postId userId desired now =>
    (setPostTags s postId userId desired now).mapError .tagging
  | .bulk userId snapshot operation now =>
    ((applyBulkPostOperation d s userId snapshot operation now).mapError .bulk).map Prod.snd

/-- A refused write is rolled back. -/
def step (s : PostTables) (operation : Operation) : PostTables :=
  match outcome d projection digest s operation with
  | .ok s' => s'
  | .error _ => s

/-- The rows that one operation writes. -/
inductive Written (s : PostTables) : Operation → ℤ → Post → Prop
  | created {input now rows} (hrows : replacePostAudiences d s input.audiences = .ok rows)
      (hslug : slugTaken s input.userId input.slug (input.reservedPostId.getD (reservePostId d s)) =
        false) :
      Written s (.create input now) (input.reservedPostId.getD (reservePostId d s))
        (createdPost projection input now rows)
  | updated {postId editor input p rows} (diff : PostTagDiff) (hp : s.posts.lookup postId = some p)
      (hrows : replacePostAudiences d s input.audiences = .ok rows)
      (hslug : p.publishedAt.isSome ∨ ¬slugTaken s p.userId input.slug postId) :
      Written s (.update postId editor input) postId (updatedPost projection p input diff rows)
  | moved {change postId userId now p} (hp : s.posts.lookup postId = some p) :
      Written s (.lifecycle change postId userId now) postId (change.apply now p)
  | retagged {postId userId desired now p} (diff : PostTagDiff)
      (hp : s.posts.lookup postId = some p) :
      Written s (.setTags postId userId desired now) postId (retaggedPost p diff now)
  | bulk {userId snapshot operation now postId p} (hp : s.posts.lookup postId = some p) :
      Written s (.bulk userId snapshot operation now) postId (operation.apply now p)

variable {d projection digest} {s s' : PostTables} {operation : Operation}

theorem map_snd_eq_ok {ε δ α β : Type} {x : Except ε (α × β)} {f : ε → δ} {b : β}
    (h : (x.mapError f).map Prod.snd = .ok b) : ∃ a, x = .ok (a, b) := by
  cases x with
  | error e => cases h
  | ok ab => exact ⟨ab.1, congrArg (fun b ↦ Except.ok (ab.1, b)) (Except.ok.inj h)⟩

theorem lookup_insert_cases {posts : AList (fun _ : ℤ ↦ Post)} {postId id : ℤ} {p p' : Post}
    (h : (posts.insert postId p).lookup id = some p') :
    posts.lookup id = some p' ∨ id = postId ∧ p' = p := by
  by_cases hid : id = postId
  · subst hid
    rw [AList.lookup_insert] at h
    exact .inr ⟨rfl, (Option.some.inj h).symm⟩
  · rw [AList.lookup_insert_ne hid] at h
    exact .inl h

/-- A committed operation keeps the rows of the other posts, the users and the audiences. -/
theorem outcome_ok (h : outcome d projection digest s operation = .ok s') :
    s'.users = s.users ∧ s'.audiences = s.audiences ∧
      ∀ postId p, s'.posts.lookup postId = some p →
        s.posts.lookup postId = some p ∨ Written d projection s operation postId p := by
  cases operation with
  | reserve =>
    obtain rfl := Except.ok.inj h
    exact ⟨rfl, rfl, fun postId p hp ↦ .inl hp⟩
  | create input now =>
    obtain ⟨identity, hwrite⟩ := map_snd_eq_ok h
    obtain ⟨rows, hrows, rfl, -, -, hslug, hposts, husers, haudiences⟩ := writePostInTx_ok hwrite
    refine ⟨husers, haudiences, fun postId p hp ↦ ?_⟩
    rw [hposts] at hp
    refine (lookup_insert_cases hp).imp id ?_
    rintro ⟨rfl, rfl⟩
    exact .created hrows hslug
  | update postId editorUserId input =>
    obtain ⟨m, hwrite⟩ := map_snd_eq_ok h
    obtain ⟨p, hp, -, -, ⟨-, rfl⟩ | ⟨-, diff, rows, hrows, hslug, hposts, husers, haudiences⟩⟩ :=
      updatePost_ok hwrite
    · exact ⟨rfl, rfl, fun postId p hp ↦ .inl hp⟩
    · refine ⟨husers, haudiences, fun postId' p' hp' ↦ ?_⟩
      rw [hposts] at hp'
      refine (lookup_insert_cases hp').imp id ?_
      rintro ⟨rfl, rfl⟩
      exact .updated diff hp hrows hslug
  | lifecycle change postId userId now =>
    obtain ⟨m, hwrite⟩ := map_snd_eq_ok h
    obtain ⟨p, hp, -, -, ⟨-, -, rfl⟩ | ⟨-, hposts, husers, haudiences⟩⟩ :=
      lifecyclePost_ok (changeLifecycle_ok hwrite)
    · exact ⟨rfl, rfl, fun postId p hp ↦ .inl hp⟩
    · refine ⟨husers, haudiences, fun postId' p' hp' ↦ ?_⟩
      rw [hposts] at hp'
      refine (lookup_insert_cases hp').imp id ?_
      rintro ⟨rfl, rfl⟩
      exact .moved hp
  | setTags postId userId desired now =>
    obtain ⟨p, hp, -, -, rfl | ⟨diff, hposts, husers, haudiences⟩⟩ :=
      setPostTags_ok (mapError_eq_ok.mp h)
    · exact ⟨rfl, rfl, fun postId p hp ↦ .inl hp⟩
    · refine ⟨husers, haudiences, fun postId' p' hp' ↦ ?_⟩
      rw [hposts] at hp'
      refine (lookup_insert_cases hp').imp id ?_
      rintro ⟨rfl, rfl⟩
      exact .retagged diff hp
  | bulk userId snapshot operation now =>
    obtain ⟨evidence, hwrite⟩ := map_snd_eq_ok h
    obtain ⟨locked, -, husers, haudiences, hlookup⟩ := applyBulkPostOperation_ok hwrite
    refine ⟨husers, haudiences, fun postId p' hp' ↦ ?_⟩
    rw [hlookup] at hp'
    split_ifs at hp' with hchanged
    · obtain ⟨p, hp, rfl⟩ := Option.map_eq_some_iff.mp hp'
      exact .inr (.bulk hp)
    · exact .inl hp'

/-- What every reachable database stores. -/
def AllStored (projection : Option String → String → String) (s : PostTables) : Prop :=
  ∀ postId p, s.posts.lookup postId = some p → Stored projection p

/-- Every write path keeps the shape that every write path relies on. -/
theorem Written.stored {postId : ℤ} {p : Post} (h : Written d projection s operation postId p)
    (hs : AllStored projection s) : Stored projection p := by
  cases h with
  | @created input now rows hrows _ =>
    obtain ⟨rfl, -⟩ := replacePostAudiences_ok hrows
    exact ⟨input.rendered.presence, rfl, insertPostTags_nodup List.nodup_nil,
      fun row hrow ↦ check_targetRows hrow, List.nodup_dedup _⟩
  | @updated postId editor input p rows diff hp hrows _ =>
    obtain ⟨rfl, -⟩ := replacePostAudiences_ok hrows
    exact ⟨input.rendered.presence, rfl, applyTagDiff_nodup (hs _ _ hp).tags,
      fun row hrow ↦ check_targetRows hrow, List.nodup_dedup _⟩
  | @moved change postId userId now p hp =>
    have hp' := hs _ _ hp
    cases change <;> exact ⟨hp'.presence, hp'.search, hp'.tags, hp'.audiences, hp'.media⟩
  | @retagged postId userId desired now p diff hp =>
    have hp' := hs _ _ hp
    exact ⟨hp'.presence, hp'.search, applyTagDiff_nodup hp'.tags, hp'.audiences, hp'.media⟩
  | @bulk userId snapshot operation now postId p hp =>
    have hp' := hs _ _ hp
    cases operation with
    | changeAudience audiences =>
      exact ⟨hp'.presence, hp'.search, hp'.tags, fun row hrow ↦ check_canonicalAudiences hrow,
        hp'.media⟩
    | delete => exact ⟨hp'.presence, hp'.search, hp'.tags, hp'.audiences, hp'.media⟩

theorem step_cases (d : Dialect) (projection : Option String → String → String)
    (digest : PostContentEtag → String) (s : PostTables) (operation : Operation) :
    step d projection digest s operation = s ∨
      outcome d projection digest s operation = .ok (step d projection digest s operation) := by
  unfold step
  cases outcome d projection digest s operation with
  | ok s' => exact .inr rfl
  | error e => exact .inl rfl

/-- Every post after a step was there before or is one that the operation wrote. -/
theorem lookup_step {postId : ℤ} {p : Post}
    (hp : (step d projection digest s operation).posts.lookup postId = some p) :
    s.posts.lookup postId = some p ∨ Written d projection s operation postId p := by
  rcases step_cases d projection digest s operation with heq | hok
  · rw [heq] at hp
    exact .inl hp
  · exact (outcome_ok hok).2.2 postId p hp

theorem AllStored.step (h : AllStored projection s) :
    AllStored projection (step d projection digest s operation) := by
  intro postId p hp
  rcases lookup_step hp with hold | hwritten
  · exact h postId p hold
  · exact hwritten.stored h

section Slugs

/-- The index on the slugs of the undeleted posts. -/
def SlugsDistinct (s : PostTables) : Prop :=
  ∀ postId postId' p p', s.posts.lookup postId = some p → s.posts.lookup postId' = some p' →
    p.deletedAt = none → p'.deletedAt = none → p.userId = p'.userId → p.slug = p'.slug →
    postId = postId'

theorem slugTaken_iff {userId postId : ℤ} {slug : String} :
    slugTaken s userId slug postId = true ↔ ∃ postId' p, s.posts.lookup postId' = some p ∧
      postId' ≠ postId ∧ p.userId = userId ∧ p.slug = slug ∧ p.deletedAt = none := by
  unfold slugTaken
  rw [List.any_eq_true]
  constructor
  · rintro ⟨⟨postId', p⟩, hmem, h⟩
    exact ⟨postId', p, AList.mem_lookup_iff.mpr hmem, of_decide_eq_true h⟩
  · rintro ⟨postId', p, hp, h⟩
    exact ⟨⟨postId', p⟩, AList.mem_lookup_iff.mp hp, decide_eq_true h⟩

theorem SlugsDistinct.free {postId : ℤ} {p : Post} (h : SlugsDistinct s)
    (hp : s.posts.lookup postId = some p) (hdeleted : p.deletedAt = none) :
    slugTaken s p.userId p.slug postId = false := by
  rw [Bool.eq_false_iff]
  intro htaken
  obtain ⟨postId', p', hp', hne, huser, hslug, hdeleted'⟩ := slugTaken_iff.mp htaken
  exact hne (h postId' postId p' p hp' hp hdeleted' hdeleted huser hslug)

/-- The only post that an operation can give another slug. -/
def slugTarget (d : Dialect) (s : PostTables) : Operation → Option ℤ
  | .create input _ => some (input.reservedPostId.getD (reservePostId d s))
  | .update postId _ _ => some postId
  | _ => none

/-- The undeleted post that had the slug of a row before. -/
def HadSlug (s : PostTables) (postId : ℤ) (p : Post) : Prop :=
  ∃ old, s.posts.lookup postId = some old ∧ old.deletedAt = none ∧ old.userId = p.userId ∧
    old.slug = p.slug

theorem Written.slug {postId : ℤ} {p : Post} (h : Written d projection s operation postId p)
    (hdeleted : p.deletedAt = none) : HadSlug s postId p ∨
      slugTaken s p.userId p.slug postId = false ∧ slugTarget d s operation = some postId := by
  cases h with
  | @created input now rows hrows hslug => exact .inr ⟨hslug, rfl⟩
  | @updated postId editor input p rows diff hp hrows hslug =>
    cases hpublished : p.publishedAt with
    | none =>
      refine .inr ⟨?_, rfl⟩
      simpa [updatedPost, hpublished] using hslug
    | some at_ => exact .inl ⟨p, hp, hdeleted, rfl, by simp [updatedPost, hpublished]⟩
  | @moved change postId userId now p hp =>
    cases change with
    | publish => exact .inl ⟨p, hp, hdeleted, rfl, rfl⟩
    | softDelete => cases hdeleted
    | unpublish => exact .inl ⟨p, hp, hdeleted, rfl, rfl⟩
  | @retagged postId userId desired now p diff hp => exact .inl ⟨p, hp, hdeleted, rfl, rfl⟩
  | @bulk userId snapshot operation now postId p hp =>
    cases operation with
    | changeAudience audiences => exact .inl ⟨p, hp, hdeleted, rfl, rfl⟩
    | delete => cases hdeleted

theorem SlugsDistinct.step (h : SlugsDistinct s) :
    SlugsDistinct (step d projection digest s operation) := by
  have horigin : ∀ postId p, (Runs.step d projection digest s operation).posts.lookup postId = some p →
      p.deletedAt = none → HadSlug s postId p ∨
        slugTaken s p.userId p.slug postId = false ∧ slugTarget d s operation = some postId := by
    intro postId p hp hdeleted
    rcases lookup_step hp with hold | hwritten
    · exact .inl ⟨p, hold, hdeleted, rfl, rfl⟩
    · exact hwritten.slug hdeleted
  have hmixed : ∀ (postId postId' : ℤ) (p p' : Post), HadSlug s postId p →
      slugTaken s p'.userId p'.slug postId' = false → p.userId = p'.userId → p.slug = p'.slug →
      postId = postId' := by
    rintro postId postId' p p' ⟨old, hold, hlive, huser, hslug⟩ hfree huser' hslug'
    by_contra hne
    refine Bool.eq_false_iff.mp hfree (slugTaken_iff.mpr ⟨postId, old, hold, hne, ?_, ?_, hlive⟩)
    · rw [huser, huser']
    · rw [hslug, hslug']
  intro postId postId' p p' hp hp' hdeleted hdeleted' huser hslug
  rcases horigin postId p hp hdeleted with hhad | ⟨hfree, htarget⟩
  · rcases horigin postId' p' hp' hdeleted' with hhad' | ⟨hfree', htarget'⟩
    · obtain ⟨old, hold, hlive, hu, hs⟩ := hhad
      obtain ⟨old', hold', hlive', hu', hs'⟩ := hhad'
      exact h postId postId' old old' hold hold' hlive hlive' (by rw [hu, hu', huser])
        (by rw [hs, hs', hslug])
    · exact hmixed postId postId' p p' hhad hfree' huser hslug
  · rcases horigin postId' p' hp' hdeleted' with hhad' | ⟨hfree', htarget'⟩
    · exact (hmixed postId' postId p' p hhad' hfree huser.symm hslug.symm).symm
    · exact Option.some.inj (htarget.symm.trans htarget')

end Slugs

/-- What holds of every database that the operations reach from one without posts. -/
structure Reached (projection : Option String → String → String) (s : PostTables) : Prop where
  stored : AllStored projection s
  slugs : SlugsDistinct s

theorem Reached.step (h : Reached projection s) :
    Reached projection (step d projection digest s operation) :=
  ⟨h.stored.step, h.slugs.step⟩

theorem reached_of_empty (hs : s.posts = ∅) : Reached projection s := by
  have hnone : ∀ postId p, s.posts.lookup postId ≠ some p := by
    intro postId p hp
    rw [hs, AList.lookup_empty] at hp
    cases hp
  exact ⟨fun postId p hp ↦ absurd hp (hnone postId p),
    fun postId _ p _ hp ↦ absurd hp (hnone postId p)⟩

theorem reached_run {operations : List Operation} (hs : s.posts = ∅) :
    Reached projection (run (step d projection digest) s operations) :=
  run_preserves (fun _ _ h _ ↦ h.step) (reached_of_empty hs) (along_true s operations)

end Jaunder.Storage.Posts.Runs
