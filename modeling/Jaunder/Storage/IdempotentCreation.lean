import Jaunder.Storage.PostService
import Jaunder.Storage.Posts.AudienceRows
import Jaunder.Storage.WriteScope

namespace Jaunder.Storage.IdempotentCreation

open Foundation.Outcome Foundation.Run Foundation.UniqueIndex
open Jaunder.Common.Render Jaunder.Common.Tag Jaunder.Common.Time
open Jaunder.Host.ContentEtag
open Jaunder.Storage.FeedEvents Jaunder.Storage.PostService Jaunder.Storage.Posts.AudienceRows
open Jaunder.Storage.Posts.Bulk Jaunder.Storage.Posts.Lifecycle Jaunder.Storage.Posts.Runs
open Jaunder.Storage.Posts.Tables Jaunder.Storage.Posts.Update Jaunder.Storage.WriteScope

/-- `UNIQUE(user_id, key)` -/
def mappingClash (a b : IdempotencyMapping) : Bool := a.userId = b.userId ∧ a.key = b.key

abbrev Answer := Except PerformCreationError (MutationOutcome PostRecord)

/-- How far a request is: before one of its attempts, with the id that an Org post has reserved for
it, or at its end. -/
inductive Progress
  | attempting (attempt : ℕ) (reservedPostId : Option ℤ)
  | answered (answer : Answer)
  | disconnected
deriving DecidableEq

/-- The rows, the requests, and which posts the requests have created. -/
structure World extends Store where
  progress : ℕ → Progress
  creations : List (ℕ × ℤ)

inductive Event
  | reserve (i : ℕ) (commit : Commit)
  | attempt (i : ℕ) (commit : Commit) (clock : UtcInstant)
  | disconnect (i : ℕ) (applied : Bool) (clock : UtcInstant)
  | write (operation : Posts.Runs.Operation)
  | feed (feedEvents : FeedEventTable)

def Event.request : Event → Option ℕ
  | .reserve i _ | .attempt i _ _ | .disconnect i _ _ => some i
  | .write _ | .feed _ => none

section Steps

variable (r : Renderer) (d : Dialect) (projection : Option String → String → String)
  (digest : PostContentEtag → String) (requests : ℕ → PostCreation × UtcInstant)

/-- The head of the loop. -/
def loop (creation : PostCreation) (attempt : ℕ) : Progress :=
  if attempt < creation.maxAttempts then .attempting attempt none
  else .answered (.error (.exhausted creation.maxAttempts))

def started (creation : PostCreation) : Progress :=
  match naming r creation with
  | .ok _ => loop creation 0
  | .error error => .answered (.error error)

def World.goOn (w : World) (i : ℕ) (p : Progress) : World :=
  { w with progress := Function.update w.progress i p }

/-- A committed create. -/
def World.create (w : World) (i : ℕ) (postId : ℤ) (s : Store) : World :=
  { w with toStore := s, creations := w.creations ++ [(i, postId)] }

/-- A request has its input: an Org post only with a reserved id. -/
def ready (creation : PostCreation) (reservedPostId : Option ℤ) : Bool :=
  creation.format = .org → reservedPostId.isSome

def afterError (creation : PostCreation) (attempt : ℕ) (slug : String) (error : CreatePostError) :
    Progress :=
  match mapCreatePostAttemptError error (creation.expectations.slug = some slug) with
  | .ok () => loop creation (attempt + 1)
  | .error error => .answered (.error error)

/-- One pass of the loop. A failed commit stands for every failure of its own: of the media
resolution, a lock, a statement, or the connection. -/
def attemptCreate (w : World) (i attempt : ℕ) (reservedPostId : Option ℤ) (commit : Commit)
    (clock : UtcInstant) : World :=
  let (creation, now) := requests i
  match renderPostInput r creation reservedPostId attempt with
  | .error error => w.goOn i (.answered (.error error))
  | .ok input =>
    match createRenderedPost d projection w.toStore input now clock with
    | .error error =>
      w.goOn i (if commit = .failed then .answered (.error (.storage none))
        else afterError creation attempt input.slug error)
    | .ok (record, s) =>
      match commit with
      | .confirmed => (w.create i record.postId s).goOn i (.answered (.ok (.confirmed record)))
      | .indeterminate applied =>
        (if applied then w.create i record.postId s else w).goOn i
          (.answered (.ok (.commitIndeterminate record)))
      | .failed => w.goOn i (.answered (.error (.storage none)))

/-- The future of a request is dropped; its commit may have been on its way. -/
def dropRequest (w : World) (i attempt : ℕ) (reservedPostId : Option ℤ) (applied : Bool)
    (clock : UtcInstant) : World :=
  let (creation, now) := requests i
  match renderPostInput r creation reservedPostId attempt with
  | .error _ => w.goOn i .disconnected
  | .ok input =>
    match createRenderedPost d projection w.toStore input now clock with
    | .error _ => w.goOn i .disconnected
    | .ok (record, s) => (if applied then w.create i record.postId s else w).goOn i .disconnected

def reserveId (w : World) (i attempt : ℕ) (commit : Commit) : World :=
  let w' := if commit.applies then { w with tables := reserve d w.tables } else w
  w'.goOn i (if commit.isConfirmed then .attempting attempt (some (reservePostId d w.tables))
    else .answered (.error .reservation))

def step (w : World) : Event → World
  | .reserve i commit =>
    match w.progress i with
    | .attempting attempt none =>
      if (requests i).1.format = .org then reserveId d w i attempt commit else w
    | _ => w
  | .attempt i commit clock =>
    match w.progress i with
    | .attempting attempt reservedPostId =>
      if ready (requests i).1 reservedPostId then
        attemptCreate r d projection requests w i attempt reservedPostId commit clock
      else w
    | _ => w
  | .disconnect i applied clock =>
    match w.progress i with
    | .attempting attempt reservedPostId =>
      if ready (requests i).1 reservedPostId then
        dropRequest r d projection requests w i attempt reservedPostId applied clock
      else (if applied then { w with tables := reserve d w.tables } else w).goOn i .disconnected
    | _ => w
  | .write operation => { w with tables := Posts.Runs.step d projection digest w.tables operation }
  | .feed feedEvents => { w with feedEvents }

end Steps

section Rows

variable {r : Renderer} {d : Dialect} {projection : Option String → String → String}
  {digest : PostContentEtag → String} {s s' : PostTables}

theorem capture_keys {postId : ℤ} {now : UtcInstant}
    (h : captureCompletePostRevision s postId now = .ok s') :
    s'.idempotencyKeys = s.idempotencyKeys := by
  obtain ⟨_, _, h⟩ := bind_eq_ok.mp h
  obtain ⟨_, _, h⟩ := bind_eq_ok.mp h
  obtain ⟨_, _, h⟩ := bind_eq_ok.mp h
  obtain ⟨_, _, h⟩ := bind_eq_ok.mp h
  obtain ⟨_, _, h⟩ := bind_eq_ok.mp h
  rw [← pure_eq_ok.mp h]

theorem captureRevisions_keys {ids : List ℤ} {now : UtcInstant}
    (h : captureRevisions s ids now = .ok s') : s'.idempotencyKeys = s.idempotencyKeys := by
  induction ids generalizing s with
  | nil => rw [pure_eq_ok.mp h]
  | cons id ids ih =>
    obtain ⟨captured, hcaptured, h⟩ := bind_eq_ok.mp h
    exact (ih h).trans (capture_keys hcaptured)

theorem updatePost_keys {postId userId : ℤ} {input : UpdatePostInput} {m : PostMutation}
    (h : updatePost d projection digest s postId userId input = .ok (m, s')) :
    s'.idempotencyKeys = s.idempotencyKeys := by
  obtain ⟨_, _, h⟩ := bind_eq_ok.mp h
  obtain ⟨_, _, h⟩ := bind_eq_ok.mp h
  obtain ⟨_, _, h⟩ := bind_eq_ok.mp h
  obtain ⟨_, _, h⟩ := bind_eq_ok.mp h
  obtain ⟨_, _, h⟩ := bind_eq_ok.mp h
  dsimp only at h
  split_ifs at h with hnoop
  · rw [← (Prod.mk.inj (pure_eq_ok.mp h)).2]
  · obtain ⟨written, hwritten, h⟩ := bind_eq_ok.mp h
    obtain ⟨_, _, h⟩ := bind_eq_ok.mp h
    obtain ⟨captured, hcaptured, hwritten⟩ := bind_eq_ok.mp hwritten
    obtain ⟨_, _, hwritten⟩ := bind_eq_ok.mp hwritten
    obtain ⟨_, _, hwritten⟩ := bind_eq_ok.mp hwritten
    have hkeys := capture_keys (mapError_eq_ok.mp hcaptured)
    rw [← (Prod.mk.inj (pure_eq_ok.mp h)).2, ← pure_eq_ok.mp hwritten]
    exact hkeys

theorem changeLifecycle_keys {postId userId : ℤ} {change : PostLifecycleChange} {now : UtcInstant}
    {m : PostMutation} (h : changeLifecycle s postId userId change now = .ok (m, s')) :
    s'.idempotencyKeys = s.idempotencyKeys := by
  have h := changeLifecycle_ok h
  rw [lifecyclePost] at h
  cases hp : s.posts.lookup postId with
  | none =>
    rw [hp] at h
    cases h
  | some p =>
    simp only [hp] at h
    split_ifs at h with howner hchange
    · cases h
    · obtain ⟨_, _, h⟩ := bind_eq_ok.mp h
      obtain ⟨captured, hcaptured, h⟩ := bind_eq_ok.mp h
      obtain ⟨_, _, h⟩ := bind_eq_ok.mp h
      have hkeys := capture_keys hcaptured
      rw [← (Prod.mk.inj (Option.some.inj (pure_eq_ok.mp h))).2]
      exact hkeys
    · obtain ⟨_, _, h⟩ := bind_eq_ok.mp h
      rw [← (Prod.mk.inj (Option.some.inj (pure_eq_ok.mp h))).2]

theorem setPostTags_keys {postId userId : ℤ} {desired : List TagLabel} {now : UtcInstant}
    (h : setPostTags s postId userId desired now = .ok s') :
    s'.idempotencyKeys = s.idempotencyKeys := by
  obtain ⟨_, _, h⟩ := bind_eq_ok.mp h
  obtain ⟨_, _, h⟩ := bind_eq_ok.mp h
  dsimp only at h
  split_ifs at h with hnone
  · rw [pure_eq_ok.mp h]
  · obtain ⟨captured, hcaptured, h⟩ := bind_eq_ok.mp h
    have hkeys := capture_keys (mapError_eq_ok.mp hcaptured)
    rw [← pure_eq_ok.mp h]
    exact hkeys

theorem applyBulkPostOperation_keys {userId : ℤ} {snapshot : ManagementSelectionSnapshot}
    {operation : BulkPostOperation} {now : UtcInstant} {evidence : BulkPostMutationEvidence}
    (h : applyBulkPostOperation d s userId snapshot operation now = .ok (evidence, s')) :
    s'.idempotencyKeys = s.idempotencyKeys := by
  obtain ⟨locked, _, h⟩ := bind_eq_ok.mp h
  dsimp only at h
  split_ifs at h with hids
  · rw [← (Prod.mk.inj (pure_eq_ok.mp h)).2]
  · obtain ⟨captured, hcaptured, h⟩ := bind_eq_ok.mp h
    refine Eq.trans ?_ (captureRevisions_keys (mapError_eq_ok.mp hcaptured))
    cases operation with
    | changeAudience audiences =>
      obtain ⟨written, hwritten, h⟩ := bind_eq_ok.mp h
      rw [← (Prod.mk.inj (pure_eq_ok.mp h)).2, changeAudiences_ok (mapError_eq_ok.mp hwritten)]
    | delete => rw [← (Prod.mk.inj (pure_eq_ok.mp h)).2, deletePosts]

/-- Only a create adds mappings. -/
theorem step_keys (operation : Posts.Runs.Operation) :
    (Posts.Runs.step d projection digest s operation).idempotencyKeys = s.idempotencyKeys ∨
    ∃ input now identity, writePostInTx d projection s input now =
      .ok (identity, Posts.Runs.step d projection digest s operation) := by
  cases houtcome : outcome d projection digest s operation with
  | error refusal =>
    rw [Posts.Runs.step, houtcome]
    exact .inl rfl
  | ok s' =>
    rw [Posts.Runs.step, houtcome]
    cases operation with
    | reserve =>
      obtain rfl := Except.ok.inj houtcome
      exact .inl rfl
    | create input now =>
      obtain ⟨identity, hwrite⟩ := map_snd_eq_ok houtcome
      exact .inr ⟨input, now, identity, hwrite⟩
    | update postId editorUserId input =>
      obtain ⟨m, hwrite⟩ := map_snd_eq_ok houtcome
      exact .inl (updatePost_keys hwrite)
    | lifecycle change postId userId now =>
      obtain ⟨m, hwrite⟩ := map_snd_eq_ok houtcome
      exact .inl (changeLifecycle_keys hwrite)
    | setTags postId userId desired now => exact .inl (setPostTags_keys (mapError_eq_ok.mp houtcome))
    | bulk userId snapshot operation now =>
      obtain ⟨evidence, hwrite⟩ := map_snd_eq_ok houtcome
      exact .inl (applyBulkPostOperation_keys hwrite)

end Rows

/-- The post that a successful answer names. -/
def named : Progress → Option ℤ
  | .answered (.ok (.confirmed record)) => some record.postId
  | .answered (.error (.idempotencyConflict postId)) => some postId
  | _ => none

def Failed (p : Progress) : Prop := ∃ error, p = .answered (.error error)

/-- No post, mapping or feed event has changed. -/
structure SameRows (s s' : Store) : Prop where
  posts : s'.tables.posts = s.tables.posts
  keys : s'.tables.idempotencyKeys = s.tables.idempotencyKeys
  feedEvents : s'.feedEvents = s.feedEvents

section Moves

variable (r : Renderer) (d : Dialect) (projection : Option String → String → String)
  (digest : PostContentEtag → String) (requests : ℕ → PostCreation × UtcInstant)

/-- The post is the one that a mapping under the key of the request names. -/
def Mapped (s : PostTables) (i : ℕ) (postId : ℤ) : Prop :=
  ∀ key ∈ (requests i).1.idempotencyKey,
    ⟨(requests i).1.userId, key, postId⟩ ∈ s.idempotencyKeys

/-- What an event of a request does: nothing to the rows, or one create. -/
inductive Move (i : ℕ) (w w' : World) : Prop
  | wait (hrows : SameRows w.toStore w'.toStore) (hcreations : w'.creations = w.creations)
      (hmapped : ∀ postId ∈ named (w'.progress i), Mapped requests w.tables i postId)
      (hconfirmed : ∀ record, w'.progress i ≠ .answered (.ok (.confirmed record)))
      (hothers : ∀ j ≠ i, w'.progress j = w.progress j)
  | create {input : CreatePostInput} {postId : ℤ} (huser : input.userId = (requests i).1.userId)
      (hkey : input.idempotencyKey = (requests i).1.idempotencyKey)
      (hwrite : writePostInTx d projection w.tables input (requests i).2 = .ok (postId, w'.tables))
      (hcreations : w'.creations = w.creations ++ [(i, postId)])
      (hnamed : ∀ named' ∈ named (w'.progress i), named' = postId)
      (hsucceeded : ¬Failed (w'.progress i)) (hended : ∀ attempt reservedPostId,
        w'.progress i ≠ .attempting attempt reservedPostId)
      (hothers : ∀ j ≠ i, w'.progress j = w.progress j)

variable {r d projection digest requests} {w : World} {i attempt : ℕ} {reservedPostId : Option ℤ}
  {commit : Commit} {clock : UtcInstant}

theorem renderPostInput_ok {creation : PostCreation} {input : CreatePostInput}
    (h : renderPostInput r creation reservedPostId attempt = .ok input) :
    input.userId = creation.userId ∧ input.idempotencyKey = creation.idempotencyKey := by
  obtain ⟨_, _, h⟩ := bind_eq_ok.mp h
  obtain ⟨_, _, h⟩ := bind_eq_ok.mp h
  obtain ⟨_, _, h⟩ := bind_eq_ok.mp h
  obtain rfl := pure_eq_ok.mp h
  exact ⟨rfl, rfl⟩

theorem World.goOn_progress {p : Progress} : (w.goOn i p).progress i = p := by
  simp [World.goOn]

theorem World.goOn_progress_ne {p : Progress} {j : ℕ} (h : j ≠ i) :
    (w.goOn i p).progress j = w.progress j := by
  simp [World.goOn, h]

theorem move_goOn {p : Progress} (hmapped : ∀ postId ∈ named p, Mapped requests w.tables i postId)
    (hconfirmed : ∀ record, p ≠ .answered (.ok (.confirmed record))) :
    Move d projection requests i w (w.goOn i p) := by
  refine .wait ⟨rfl, rfl, rfl⟩ rfl ?_ ?_ (fun j hj ↦ World.goOn_progress_ne hj)
  · rwa [World.goOn_progress]
  · rwa [World.goOn_progress]

theorem move_create {input : CreatePostInput} {record : PostRecord} {s : Store} {p : Progress}
    (hinput : renderPostInput r (requests i).1 reservedPostId attempt = .ok input)
    (hcreate : createRenderedPost d projection w.toStore input (requests i).2 clock = .ok (record, s))
    (hnamed : ∀ postId ∈ named p, postId = record.postId) (hsucceeded : ¬Failed p)
    (hended : ∀ attempt reservedPostId, p ≠ .attempting attempt reservedPostId) :
    Move d projection requests i w ((w.create i record.postId s).goOn i p) := by
  obtain ⟨huser, hkey⟩ := renderPostInput_ok hinput
  refine .create huser hkey (createRenderedPost_ok hcreate) rfl ?_ ?_ ?_
    (fun j hj ↦ World.goOn_progress_ne hj)
  · rwa [World.goOn_progress]
  · rwa [World.goOn_progress]
  · rwa [World.goOn_progress]

theorem named_afterError {creation : PostCreation} {slug : String} {error : CreatePostError} :
    ∀ postId ∈ named (afterError creation attempt slug error), error = .idempotencyConflict postId := by
  intro postId hnamed
  unfold afterError mapCreatePostAttemptError loop at hnamed
  cases error with
  | slugConflict => split_ifs at hnamed <;> cases hnamed
  | bookkeepingMismatch => cases hnamed
  | idempotencyConflict post => rw [Option.some.inj hnamed]
  | internal error => cases hnamed

theorem afterError_ne_confirmed {creation : PostCreation} {slug : String} {error : CreatePostError}
    (record : PostRecord) :
    afterError creation attempt slug error ≠ .answered (.ok (.confirmed record)) := by
  unfold afterError mapCreatePostAttemptError loop
  cases error with
  | slugConflict => split_ifs <;> nofun
  | bookkeepingMismatch => nofun
  | idempotencyConflict post => nofun
  | internal error => nofun

theorem naming_errors {creation : PostCreation} :
    ErrorsIn (fun e ↦ named (.answered (.error e)) = none) (naming r creation) := by
  refine (errorsIn_orError (by rfl)).bind (fun _ _ ↦ ?_)
  refine (errorsIn_orError (by rfl)).bind (fun _ _ ↦ ?_)
  exact errorsIn_pure _

theorem renderPostInput_errors {creation : PostCreation} :
    ErrorsIn (fun e ↦ named (.answered (.error e)) = none)
      (renderPostInput r creation reservedPostId attempt) := by
  refine naming_errors.bind (fun _ _ ↦ ?_)
  refine (errorsIn_orError (by rfl)).bind (fun _ _ ↦ ?_)
  refine (errorsIn_orError (by rfl)).bind (fun _ _ ↦ ?_)
  exact errorsIn_pure _

theorem named_started {creation : PostCreation} : named (started r creation) = none := by
  unfold started
  cases hnaming : naming r creation with
  | error error => exact naming_errors error hnaming
  | ok texts =>
    unfold loop
    dsimp only
    split_ifs <;> rfl

theorem attemptCreate_move : Move d projection requests i w
    (attemptCreate r d projection requests w i attempt reservedPostId commit clock) := by
  rw [attemptCreate]
  dsimp only
  cases hinput : renderPostInput r (requests i).1 reservedPostId attempt with
  | error error =>
    refine move_goOn (fun postId hnamed ↦ ?_) (fun record ↦ by simp)
    rw [renderPostInput_errors error hinput] at hnamed
    cases hnamed
  | ok input =>
    obtain ⟨huser, hkey⟩ := renderPostInput_ok hinput
    cases hcreate : createRenderedPost d projection w.toStore input (requests i).2 clock with
    | error error =>
      simp only [hcreate]
      refine move_goOn (fun postId hnamed ↦ ?_) (fun record ↦ ?_)
      · split_ifs at hnamed
        · cases hnamed
        · obtain ⟨key, hk, hmem⟩ := createRenderedPost_errors _ hcreate _ (named_afterError _ hnamed)
          intro key' hkey'
          rw [hkey, Option.mem_def.mp hkey'] at hk
          rw [← huser, Option.some.inj hk]
          exact hmem
      · split_ifs
        · nofun
        · exact afterError_ne_confirmed record
    | ok result =>
      obtain ⟨record, s⟩ := result
      simp only [hcreate]
      cases commit with
      | confirmed =>
        refine move_create hinput hcreate (fun postId hnamed ↦ (Option.some.inj hnamed).symm) ?_ nofun
        rintro ⟨error, herror⟩
        cases herror
      | indeterminate applied =>
        cases applied with
        | true =>
          refine move_create hinput hcreate nofun ?_ nofun
          rintro ⟨error, herror⟩
          cases herror
        | false => exact move_goOn nofun (fun record ↦ by simp)
      | failed => exact move_goOn nofun (fun record ↦ by simp)

theorem dropRequest_move {applied : Bool} : Move d projection requests i w
    (dropRequest r d projection requests w i attempt reservedPostId applied clock) := by
  rw [dropRequest]
  dsimp only
  cases hinput : renderPostInput r (requests i).1 reservedPostId attempt with
  | error error => exact move_goOn nofun (fun record ↦ by simp)
  | ok input =>
    cases hcreate : createRenderedPost d projection w.toStore input (requests i).2 clock with
    | error error =>
      simp only [hcreate]
      exact move_goOn nofun (fun record ↦ by simp)
    | ok result =>
      obtain ⟨record, s⟩ := result
      simp only [hcreate]
      cases applied with
      | true =>
        refine move_create hinput hcreate nofun ?_ nofun
        rintro ⟨error, herror⟩
        cases herror
      | false => exact move_goOn nofun (fun record ↦ by simp)

theorem reserveId_move : Move d projection requests i w (reserveId d w i attempt commit) := by
  rw [reserveId]
  refine .wait ?_ ?_ (fun postId hnamed ↦ ?_) (fun record ↦ ?_) (fun j hj ↦ ?_)
  · split_ifs <;> exact ⟨rfl, rfl, rfl⟩
  · split_ifs <;> rfl
  · rw [World.goOn_progress] at hnamed
    split_ifs at hnamed <;> cases hnamed
  · rw [World.goOn_progress]
    split_ifs <;> simp
  · rw [World.goOn_progress_ne hj]
    split_ifs <;> rfl

/-- An event of a request moves this request, unless the request is at its end or the event has to
wait. -/
theorem step_move {e : Event} (he : e.request = some i) :
    step r d projection digest requests w e = w ∨
      (∃ attempt reservedPostId, w.progress i = .attempting attempt reservedPostId) ∧
        Move d projection requests i w (step r d projection digest requests w e) := by
  cases e with
  | write operation => cases he
  | feed feedEvents => cases he
  | reserve j commit =>
    obtain rfl := Option.some.inj he
    rw [step]
    cases hprogress : w.progress j with
    | answered answer => exact .inl rfl
    | disconnected => exact .inl rfl
    | attempting attempt reservedPostId =>
      cases reservedPostId with
      | some postId => exact .inl rfl
      | none =>
        dsimp only
        split_ifs
        · exact .inr ⟨⟨_, _, rfl⟩, reserveId_move⟩
        · exact .inl rfl
  | attempt j commit clock =>
    obtain rfl := Option.some.inj he
    rw [step]
    cases hprogress : w.progress j with
    | answered answer => exact .inl rfl
    | disconnected => exact .inl rfl
    | attempting attempt reservedPostId =>
      dsimp only
      split_ifs
      · exact .inr ⟨⟨_, _, rfl⟩, attemptCreate_move⟩
      · exact .inl rfl
  | disconnect j applied clock =>
    obtain rfl := Option.some.inj he
    rw [step]
    cases hprogress : w.progress j with
    | answered answer => exact .inl rfl
    | disconnected => exact .inl rfl
    | attempting attempt reservedPostId =>
      refine .inr ⟨⟨_, _, rfl⟩, ?_⟩
      dsimp only
      split_ifs
      · exact dropRequest_move
      · refine .wait ⟨rfl, rfl, rfl⟩ rfl ?_ ?_ (fun j hj ↦ World.goOn_progress_ne hj)
        · rw [World.goOn_progress]
          nofun
        · rw [World.goOn_progress]
          simp
      · exact move_goOn nofun (fun record ↦ by simp)

end Moves

section Runs

variable {r : Renderer} {d : Dialect} {projection : Option String → String → String}
  {digest : PostContentEtag → String} {requests : ℕ → PostCreation × UtcInstant} {w w' : World}
  {i : ℕ}

def SameKey (requests : ℕ → PostCreation × UtcInstant) (i j : ℕ) : Prop :=
  (requests i).1.userId = (requests j).1.userId ∧
    (requests i).1.idempotencyKey = (requests j).1.idempotencyKey ∧
    (requests i).1.idempotencyKey.isSome

/-- Every creation has left its mapping, and every successful answer names the post of one. -/
structure Sound (requests : ℕ → PostCreation × UtcInstant) (w : World) : Prop where
  unique : Unique mappingClash w.tables.idempotencyKeys
  mapped : ∀ c ∈ w.creations, Mapped requests w.tables c.1 c.2
  answers : ∀ i, ∀ postId ∈ named (w.progress i), Mapped requests w.tables i postId
  once : w.creations.Pairwise (fun a b ↦ ¬SameKey requests a.1 b.1)
  confirmed : ∀ i record, w.progress i = .answered (.ok (.confirmed record)) →
    (i, record.postId) ∈ w.creations

/-- The mapping of a new post joins the others. -/
theorem unique_of_write {s s' : PostTables} {input : CreatePostInput} {now : UtcInstant}
    {identity : ℤ} (hunique : Unique mappingClash s.idempotencyKeys)
    (h : writePostInTx d projection s input now = .ok (identity, s')) :
    Unique mappingClash s'.idempotencyKeys ∧
      ∀ m ∈ s.idempotencyKeys, m ∈ s'.idempotencyKeys := by
  obtain ⟨hfree, hkeys⟩ := writePostInTx_keys h
  rw [hkeys, unique_append]
  refine ⟨⟨hunique, ?_, fun m hm m' hm' ↦ ?_⟩, fun m hm ↦ List.mem_append_left _ hm⟩
  · cases input.idempotencyKey with
    | none => exact List.Pairwise.nil
    | some key => exact List.pairwise_singleton _ _
  · obtain ⟨key, hkey, rfl⟩ := List.mem_map.mp hm'
    rw [mappingClash, decide_eq_false_iff_not]
    exact hfree key (Option.mem_toList.mp hkey) m hm

/-- Rows and requests that only grow keep the invariant. -/
theorem Sound.grow (h : Sound requests w) (hunique : Unique mappingClash w'.tables.idempotencyKeys)
    (hkeys : ∀ m ∈ w.tables.idempotencyKeys, m ∈ w'.tables.idempotencyKeys)
    (hcreations : w'.creations = w.creations)
    (hnamed : ∀ i, w'.progress i = w.progress i ∨
      (∀ postId ∈ named (w'.progress i), Mapped requests w.tables i postId) ∧
        ∀ record, w'.progress i ≠ .answered (.ok (.confirmed record))) : Sound requests w' := by
  have hmono : ∀ i postId, Mapped requests w.tables i postId → Mapped requests w'.tables i postId :=
    fun i postId hmapped key hkey ↦ hkeys _ (hmapped key hkey)
  refine ⟨hunique, fun c hc ↦ ?_, fun i postId hpost ↦ ?_, hcreations ▸ h.once, fun i record hi ↦ ?_⟩
  · rw [hcreations] at hc
    exact hmono _ _ (h.mapped c hc)
  · rcases hnamed i with hsame | ⟨hmapped, -⟩
    · rw [hsame] at hpost
      exact hmono _ _ (h.answers i postId hpost)
    · exact hmono _ _ (hmapped postId hpost)
  · rcases hnamed i with hsame | ⟨-, hconfirmed⟩
    · rw [hsame] at hi
      rw [hcreations]
      exact h.confirmed i record hi
    · exact absurd hi (hconfirmed record)

theorem Sound.move (h : Sound requests w) (hmove : Move d projection requests i w w') :
    Sound requests w' := by
  cases hmove with
  | wait hrows hcreations hmapped hconfirmed hothers =>
    refine h.grow (hrows.keys ▸ h.unique) (fun m hm ↦ hrows.keys ▸ hm) hcreations (fun j ↦ ?_)
    by_cases hj : j = i
    · subst hj
      exact .inr ⟨hmapped, hconfirmed⟩
    · exact .inl (hothers j hj)
  | @create input postId huser hkey hwrite hcreations hnamed hsucceeded hended hothers =>
    obtain ⟨hunique, hkeys⟩ := unique_of_write h.unique hwrite
    obtain ⟨hfree, happend⟩ := writePostInTx_keys hwrite
    have hmono : ∀ j p, Mapped requests w.tables j p → Mapped requests w'.tables j p :=
      fun j p hmapped key hk ↦ hkeys _ (hmapped key hk)
    have hnew : Mapped requests w'.tables i postId := by
      intro key hk
      rw [happend, ← huser]
      refine List.mem_append_right _ (List.mem_map.mpr ⟨key, ?_, rfl⟩)
      rw [hkey]
      exact Option.mem_toList.mpr hk
    refine ⟨hunique, fun c hc ↦ ?_, fun j p hp ↦ ?_, ?_, fun j record hj ↦ ?_⟩
    · rw [hcreations] at hc
      rcases List.mem_append.mp hc with hc | hc
      · exact hmono _ _ (h.mapped c hc)
      · rw [List.mem_singleton.mp hc]
        exact hnew
    · by_cases hji : j = i
      · subst hji
        rw [hnamed p hp]
        exact hnew
      · rw [hothers j hji] at hp
        exact hmono _ _ (h.answers j p hp)
    · rw [hcreations, List.pairwise_append]
      refine ⟨h.once, List.pairwise_singleton _ _, fun c hc c' hc' hsame ↦ ?_⟩
      rw [List.mem_singleton.mp hc'] at hsame
      obtain ⟨hu, hk, hsome⟩ := hsame
      obtain ⟨key, hkey'⟩ := Option.isSome_iff_exists.mp hsome
      refine hfree key ?_ _ (h.mapped c hc key hkey') ⟨?_, rfl⟩
      · rw [hkey, ← hk]
        exact hkey'
      · rw [huser]
        exact hu
    · by_cases hji : j = i
      · subst hji
        rw [hcreations, hnamed record.postId (by rw [hj]; rfl)]
        exact List.mem_append_right _ (List.mem_singleton_self _)
      · rw [hothers j hji] at hj
        rw [hcreations]
        exact List.mem_append_left _ (h.confirmed j record hj)

theorem Sound.step (h : Sound requests w) (e : Event) :
    Sound requests (step r d projection digest requests w e) := by
  cases hrequest : e.request with
  | some i =>
    rcases step_move hrequest with hsame | ⟨-, hmove⟩
    · rw [hsame]
      exact h
    · exact h.move hmove
  | none =>
    cases e with
    | reserve i commit => cases hrequest
    | attempt i commit clock => cases hrequest
    | disconnect i applied clock => cases hrequest
    | feed feedEvents => exact ⟨h.unique, h.mapped, h.answers, h.once, h.confirmed⟩
    | write operation =>
      have hkeys : Unique mappingClash
            (Posts.Runs.step d projection digest w.tables operation).idempotencyKeys ∧
          ∀ m ∈ w.tables.idempotencyKeys,
            m ∈ (Posts.Runs.step d projection digest w.tables operation).idempotencyKeys := by
        rcases step_keys operation with hsame | ⟨input, now, identity, hwrite⟩
        · rw [hsame]
          exact ⟨h.unique, fun m hm ↦ hm⟩
        · exact unique_of_write h.unique hwrite
      exact h.grow hkeys.1 hkeys.2 rfl (fun j ↦ .inl rfl)

/-- A request at its end stays there. -/
theorem progress_of_ended {es : List Event}
    (h : ∀ attempt reservedPostId, w.progress i ≠ .attempting attempt reservedPostId) :
    (run (step r d projection digest requests) w es).progress i = w.progress i := by
  induction es generalizing w with
  | nil => rfl
  | cons e es ih =>
    have hstep : (step r d projection digest requests w e).progress i = w.progress i := by
      cases hrequest : e.request with
      | none => cases e <;> first | rfl | cases hrequest
      | some j =>
        rcases step_move hrequest with hsame | ⟨⟨attempt, reservedPostId, hj⟩, hmove⟩
        · rw [hsame]
        · have hij : i ≠ j := by
            rintro rfl
            exact h _ _ hj
          cases hmove with
          | wait hrows hcreations hmapped hconfirmed hothers => exact hothers i hij
          | create huser hkey hwrite hcreations hnamed hsucceeded hended hothers =>
            exact hothers i hij
    rw [run_cons, ih (by rwa [hstep]), hstep]

/-- An event of a request that fails in the end writes nothing. -/
theorem sameRows_of_failed {e : Event} {es : List Event} (hrequest : e.request = some i)
    (hfailed : Failed ((run (step r d projection digest requests)
      (step r d projection digest requests w e) es).progress i)) :
    SameRows w.toStore (step r d projection digest requests w e).toStore := by
  rcases step_move hrequest with hsame | ⟨-, hmove⟩
  · rw [hsame]
    exact ⟨rfl, rfl, rfl⟩
  · cases hmove with
    | wait hrows hcreations hmapped hconfirmed hothers => exact hrows
    | create huser hkey hwrite hcreations hnamed hsucceeded hended hothers =>
      rw [progress_of_ended hended] at hfailed
      exact absurd hfailed hsucceeded

theorem named_eq (h : Sound requests w) {j : ℕ} {p q : ℤ} (hsame : SameKey requests i j)
    (hp : Mapped requests w.tables i p) (hq : Mapped requests w.tables j q) : p = q := by
  obtain ⟨huser, hkeys, hsome⟩ := hsame
  obtain ⟨key, hkey⟩ := Option.isSome_iff_exists.mp hsome
  have hm := hp key hkey
  have hm' := hq key (hkeys ▸ hkey)
  rw [← huser] at hm'
  by_contra hne
  have hsymm : Std.Symm (fun a b ↦ mappingClash a b = false) := by
    refine ⟨fun a b hab ↦ ?_⟩
    rw [mappingClash, decide_eq_false_iff_not] at hab ⊢
    exact fun hba ↦ hab ⟨hba.1.symm, hba.2.symm⟩
  have hfree := List.Pairwise.forall h.unique hm hm' (fun heq ↦
    hne (IdempotencyMapping.mk.inj heq).2.2)
  rw [mappingClash, decide_eq_false_iff_not] at hfree
  exact hfree ⟨rfl, rfl⟩

end Runs

section Users

variable {r : Renderer} {d : Dialect} {projection : Option String → String → String}
  {digest : PostContentEtag → String} {requests : ℕ → PostCreation × UtcInstant} {w : World}
  {input : CreatePostInput} {now clock : UtcInstant}

/-- The tables without the mappings of the other users. -/
def ownTables (userId : ℤ) (s : PostTables) : PostTables :=
  { s with idempotencyKeys := s.idempotencyKeys.filter (fun m ↦ m.userId = userId) }

def ownStore (userId : ℤ) (s : Store) : Store := { s with tables := ownTables userId s.tables }

def World.own (w : World) (userId : ℤ) : World := { w with toStore := ownStore userId w.toStore }

theorem writePostInTx_own (s : PostTables) :
    writePostInTx d projection (ownTables input.userId s) input now =
      (writePostInTx d projection s input now).map
        (fun result ↦ (result.1, ownTables input.userId result.2)) := by
  have hfind : ∀ key, (ownTables input.userId s).idempotencyKeys.find?
        (fun m ↦ m.userId = input.userId ∧ m.key = key) =
      s.idempotencyKeys.find? (fun m ↦ m.userId = input.userId ∧ m.key = key) := by
    intro key
    unfold ownTables
    rw [List.find?_filter]
    congr 1
    funext m
    simp
  unfold writePostInTx
  simp only [hfind, map_bind]
  refine congrArg _ (funext fun _ ↦ ?_)
  refine congrArg _ (funext fun _ ↦ ?_)
  refine congrArg _ (funext fun _ ↦ ?_)
  refine congrArg _ (funext fun _ ↦ ?_)
  refine congrArg _ (funext fun _ ↦ ?_)
  refine congrArg _ (funext fun rows ↦ ?_)
  have hown : (input.idempotencyKey.toList.map (fun key ↦ (⟨input.userId, key,
      input.reservedPostId.getD (reservePostId d s)⟩ : IdempotencyMapping))).filter
        (fun m ↦ m.userId = input.userId) = input.idempotencyKey.toList.map (fun key ↦
      ⟨input.userId, key, input.reservedPostId.getD (reservePostId d s)⟩) := by
    cases input.idempotencyKey <;> simp
  simp only [ownTables, Except.map, pure, Except.pure, List.filter_append, hown]
  rfl

theorem createRenderedPost_own (s : Store) :
    createRenderedPost d projection (ownStore input.userId s) input now clock =
      (createRenderedPost d projection s input now clock).map
        (fun result ↦ (result.1, ownStore input.userId result.2)) := by
  have hcreate : createPost d projection (ownStore input.userId s).tables input now =
      (createPost d projection s.tables input now).map
        (fun result ↦ (result.1, ownTables input.userId result.2)) := by
    unfold createPost ownStore
    rw [writePostInTx_own, bind_map, map_bind]
    refine congrArg _ (funext fun result ↦ ?_)
    dsimp only
    rw [map_bind]
    rfl
  unfold createRenderedPost
  rw [hcreate, bind_map, map_bind]
  rfl

theorem own_goOn {i : ℕ} {p : Progress} {userId : ℤ} :
    (w.goOn i p).own userId = (w.own userId).goOn i p := rfl

theorem attemptCreate_own {i attempt : ℕ} {reservedPostId : Option ℤ} {commit : Commit} :
    attemptCreate r d projection requests (w.own (requests i).1.userId) i attempt reservedPostId
        commit clock =
      (attemptCreate r d projection requests w i attempt reservedPostId commit clock).own
        (requests i).1.userId := by
  rw [attemptCreate, attemptCreate]
  dsimp only
  cases hinput : renderPostInput r (requests i).1 reservedPostId attempt with
  | error error => rfl
  | ok input =>
    have hcreate : createRenderedPost d projection (w.own (requests i).1.userId).toStore input
          (requests i).2 clock =
        (createRenderedPost d projection w.toStore input (requests i).2 clock).map
          (fun result ↦ (result.1, ownStore (requests i).1.userId result.2)) := by
      rw [← (renderPostInput_ok hinput).1]
      exact createRenderedPost_own w.toStore
    dsimp only
    rw [hcreate]
    cases createRenderedPost d projection w.toStore input (requests i).2 clock with
    | error error => rfl
    | ok result =>
      cases commit with
      | confirmed => rfl
      | failed => rfl
      | indeterminate applied => cases applied <;> rfl

theorem dropRequest_own {i attempt : ℕ} {reservedPostId : Option ℤ} {applied : Bool} :
    dropRequest r d projection requests (w.own (requests i).1.userId) i attempt reservedPostId
        applied clock =
      (dropRequest r d projection requests w i attempt reservedPostId applied clock).own
        (requests i).1.userId := by
  rw [dropRequest, dropRequest]
  dsimp only
  cases hinput : renderPostInput r (requests i).1 reservedPostId attempt with
  | error error => rfl
  | ok input =>
    have hcreate : createRenderedPost d projection (w.own (requests i).1.userId).toStore input
          (requests i).2 clock =
        (createRenderedPost d projection w.toStore input (requests i).2 clock).map
          (fun result ↦ (result.1, ownStore (requests i).1.userId result.2)) := by
      rw [← (renderPostInput_ok hinput).1]
      exact createRenderedPost_own w.toStore
    dsimp only
    rw [hcreate]
    cases createRenderedPost d projection w.toStore input (requests i).2 clock with
    | error error => rfl
    | ok result => cases applied <;> rfl

/-- Without the mappings of the other users a request meets the same. -/
theorem step_own {e : Event} {i : ℕ} (he : e.request = some i) :
    step r d projection digest requests (w.own (requests i).1.userId) e =
      (step r d projection digest requests w e).own (requests i).1.userId := by
  have hprogress : (w.own (requests i).1.userId).progress = w.progress := rfl
  cases e with
  | write operation => cases he
  | feed feedEvents => cases he
  | reserve j commit =>
    obtain rfl := Option.some.inj he
    rw [step, step, hprogress]
    cases w.progress j with
    | answered answer => rfl
    | disconnected => rfl
    | attempting attempt reservedPostId =>
      cases reservedPostId with
      | some postId => rfl
      | none =>
        dsimp only
        split_ifs
        · rw [reserveId, reserveId]
          cases commit.applies <;> rfl
        · rfl
  | attempt j commit clock =>
    obtain rfl := Option.some.inj he
    rw [step, step, hprogress]
    cases w.progress j with
    | answered answer => rfl
    | disconnected => rfl
    | attempting attempt reservedPostId =>
      dsimp only
      split_ifs
      · exact attemptCreate_own
      · rfl
  | disconnect j applied clock =>
    obtain rfl := Option.some.inj he
    rw [step, step, hprogress]
    cases w.progress j with
    | answered answer => rfl
    | disconnected => rfl
    | attempting attempt reservedPostId =>
      dsimp only
      split_ifs
      · exact dropRequest_own
      · rfl
      · rfl

/-- A request leaves the mappings of the other users alone. -/
theorem ownTables_step {e : Event} {i : ℕ} {userId : ℤ} (he : e.request = some i)
    (huser : (requests i).1.userId ≠ userId) :
    (ownTables userId (step r d projection digest requests w e).tables).idempotencyKeys =
      (ownTables userId w.tables).idempotencyKeys := by
  rcases step_move he with hsame | ⟨-, hmove⟩
  · rw [hsame]
  · cases hmove with
    | wait hrows hcreations hmapped hconfirmed hothers =>
      unfold ownTables
      rw [hrows.keys]
    | @create input postId hinput hkey hwrite hcreations hnamed hsucceeded hended hothers =>
      unfold ownTables
      rw [(writePostInTx_keys hwrite).2, List.filter_append, List.append_right_eq_self,
        List.filter_eq_nil_iff]
      intro m hm
      obtain ⟨key, -, rfl⟩ := List.mem_map.mp hm
      rw [decide_eq_true_iff, hinput]
      exact huser

end Users

section Requests

variable {r : Renderer} {d : Dialect} {projection : Option String → String → String}
  {digest : PostContentEtag → String} {requests : ℕ → PostCreation × UtcInstant} {w : World}

theorem sound_of_started (hunique : Unique mappingClash w.tables.idempotencyKeys)
    (hnone : w.creations = []) (hstart : ∀ i, w.progress i = started r (requests i).1) :
    Sound requests w := by
  refine ⟨hunique, ?_, fun i postId hpost ↦ ?_, ?_, fun i record hi ↦ ?_⟩
  · rw [hnone]
    nofun
  · rw [hstart, named_started] at hpost
    cases hpost
  · rw [hnone]
    exact List.Pairwise.nil
  · have hpost : named (w.progress i) = some record.postId := by rw [hi]; rfl
    rw [hstart, named_started] at hpost
    cases hpost

theorem sound_run (h : Sound requests w) (events : List Event) :
    Sound requests (run (step r d projection digest requests) w events) :=
  run_preserves (fun _ e hw _ ↦ Sound.step hw e) h (along_true w events)

theorem Sound.created_once (h : Sound requests w) (userId : ℤ) (key : String) :
    (w.creations.filter (fun c ↦ (requests c.1).1.userId = userId ∧
      (requests c.1).1.idempotencyKey = some key)).length ≤ 1 := by
  by_contra hlong
  have hpair := h.once.filter (fun c ↦ (requests c.1).1.userId = userId ∧
    (requests c.1).1.idempotencyKey = some key)
  rcases hcreations : w.creations.filter (fun c ↦ (requests c.1).1.userId = userId ∧
      (requests c.1).1.idempotencyKey = some key) with _ | ⟨a, _ | ⟨b, rest⟩⟩
  · rw [hcreations] at hlong
    exact hlong (Nat.zero_le _)
  · rw [hcreations] at hlong
    exact hlong (Nat.le_refl _)
  · have hmem : ∀ c ∈ a :: b :: rest, (requests c.1).1.userId = userId ∧
        (requests c.1).1.idempotencyKey = some key := by
      intro c hc
      rw [← hcreations] at hc
      exact of_decide_eq_true (List.mem_filter.mp hc).2
    obtain ⟨ha, ha'⟩ := hmem a List.mem_cons_self
    obtain ⟨hb, hb'⟩ := hmem b (List.mem_cons_of_mem _ List.mem_cons_self)
    rw [hcreations] at hpair
    refine (List.pairwise_cons.mp hpair).1 b List.mem_cons_self ⟨ha.trans hb.symm,
      ha'.trans hb'.symm, ?_⟩
    rw [ha']
    rfl

/-- Of the requests with one key of one user at most one creates a post, the successful answers name
this post, a request that fails writes nothing, and the keys of other users do not matter. -/
theorem idempotent_creation (hunique : Unique mappingClash w.tables.idempotencyKeys)
    (hnone : w.creations = []) (hstart : ∀ i, w.progress i = started r (requests i).1)
    (events : List Event) :
    let w' := run (step r d projection digest requests) w events
    (∀ userId key, (w'.creations.filter (fun c ↦ (requests c.1).1.userId = userId ∧
      (requests c.1).1.idempotencyKey = some key)).length ≤ 1) ∧
    (∀ i j p q, SameKey requests i j → p ∈ named (w'.progress i) →
      q ∈ named (w'.progress j) ∨ (j, q) ∈ w'.creations → p = q) ∧
    (∀ i record, w'.progress i = .answered (.ok (.confirmed record)) →
      (i, record.postId) ∈ w'.creations) ∧
    ∀ before e after i, events = before ++ e :: after → e.request = some i →
      let w₀ := run (step r d projection digest requests) w before
      let w₁ := step r d projection digest requests w₀ e
      (Failed (w'.progress i) → SameRows w₀.toStore w₁.toStore) ∧
      step r d projection digest requests (w₀.own (requests i).1.userId) e =
        w₁.own (requests i).1.userId ∧
      ∀ userId, (requests i).1.userId ≠ userId →
        (ownTables userId w₁.tables).idempotencyKeys = (ownTables userId w₀.tables).idempotencyKeys := by
  have hsound : Sound requests (run (step r d projection digest requests) w events) :=
    sound_run (sound_of_started hunique hnone hstart) events
  refine ⟨hsound.created_once, fun i j p q hsame hp hq ↦ ?_, hsound.confirmed,
    fun before e after i hevents hrequest ↦ ⟨fun hfailed ↦ ?_, step_own hrequest,
      fun userId huser ↦ ownTables_step hrequest huser⟩⟩
  · refine named_eq hsound hsame (hsound.answers i p hp) ?_
    rcases hq with hq | hq
    · exact hsound.answers j q hq
    · exact hsound.mapped (j, q) hq
  · rw [hevents, run_append, run_cons] at hfailed
    exact sameRows_of_failed hrequest hfailed

def noticeRenderer : Renderer where
  unicode := ⟨id, fun _ _ ↦ true, Char.isAlphanum⟩
  derivePostNaming _ _ _ := some (none, "notice")
  canonicalizeBody body _ := some body
  renderPost _ _ _ _ := some notice

def noticeRequest : PostCreation where
  userId := 1
  body := "Closed today."
  title := none
  format := .markdown
  slugOverride := none
  publishedAt := some noticeClock
  maxAttempts := 100
  summary := none
  audiences := [.public_]
  tags := []
  idempotencyKey := some "closed"
  expectations := .none

def noticeWorld : World where
  tables := noticeTables
  feedEvents := .empty 1
  progress _ := started noticeRenderer noticeRequest
  creations := []

def noticeRequests (_ : ℕ) : PostCreation × UtcInstant := (noticeRequest, noticeClock)

/-- The acknowledgement of the first request is lost, and the second one names its post. -/
theorem repeated_notice :
    (run (step noticeRenderer .sqlite noticeProjection noticeDigest noticeRequests) noticeWorld
      [.attempt 0 (.indeterminate true) noticeClock, .attempt 1 .confirmed noticeClock]).progress 1 =
      .answered (.error (.idempotencyConflict 1)) ∧
    ((run (step noticeRenderer .sqlite noticeProjection noticeDigest noticeRequests) noticeWorld
      [.attempt 0 (.indeterminate true) noticeClock,
        .attempt 1 .confirmed noticeClock]).creations.filter (fun c ↦
          (noticeRequests c.1).1.userId = 1 ∧
          (noticeRequests c.1).1.idempotencyKey = some "closed")).length ≤ 1 := by
  have hunique : Unique mappingClash noticeWorld.tables.idempotencyKeys := List.Pairwise.nil
  have hstart : ∀ i, noticeWorld.progress i = started noticeRenderer (noticeRequests i).1 :=
    fun _ ↦ rfl
  exact ⟨by decide +kernel, (idempotent_creation hunique rfl hstart _).1 1 "closed"⟩

end Requests

end Jaunder.Storage.IdempotentCreation
