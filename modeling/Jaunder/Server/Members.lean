import Jaunder.Storage.Posts.AudienceRows

namespace Jaunder.Server.Members

open Foundation.Outcome Foundation.Run
open Jaunder.Common.Org Jaunder.Common.Tag Jaunder.Common.Time Jaunder.Common.Visibility
open Jaunder.Host.ContentEtag
open Storage.Posts Storage.Posts.AudienceRows Storage.Posts.Lifecycle Storage.Posts.Tables
open Storage.Posts.Update

inductive Status
  | badRequest
  | notFound
  | conflict
  | preconditionFailed
  | internalError
deriving DecidableEq

/-- `From<PerformUpdateError> for HandlerError` -/
def updateStatus : UpdatePostError → Status
  | .notFound => .notFound
  | .unauthorized => .notFound
  | .slugConflict => .conflict
  | .bookkeepingMismatch => .badRequest
  | .staleContent => .preconditionFailed
  | .internal _ => .internalError

/-- A request on a member. A replacement comes with the outcome of reading its entry, which names no
audiences or some. -/
inductive Method
  | put (entry : Except Status UpdatePostInput) (audiences : Presence (List AudienceTarget))
  | delete (now : UtcInstant)

structure Request where
  ifMatch : Option String
  method : Method

/-- Where a request is. An accepted one has run its write transaction. -/
inductive Phase
  | fresh
  | loaded (post : PostRecord)
  | matched
  | prepared (input : UpdatePostInput)
  | refused (status : Status)
  | accepted (changed : Bool)
deriving DecidableEq

def Phase.isDone : Phase → Bool
  | .refused _ => true
  | .accepted _ => true
  | _ => false

variable (d : Dialect) (projection : Option String → String → String)
  (digest : PostContentEtag → String)

def etagFor (post : PostRecord) (audiences : List AudienceTarget) : String :=
  (contentEtag post.columns (post.tags.map PostTag.tagDisplay) audiences).etag digest

def ifMatchSatisfied (header : Option String) (etag : String) : Bool :=
  header.all (fun value ↦ value = "*" ∨ etag = value)

def ownedPost (s : PostTables) (userId postId : ℤ) : Except Status PostRecord :=
  match fetchPost s postId with
  | .error .rowNotFound => .error .notFound
  | .error _ => .error .internalError
  | .ok post =>
    if post.columns.userId ≠ userId ∨ post.columns.deletedAt.isSome then .error .notFound
    else .ok post

/-- The next step of a request: read the post, read its audiences and compare, run the write. -/
def advance (userId postId : ℤ) (request : Request) (s : PostTables) : Phase → Phase × PostTables
  | .fresh =>
    match ownedPost s userId postId with
    | .error status => (.refused status, s)
    | .ok post => (.loaded post, s)
  | .loaded post =>
    if ifMatchSatisfied request.ifMatch (etagFor digest post (getPostAudiences s postId)) then
      (.matched, s)
    else (.refused .preconditionFailed, s)
  | .matched =>
    match request.method with
    | .delete now =>
      match changeLifecycle s postId userId .softDelete now with
      | .error error => (.refused (updateStatus error), s)
      | .ok (mutation, s') => (.accepted mutation.changed, s')
    | .put (.error status) _ => (.refused status, s)
    | .put (.ok input) .absent => (.prepared { input with audiences := getPostAudiences s postId }, s)
    | .put (.ok input) (.present audiences) => (.prepared { input with audiences := audiences }, s)
  | .prepared input =>
    match updatePost d projection digest s postId userId input with
    | .error error => (.refused (updateStatus error), s)
    | .ok (mutation, s') => (.accepted mutation.changed, s')
  | .refused status => (.refused status, s)
  | .accepted changed => (.accepted changed, s)

/-- Two requests on one member, and the database. -/
structure Exchange where
  db : PostTables
  phase : Bool → Phase

/-- One of the two takes its next step. -/
def step (userId postId : ℤ) (requests : Bool → Request) (x : Exchange) (i : Bool) : Exchange where
  db := (advance d projection digest userId postId (requests i) x.db (x.phase i)).2
  phase := Function.update x.phase i
    (advance d projection digest userId postId (requests i) x.db (x.phase i)).1

def started (s : PostTables) : Exchange := ⟨s, fun _ ↦ .fresh⟩

variable {d projection digest} {userId postId : ℤ} {requests : Bool → Request} {s : PostTables}
  {x : Exchange} {i : Bool}

section Moves

def Phase.rank : Phase → ℕ
  | .fresh => 4
  | .loaded _ => 3
  | .matched => 2
  | .prepared _ => 1
  | .refused _ => 0
  | .accepted _ => 0

theorem rank_eq_zero_iff {phase : Phase} : phase.rank = 0 ↔ phase.isDone = true := by
  cases phase <;> simp [Phase.rank, Phase.isDone]

/-- Every own step brings a request closer to its answer. -/
theorem rank_advance (request : Request) (s : PostTables) (phase : Phase) :
    (advance d projection digest userId postId request s phase).1.rank ≤ phase.rank - 1 := by
  cases phase with
  | fresh =>
    unfold advance
    cases ownedPost s userId postId <;> simp [Phase.rank]
  | loaded post =>
    unfold advance
    dsimp only
    split_ifs <;> simp [Phase.rank]
  | matched =>
    unfold advance
    obtain ⟨ifMatch, method⟩ := request
    cases method with
    | delete now =>
      dsimp only
      cases changeLifecycle s postId userId .softDelete now <;> simp [Phase.rank]
    | put entry audiences =>
      cases entry <;> cases audiences <;> simp [Phase.rank]
  | prepared input =>
    unfold advance
    dsimp only
    cases updatePost d projection digest s postId userId input <;> simp [Phase.rank]
  | refused status => exact le_rfl
  | accepted changed => exact le_rfl

theorem phase_step_self : (step d projection digest userId postId requests x i).phase i =
    (advance d projection digest userId postId (requests i) x.db (x.phase i)).1 :=
  Function.update_self i _ x.phase

theorem phase_step_of_ne {j : Bool} (h : j ≠ i) :
    (step d projection digest userId postId requests x i).phase j = x.phase j :=
  Function.update_of_ne h _ x.phase

theorem rank_run (moves : List Bool) (j : Bool) :
    ((run (step d projection digest userId postId requests) x moves).phase j).rank ≤
      (x.phase j).rank - moves.count j := by
  induction moves generalizing x with
  | nil => exact le_rfl
  | cons i moves ih =>
    rw [run_cons]
    refine ih.trans ?_
    by_cases hij : j = i
    · subst hij
      rw [phase_step_self, List.count_cons_self]
      have hrank : (advance d projection digest userId postId (requests j) x.db (x.phase j)).1.rank ≤
          (x.phase j).rank - 1 := rank_advance (requests j) x.db (x.phase j)
      omega
    · rw [phase_step_of_ne hij, List.count_cons_of_ne (Ne.symm hij)]

/-- Four steps of its own answer a request, whatever the other one does. -/
theorem done_run {moves : List Bool} {j : Bool} (h : 4 ≤ moves.count j) :
    ((run (step d projection digest userId postId requests) x moves).phase j).isDone = true := by
  rw [← rank_eq_zero_iff]
  have hrank : ((run (step d projection digest userId postId requests) x moves).phase j).rank ≤
      (x.phase j).rank - moves.count j := rank_run moves j
  have hstart : (x.phase j).rank ≤ 4 := by cases x.phase j <;> simp [Phase.rank]
  omega

theorem phase_accepted {k : Bool} (h : x.phase k = .accepted true) :
    (step d projection digest userId postId requests x i).phase k = .accepted true := by
  by_cases hk : k = i
  · subst hk
    rw [phase_step_self, h]
    rfl
  · rw [phase_step_of_ne hk, h]

end Moves

section Quiet

/-- Before a write has taken effect, what a request holds comes from the database as it was. -/
def PhaseQuiet (s : PostTables) (postId : ℤ) (request : Request) : Phase → Prop
  | .loaded post => fetchPost s postId = .ok post
  | .prepared input => ∃ entry audiences, request.method = .put (.ok entry) audiences ∧
      input.expectations = entry.expectations
  | _ => True

def Quiet (s : PostTables) (postId : ℤ) (requests : Bool → Request) (x : Exchange) : Prop :=
  x.db = s ∧ ∀ k, PhaseQuiet s postId (requests k) (x.phase k)

theorem ownedPost_ok {post : PostRecord} (h : ownedPost s userId postId = .ok post) :
    fetchPost s postId = .ok post := by
  unfold ownedPost at h
  split at h
  · cases h
  · cases h
  · rename_i post' hfetch
    split_ifs at h
    rw [hfetch, Except.ok.inj h]

theorem advance_quiet {request : Request} {phase : Phase} (h : PhaseQuiet s postId request phase) :
    (advance d projection digest userId postId request s phase).1 = .accepted true ∨
      (advance d projection digest userId postId request s phase).2 = s ∧
        PhaseQuiet s postId request
          (advance d projection digest userId postId request s phase).1 := by
  cases phase with
  | fresh =>
    unfold advance
    cases howned : ownedPost s userId postId with
    | error status => exact .inr ⟨rfl, trivial⟩
    | ok post => exact .inr ⟨rfl, ownedPost_ok howned⟩
  | loaded post =>
    unfold advance
    dsimp only
    split_ifs
    · exact .inr ⟨rfl, trivial⟩
    · exact .inr ⟨rfl, trivial⟩
  | matched =>
    unfold advance
    obtain ⟨ifMatch, method⟩ := request
    cases method with
    | delete now =>
      dsimp only
      cases hdelete : changeLifecycle s postId userId .softDelete now with
      | error error => exact .inr ⟨rfl, trivial⟩
      | ok result =>
        obtain ⟨mutation, s'⟩ := result
        obtain ⟨p, -, -, -, ⟨-, hkept, -⟩ | ⟨hchanged, -⟩⟩ :=
          lifecyclePost_ok (changeLifecycle_ok hdelete)
        · cases hkept
        · exact .inl (congrArg Phase.accepted hchanged)
    | put entry audiences =>
      cases entry with
      | error status => exact .inr ⟨rfl, trivial⟩
      | ok input =>
        cases audiences with
        | absent => exact .inr ⟨rfl, input, .absent, rfl, rfl⟩
        | present audiences => exact .inr ⟨rfl, input, .present audiences, rfl, rfl⟩
  | prepared input =>
    unfold advance
    dsimp only
    cases hupdate : updatePost d projection digest s postId userId input with
    | error error => exact .inr ⟨rfl, trivial⟩
    | ok result =>
      obtain ⟨mutation, s'⟩ := result
      obtain ⟨p, -, -, -, ⟨hchanged, rfl⟩ | ⟨hchanged, -⟩⟩ := updatePost_ok hupdate
      · exact .inr ⟨rfl, trivial⟩
      · exact .inl (congrArg Phase.accepted hchanged)
  | refused status => exact .inr ⟨rfl, trivial⟩
  | accepted changed => exact .inr ⟨rfl, trivial⟩

theorem quiet_step (h : Quiet s postId requests x) :
    Quiet s postId requests (step d projection digest userId postId requests x i) ∨
      (step d projection digest userId postId requests x i).phase i = .accepted true := by
  obtain ⟨rfl, hphase⟩ := h
  rcases advance_quiet (hphase i) with haccepted | ⟨hdb, hquiet⟩
  · refine .inr ?_
    rw [phase_step_self]
    exact haccepted
  · refine .inl ⟨hdb, fun k ↦ ?_⟩
    by_cases hk : k = i
    · subst hk
      rw [phase_step_self]
      exact hquiet
    · rw [phase_step_of_ne hk]
      exact hphase k

theorem quiet_run (s : PostTables) (moves : List Bool) :
    Quiet s postId requests
        (run (step d projection digest userId postId requests) (started s) moves) ∨
      ∃ k, (run (step d projection digest userId postId requests) (started s) moves).phase k =
        .accepted true := by
  refine run_preserves (P := fun x ↦ Quiet s postId requests x ∨ ∃ k, x.phase k = .accepted true)
    (fun x i hx _ ↦ ?_) (.inl ⟨rfl, fun k ↦ trivial⟩) (along_true _ moves)
  rcases hx with hquiet | ⟨k, hk⟩
  · exact (quiet_step hquiet).imp_right (fun h ↦ ⟨i, h⟩)
  · exact .inr ⟨k, phase_accepted hk⟩

end Quiet

/-- The validator of the member as it is. -/
def memberEtag (digest : PostContentEtag → String) (s : PostTables) (postId : ℤ) : Option String :=
  match fetchPost s postId with
  | .error _ => none
  | .ok post => some (etagFor digest post (getPostAudiences s postId))

/-- Refused as one of the statuses, or still on its way. -/
def RefusedOnly (allowed : Status → Prop) : Phase → Prop
  | .refused status => allowed status
  | .accepted _ => False
  | _ => True

/-- The entry itself was refused. -/
def Malformed (request : Request) (status : Status) : Prop :=
  ∃ audiences, request.method = .put (.error status) audiences

section Behind

variable {s' : PostTables} {m : PostMutation} {now : UtcInstant} {E : String} {request : Request}
  {phase : Phase}

theorem etag_of_fetch {post : PostRecord} (hfetch : fetchPost s postId = .ok post)
    (hE : memberEtag digest s postId = some E) :
    etagFor digest post (getPostAudiences s postId) = E := by
  unfold memberEtag at hE
  rw [hfetch] at hE
  exact Option.some.inj hE

theorem fetch_of_etag (hE : memberEtag digest s postId = some E) :
    ∃ post, fetchPost s postId = .ok post := by
  unfold memberEtag at hE
  cases hfetch : fetchPost s postId with
  | error error =>
    rw [hfetch] at hE
    cases hE
  | ok post => exact ⟨post, rfl⟩

/-- A database in which the member has been deleted and is otherwise as it was. -/
structure DeletedFrom (d : Dialect) (projection : Option String → String → String)
    (digest : PostContentEtag → String) (userId postId : ℤ) (s s' : PostTables) : Prop where
  audiences : getPostAudiences s' postId = getPostAudiences s postId
  owned : ownedPost s' userId postId = .error .notFound
  lifecycle : ∀ now, changeLifecycle s' postId userId .softDelete now = .error .notFound
  update : ∀ input, updatePost d projection digest s' postId userId input = .error .unauthorized

theorem deletedFrom_of_ok (hfetch : ∃ post, fetchPost s postId = .ok post)
    (h : changeLifecycle s postId userId .softDelete now = .ok (m, s')) :
    DeletedFrom d projection digest userId postId s s' := by
  obtain ⟨post, hfetch⟩ := hfetch
  obtain ⟨p, hp, huser, -, ⟨-, hkept, -⟩ | ⟨-, hposts, husers, -⟩⟩ :=
    lifecyclePost_ok (changeLifecycle_ok h)
  · cases hkept
  have hlookup : s'.posts.lookup postId = some (PostLifecycleChange.softDelete.apply now p) := by
    rw [hposts, AList.lookup_insert]
  obtain ⟨p', -, hp', -, hpresence, -⟩ := fetchPost_ok hfetch
  obtain rfl := Option.some.inj (hp.symm.trans hp')
  obtain ⟨record, hrecord⟩ : ∃ record, fetchPost s' postId = .ok record :=
    fetchPost_insert hp hfetch
      (show (PostLifecycleChange.softDelete.apply now p).userId = p.userId from rfl)
      hpresence hposts husers
  refine ⟨?_, ?_, fun now' ↦ ?_, fun input ↦ ?_⟩
  · unfold getPostAudiences
    rw [hlookup, hp]
    rfl
  · obtain ⟨q, u, hq, -, -, hcolumns⟩ := fetchPost_ok hrecord
    obtain rfl := Option.some.inj (hlookup.symm.trans hq)
    have hdeleted : record.columns.userId ≠ userId ∨ record.columns.deletedAt.isSome = true := by
      rw [hcolumns]
      exact .inr rfl
    unfold ownedPost
    rw [hrecord]
    exact if_pos hdeleted
  · unfold changeLifecycle lifecyclePost
    rw [hlookup]
    simp [PostLifecycleChange.apply, Except.mapError]
  · unfold updatePost
    have hnot : ¬((PostLifecycleChange.softDelete.apply now p).userId = userId ∧
        (PostLifecycleChange.softDelete.apply now p).deletedAt = none) := by
      simp [PostLifecycleChange.apply]
    rw [hlookup, orError_some, ok_bind, require_neg hnot, error_bind]

/-- What is left of a request after the other one has deleted the member. -/
def AfterDelete (digest : PostContentEtag → String) (s : PostTables) (postId : ℤ) (E : String)
    (request : Request) : Phase → Prop
  | .loaded post => etagFor digest post (getPostAudiences s postId) = E
  | .refused status => status = .notFound ∨ Malformed request status
  | .accepted _ => False
  | _ => True

theorem advance_afterDelete (hdeleted : DeletedFrom d projection digest userId postId s s')
    (hmatch : request.ifMatch = some E) (h : AfterDelete digest s postId E request phase) :
    (advance d projection digest userId postId request s' phase).2 = s' ∧
      AfterDelete digest s postId E request
        (advance d projection digest userId postId request s' phase).1 := by
  cases phase with
  | fresh =>
    unfold advance
    rw [hdeleted.owned]
    exact ⟨rfl, .inl rfl⟩
  | loaded post =>
    have hetag : etagFor digest post (getPostAudiences s postId) = E := h
    have hsatisfied : ifMatchSatisfied request.ifMatch
        (etagFor digest post (getPostAudiences s' postId)) = true := by
      rw [hmatch, hdeleted.audiences, hetag]
      simp [ifMatchSatisfied]
    unfold advance
    dsimp only
    rw [if_pos hsatisfied]
    exact ⟨rfl, trivial⟩
  | matched =>
    unfold advance
    obtain ⟨ifMatch, method⟩ := request
    cases method with
    | delete now =>
      dsimp only
      rw [hdeleted.lifecycle now]
      exact ⟨rfl, .inl rfl⟩
    | put entry audiences =>
      cases entry with
      | error status => exact ⟨rfl, .inr ⟨audiences, rfl⟩⟩
      | ok input => cases audiences <;> exact ⟨rfl, trivial⟩
  | prepared input =>
    unfold advance
    dsimp only
    rw [hdeleted.update input]
    exact ⟨rfl, .inl rfl⟩
  | refused status => exact ⟨rfl, h⟩
  | accepted changed => exact h.elim

/-- The member of the user with another validator. -/
structure ReplacedBy (digest : PostContentEtag → String) (userId postId : ℤ) (E : String)
    (s' : PostTables) (post : PostRecord) : Prop where
  owned : ownedPost s' userId postId = .ok post
  etag : etagFor digest post (getPostAudiences s' postId) ≠ E

/-- What is left of a request that reads the member after the other one has replaced it. -/
def ReadsLater (post : PostRecord) : Phase → Prop
  | .fresh => True
  | .loaded post' => post' = post
  | .refused status => status = .preconditionFailed
  | _ => False

theorem advance_readsLater {post : PostRecord} (hreplaced : ReplacedBy digest userId postId E s' post)
    (hmatch : request.ifMatch = some E) (hstar : E ≠ "*") (h : ReadsLater post phase) :
    (advance d projection digest userId postId request s' phase).2 = s' ∧
      ReadsLater post (advance d projection digest userId postId request s' phase).1 := by
  cases phase with
  | fresh =>
    unfold advance
    rw [hreplaced.owned]
    exact ⟨rfl, rfl⟩
  | loaded post' =>
    obtain rfl : post' = post := h
    have hfails : ¬ifMatchSatisfied request.ifMatch
        (etagFor digest post' (getPostAudiences s' postId)) = true := by
      rw [hmatch]
      simp [ifMatchSatisfied, hstar, hreplaced.etag]
    unfold advance
    dsimp only
    rw [if_neg hfails]
    exact ⟨rfl, rfl⟩
  | refused status => exact ⟨rfl, h⟩
  | matched => exact h.elim
  | prepared input => exact h.elim
  | accepted changed => exact h.elim

/-- A replacement whose body names, as `JAUNDER_SYNCED`, the validator that it was made from. -/
def Synced (E : String) (request : Request) : Prop :=
  ∃ entry audiences, request.method = .put entry audiences ∧
    ∀ input, entry = .ok input → input.expectations.contentEtag = some E

/-- What is left of such a request after the other one has replaced the member. -/
def SyncedBehind (E : String) (request : Request) : Phase → Prop
  | .prepared input => input.expectations.contentEtag = some E
  | .refused status => status = .preconditionFailed ∨ status = .badRequest ∨ Malformed request status
  | .accepted _ => False
  | _ => True

theorem ownedPost_cases {post : PostRecord} (h : ownedPost s userId postId = .ok post) :
    ∃ (p : Post) (u : Author), s.posts.lookup postId = some p ∧ p.userId = userId ∧
      p.deletedAt = none ∧ p.title.isSome = p.renderedTitle.isSome ∧
      post = ⟨postId, u.username, u.displayName, p.toPostColumns, tagsBySlug p.tags⟩ := by
  have hfetch := ownedPost_ok h
  obtain ⟨p, u, hp, -, hpresence, rfl⟩ := fetchPost_ok hfetch
  unfold ownedPost at h
  simp only [hfetch] at h
  split_ifs at h with hforeign
  obtain ⟨huser, hlive⟩ := not_or.mp hforeign
  exact ⟨p, u, hp, not_not.mp huser, by simpa using hlive, hpresence, rfl⟩

theorem currentAudiences_perm {p : Post} (hp : s.posts.lookup postId = some p) :
    (p.audiences.filterMap audienceTargetFromRow).Perm (getPostAudiences s postId) := by
  unfold getPostAudiences
  rw [hp]
  exact (List.perm_insertionSort _ _).symm.filterMap _

/-- The locked check of the content validator refuses what the unlocked one let through. -/
theorem updatePost_stale {post : PostRecord} {input : UpdatePostInput}
    (hreplaced : ReplacedBy digest userId postId E s' post)
    (hsynced : input.expectations.contentEtag = some E) :
    ∃ error, updatePost d projection digest s' postId userId input = .error error ∧
      (updateStatus error = .preconditionFailed ∨ updateStatus error = .badRequest) := by
  obtain ⟨q, u, hq, huser, hlive, hpresence, rfl⟩ := ownedPost_cases hreplaced.owned
  have hetag : (contentEtag q.toPostColumns ((tagsBySlug q.tags).map PostTag.tagDisplay)
      (q.audiences.filterMap audienceTargetFromRow)).etag digest ≠ E := by
    rw [PostContentEtag.etag_perm (currentAudiences_perm hq)]
    exact hreplaced.etag
  obtain ⟨error, herror⟩ : ∃ error, updateExpectationError digest postId q.toPostColumns
      ((tagsBySlug q.tags).map PostTag.tagDisplay) (q.audiences.filterMap audienceTargetFromRow)
      input = some error := by
    rw [← Option.isSome_iff_exists]
    unfold updateExpectationError
    simp only [hsynced, Option.any_some, decide_eq_true_iff, ne_eq, hetag.symm, not_false_eq_true]
    split_ifs <;> rfl
  refine ⟨error, ?_, ?_⟩
  · have howner : q.userId = userId ∧ q.deletedAt = none := ⟨huser, hlive⟩
    unfold updatePost validateRenderedTitlePresence
    rw [hq, orError_some, ok_bind, require_pos howner, ok_bind, require_pos hpresence]
    simp only [Except.mapError, ok_bind, herror, Option.elim_some, error_bind]
  · rcases updateExpectationError_cases herror with rfl | rfl
    · exact .inr rfl
    · exact .inl rfl

theorem advance_syncedBehind {post : PostRecord}
    (hreplaced : ReplacedBy digest userId postId E s' post) (hsynced : Synced E request)
    (h : SyncedBehind E request phase) :
    (advance d projection digest userId postId request s' phase).2 = s' ∧
      SyncedBehind E request
        (advance d projection digest userId postId request s' phase).1 := by
  cases phase with
  | fresh =>
    unfold advance
    rw [hreplaced.owned]
    exact ⟨rfl, trivial⟩
  | loaded post' =>
    unfold advance
    dsimp only
    split_ifs
    · exact ⟨rfl, trivial⟩
    · exact ⟨rfl, .inl rfl⟩
  | matched =>
    unfold advance
    obtain ⟨entry, audiences, hmethod, hentry⟩ := hsynced
    rw [hmethod]
    cases entry with
    | error status => exact ⟨rfl, .inr (.inr ⟨audiences, hmethod⟩)⟩
    | ok input => cases audiences <;> exact ⟨rfl, hentry input rfl⟩
  | prepared input =>
    obtain ⟨error, herror, hstatus⟩ := updatePost_stale hreplaced h
    unfold advance
    dsimp only
    rw [herror]
    exact ⟨rfl, hstatus.elim .inl (fun h ↦ .inr (.inl h))⟩
  | refused status => exact ⟨rfl, h⟩
  | accepted changed => exact h.elim

end Behind

/-- The request changes nothing any more and is refused as one of the statuses, within four of its
own steps. -/
structure Settled (allowed : Status → Prop) (after : List Bool) (j : Bool) (x y : Exchange) :
    Prop where
  db : y.db = x.db
  refused : RefusedOnly allowed (y.phase j)
  answered : 4 ≤ after.count j → (y.phase j).isDone = true

section Settling

variable {E : String} {y : Exchange} {before after : List Bool}

/-- What one step of the second request keeps holds of it to the end. -/
theorem settled_of_advance {P : Phase → Prop} {allowed : Status → Prop}
    (hi : x.phase i = .accepted true) (hj : P (x.phase (!i)))
    (hadvance : ∀ phase, P phase →
      (advance d projection digest userId postId (requests (!i)) x.db phase).2 = x.db ∧
        P (advance d projection digest userId postId (requests (!i)) x.db phase).1)
    (hP : ∀ phase, P phase → RefusedOnly allowed phase) :
    Settled allowed after (!i) x
      (run (step d projection digest userId postId requests) x after) := by
  have hkept : (run (step d projection digest userId postId requests) x after).db = x.db ∧
      (run (step d projection digest userId postId requests) x after).phase i = .accepted true ∧
      P ((run (step d projection digest userId postId requests) x after).phase (!i)) := by
    refine run_preserves (P := fun y ↦ y.db = x.db ∧ y.phase i = .accepted true ∧ P (y.phase (!i)))
      (fun y k hy _ ↦ ?_) ⟨rfl, hi, hj⟩ (along_true x after)
    obtain ⟨hdb, hyi, hyj⟩ := hy
    by_cases hk : k = i
    · subst hk
      refine ⟨?_, phase_accepted hyi, ?_⟩
      · rw [← hdb, step, hyi]
        rfl
      · rw [phase_step_of_ne (Bool.not_ne_self k)]
        exact hyj
    · obtain rfl : k = !i := Bool.eq_not.mpr hk
      obtain ⟨hstill, hnext⟩ := hadvance _ hyj
      refine ⟨?_, phase_accepted hyi, ?_⟩
      · rw [← hdb] at hstill
        rw [← hdb]
        exact hstill
      · rw [phase_step_self, hdb]
        exact hnext
  exact ⟨hkept.1, hP _ hkept.2.2, done_run⟩

/-- A step that takes effect is the write transaction of a deletion or of a replacement. -/
theorem effect_cases (hnot : x.phase i ≠ .accepted true)
    (heffect : (step d projection digest userId postId requests x i).phase i = .accepted true) :
    (∃ now m, (requests i).method = .delete now ∧ changeLifecycle x.db postId userId .softDelete now =
      .ok (m, (step d projection digest userId postId requests x i).db)) ∨
    ∃ input m, x.phase i = .prepared input ∧ m.changed = true ∧
      updatePost d projection digest x.db postId userId input =
        .ok (m, (step d projection digest userId postId requests x i).db) := by
  rw [phase_step_self] at heffect
  unfold step
  dsimp only
  cases hphase : x.phase i with
  | fresh =>
    rw [hphase] at heffect
    unfold advance at heffect
    cases howned : ownedPost x.db userId postId <;> simp [howned] at heffect
  | loaded post =>
    rw [hphase] at heffect
    unfold advance at heffect
    dsimp only at heffect
    split_ifs at heffect
  | matched =>
    rw [hphase] at heffect
    unfold advance at heffect ⊢
    cases hmethod : (requests i).method with
    | delete now =>
      simp only [hmethod] at heffect ⊢
      cases hdelete : changeLifecycle x.db postId userId .softDelete now with
      | error error => simp [hdelete] at heffect
      | ok result => exact .inl ⟨now, result.1, rfl, hdelete⟩
    | put entry audiences =>
      simp only [hmethod] at heffect
      cases entry <;> cases audiences <;> simp at heffect
  | prepared input =>
    rw [hphase] at heffect
    unfold advance at heffect ⊢
    dsimp only at heffect ⊢
    cases hupdate : updatePost d projection digest x.db postId userId input with
    | error error => simp [hupdate] at heffect
    | ok result =>
      rw [hupdate] at heffect
      exact .inr ⟨input, result.1, rfl, Phase.accepted.inj heffect, hupdate⟩
  | refused status =>
    rw [hphase] at heffect
    cases heffect
  | accepted changed =>
    rw [hphase] at heffect
    exact absurd (hphase.trans heffect) hnot

theorem not_isDone_of_quiet (hquiet : Quiet s postId requests x)
    (hE : memberEtag digest s postId = some E) (hdone : (x.phase i).isDone = false) :
    AfterDelete digest s postId E (requests i) (x.phase i) := by
  have hphase := hquiet.2 i
  cases hi : x.phase i with
  | loaded post =>
    rw [hi] at hphase
    exact etag_of_fetch hphase hE
  | refused status =>
    rw [hi] at hdone
    cases hdone
  | accepted changed =>
    rw [hi] at hdone
    cases hdone
  | fresh => trivial
  | matched => trivial
  | prepared input => trivial

theorem syncedBehind_of_quiet (hquiet : Quiet s postId requests x) (hsynced : Synced E (requests i))
    (hdone : (x.phase i).isDone = false) : SyncedBehind E (requests i) (x.phase i) := by
  have hphase := hquiet.2 i
  cases hi : x.phase i with
  | prepared input =>
    rw [hi] at hphase
    obtain ⟨entry, audiences, hmethod, hexpectations⟩ := hphase
    obtain ⟨entry', audiences', hmethod', hentry⟩ := hsynced
    obtain ⟨rfl, -⟩ := Method.put.inj (hmethod'.symm.trans hmethod)
    change input.expectations.contentEtag = some E
    rw [hexpectations, hentry entry rfl]
  | refused status =>
    rw [hi] at hdone
    cases hdone
  | accepted changed =>
    rw [hi] at hdone
    cases hdone
  | fresh => trivial
  | loaded post => trivial
  | matched => trivial

/-- The replacement of a member leaves it in the hands of its user. -/
theorem replacedBy_of_ok {s' : PostTables} {m : PostMutation} {input : UpdatePostInput}
    (hfetch : ∃ post, fetchPost s postId = .ok post) (hchanged : m.changed = true)
    (h : updatePost d projection digest s postId userId input = .ok (m, s'))
    (hother : memberEtag digest s' postId ≠ some E) :
    ∃ post, ReplacedBy digest userId postId E s' post := by
  obtain ⟨post, hfetch⟩ := hfetch
  obtain ⟨p, hp, huser, hlive, ⟨hkept, -⟩ | ⟨-, diff, rows, -, -, hposts, husers, -⟩⟩ :=
    updatePost_ok h
  · rw [hchanged] at hkept
    cases hkept
  obtain ⟨record, hrecord⟩ : ∃ record, fetchPost s' postId = .ok record :=
    fetchPost_insert hp hfetch
      (show (updatedPost projection p input diff rows).userId = p.userId from rfl)
      input.rendered.presence hposts husers
  obtain ⟨q, u, hq, -, -, hcolumns⟩ := fetchPost_ok hrecord
  rw [hposts, AList.lookup_insert] at hq
  obtain rfl := Option.some.inj hq
  have howned : ¬(record.columns.userId ≠ userId ∨ record.columns.deletedAt.isSome = true) := by
    rw [hcolumns]
    simp [updatedPost, huser, hlive]
  refine ⟨record, ?_, fun hetag ↦ hother ?_⟩
  · unfold ownedPost
    simp only [hrecord]
    exact if_neg howned
  · unfold memberEtag
    simp only [hrecord, hetag]

/-- Two requests carry the validator of the member as it was before both. Once one of them has taken
effect, the other is settled: after a deletion wherever it is, after a replacement that changes the
validator when it has not yet read the member or names the validator as `JAUNDER_SYNCED`. -/
theorem later_write_settled (hE : memberEtag digest s postId = some E) (hstar : E ≠ "*")
    (hmatch : ∀ k, (requests k).ifMatch = some E)
    (hx : x = run (step d projection digest userId postId requests) (started s) before)
    (hnot : x.phase i ≠ .accepted true)
    (heffect : (step d projection digest userId postId requests x i).phase i = .accepted true)
    (hother : (x.phase (!i)).isDone = false)
    (hy : y = run (step d projection digest userId postId requests) x (i :: after)) :
    ((∃ now, (requests i).method = .delete now) →
      Settled (fun status ↦ status = .notFound ∨ Malformed (requests (!i)) status) after (!i)
        (step d projection digest userId postId requests x i) y) ∧
    ((∃ entry audiences, (requests i).method = .put entry audiences) →
      memberEtag digest (step d projection digest userId postId requests x i).db postId ≠ some E →
        (x.phase (!i) = .fresh → Settled (fun status ↦ status = .preconditionFailed) after (!i)
          (step d projection digest userId postId requests x i) y) ∧
        (Synced E (requests (!i)) → Settled (fun status ↦ status = .preconditionFailed ∨
            status = .badRequest ∨ Malformed (requests (!i)) status) after (!i)
          (step d projection digest userId postId requests x i) y)) := by
  have hquiet : Quiet s postId requests x := by
    have hrun : Quiet s postId requests
        (run (step d projection digest userId postId requests) (started s) before) ∨
      ∃ k, (run (step d projection digest userId postId requests) (started s) before).phase k =
        .accepted true := quiet_run s before
    rw [← hx] at hrun
    rcases hrun with hquiet | ⟨k, hk⟩
    · exact hquiet
    · by_cases hki : k = i
      · exact absurd (hki ▸ hk) hnot
      · rw [Bool.eq_not.mpr hki] at hk
        rw [hk] at hother
        cases hother
  have hphase : (step d projection digest userId postId requests x i).phase (!i) = x.phase (!i) :=
    phase_step_of_ne (Bool.not_ne_self i)
  have hfetch := fetch_of_etag hE
  rw [← hquiet.1] at hfetch
  rw [hy, run_cons]
  refine ⟨?deleted, ?replaced⟩
  case deleted =>
    rintro ⟨now, hmethod⟩
    rcases effect_cases hnot heffect with ⟨now', m, -, hdelete⟩ | ⟨input, m, hprepared, -⟩
    · have hdeleted : DeletedFrom d projection digest userId postId x.db
          (step d projection digest userId postId requests x i).db := deletedFrom_of_ok hfetch hdelete
      rw [hquiet.1] at hdeleted
      refine settled_of_advance heffect (P := AfterDelete digest s postId E (requests (!i))) ?_
        (fun phase h ↦ advance_afterDelete hdeleted (hmatch (!i)) h) (fun phase h ↦ ?_)
      · rw [hphase]
        exact not_isDone_of_quiet hquiet hE hother
      · cases phase <;> first | exact h | trivial
    · have hput := hquiet.2 i
      rw [hprepared] at hput
      obtain ⟨entry, audiences, hput, -⟩ := hput
      rw [hmethod] at hput
      cases hput
  case replaced =>
    rintro ⟨entry, audiences, hmethod⟩ hchanged
    rcases effect_cases hnot heffect with ⟨now', m, hdelete, -⟩ | ⟨input, m, -, hm, hupdate⟩
    · rw [hmethod] at hdelete
      cases hdelete
    obtain ⟨post, hreplaced⟩ := replacedBy_of_ok hfetch hm hupdate hchanged
    refine ⟨fun hfresh ↦ ?_, fun hsynced ↦ ?_⟩
    · refine settled_of_advance heffect (P := ReadsLater post) ?_
        (fun phase h ↦ advance_readsLater hreplaced (hmatch (!i)) hstar h) (fun phase h ↦ ?_)
      · rw [hphase, hfresh]
        trivial
      · cases phase <;> first | exact h | trivial
    · refine settled_of_advance heffect (P := SyncedBehind E (requests (!i))) ?_
        (fun phase h ↦ advance_syncedBehind hreplaced hsynced h) (fun phase h ↦ ?_)
      · rw [hphase]
        exact syncedBehind_of_quiet hquiet hsynced hother
      · cases phase <;> first | exact h | trivial

end Settling

section Notice

def audienceText : AudienceTarget → String
  | .public_ => "public"
  | .private_ => "private"
  | .subscribers => "subscribers"
  | .named _ => "named"

def memberDigest (content : PostContentEtag) : String :=
  String.intercalate "|" ([content.title.getD "", content.slug, content.body,
    if content.format = .org then "org" else "other", content.summary.getD "",
    if content.draft then "draft" else "live"] ++
      content.tags.map TagLabel.value ++ content.audiences.map audienceText)

def noticeMember : PostTables :=
  run (Runs.step .sqlite noticeProjection memberDigest) noticeTables [createNotice [.public_]]

def noticeEtag : String := "|notice|Closed today.|org||live|public"

def laterClock : UtcInstant := .secondAfterEpoch

/-- A replacement of the notice, without `JAUNDER_SYNCED`. -/
def putNotice (body : String) (at_ : UtcInstant) : Request where
  ifMatch := some noticeEtag
  method := .put (.ok ⟨"notice", untitledOrg body ("<p>" ++ body ++ "</p>"),
    .publish (some at_), none, [], some [], laterClock, .none⟩) (.present [.public_])

def deleteNotice : Request := ⟨some noticeEtag, .delete laterClock⟩

def putTwice (i : Bool) : Request :=
  if i then putNotice "Open again." noticeClock else putNotice "Closed all week." noticeClock

theorem later_put_of_notice_settled :
    Settled (fun status ↦ status = .preconditionFailed) [true, true, true, true] true
      (step .sqlite noticeProjection memberDigest 1 1 putTwice
        (run (step .sqlite noticeProjection memberDigest 1 1 putTwice) (started noticeMember)
          [false, false, false]) false)
      (run (step .sqlite noticeProjection memberDigest 1 1 putTwice)
        (run (step .sqlite noticeProjection memberDigest 1 1 putTwice) (started noticeMember)
          [false, false, false]) [false, true, true, true, true]) := by
  have hchanged : memberEtag memberDigest
      (step .sqlite noticeProjection memberDigest 1 1 putTwice
        (run (step .sqlite noticeProjection memberDigest 1 1 putTwice) (started noticeMember)
          [false, false, false]) false).db 1 ≠ some noticeEtag := by decide +kernel
  exact ((later_write_settled (by decide +kernel) (by decide +kernel)
    (fun k ↦ by cases k <;> rfl) rfl (by decide +kernel) (by decide +kernel) (by decide +kernel)
      rfl).2 ⟨_, _, rfl⟩ hchanged).1 rfl

/-- A second deletion is answered 404; two replacements that have both compared both take effect; so
do two of which the first only moves the publication time, which the validator leaves out. -/
theorem conditional_writes_lose_update :
    memberEtag memberDigest noticeMember 1 = some noticeEtag ∧
    (List.map (run (step .sqlite noticeProjection memberDigest 1 1 (fun _ ↦ deleteNotice))
        (started noticeMember) [false, false, false, true]).phase [false, true] =
      [.accepted true, .refused .notFound]) ∧
    (List.map (run (step .sqlite noticeProjection memberDigest 1 1 putTwice)
        (started noticeMember) [false, false, true, true, false, false, true, true]).phase
        [false, true] = [.accepted true, .accepted true]) ∧
    (List.map (run (step .sqlite noticeProjection memberDigest 1 1
        (fun i ↦ if i then putNotice "Open again." noticeClock
          else putNotice "Closed today." laterClock)) (started noticeMember)
        [false, false, false, false, true, true, true, true]).phase [false, true] =
      [.accepted true, .accepted true]) := by
  exact ⟨by decide +kernel, by decide +kernel, by decide +kernel, by decide +kernel⟩

end Notice

end Jaunder.Server.Members
