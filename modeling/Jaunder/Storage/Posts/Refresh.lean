import Jaunder.Storage.PostService

namespace Jaunder.Storage.Posts.Refresh

open Foundation.Outcome
open Jaunder.Common.Render Jaunder.Common.Time
open Jaunder.Host.FeedPath Jaunder.Host.Render
open Jaunder.Storage.FeedEvents Jaunder.Storage.PostService Jaunder.Storage.Posts.Lifecycle
open Jaunder.Storage.Posts.Tables

/-- The row of `post_projection_refresh_progress`. -/
structure RefreshProgress where
  version : ℤ
  cursorPostId : ℤ
  completed : Bool
deriving DecidableEq

/-- The rows that a refresh reads and writes. -/
structure ProjectionStore extends Store where
  progress : Option RefreshProgress

inductive PostProjectionRefreshError
  | storage (error : DbError)
  | render (error : HighlightError)
  | checkpoint
  | stale (postId : ℤ)
  | indeterminateCommits
deriving DecidableEq

structure BatchProgress where
  cursor : ℤ
  completed : Bool
  changed : ℕ
deriving DecidableEq

def version : ℤ := 1

def batchSize : ℕ := 100

/-- `deleted_at IS NULL AND format IN ('org', 'markdown')` -/
def refreshable (p : Post) : Bool := p.deletedAt = none ∧ (p.format = .org ∨ p.format = .markdown)

def candidates (s : PostTables) (cursor : ℤ) : List ℤ :=
  ((s.posts.keys.filter (fun postId ↦
    cursor < postId ∧ (s.posts.lookup postId).any refreshable)).insertionSort (· ≤ ·)).take batchSize

variable (L : Libraries)

/-- `UPDATE posts SET rendered_html` with `replace_post_media`. -/
def projectedPost (p : Post) (rendered : RenderOutput) : Post :=
  { p with renderedHtml := rendered.html, media := mediaReferenceRows rendered.media }

/-- Reads the locked row; no other writer can make the guarded UPDATE miss it. -/
def refreshCandidate (s : PostTables) (postId : ℤ) :
    Except PostProjectionRefreshError (Option (PostRecord × Bool) × PostTables) :=
  match s.posts.lookup postId with
  | none => .ok (none, s)
  | some p => do
    let record ← (fetchPost s postId).mapError .storage
    if ¬refreshable p then return (none, s)
    else
      let rendered ← (withMedia L record.columns.body record.columns.format).mapError .render
      if record.columns.renderedHtml = rendered.html then return (none, s)
      else
        require (p.body = record.columns.body ∧ p.format = record.columns.format ∧
          p.renderedHtml = record.columns.renderedHtml ∧ p.deletedAt = none) (.stale postId)
        return (some (record, hasPublicAudience p),
          { s with posts := s.posts.insert postId (projectedPost p rendered) })

/-- What the candidates of a batch have changed so far. -/
structure Refreshed where
  tables : PostTables
  changed : ℕ
  affected : List FeedPath

/-- `now` is the clock when the post of that id is done. -/
def refreshNext (now : ℤ → UtcInstant) (r : Refreshed) (postId : ℤ) :
    Except PostProjectionRefreshError Refreshed := do
  let (change, tables) ← refreshCandidate L r.tables postId
  match change with
  | none => return { r with tables }
  | some current => return {
      tables
      changed := r.changed + 1
      affected := r.affected ++ affectedPostFeedPaths none current (now postId) }

def refreshAll (now : ℤ → UtcInstant) (s : PostTables) (ids : List ℤ) :
    Except PostProjectionRefreshError Refreshed :=
  ids.foldlM (refreshNext L now) ⟨s, 0, []⟩

/-- Once per affected URL. -/
def sortedPaths (affected : List FeedPath) : List FeedPath :=
  affected.dedup.insertionSort (fun a b ↦ a.text ≤ b.text)

/-- The first reads of a batch, under the lock of the progress row. -/
inductive Scan
  | completed (cursor : ℤ)
  | pending (cursor : ℤ) (ids : List ℤ)
deriving DecidableEq

def scan (s : ProjectionStore) : Except PostProjectionRefreshError Scan := do
  let progress ← orError s.progress .checkpoint
  require (progress.version = version ∧ 0 ≤ progress.cursorPostId) .checkpoint
  return if progress.completed then .completed progress.cursorPostId
    else .pending progress.cursorPostId (candidates s.tables progress.cursorPostId)

/-- The guarded UPDATE of the progress row. -/
def checkpoint (progress : Option RefreshProgress) (cursor : ℤ) (done : Bool) :
    Except PostProjectionRefreshError RefreshProgress := do
  let progress ← orError progress .checkpoint
  require (progress.version = version ∧ progress.cursorPostId ≤ cursor ∧ ¬progress.completed) .checkpoint
  return { progress with cursorPostId := cursor, completed := done }

/-- The writes of a batch; `clock` is the clock of the database. -/
def project (now : ℤ → UtcInstant) (clock : UtcInstant) (s : ProjectionStore) (cursor : ℤ)
    (ids : List ℤ) : Except PostProjectionRefreshError (BatchProgress × ProjectionStore) := do
  let r ← refreshAll L now s.tables ids
  let cursor := ids.getLast?.getD cursor
  let done : Bool := ids.length < batchSize
  let paths := sortedPaths r.affected
  let progress ← checkpoint s.progress cursor done
  return (⟨cursor, done, r.changed⟩, {
    tables := r.tables
    feedEvents := if paths = [] then s.feedEvents else enqueueMany clock paths s.feedEvents
    progress := some progress })

/-- One write scope. -/
def batch (now : ℤ → UtcInstant) (clock : UtcInstant) (s : ProjectionStore) :
    Except PostProjectionRefreshError (BatchProgress × ProjectionStore) := do
  match ← scan s with
  | .completed cursor => return (⟨cursor, true, 0⟩, s)
  | .pending cursor ids => project L now clock s cursor ids

section Candidates

variable {s : PostTables} {postId cursor : ℤ}

def awaiting (s : PostTables) (cursor : ℤ) : List ℤ :=
  (s.posts.keys.filter (fun postId ↦
    cursor < postId ∧ (s.posts.lookup postId).any refreshable)).insertionSort (· ≤ ·)

theorem mem_awaiting : postId ∈ awaiting s cursor ↔
    cursor < postId ∧ ∃ p, s.posts.lookup postId = some p ∧ refreshable p = true := by
  rw [awaiting, List.mem_insertionSort, List.mem_filter, decide_eq_true_eq, Option.any_eq_true]
  constructor
  · rintro ⟨-, hcursor, p, hp, hrefreshable⟩
    exact ⟨hcursor, p, hp, hrefreshable⟩
  · rintro ⟨hcursor, p, hp, hrefreshable⟩
    exact ⟨AList.mem_keys.mpr (AList.lookup_isSome.mp (by rw [hp]; rfl)), hcursor, p, hp, hrefreshable⟩

theorem awaiting_sorted (s : PostTables) (cursor : ℤ) : (awaiting s cursor).Pairwise (· < ·) := by
  have hnodup : (awaiting s cursor).Nodup :=
    (List.perm_insertionSort _ _).nodup_iff.mpr (s.posts.keys_nodup.filter _)
  have hsorted : (awaiting s cursor).Pairwise (· ≤ ·) := List.pairwise_insertionSort _ _
  exact (hsorted.and hnodup).imp (fun h ↦ lt_of_le_of_ne h.1 h.2)

theorem candidates_eq (s : PostTables) (cursor : ℤ) :
    candidates s cursor = (awaiting s cursor).take batchSize := rfl

theorem mem_candidates (h : postId ∈ candidates s cursor) :
    cursor < postId ∧ ∃ p, s.posts.lookup postId = some p ∧ refreshable p = true :=
  mem_awaiting.mp (List.mem_of_mem_take h)

/-- A batch that is not full leaves nothing behind. -/
theorem candidates_of_short (h : (candidates s cursor).length < batchSize) :
    candidates s cursor = awaiting s cursor := by
  rw [candidates_eq] at h ⊢
  rw [List.length_take] at h
  exact List.take_of_length_le (by omega)

/-- A batch takes everything up to its last candidate. -/
theorem mem_candidates_of_le {last : ℤ} (hlast : (candidates s cursor).getLast? = some last)
    (hmem : postId ∈ awaiting s cursor) (hle : postId ≤ last) : postId ∈ candidates s cursor := by
  have hsorted := awaiting_sorted s cursor
  rw [← List.take_append_drop batchSize (awaiting s cursor), List.pairwise_append] at hsorted
  rw [← List.take_append_drop batchSize (awaiting s cursor), List.mem_append] at hmem
  refine hmem.resolve_right (fun hdrop ↦ ?_)
  have hlt := hsorted.2.2 last (List.mem_of_getLast? hlast) postId hdrop
  omega

theorem cursor_le_last (hlast : (candidates s cursor).getLast?.getD cursor = postId) :
    cursor ≤ postId := by
  cases h : (candidates s cursor).getLast? with
  | none =>
    rw [h] at hlast
    exact hlast.le
  | some last =>
    rw [h] at hlast
    obtain rfl : last = postId := hlast
    exact (mem_candidates (List.mem_of_getLast? h)).1.le

end Candidates

section Reprojection

variable {L} {s s' s'' : PostTables} {p p' : Post} {postId : ℤ} {ids ids' : List ℤ}

/-- What a refresh makes of a post. -/
def reprojected (L : Libraries) (p : Post) : Except HighlightError Post := do
  let rendered ← withMedia L p.body p.format
  return if p.renderedHtml = rendered.html then p else projectedPost p rendered

theorem reprojected_ok (h : reprojected L p = .ok p') :
    ∃ rendered, withMedia L p.body p.format = .ok rendered ∧ p'.renderedHtml = rendered.html ∧
      (p' = p ∨ p' = projectedPost p rendered) := by
  obtain ⟨rendered, hrendered, h⟩ := bind_eq_ok.mp h
  refine ⟨rendered, hrendered, ?_⟩
  obtain rfl := pure_eq_ok.mp h
  split_ifs with hhtml
  · exact ⟨hhtml, .inl rfl⟩
  · exact ⟨rfl, .inr rfl⟩

theorem reprojected_authored (h : reprojected L p = .ok p') :
    p'.body = p.body ∧ p'.format = p.format ∧ p'.deletedAt = p.deletedAt := by
  obtain ⟨rendered, -, -, rfl | rfl⟩ := reprojected_ok h
  · exact ⟨rfl, rfl, rfl⟩
  · exact ⟨rfl, rfl, rfl⟩

theorem reprojected_refreshable (h : reprojected L p = .ok p') : refreshable p' = refreshable p := by
  obtain ⟨-, hformat, hdeleted⟩ := reprojected_authored h
  rw [refreshable, refreshable, hformat, hdeleted]

/-- A second refresh changes nothing. -/
theorem reprojected_idem (h : reprojected L p = .ok p') : reprojected L p' = .ok p' := by
  obtain ⟨rendered, hrendered, hhtml, -⟩ := reprojected_ok h
  obtain ⟨hbody, hformat, -⟩ := reprojected_authored h
  rw [reprojected, hbody, hformat, hrendered, ok_bind, if_pos hhtml]
  rfl

/-- What happens to the row of one candidate. -/
def Visited (L : Libraries) (row row' : Option Post) : Prop :=
  (row' = row ∧ ∀ p ∈ row, refreshable p = false) ∨
    ∃ p p', row = some p ∧ refreshable p = true ∧ reprojected L p = .ok p' ∧ row' = some p'

theorem Visited.trans {row row' row'' : Option Post} (h : Visited L row row')
    (h' : Visited L row' row'') : Visited L row row'' := by
  rcases h with ⟨rfl, -⟩ | ⟨p, p', rfl, hrefreshable, hp', rfl⟩
  · exact h'
  · rcases h' with ⟨-, hnot⟩ | ⟨q, q', hq, -, hq', rfl⟩
    · have hfalse := hnot p' rfl
      rw [reprojected_refreshable hp', hrefreshable] at hfalse
      cases hfalse
    · obtain rfl := Option.some.inj hq
      rw [reprojected_idem hp'] at hq'
      exact .inr ⟨p, p', rfl, hrefreshable, hp', by rw [Except.ok.inj hq']⟩

theorem refreshCandidate_ok {change : Option (PostRecord × Bool)}
    (h : refreshCandidate L s postId = .ok (change, s')) :
    s' = { s with posts := s'.posts } ∧
      (∀ other, other ≠ postId → s'.posts.lookup other = s.posts.lookup other) ∧
      Visited L (s.posts.lookup postId) (s'.posts.lookup postId) := by
  unfold refreshCandidate at h
  cases hp : s.posts.lookup postId with
  | none =>
    rw [hp] at h
    obtain ⟨-, rfl⟩ := Prod.mk.inj (Except.ok.inj h)
    exact ⟨rfl, fun _ _ ↦ rfl, .inl ⟨hp, fun q hq ↦ absurd hq (Option.not_mem_none q)⟩⟩
  | some p =>
    rw [hp] at h
    dsimp only at h
    obtain ⟨record, hrecord, h⟩ := bind_eq_ok.mp h
    obtain ⟨p₁, u, hp₁, -, -, rfl⟩ := fetchPost_ok (mapError_eq_ok.mp hrecord)
    obtain rfl := Option.some.inj (hp.symm.trans hp₁)
    cases hrefreshable : refreshable p with
    | false =>
      rw [if_pos (by rw [hrefreshable]; decide)] at h
      obtain ⟨-, rfl⟩ := Prod.mk.inj (pure_eq_ok.mp h)
      refine ⟨rfl, fun _ _ ↦ rfl, .inl ⟨hp, fun q hq ↦ ?_⟩⟩
      rw [← Option.some.inj hq, hrefreshable]
    | true =>
      rw [if_neg (by rw [hrefreshable]; decide)] at h
      obtain ⟨rendered, hrendered, h⟩ := bind_eq_ok.mp h
      have hrendered := mapError_eq_ok.mp hrendered
      have hp' : reprojected L p =
          .ok (if p.renderedHtml = rendered.html then p else projectedPost p rendered) := by
        rw [reprojected, hrendered, ok_bind]
        rfl
      by_cases hhtml : p.renderedHtml = rendered.html
      · rw [if_pos hhtml] at h hp'
        obtain ⟨-, rfl⟩ := Prod.mk.inj (pure_eq_ok.mp h)
        exact ⟨rfl, fun _ _ ↦ rfl, .inr ⟨p, p, rfl, hrefreshable, hp', hp⟩⟩
      · rw [if_neg hhtml] at h hp'
        obtain ⟨_, -, h⟩ := bind_eq_ok.mp h
        have h := pure_eq_ok.mp h
        obtain ⟨-, rfl⟩ := Prod.mk.inj h
        exact ⟨rfl, fun _ hne ↦ AList.lookup_insert_ne hne,
          .inr ⟨p, _, rfl, hrefreshable, hp', AList.lookup_insert _⟩⟩

/-- The candidates of a batch are re-projected and nothing else changes. -/
structure Reprojects (L : Libraries) (ids : List ℤ) (s s' : PostTables) : Prop where
  frame : s' = { s with posts := s'.posts }
  others : ∀ postId, postId ∉ ids → s'.posts.lookup postId = s.posts.lookup postId
  visited : ∀ postId ∈ ids, Visited L (s.posts.lookup postId) (s'.posts.lookup postId)

theorem Reprojects.trans (h : Reprojects L ids s s') (h' : Reprojects L ids' s' s'') :
    Reprojects L (ids ++ ids') s s'' where
  frame := by
    rw [h'.frame, h.frame]
  others := by
    intro postId hmem
    rw [List.mem_append, not_or] at hmem
    rw [h'.others postId hmem.2, h.others postId hmem.1]
  visited := by
    intro postId hmem
    by_cases hfirst : postId ∈ ids
    · by_cases hsecond : postId ∈ ids'
      · exact (h.visited postId hfirst).trans (h'.visited postId hsecond)
      · rw [h'.others postId hsecond]
        exact h.visited postId hfirst
    · have hsecond := (List.mem_append.mp hmem).resolve_left hfirst
      rw [← h.others postId hfirst]
      exact h'.visited postId hsecond

theorem refreshAll_reprojects {now : ℤ → UtcInstant} {r r' : Refreshed}
    (h : ids.foldlM (refreshNext L now) r = .ok r') : Reprojects L ids r.tables r'.tables := by
  induction ids generalizing r with
  | nil =>
    obtain rfl := pure_eq_ok.mp h
    exact ⟨rfl, fun _ _ ↦ rfl, nofun⟩
  | cons postId ids ih =>
    rw [List.foldlM_cons] at h
    obtain ⟨r₁, hnext, h⟩ := bind_eq_ok.mp h
    obtain ⟨⟨change, tables⟩, hcandidate, hnext⟩ := bind_eq_ok.mp hnext
    obtain ⟨hframe, hothers, hvisited⟩ := refreshCandidate_ok hcandidate
    have htables : r₁.tables = tables := by
      cases change with
      | none => rw [← pure_eq_ok.mp hnext]
      | some current => rw [← pure_eq_ok.mp hnext]
    have first : Reprojects L [postId] r.tables r₁.tables := by
      rw [htables]
      refine ⟨hframe, fun other hmem ↦ hothers other (fun heq ↦ hmem (by rw [heq]; simp)), ?_⟩
      intro other hmem
      rw [List.mem_singleton.mp hmem]
      exact hvisited
    exact first.trans (ih h)

end Reprojection

section Batches

variable {L} {s s' : ProjectionStore} {cursor : ℤ} {ids : List ℤ}

theorem scan_pending (h : scan s = .ok (.pending cursor ids)) :
    s.progress = some ⟨version, cursor, false⟩ ∧ 0 ≤ cursor ∧ ids = candidates s.tables cursor := by
  obtain ⟨progress, hprogress, h⟩ := bind_eq_ok.mp h
  obtain ⟨_, hvalid, h⟩ := bind_eq_ok.mp h
  obtain ⟨hversion, hcursor⟩ := require_eq_ok.mp hvalid
  have h := pure_eq_ok.mp h
  cases hcompleted : progress.completed with
  | true =>
    rw [if_pos hcompleted] at h
    cases h
  | false =>
    rw [if_neg (by rw [hcompleted]; decide)] at h
    obtain ⟨rfl, rfl⟩ := Scan.pending.inj h
    refine ⟨?_, hcursor, rfl⟩
    rw [orError_eq_ok.mp hprogress, ← hversion, ← hcompleted]

theorem scan_completed (h : scan s = .ok (.completed cursor)) :
    ∃ progress, s.progress = some progress ∧ progress.completed = true := by
  obtain ⟨progress, hprogress, h⟩ := bind_eq_ok.mp h
  obtain ⟨-, -, h⟩ := bind_eq_ok.mp h
  have h := pure_eq_ok.mp h
  cases hcompleted : progress.completed with
  | true => exact ⟨progress, orError_eq_ok.mp hprogress, hcompleted⟩
  | false =>
    rw [if_neg (by rw [hcompleted]; decide)] at h
    cases h

theorem checkpoint_pending {cursor' : ℤ} {done : Bool} (h : cursor ≤ cursor') :
    checkpoint (some ⟨version, cursor, false⟩) cursor' done = .ok ⟨version, cursor', done⟩ := by
  unfold checkpoint
  rw [orError_some, ok_bind, require_pos ⟨rfl, h, Bool.false_ne_true⟩, ok_bind]
  rfl

/-- The posts, the events and the checkpoint of a batch. -/
theorem project_ok {now : ℤ → UtcInstant} {clock : UtcInstant} {b : BatchProgress}
    (h : project L now clock s cursor ids = .ok (b, s')) :
    Reprojects L ids s.tables s'.tables ∧ b.completed = decide (ids.length < batchSize) ∧
      ∃ progress, s.progress = some progress ∧
        progress.cursorPostId ≤ ids.getLast?.getD cursor ∧ progress.completed = false ∧
        s'.progress = some { progress with
          cursorPostId := ids.getLast?.getD cursor
          completed := ids.length < batchSize } := by
  obtain ⟨r, hr, h⟩ := bind_eq_ok.mp h
  obtain ⟨progress', hcheckpoint, h⟩ := bind_eq_ok.mp h
  obtain ⟨progress, hprogress, hcheckpoint⟩ := bind_eq_ok.mp hcheckpoint
  obtain ⟨_, hguard, hcheckpoint⟩ := bind_eq_ok.mp hcheckpoint
  obtain ⟨-, hle, hcompleted⟩ := require_eq_ok.mp hguard
  obtain ⟨rfl, rfl⟩ := Prod.mk.inj (pure_eq_ok.mp h)
  refine ⟨refreshAll_reprojects hr, rfl, progress, orError_eq_ok.mp hprogress, hle,
    Bool.eq_false_iff.mpr hcompleted, ?_⟩
  rw [← pure_eq_ok.mp hcheckpoint]

end Batches

end Jaunder.Storage.Posts.Refresh
