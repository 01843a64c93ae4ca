import Jaunder.Storage.Posts.Runs
import Jaunder.Storage.TitleSearch

namespace Jaunder.Storage.Posts.SearchBackfill

open Foundation.Run
open Jaunder.Common.PostSearch
open Jaunder.Host.ContentEtag
open Jaunder.Storage.Posts.Bulk Jaunder.Storage.Posts.Lifecycle Jaunder.Storage.Posts.Runs
open Jaunder.Storage.Posts.Tables Jaunder.Storage.Posts.Update

def backfillBatchSize : ℕ := 100

structure PostSearchBackfillCandidate where
  postId : ℤ
  mutationVersion : ℕ
  searchText : String
deriving DecidableEq

/-- `search_text IS NULL AND post_id > cursor ORDER BY post_id` -/
def unsearchable (s : PostTables) (cursor : Option ℤ) : List ℤ :=
  (s.posts.keys.filter (fun postId ↦ cursor.all (· < postId) ∧
    (s.posts.lookup postId).any (fun p ↦ p.searchText = none))).insertionSort (· ≤ ·)

variable (projection : Option String → String → String)

/-- `list_post_search_backfill_candidates` with the texts that are derived from its rows. -/
def listCandidates (s : PostTables) (cursor : Option ℤ) : List PostSearchBackfillCandidate :=
  ((unsearchable s cursor).take backfillBatchSize).filterMap (fun postId ↦
    (s.posts.lookup postId).map (fun p ↦ ⟨postId, p.mutationVersion, projection p.title p.slug⟩))

def PostSearchBackfillCandidate.fill (c : PostSearchBackfillCandidate) (p : Post) : Post :=
  if p.searchText = none ∧ c.mutationVersion = p.mutationVersion then
    { p with searchText := some c.searchText }
  else p

/-- `apply_post_search_backfill`, one candidate after the other. -/
def applyBackfill (s : PostTables) (candidates : List PostSearchBackfillCandidate) : PostTables :=
  { s with
    posts := candidates.foldl (fun posts c ↦ (posts.lookup c.postId).elim posts (fun p ↦
      posts.insert c.postId (c.fill p))) s.posts }

/-- Where the loop stands between two statements. -/
inductive Progress
  | reading (cursor : Option ℤ)
  | applying (cursor : ℤ) (candidates : List PostSearchBackfillCandidate)
  | finished
deriving DecidableEq

def Progress.pending : Progress → List PostSearchBackfillCandidate
  | .applying _ candidates => candidates
  | _ => []

structure State where
  tables : PostTables
  progress : Progress

/-- One statement of `backfill_post_search_projections`. -/
def advance (s : State) : State :=
  match s.progress with
  | .reading cursor =>
    let candidates := listCandidates projection s.tables cursor
    match candidates.getLast? with
    | none => ⟨s.tables, .finished⟩
    | some last => ⟨s.tables, .applying last.postId candidates⟩
  | .applying cursor candidates => ⟨applyBackfill s.tables candidates, .reading (some cursor)⟩
  | .finished => s

inductive Event
  | startup
  | backfill
  | operation (operation : Operation)

variable (d : Dialect) (digest : PostContentEtag → String)

def step (s : State) : Event → State
  | .startup => ⟨s.tables, .reading none⟩
  | .backfill => advance projection s
  | .operation operation => ⟨Runs.step d projection digest s.tables operation, s.progress⟩

/-- The writes that derive the text anew. -/
def IsContent : Operation → Prop
  | .reserve | .create .. | .update .. => True
  | _ => False

/-- No other write comes to a post between the reading and the writing of its batch. -/
def Spares (s : State) : Event → Prop
  | .operation operation => IsContent operation ∨ ∀ c ∈ s.progress.pending,
      (Runs.step d projection digest s.tables operation).posts.lookup c.postId =
        s.tables.posts.lookup c.postId
  | _ => True

def Projected (p : Post) : Prop := p.searchText = some (projection p.title p.slug)

/-- A text is that of the current title and slug, or is to be derived. -/
def AllDerived (s : PostTables) : Prop :=
  ∀ postId p, s.posts.lookup postId = some p → p.searchText = none ∨ Projected projection p

variable {projection d digest} {s : PostTables} {x : State} {e : Event} {postId : ℤ} {p : Post}
  {c : PostSearchBackfillCandidate} {candidates : List PostSearchBackfillCandidate}
  {cursor : Option ℤ} {operation : Operation}

section Rows

variable (projection) in
/-- A write derives the text of the row anew, or keeps what it is derived from and moves the version
on. -/
inductive Rewrite (s : PostTables) (postId : ℤ) (p : Post) : Prop
  | projected (h : p.searchText = some (projection p.title p.slug))
  | kept (old : Post) (hold : s.posts.lookup postId = some old)
      (hsearch : p.searchText = old.searchText) (htitle : p.title = old.title)
      (hslug : p.slug = old.slug) (hversion : p.mutationVersion = old.mutationVersion + 1)

theorem rewrite_of_written (h : Written d projection s operation postId p) :
    Rewrite projection s postId p := by
  cases h with
  | created hrows hslug => exact .projected rfl
  | updated diff hp hrows hslug => exact .projected rfl
  | @moved change _ userId now old hp => cases change <;> exact .kept old hp rfl rfl rfl rfl
  | @retagged _ userId desired now old diff hp => exact .kept old hp rfl rfl rfl rfl
  | @bulk userId snapshot operation now _ old hp => cases operation <;> exact .kept old hp rfl rfl rfl rfl

theorem projected_of_written (h : Written d projection s operation postId p)
    (hcontent : IsContent operation) : Projected projection p := by
  cases h with
  | created hrows hslug => rfl
  | updated diff hp hrows hslug => rfl
  | moved hp => cases hcontent
  | retagged diff hp => cases hcontent
  | bulk hp => cases hcontent

/-- The candidates of a row fill it in once at most, and when its version is that of one of them. -/
theorem foldl_fill_cases (candidates : List PostSearchBackfillCandidate) (p : Post) :
    candidates.foldl (fun p c ↦ c.fill p) p = p ∧
        (p.searchText = none → ∀ c ∈ candidates, c.mutationVersion ≠ p.mutationVersion) ∨
      p.searchText = none ∧ ∃ c ∈ candidates, c.mutationVersion = p.mutationVersion ∧
        candidates.foldl (fun p c ↦ c.fill p) p = { p with searchText := some c.searchText } := by
  induction candidates generalizing p with
  | nil => exact .inl ⟨rfl, fun _ c hc ↦ absurd hc List.not_mem_nil⟩
  | cons c candidates ih =>
    rw [List.foldl_cons]
    by_cases hfill : p.searchText = none ∧ c.mutationVersion = p.mutationVersion
    · have hfilled : c.fill p = { p with searchText := some c.searchText } := if_pos hfill
      refine .inr ⟨hfill.1, c, List.mem_cons_self, hfill.2, ?_⟩
      rw [hfilled]
      rcases ih { p with searchText := some c.searchText } with ⟨hsame, -⟩ | ⟨hnone, -⟩
      · exact hsame
      · cases hnone
    · have hkept : c.fill p = p := if_neg hfill
      rw [hkept]
      rcases ih p with ⟨hsame, hother⟩ | ⟨hnone, c', hc', hversion, hfilled⟩
      · exact .inl ⟨hsame, fun hnone ↦ List.forall_mem_cons.mpr
          ⟨fun hversion ↦ hfill ⟨hnone, hversion⟩, hother hnone⟩⟩
      · exact .inr ⟨hnone, c', List.mem_cons_of_mem c hc', hversion, hfilled⟩

/-- The rows are filled in each on its own. -/
theorem lookup_applyBackfill (s : PostTables) (candidates : List PostSearchBackfillCandidate)
    (postId : ℤ) : (applyBackfill s candidates).posts.lookup postId =
      (s.posts.lookup postId).map (fun p ↦
        (candidates.filter (fun c ↦ c.postId = postId)).foldl (fun p c ↦ c.fill p) p) := by
  unfold applyBackfill
  dsimp only
  generalize s.posts = posts
  induction candidates generalizing posts with
  | nil => exact (congrFun Option.map_id (posts.lookup postId)).symm
  | cons c candidates ih =>
    rw [List.foldl_cons, ih]
    by_cases hpost : c.postId = postId
    · subst hpost
      have hfilter : (c :: candidates).filter (fun c' ↦ c'.postId = c.postId) =
          c :: candidates.filter (fun c' ↦ c'.postId = c.postId) :=
        List.filter_cons_of_pos (decide_eq_true rfl)
      rw [hfilter]
      cases hp : posts.lookup c.postId with
      | none => rw [Option.elim_none, hp, Option.map_none, Option.map_none]
      | some p => rw [Option.elim_some, AList.lookup_insert, Option.map_some, Option.map_some,
          List.foldl_cons]
    · have hother : ((posts.lookup c.postId).elim posts (fun p ↦
          posts.insert c.postId (c.fill p))).lookup postId = posts.lookup postId := by
        cases posts.lookup c.postId with
        | none => rfl
        | some p => exact AList.lookup_insert_ne (Ne.symm hpost)
      rw [hother, List.filter_cons_of_neg (by rw [decide_eq_true_iff]; exact hpost)]

end Rows

section Candidates

theorem mem_unsearchable : postId ∈ unsearchable s cursor ↔
    cursor.all (· < postId) = true ∧ ∃ p, s.posts.lookup postId = some p ∧ p.searchText = none := by
  unfold unsearchable
  rw [List.mem_insertionSort, List.mem_filter, decide_eq_true_iff, Option.any_eq_true]
  constructor
  · rintro ⟨-, hcursor, p, hp, hnone⟩
    exact ⟨hcursor, p, hp, of_decide_eq_true hnone⟩
  · rintro ⟨hcursor, p, hp, hnone⟩
    have hkey : postId ∈ s.posts.keys :=
      AList.mem_keys.mp (AList.lookup_isSome.mp (by rw [hp]; rfl))
    exact ⟨hkey, hcursor, p, hp, decide_eq_true hnone⟩

theorem pairwise_unsearchable (s : PostTables) (cursor : Option ℤ) :
    (unsearchable s cursor).Pairwise (· < ·) := by
  have hnodup : (unsearchable s cursor).Nodup :=
    (List.perm_insertionSort _ _).nodup_iff.mpr (s.posts.keys_nodup.filter _)
  have hsorted : (unsearchable s cursor).Pairwise (· ≤ ·) := List.pairwise_insertionSort _ _
  exact (hsorted.and hnodup).imp fun h ↦ lt_of_le_of_ne h.1 h.2

/-- A candidate is the row as it was read. -/
theorem mem_listCandidates (h : c ∈ listCandidates projection s cursor) :
    ∃ p, s.posts.lookup c.postId = some p ∧ c.mutationVersion = p.mutationVersion ∧
      c.searchText = projection p.title p.slug := by
  obtain ⟨postId, -, hc⟩ := List.mem_filterMap.mp h
  obtain ⟨p, hp, rfl⟩ := Option.map_eq_some_iff.mp hc
  exact ⟨p, hp, rfl, rfl⟩

theorem map_postId_listCandidates : (listCandidates projection s cursor).map
    PostSearchBackfillCandidate.postId = (unsearchable s cursor).take backfillBatchSize := by
  unfold listCandidates
  rw [List.map_filterMap]
  have hfound : ∀ postId ∈ (unsearchable s cursor).take backfillBatchSize,
      ((s.posts.lookup postId).map (fun p ↦ (⟨postId, p.mutationVersion,
        projection p.title p.slug⟩ : PostSearchBackfillCandidate))).map
          PostSearchBackfillCandidate.postId = some postId := by
    intro postId hpost
    obtain ⟨-, p, hp, -⟩ := mem_unsearchable.mp (List.mem_of_mem_take hpost)
    rw [hp]
    rfl
  exact (List.filterMap_congr hfound).trans List.filterMap_some

/-- What a batch leaves out comes after its last row. -/
theorem mem_batch_or_after {last : PostSearchBackfillCandidate}
    (hlast : (listCandidates projection s cursor).getLast? = some last)
    (hpost : postId ∈ unsearchable s cursor) :
    last.postId < postId ∨ ∃ c ∈ listCandidates projection s cursor, c.postId = postId := by
  have hids : (listCandidates projection s cursor).map PostSearchBackfillCandidate.postId =
      (unsearchable s cursor).take backfillBatchSize := map_postId_listCandidates
  rw [← List.take_append_drop backfillBatchSize (unsearchable s cursor), List.mem_append] at hpost
  rcases hpost with hbatch | hafter
  · rw [← hids] at hbatch
    exact .inr (List.mem_map.mp hbatch)
  · refine .inl ?_
    have hmem : last.postId ∈ (unsearchable s cursor).take backfillBatchSize := by
      rw [← hids]
      exact List.mem_map_of_mem (List.mem_of_getLast? hlast)
    have hsorted := pairwise_unsearchable s cursor
    rw [← List.take_append_drop backfillBatchSize (unsearchable s cursor),
      List.pairwise_append] at hsorted
    exact hsorted.2.2 _ hmem _ hafter

end Candidates

section Soundness

/-- A candidate that still finds its version finds the title and the slug that it is derived from. -/
structure Sound (projection : Option String → String → String) (x : State) : Prop where
  derived : AllDerived projection x.tables
  pending : ∀ c ∈ x.progress.pending, ∀ p, x.tables.posts.lookup c.postId = some p →
    p.searchText = none → c.mutationVersion ≤ p.mutationVersion ∧
      (c.mutationVersion = p.mutationVersion → c.searchText = projection p.title p.slug)

theorem Sound.perform (h : Sound projection x) (operation : Operation) :
    Sound projection (step projection d digest x (.operation operation)) where
  derived := by
    intro postId p hp
    rcases lookup_step hp with hold | hwritten
    · exact h.derived postId p hold
    · rcases rewrite_of_written hwritten with hprojected | ⟨old, hold, hsearch, htitle, hslug, -⟩
      · exact .inr hprojected
      · have hold' := h.derived postId old hold
        unfold Projected at hold' ⊢
        rwa [hsearch, htitle, hslug]
  pending := by
    intro c hc p hp hnone
    rcases lookup_step hp with hold | hwritten
    · exact h.pending c hc p hold hnone
    · rcases rewrite_of_written hwritten with hprojected | ⟨old, hold, hsearch, -, -, hversion⟩
      · rw [hnone] at hprojected
        cases hprojected
      · have hle := (h.pending c hc old hold (hsearch.symm.trans hnone)).1
        refine ⟨by omega, fun heq ↦ ?_⟩
        omega

theorem Sound.advance (h : Sound projection x) : Sound projection (advance projection x) := by
  have hidle {cursor : Progress} (hcursor : cursor.pending = []) {tables : PostTables}
      (htables : AllDerived projection tables) : Sound projection ⟨tables, cursor⟩ := by
    refine ⟨htables, fun c hc ↦ ?_⟩
    dsimp only at hc
    rw [hcursor] at hc
    exact absurd hc List.not_mem_nil
  obtain ⟨tables, progress⟩ := x
  cases progress with
  | reading cursor =>
    unfold SearchBackfill.advance
    dsimp only
    cases hlast : (listCandidates projection tables cursor).getLast? with
    | none => exact hidle rfl h.derived
    | some last =>
      refine ⟨h.derived, fun c hc p hp hnone ↦ ?_⟩
      obtain ⟨read, hread, hversion, htext⟩ := mem_listCandidates hc
      obtain rfl := Option.some.inj (hread.symm.trans hp)
      exact ⟨hversion.le, fun _ ↦ htext⟩
  | applying cursor candidates =>
    refine hidle rfl fun postId p hp ↦ ?_
    rw [lookup_applyBackfill] at hp
    obtain ⟨old, hold, rfl⟩ := Option.map_eq_some_iff.mp hp
    rcases foldl_fill_cases (candidates.filter (fun c ↦ c.postId = postId)) old with
      ⟨hsame, -⟩ | ⟨hnone, c, hc, hversion, hfilled⟩
    · rw [hsame]
      exact h.derived postId old hold
    · obtain ⟨hmem, hpost⟩ := List.mem_filter.mp hc
      obtain rfl := of_decide_eq_true hpost
      rw [hfilled]
      exact .inr (congrArg some ((h.pending c hmem old hold hnone).2 hversion))
  | finished => exact h

theorem Sound.step (h : Sound projection x) (e : Event) :
    Sound projection (step projection d digest x e) := by
  cases e with
  | startup => exact ⟨h.derived, fun c hc ↦ absurd hc List.not_mem_nil⟩
  | backfill => exact h.advance
  | operation operation => exact h.perform operation

end Soundness

section Completeness

/-- A row without a text is still to come, or it is in the batch as it was read. -/
def ToCome (postId : ℤ) (p : Post) : Progress → Prop
  | .reading cursor => cursor.all (· < postId) = true
  | .applying cursor candidates => cursor < postId ∨
      ∃ c ∈ candidates, c.postId = postId ∧ c.mutationVersion = p.mutationVersion
  | .finished => False

def Covered (x : State) : Prop :=
  ∀ postId p, x.tables.posts.lookup postId = some p → p.searchText = none →
    ToCome postId p x.progress

theorem Covered.perform (h : Covered x)
    (hspares : Spares projection d digest x (.operation operation)) :
    Covered (step projection d digest x (.operation operation)) := by
  intro postId p hp hnone
  rcases lookup_step hp with hold | hwritten
  · exact h postId p hold hnone
  · rcases rewrite_of_written hwritten with hprojected | ⟨old, hold, hsearch, -, -, hversion⟩
    · rw [hnone] at hprojected
      cases hprojected
    have htocome := h postId old hold (hsearch.symm.trans hnone)
    have hother : ∀ c ∈ x.progress.pending, c.postId ≠ postId := by
      rintro c hc rfl
      rcases hspares with hcontent | hspares
      · have hprojected := projected_of_written hwritten hcontent
        rw [Projected, hnone] at hprojected
        cases hprojected
      · have hsame := hp.symm.trans ((hspares c hc).trans hold)
        rw [Option.some.inj hsame] at hversion
        omega
    show ToCome postId p x.progress
    cases hprogress : x.progress with
    | reading cursor =>
      rw [hprogress] at htocome
      exact htocome
    | applying cursor candidates =>
      rw [hprogress] at htocome hother
      exact .inl (htocome.resolve_right fun ⟨c, hc, hpost, _⟩ ↦ hother c hc hpost)
    | finished =>
      rw [hprogress] at htocome
      exact htocome

theorem Covered.advance (h : Covered x) : Covered (advance projection x) := by
  obtain ⟨tables, progress⟩ := x
  cases progress with
  | reading cursor =>
    have hlisted : ∀ postId p, tables.posts.lookup postId = some p → p.searchText = none →
        postId ∈ unsearchable tables cursor :=
      fun postId p hp hnone ↦ mem_unsearchable.mpr ⟨h postId p hp hnone, p, hp, hnone⟩
    unfold SearchBackfill.advance
    dsimp only
    cases hlast : (listCandidates projection tables cursor).getLast? with
    | none =>
      intro postId p hp hnone
      have hempty : (unsearchable tables cursor).take backfillBatchSize = [] := by
        rw [← map_postId_listCandidates, List.getLast?_eq_none_iff.mp hlast, List.map_nil]
      rcases List.take_eq_nil_iff.mp hempty with hsize | hempty
      · cases hsize
      · exact List.ne_nil_of_mem (hlisted postId p hp hnone) hempty
    | some last =>
      intro postId p hp hnone
      refine (mem_batch_or_after hlast (hlisted postId p hp hnone)).imp id ?_
      rintro ⟨c, hc, rfl⟩
      obtain ⟨read, hread, hversion, -⟩ := mem_listCandidates hc
      obtain rfl := Option.some.inj (hread.symm.trans hp)
      exact ⟨c, hc, rfl, hversion⟩
  | applying cursor candidates =>
    intro postId p hp hnone
    have hp' : (applyBackfill tables candidates).posts.lookup postId = some p := hp
    rw [lookup_applyBackfill] at hp'
    obtain ⟨old, hold, rfl⟩ := Option.map_eq_some_iff.mp hp'
    rcases foldl_fill_cases (candidates.filter (fun c ↦ c.postId = postId)) old with
      ⟨hsame, hother⟩ | ⟨-, c, -, -, hfilled⟩
    · rw [hsame] at hnone
      refine decide_eq_true ((h postId old hold hnone).resolve_right ?_)
      rintro ⟨c, hc, hpost, hversion⟩
      exact hother hnone c (List.mem_filter.mpr ⟨hc, decide_eq_true hpost⟩) hversion
    · rw [hfilled] at hnone
      cases hnone
  | finished => exact h

theorem Covered.step (h : Covered x) (hspares : Spares projection d digest x e) :
    Covered (step projection d digest x e) := by
  cases e with
  | startup => exact fun postId p hp hnone ↦ rfl
  | backfill => exact h.advance
  | operation operation => exact h.perform hspares

end Completeness

section Runs

variable {before after : List Event}

theorem allDerived_run (hs : AllDerived projection s) (events : List Event) :
    AllDerived projection (run (step projection d digest) ⟨s, .finished⟩ events).tables := by
  have hstart : Sound projection ⟨s, .finished⟩ := ⟨hs, fun c hc ↦ absurd hc List.not_mem_nil⟩
  exact (run_preserves (fun _ e h _ ↦ h.step e) hstart (along_true _ events)).derived

theorem projected_of_finished (hs : AllDerived projection s)
    (hspares : Along (step projection d digest) (Spares projection d digest)
      (step projection d digest (run (step projection d digest) ⟨s, .finished⟩ before) .startup) after)
    (hfinished : (run (step projection d digest) ⟨s, .finished⟩
      (before ++ .startup :: after)).progress = .finished)
    (hp : (run (step projection d digest) ⟨s, .finished⟩
      (before ++ .startup :: after)).tables.posts.lookup postId = some p) : Projected projection p := by
  have hstart : Covered
      (step projection d digest (run (step projection d digest) ⟨s, .finished⟩ before) .startup) :=
    fun postId p hp hnone ↦ rfl
  have hcovered := run_preserves (fun _ _ h hspares ↦ Covered.step h hspares) hstart hspares
  have hall : AllDerived projection (run (step projection d digest) ⟨s, .finished⟩
      (before ++ .startup :: after)).tables := allDerived_run hs _
  have hderived := hall postId p hp
  rw [run_append, run_cons] at hfinished hp
  refine hderived.resolve_left fun hnone ↦ ?_
  have htocome := hcovered postId p hp hnone
  rw [hfinished] at htocome
  exact htocome

variable {caseFold : Char → List Char}

/-- The search finds the normalized words in the stored text as they are; a stored text is that of
the current title and slug or still to be derived, and a backfill that was spared leaves none out. -/
theorem literal_title_search (hfold : ∀ c, ∀ l ∈ caseFold c, l.isUpper = false) (backend : Dialect)
    (digest : PostContentEtag → String) :
    (∀ search, TitleSearch.fromSearch search = Listings.searchPattern search) ∧
      (∀ (b : Storage.Dialect.Backend) (decode : b.Stored → Common.Time.UtcInstant)
        (posts : Listings.StoredPosts b decode) (p : Schema.Post) (title : Option String)
        (slug : String) (userId : ℤ) (request : Listings.PostManagementRequest)
        (search : List Char),
        posts.searchText p.postId = some (postSearchProjection caseFold title slug).toList →
          (Listings.managed posts (TitleSearch.likeFold backend) userId
              { request with search := TitleSearch.searchOf caseFold search } p = true ↔
            Listings.managed posts (TitleSearch.likeFold backend) userId
                { request with search := none } p = true ∧
              normalizePostSearchQuery caseFold search <:+:
                (postSearchProjection caseFold title slug).toList)) ∧
      ∀ (s : PostTables) (before after : List Event),
        AllDerived (postSearchProjection caseFold) s →
          AllDerived (postSearchProjection caseFold)
              (run (step (postSearchProjection caseFold) backend digest) ⟨s, .finished⟩
                (before ++ .startup :: after)).tables ∧
            (Along (step (postSearchProjection caseFold) backend digest)
                (Spares (postSearchProjection caseFold) backend digest)
                (step (postSearchProjection caseFold) backend digest
                  (run (step (postSearchProjection caseFold) backend digest) ⟨s, .finished⟩ before)
                  .startup) after →
              (run (step (postSearchProjection caseFold) backend digest) ⟨s, .finished⟩
                (before ++ .startup :: after)).progress = .finished →
              ∀ postId p, (run (step (postSearchProjection caseFold) backend digest) ⟨s, .finished⟩
                  (before ++ .startup :: after)).tables.posts.lookup postId = some p →
                Projected (postSearchProjection caseFold) p) := by
  refine ⟨TitleSearch.fromSearch_eq, ?_, fun s before after hs ↦ ⟨allDerived_run hs _, ?_⟩⟩
  · intro b decode posts p title slug userId request search htext
    exact TitleSearch.managed_searchOf_iff hfold backend userId request search htext
  · exact fun hspares hfinished postId p hp ↦ projected_of_finished hs hspares hfinished hp

end Runs

section Concrete

def plainFold (c : Char) : List Char := [c.toLower]

def noDigest : PostContentEtag → String := fun _ ↦ ""

def legacyClock : Common.Time.UtcInstant := .epoch

/-- A draft from before the column. -/
def legacyDraft : Post where
  userId := 1
  title := some "Winter 100%"
  renderedTitle := some "Winter 100%"
  slug := "winter"
  body := ""
  format := .org
  renderedHtml := ""
  createdAt := legacyClock
  updatedAt := legacyClock
  publishedAt := none
  deletedAt := none
  summary := none
  tags := []
  audiences := []
  media := []
  searchText := none
  mutationVersion := 1

def legacyTables : PostTables where
  users := [⟨1, "author", none⟩]
  audiences := []
  posts := (∅ : AList (fun _ : ℤ ↦ Post)).insert 1 legacyDraft
  lastPostId := 1
  revisions := []
  lastRevisionId := 0
  idempotencyKeys := []

def publishLegacy : Event := .operation (.lifecycle .publish 1 1 legacyClock)

theorem allDerived_legacyTables :
    AllDerived (postSearchProjection plainFold) legacyTables := by
  intro postId p hp
  rcases lookup_insert_cases hp with hp | ⟨-, rfl⟩
  · rw [AList.lookup_empty] at hp
    cases hp
  · exact .inl rfl

theorem legacy_draft_searchable : ∃ p,
    (run (step (postSearchProjection plainFold) .sqlite noDigest) ⟨legacyTables, .finished⟩
      [.startup, .backfill, .backfill, .backfill]).tables.posts.lookup 1 = some p ∧
        Projected (postSearchProjection plainFold) p := by
  have hfold : ∀ c, ∀ l ∈ plainFold c, l.isUpper = false := by
    intro c l hl
    rw [List.mem_singleton.mp hl]
    exact TitleSearch.isUpper_toLower c
  refine ⟨_, rfl, ((literal_title_search hfold .sqlite noDigest).2.2 legacyTables []
    [.backfill, .backfill, .backfill] allDerived_legacyTables).2 ⟨trivial, trivial, trivial, trivial⟩
      rfl 1 _ rfl⟩

/-- Published between the reading and the writing of its batch, the draft is left without a text. -/
theorem publication_leaves_text_null :
    AllDerived (postSearchProjection plainFold) legacyTables ∧
      (run (step (postSearchProjection plainFold) .sqlite noDigest) ⟨legacyTables, .finished⟩
        [.startup, .backfill, publishLegacy, .backfill, .backfill]).progress = .finished ∧
      ∃ p, (run (step (postSearchProjection plainFold) .sqlite noDigest) ⟨legacyTables, .finished⟩
        [.startup, .backfill, publishLegacy, .backfill, .backfill]).tables.posts.lookup 1 = some p ∧
          ¬Projected (postSearchProjection plainFold) p := by
  refine ⟨allDerived_legacyTables, rfl, _, rfl, fun h ↦ ?_⟩
  cases h

end Concrete

end Jaunder.Storage.Posts.SearchBackfill
