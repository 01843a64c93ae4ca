import Jaunder.Foundation.Run

namespace Jaunder.Web.Timeline

open Foundation.Run

inductive LoadStatus (ε : Type)
  | neverLoaded
  | idle
  | inFlight
  | failed (error : ε)
  | unidentified
deriving DecidableEq

def LoadStatus.isInFlight {ε : Type} : LoadStatus ε → Bool
  | .inFlight => true
  | _ => false

structure Page (Row Cursor : Type) where
  posts : List Row
  nextCursor : Option Cursor
  hasMore : Bool
deriving DecidableEq

/-- A wrapping counter of listings. -/
abbrev TimelineGeneration := UInt64

structure LoadMoreClaim (Cursor : Type) where
  generation : TimelineGeneration
  cursor : Option Cursor
deriving DecidableEq

structure TimelineState (Row Cursor ε : Type) where
  rows : List Row
  cursor : Option Cursor
  hasMore : Bool
  status : LoadStatus ε
  generation : TimelineGeneration
deriving DecidableEq

variable {Row Cursor ε Order : Type}

namespace TimelineState

def default : TimelineState Row Cursor ε where
  rows := []
  cursor := none
  hasMore := false
  status := .neverLoaded
  generation := 0

def advanceGeneration (s : TimelineState Row Cursor ε) : TimelineState Row Cursor ε :=
  { s with generation := s.generation + 1 }

def clearTo (s : TimelineState Row Cursor ε) (status : LoadStatus ε) : TimelineState Row Cursor ε :=
  { s with rows := [], cursor := none, hasMore := false, status }

def beginReplacement (s : TimelineState Row Cursor ε) : TimelineState Row Cursor ε :=
  s.advanceGeneration.clearTo .neverLoaded

def adopt (s : TimelineState Row Cursor ε) (page : Page Row Cursor) : TimelineState Row Cursor ε :=
  { s with cursor := page.nextCursor, hasMore := page.hasMore, rows := page.posts, status := .idle }

def adoptSeed (s : TimelineState Row Cursor ε) : Option (Page Row Cursor) → TimelineState Row Cursor ε
  | some page => s.adopt page
  | none => s

def fail (s : TimelineState Row Cursor ε) (error : ε) : TimelineState Row Cursor ε :=
  s.clearTo (.failed error)

def apply (s : TimelineState Row Cursor ε) :
    Except ε (Page Row Cursor) → TimelineState Row Cursor ε
  | .ok page => s.adopt page
  | .error error => s.fail error

def unidentified (s : TimelineState Row Cursor ε) : TimelineState Row Cursor ε :=
  s.clearTo .unidentified

/-- Settles a claim; a claim of another generation is inert. -/
def append (s : TimelineState Row Cursor ε) (claim : LoadMoreClaim Cursor)
    (result : Except ε (Page Row Cursor)) : TimelineState Row Cursor ε :=
  if claim.generation ≠ s.generation then s
  else match result with
    | .ok page => { s with
        cursor := page.nextCursor
        hasMore := page.hasMore
        rows := s.rows ++ page.posts
        status := .idle }
    | .error error => { s with status := .failed error }

def beginLoadMore (s : TimelineState Row Cursor ε) :
    Option (LoadMoreClaim Cursor × TimelineState Row Cursor ε) :=
  if s.status.isInFlight ∨ ¬s.hasMore then none
  else some (⟨s.generation, s.cursor⟩, { s with status := .inFlight })

end TimelineState

/-- The request of a page and what it returned. -/
structure Fetched (Row Cursor Order : Type) where
  order : Order
  cursor : Option Cursor
  page : Page Row Cursor
deriving DecidableEq

/-- A load-more task whose fetch has not come back, with the number of first pages that had been
adopted when it was claimed. -/
structure LoadMore (Cursor Order : Type) where
  claim : LoadMoreClaim Cursor
  order : Order
  adoption : ℕ
deriving DecidableEq

/-- The fetch of a first page that the page waits for: `LocalPage` begins no replacement for its
first one. -/
inductive Destination
  | first
  | replacement
deriving DecidableEq

inductive Outcome (Row Cursor ε : Type)
  | resolved (result : Except ε (Page Row Cursor))
  | unidentified

/-- A mounted timeline page; `shown` and `adoptions` record where the rows come from. -/
structure Mounted (Row Cursor ε Order : Type) where
  state : TimelineState Row Cursor ε
  order : Order
  awaiting : Option Destination
  tasks : List (LoadMore Cursor Order)
  shown : List (Fetched Row Cursor Order)
  adoptions : ℕ

inductive Event (Row Cursor ε Order : Type)
  | replace (order : Order)
  | settle (outcome : Outcome Row Cursor ε)
  | loadMore
  | complete (task : ℕ) (result : Except ε (Page Row Cursor))

section Pages

/-- `LocalPage`: a seed of the same order is adopted, and the first destination is fetched. -/
def localPage [DecidableEq Order] (order : Order) (seed : Option (Order × Page Row Cursor)) :
    Mounted Row Cursor ε Order :=
  let page := (seed.filter (fun s ↦ s.1 = order)).map Prod.snd
  { state := TimelineState.default.adoptSeed page
    order
    awaiting := some .first
    tasks := []
    shown := page.toList.map (fun page ↦ ⟨order, none, page⟩)
    adoptions := page.toList.length }

def cockpitPage (order : Order) : Mounted Row Cursor ε Order where
  state := TimelineState.default.beginReplacement
  order
  awaiting := some .replacement
  tasks := []
  shown := []
  adoptions := 0

def settled (m : Mounted Row Cursor ε Order) : Outcome Row Cursor ε → Mounted Row Cursor ε Order
  | .resolved (.ok page) => { m with
      state := m.state.apply (.ok page)
      awaiting := none
      shown := [⟨m.order, none, page⟩]
      adoptions := m.adoptions + 1 }
  | .resolved (.error error) => { m with
      state := m.state.apply (.error error), awaiting := none, shown := [] }
  | .unidentified => { m with state := m.state.unidentified, awaiting := none, shown := [] }

/-- The rows of a settled claim join the rows that are shown. -/
def extended (m : Mounted Row Cursor ε Order) (t : LoadMore Cursor Order) :
    Except ε (Page Row Cursor) → List (Fetched Row Cursor Order)
  | .ok page => if t.claim.generation ≠ m.state.generation then m.shown
    else m.shown ++ [⟨t.order, t.claim.cursor, page⟩]
  | .error _ => m.shown

/-- Only the newest destination settles; load-more tasks settle in any order. -/
def step (m : Mounted Row Cursor ε Order) : Event Row Cursor ε Order → Mounted Row Cursor ε Order
  | .replace order => { m with
      state := m.state.beginReplacement, order, awaiting := some .replacement, shown := [] }
  | .settle outcome =>
    match m.awaiting with
    | none => m
    | some _ => settled m outcome
  | .loadMore =>
    match m.state.beginLoadMore with
    | none => m
    | some (claim, state) => { m with state, tasks := m.tasks ++ [⟨claim, m.order, m.adoptions⟩] }
  | .complete task result =>
    match m.tasks[task]? with
    | none => m
    | some t => { m with
        state := m.state.append t.claim result
        tasks := m.tasks.eraseIdx task
        shown := extended m t result }

end Pages

/-- Pages of one order, each fetched with the cursor that its predecessor returned. -/
def Consecutive (order : Order) : Option Cursor → List (Fetched Row Cursor Order) → Prop
  | _, [] => True
  | cursor, f :: fs => f.order = order ∧ f.cursor = cursor ∧ Consecutive order f.page.nextCursor fs

/-- The tasks whose claim is of the shown listing. -/
def current (m : Mounted Row Cursor ε Order) : List (LoadMore Cursor Order) :=
  m.tasks.filter (fun t ↦ t.claim.generation = m.state.generation)

structure Consistent (m : Mounted Row Cursor ε Order) : Prop where
  single : (current m).length ≤ 1
  rows : m.state.rows = m.shown.flatMap (fun f ↦ f.page.posts)
  listing : Consecutive m.order none m.shown
  stale : ∀ task t result, m.tasks[task]? = some t → t.adoption ≠ m.adoptions →
    (step m (.complete task result)).state = m.state

/-- The first destination settles when no load-more of the shown listing is unsettled, and no
load-more stays unsettled until its generation number is used again. -/
def Undisturbed (m : Mounted Row Cursor ε Order) : Event Row Cursor ε Order → Prop
  | .settle _ => m.awaiting = some .first → current m = []
  | .replace _ => ∀ t ∈ m.tasks, t.claim.generation ≠ m.state.generation + 1
  | _ => True

section Listings

variable {m : Mounted Row Cursor ε Order} {order : Order} {cursor : Option Cursor}
  {fs : List (Fetched Row Cursor Order)} {f : Fetched Row Cursor Order}

/-- Where the page after these begins. -/
def nextCursor (cursor : Option Cursor) (fs : List (Fetched Row Cursor Order)) : Option Cursor :=
  fs.getLast?.elim cursor (fun f ↦ f.page.nextCursor)

theorem nextCursor_cons : nextCursor cursor (f :: fs) = nextCursor f.page.nextCursor fs := by
  rw [nextCursor, nextCursor, List.getLast?_cons]
  cases fs.getLast? with
  | none => rfl
  | some last => rfl

theorem Consecutive.concat (h : Consecutive order cursor fs) (horder : f.order = order)
    (hcursor : f.cursor = nextCursor cursor fs) : Consecutive order cursor (fs ++ [f]) := by
  induction fs generalizing cursor with
  | nil => exact ⟨horder, hcursor, trivial⟩
  | cons g fs ih =>
    rw [nextCursor_cons] at hcursor
    exact ⟨h.1, h.2.1, ih h.2.2 hcursor⟩

theorem mem_current {t : LoadMore Cursor Order} :
    t ∈ current m ↔ t ∈ m.tasks ∧ t.claim.generation = m.state.generation := by
  rw [current, List.mem_filter, decide_eq_true_eq]

/-- What every step keeps. -/
structure Kept (m : Mounted Row Cursor ε Order) : Prop where
  single : (current m).length ≤ 1
  rows : m.state.rows = m.shown.flatMap (fun f ↦ f.page.posts)
  listing : Consecutive m.order none m.shown
  cursor : m.state.cursor = nextCursor none m.shown
  claimed : ∀ t ∈ current m, t.claim.cursor = m.state.cursor ∧ t.order = m.order ∧
    t.adoption = m.adoptions ∧ m.state.status = .inFlight
  loading : m.awaiting = some .replacement → current m = [] ∧ m.state.hasMore = false

theorem current_nil_of (h : ∀ t ∈ m.tasks, t.claim.generation ≠ m.state.generation) :
    current m = [] := by
  rw [List.eq_nil_iff_forall_not_mem]
  intro t ht
  exact h t (mem_current.mp ht).1 (mem_current.mp ht).2

theorem Kept.consistent (h : Kept m) : Consistent m where
  single := h.single
  rows := h.rows
  listing := h.listing
  stale := by
    intro task t result ht hadoption
    have hother : t.claim.generation ≠ m.state.generation := by
      intro hgeneration
      have hmem := mem_current.mpr ⟨List.mem_of_getElem? ht, hgeneration⟩
      exact hadoption (h.claimed t hmem).2.2.1
    simp only [step, ht, TimelineState.append, if_pos hother]

theorem Kept.replace (hdisturb : ∀ t ∈ m.tasks, t.claim.generation ≠ m.state.generation + 1) :
    Kept (step m (.replace order)) := by
  have hnone : current (step m (.replace order)) = [] := current_nil_of hdisturb
  refine ⟨?_, rfl, trivial, rfl, ?_, fun _ ↦ ⟨hnone, rfl⟩⟩
  · rw [hnone]
    exact Nat.zero_le 1
  · rw [hnone]
    exact fun t ht ↦ absurd ht List.not_mem_nil

theorem Kept.settle (h : Kept m) {outcome : Outcome Row Cursor ε}
    (hdisturb : m.awaiting = some .first → current m = []) : Kept (step m (.settle outcome)) := by
  cases hawaiting : m.awaiting with
  | none =>
    simp only [step, hawaiting]
    exact h
  | some destination =>
    have hnone : current m = [] := by
      cases destination with
      | first => exact hdisturb hawaiting
      | replacement => exact (h.loading hawaiting).1
    simp only [step, hawaiting]
    have hkept : current (settled m outcome) = [] := by
      rw [← hnone]
      match outcome with
      | .resolved (.ok page) => rfl
      | .resolved (.error error) => rfl
      | .unidentified => rfl
    have hsingle : (current (settled m outcome)).length ≤ 1 := by
      rw [hkept]
      exact Nat.zero_le 1
    have hclaimed : ∀ t ∈ current (settled m outcome), t.claim.cursor = (settled m outcome).state.cursor ∧
        t.order = (settled m outcome).order ∧ t.adoption = (settled m outcome).adoptions ∧
        (settled m outcome).state.status = .inFlight := by
      rw [hkept]
      exact fun t ht ↦ absurd ht List.not_mem_nil
    match outcome with
    | .resolved (.ok page) =>
      refine ⟨hsingle, ?_, ⟨rfl, rfl, trivial⟩, rfl, hclaimed, nofun⟩
      exact (List.append_nil page.posts).symm
    | .resolved (.error error) => exact ⟨hsingle, rfl, trivial, rfl, hclaimed, nofun⟩
    | .unidentified => exact ⟨hsingle, rfl, trivial, rfl, hclaimed, nofun⟩

theorem beginLoadMore_some {s s' : TimelineState Row Cursor ε} {claim : LoadMoreClaim Cursor}
    (h : s.beginLoadMore = some (claim, s')) : claim = ⟨s.generation, s.cursor⟩ ∧
      s' = { s with status := .inFlight } ∧ s.status ≠ .inFlight ∧ s.hasMore = true := by
  unfold TimelineState.beginLoadMore at h
  split_ifs at h with hguard
  obtain ⟨rfl, rfl⟩ := Prod.mk.inj (Option.some.inj h)
  rw [not_or, not_not] at hguard
  refine ⟨rfl, rfl, fun hstatus ↦ hguard.1 ?_, hguard.2⟩
  rw [hstatus]
  rfl

theorem Kept.loadMore (h : Kept m) : Kept (step m .loadMore) := by
  cases hbegin : m.state.beginLoadMore with
  | none =>
    simp only [step, hbegin]
    exact h
  | some claimed =>
    obtain ⟨claim, s⟩ := claimed
    obtain ⟨rfl, rfl, hstatus, hmore⟩ := beginLoadMore_some hbegin
    have hnone : current m = [] := by
      rw [List.eq_nil_iff_forall_not_mem]
      exact fun t ht ↦ hstatus (h.claimed t ht).2.2.2
    simp only [step, hbegin]
    have hcurrent : current ({ m with
        state := { m.state with status := .inFlight }
        tasks := m.tasks ++ [⟨⟨m.state.generation, m.state.cursor⟩, m.order, m.adoptions⟩] } :
          Mounted Row Cursor ε Order) =
        [⟨⟨m.state.generation, m.state.cursor⟩, m.order, m.adoptions⟩] := by
      unfold current at hnone ⊢
      rw [List.filter_append, hnone]
      simp
    refine ⟨?_, h.rows, h.listing, h.cursor, ?_, ?_⟩
    · rw [hcurrent]
      exact le_rfl
    · rw [hcurrent]
      intro t ht
      obtain rfl := List.mem_singleton.mp ht
      exact ⟨rfl, rfl, rfl, rfl⟩
    · intro hawaiting
      have hfalse := (h.loading hawaiting).2
      rw [hmore] at hfalse
      cases hfalse

theorem Kept.complete_stale (h : Kept m) {task : ℕ} {t : LoadMore Cursor Order}
    {result : Except ε (Page Row Cursor)} (ht : m.tasks[task]? = some t)
    (hother : t.claim.generation ≠ m.state.generation) : Kept (step m (.complete task result)) := by
  have hshown : extended m t result = m.shown := by
    cases result with
    | ok page => exact if_pos hother
    | error error => rfl
  have hcurrent : List.Sublist (current { m with tasks := m.tasks.eraseIdx task }) (current m) :=
    (List.eraseIdx_sublist m.tasks task).filter _
  simp only [step, ht, TimelineState.append, if_pos hother, hshown]
  refine ⟨hcurrent.length_le.trans h.single, h.rows, h.listing, h.cursor, ?_, ?_⟩
  · exact fun u hu ↦ h.claimed u (hcurrent.subset hu)
  · intro hawaiting
    obtain ⟨hnone, hmore⟩ := h.loading hawaiting
    rw [hnone] at hcurrent
    exact ⟨List.sublist_nil.mp hcurrent, hmore⟩

theorem filter_eraseIdx_of_single {α : Type} {p : α → Bool} {a : α} {l : List α} {i : ℕ}
    (hsingle : (l.filter p).length ≤ 1) (hi : l[i]? = some a) (ha : p a = true) :
    (l.eraseIdx i).filter p = [] := by
  induction l generalizing i with
  | nil => cases hi
  | cons b l ih =>
    cases i with
    | zero =>
      obtain rfl := Option.some.inj hi
      rw [List.filter_cons_of_pos ha, List.length_cons] at hsingle
      rw [List.eraseIdx_cons_zero]
      exact List.length_eq_zero_iff.mp (by omega)
    | succ i =>
      have hmem : a ∈ l.filter p := List.mem_filter.mpr ⟨List.mem_of_getElem? hi, ha⟩
      have hpos := List.length_pos_of_mem hmem
      have hb : ¬p b = true := by
        intro hb
        rw [List.filter_cons_of_pos hb, List.length_cons] at hsingle
        omega
      rw [List.filter_cons_of_neg hb] at hsingle
      rw [List.eraseIdx_cons_succ, List.filter_cons_of_neg hb]
      exact ih hsingle hi

/-- The one unsettled claim of the shown listing fetched the page after the last one shown. -/
theorem Kept.complete_current (h : Kept m) {task : ℕ} {t : LoadMore Cursor Order}
    {result : Except ε (Page Row Cursor)} (ht : m.tasks[task]? = some t)
    (hgeneration : t.claim.generation = m.state.generation) :
    Kept (step m (.complete task result)) := by
  have hmem : t ∈ current m := mem_current.mpr ⟨List.mem_of_getElem? ht, hgeneration⟩
  obtain ⟨hcursor, horder, -, -⟩ := h.claimed t hmem
  have hloading : m.awaiting ≠ some .replacement := by
    intro hawaiting
    rw [(h.loading hawaiting).1] at hmem
    exact List.not_mem_nil hmem
  have hgone : (m.tasks.eraseIdx task).filter
      (fun t ↦ t.claim.generation = m.state.generation) = [] :=
    filter_eraseIdx_of_single h.single ht (decide_eq_true hgeneration)
  have hsame : ¬t.claim.generation ≠ m.state.generation := not_not.mpr hgeneration
  cases result with
  | error error =>
    simp only [step, ht, TimelineState.append, if_neg hsame, extended]
    have hnone : current ({ m with
        state := { m.state with status := .failed error }
        tasks := m.tasks.eraseIdx task } : Mounted Row Cursor ε Order) = [] := hgone
    refine ⟨?_, h.rows, h.listing, h.cursor, ?_, fun hawaiting ↦ absurd hawaiting hloading⟩
    · rw [hnone]
      exact Nat.zero_le 1
    · rw [hnone]
      exact fun u hu ↦ absurd hu List.not_mem_nil
  | ok page =>
    simp only [step, ht, TimelineState.append, if_neg hsame, extended]
    have hnone : current ({ m with
        state := { m.state with
          cursor := page.nextCursor, hasMore := page.hasMore, rows := m.state.rows ++ page.posts,
          status := .idle }
        tasks := m.tasks.eraseIdx task
        shown := m.shown ++ [⟨t.order, t.claim.cursor, page⟩] } : Mounted Row Cursor ε Order) = [] :=
      hgone
    refine ⟨?_, ?_, ?_, ?_, ?_, fun hawaiting ↦ absurd hawaiting hloading⟩
    · rw [hnone]
      exact Nat.zero_le 1
    · rw [List.flatMap_append, ← h.rows]
      simp
    · exact h.listing.concat horder (hcursor.trans h.cursor)
    · rw [nextCursor, List.getLast?_concat]
      rfl
    · rw [hnone]
      exact fun u hu ↦ absurd hu List.not_mem_nil

theorem Kept.step {event : Event Row Cursor ε Order} (h : Kept m) (hevent : Undisturbed m event) :
    Kept (step m event) := by
  cases event with
  | replace order => exact Kept.replace hevent
  | settle outcome => exact h.settle hevent
  | loadMore => exact h.loadMore
  | complete task result =>
    cases ht : m.tasks[task]? with
    | none =>
      simp only [Timeline.step, ht]
      exact h
    | some t =>
      by_cases hgeneration : t.claim.generation = m.state.generation
      · exact h.complete_current ht hgeneration
      · exact h.complete_stale ht hgeneration

theorem kept_localPage [DecidableEq Order] (order : Order)
    (seed : Option (Order × Page Row Cursor)) :
    Kept (localPage order seed : Mounted Row Cursor ε Order) := by
  unfold localPage
  cases (seed.filter (fun s ↦ s.1 = order)).map Prod.snd with
  | none => exact ⟨Nat.zero_le 1, rfl, trivial, rfl, nofun, nofun⟩
  | some page =>
    refine ⟨Nat.zero_le 1, ?_, ⟨rfl, rfl, trivial⟩, rfl, nofun, nofun⟩
    exact (List.append_nil page.posts).symm

theorem kept_cockpitPage (order : Order) : Kept (cockpitPage order : Mounted Row Cursor ε Order) :=
  ⟨Nat.zero_le 1, rfl, trivial, rfl, nofun, fun _ ↦ ⟨rfl, rfl⟩⟩

end Listings

theorem undisturbed_pages_consistent [DecidableEq Order] (order : Order)
    (seed : Option (Order × Page Row Cursor)) (mounted : Mounted Row Cursor ε Order)
    (hmounted : mounted = localPage order seed ∨ mounted = cockpitPage order)
    (events : List (Event Row Cursor ε Order)) (hevents : Along step Undisturbed mounted events) :
    Consistent (run step mounted events) := by
  have hkept : Kept mounted := by
    rcases hmounted with rfl | rfl
    · exact kept_localPage order seed
    · exact kept_cockpitPage order
  exact (run_preserves (fun _ _ h hevent ↦ h.step hevent) hkept hevents).consistent

section Samples

def firstPage : Page ℕ ℕ := ⟨[1], some 1, true⟩

def secondPage : Page ℕ ℕ := ⟨[2], none, false⟩

/-- A seeded page that loads more after its first destination has settled. -/
def settledEvents : List (Event ℕ ℕ Unit Unit) :=
  [.settle (.resolved (.ok firstPage)), .loadMore, .complete 0 (.ok secondPage)]

theorem settled_page_consistent :
    Consistent (run step (localPage () (some ((), firstPage))) settledEvents) := by
  refine undisturbed_pages_consistent () (some ((), firstPage)) _ (.inl rfl) settledEvents ?_
  exact ⟨fun _ ↦ rfl, trivial, trivial, trivial⟩

/-- The first destination settles while the reader loads more of the seed. -/
theorem second_page_appended_twice :
    ¬Consistent (run step (localPage () (some ((), firstPage)) : Mounted ℕ ℕ Unit Unit)
      [.loadMore, .settle (.resolved (.ok firstPage)), .loadMore]) ∧
    (run step (localPage () (some ((), firstPage)) : Mounted ℕ ℕ Unit Unit)
      [.loadMore, .settle (.resolved (.ok firstPage)), .loadMore, .complete 0 (.ok secondPage),
        .complete 0 (.ok secondPage)]).state.rows = [1, 2, 2] := by
  refine ⟨fun h ↦ ?_, rfl⟩
  have hsingle := h.single
  revert hsingle
  decide

end Samples

end Jaunder.Web.Timeline
