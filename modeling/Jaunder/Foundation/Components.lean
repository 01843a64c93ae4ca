import Mathlib.Logic.Relation
import Mathlib.Tactic

namespace Foundation.Components

open Relation

set_option linter.unusedSectionVars false

variable {α κ : Type} [DecidableEq α] [DecidableEq κ]

section Search

variable (keys : α → List κ) (items : List α)

def bucket (key : κ) : List α := items.filter (fun x ↦ key ∈ keys x)

/-- The items that share an unexpanded key with this one, and the keys expanded with it. -/
def neighbors (x : α) (expanded : List κ) : List α × List κ :=
  let fresh := (keys x).filter (· ∉ expanded)
  (fresh.flatMap (bucket keys items), fresh ++ expanded)

/-- A search that expands every key once; `none` when the fuel runs out. -/
def search : ℕ → List α → List α → List κ → List α → Option (List α × List α)
  | 0, _, _, _, _ => none
  | _ + 1, [], visited, _, nodes => some (nodes, visited)
  | fuel + 1, x :: pending, visited, expanded, nodes =>
    if x ∈ visited then search fuel pending visited expanded nodes
    else
      let next := neighbors keys items x expanded
      search fuel (next.1 ++ pending) (x :: visited) next.2 (x :: nodes)

def component (fuel : ℕ) (seed : α) (visited : List α) : Option (List α × List α) :=
  search keys items fuel [seed] visited [] []

/-- The components of the seeds, each found once. -/
def components (fuel : ℕ) : List α → List α → Option (List (List α))
  | [], _ => some []
  | seed :: seeds, visited =>
    if seed ∈ visited then components fuel seeds visited
    else do
      let (nodes, visited) ← component keys items fuel seed visited
      let rest ← components fuel seeds visited
      return nodes :: rest

/-- Items with a common key. -/
def Linked (x y : α) : Prop := x ∈ items ∧ y ∈ items ∧ ∃ key, key ∈ keys x ∧ key ∈ keys y

def Closed (visited : List α) : Prop :=
  ∀ x y, Linked keys items x y → x ∈ visited → y ∈ visited

end Search

variable {keys : α → List κ} {items : List α} {seed x y : α} {key : κ} {fuel : ℕ}
  {pending visited nodes done seeds : List α} {expanded : List κ}

theorem mem_bucket : x ∈ bucket keys items key ↔ x ∈ items ∧ key ∈ keys x := by
  rw [bucket, List.mem_filter, decide_eq_true_eq]

theorem Linked.symm (h : Linked keys items x y) : Linked keys items y x := by
  obtain ⟨hx, hy, key, hkx, hky⟩ := h
  exact ⟨hy, hx, key, hky, hkx⟩

/-- A closed set has all or nothing of a class. -/
theorem Closed.mem_iff (h : Closed keys items visited) (hxy : EqvGen (Linked keys items) x y) :
    x ∈ visited ↔ y ∈ visited := by
  induction hxy with
  | rel x y hxy => exact ⟨h x y hxy, h y x hxy.symm⟩
  | refl x => exact Iff.rfl
  | symm x y _ ih => exact ih.symm
  | trans x y z _ _ ih ih' => exact ih.trans ih'

/-- The state of a search for the class of the seed, begun when `done` had been visited. -/
structure Searching (keys : α → List κ) (items : List α) (seed : α)
    (done pending visited : List α) (expanded : List κ) (nodes : List α) : Prop where
  visited_eq : visited = nodes ++ done
  nodup : nodes.Nodup
  fresh : ∀ x ∈ nodes, x ∉ done
  inside : ∀ x ∈ pending, x ∈ items
  connected : ∀ x, x ∈ pending ∨ x ∈ nodes → EqvGen (Linked keys items) seed x
  keys_expanded : ∀ x ∈ nodes, ∀ key ∈ keys x, key ∈ expanded
  expanded_found : ∀ key ∈ expanded, ∀ y ∈ bucket keys items key, y ∈ visited ∨ y ∈ pending
  seed_found : seed ∈ pending ∨ seed ∈ nodes

theorem Searching.skip (h : Searching keys items seed done (x :: pending) visited expanded nodes)
    (hx : x ∈ visited) (hseed : seed ∉ done) :
    Searching keys items seed done pending visited expanded nodes where
  visited_eq := h.visited_eq
  nodup := h.nodup
  fresh := h.fresh
  inside := fun y hy ↦ h.inside y (List.mem_cons_of_mem _ hy)
  connected := fun y hy ↦ h.connected y (hy.imp_left (List.mem_cons_of_mem _))
  keys_expanded := h.keys_expanded
  expanded_found := by
    intro key hkey y hy
    rcases h.expanded_found key hkey y hy with hvisited | hpending
    · exact .inl hvisited
    · rcases List.mem_cons.mp hpending with rfl | hpending
      · exact .inl hx
      · exact .inr hpending
  seed_found := by
    rcases h.seed_found with hpending | hnodes
    · rcases List.mem_cons.mp hpending with rfl | hpending
      · rw [h.visited_eq, List.mem_append] at hx
        exact .inr (hx.resolve_right hseed)
      · exact .inl hpending
    · exact .inr hnodes

theorem Searching.expand (h : Searching keys items seed done (x :: pending) visited expanded nodes)
    (hx : x ∉ visited) :
    Searching keys items seed done ((neighbors keys items x expanded).1 ++ pending) (x :: visited)
      (neighbors keys items x expanded).2 (x :: nodes) where
  visited_eq := by rw [h.visited_eq, List.cons_append]
  nodup := by
    refine List.nodup_cons.mpr ⟨fun hmem ↦ hx ?_, h.nodup⟩
    rw [h.visited_eq]
    exact List.mem_append_left _ hmem
  fresh := by
    intro y hy
    rcases List.mem_cons.mp hy with rfl | hy
    · rw [h.visited_eq, List.mem_append, not_or] at hx
      exact hx.2
    · exact h.fresh y hy
  inside := by
    intro y hy
    rcases List.mem_append.mp hy with hy | hy
    · obtain ⟨key, -, hy⟩ := List.mem_flatMap.mp hy
      exact (mem_bucket.mp hy).1
    · exact h.inside y (List.mem_cons_of_mem _ hy)
  connected := by
    intro y hy
    have hseed := h.connected x (.inl List.mem_cons_self)
    rcases hy with hy | hy
    · rcases List.mem_append.mp hy with hy | hy
      · obtain ⟨key, hkey, hy⟩ := List.mem_flatMap.mp hy
        have hlinked : Linked keys items x y := ⟨h.inside x List.mem_cons_self, (mem_bucket.mp hy).1,
          key, (List.mem_filter.mp hkey).1, (mem_bucket.mp hy).2⟩
        exact hseed.trans _ _ _ (.rel _ _ hlinked)
      · exact h.connected y (.inl (List.mem_cons_of_mem _ hy))
    · rcases List.mem_cons.mp hy with rfl | hy
      · exact hseed
      · exact h.connected y (.inr hy)
  keys_expanded := by
    intro y hy key hkey
    rcases List.mem_cons.mp hy with rfl | hy
    · by_cases hexpanded : key ∈ expanded
      · exact List.mem_append_right _ hexpanded
      · exact List.mem_append_left _ (List.mem_filter.mpr ⟨hkey, decide_eq_true hexpanded⟩)
    · exact List.mem_append_right _ (h.keys_expanded y hy key hkey)
  expanded_found := by
    intro key hkey y hy
    rcases List.mem_append.mp hkey with hfresh | hold
    · exact .inr (List.mem_append_left _ (List.mem_flatMap.mpr ⟨key, hfresh, hy⟩))
    · rcases h.expanded_found key hold y hy with hvisited | hpending
      · exact .inl (List.mem_cons_of_mem _ hvisited)
      · rcases List.mem_cons.mp hpending with rfl | hpending
        · exact .inl List.mem_cons_self
        · exact .inr (List.mem_append_right _ hpending)
  seed_found := by
    rcases h.seed_found with hpending | hnodes
    · rcases List.mem_cons.mp hpending with rfl | hpending
      · exact .inr List.mem_cons_self
      · exact .inl (List.mem_append_right _ hpending)
    · exact .inr (List.mem_cons_of_mem _ hnodes)

/-- What a finished search has found: the class of the seed. -/
structure Found (keys : α → List κ) (items : List α) (seed : α) (done nodes visited : List α) :
    Prop where
  visited_eq : visited = nodes ++ done
  nodup : nodes.Nodup
  fresh : ∀ x ∈ nodes, x ∉ done
  mem_iff : ∀ x, x ∈ nodes ↔ EqvGen (Linked keys items) seed x
  closed : Closed keys items visited

theorem Searching.found (h : Searching keys items seed done [] visited expanded nodes)
    (hdone : Closed keys items done) : Found keys items seed done nodes visited := by
  have hclosed : Closed keys items visited := by
    intro x y hxy hx
    rw [h.visited_eq, List.mem_append] at hx
    rcases hx with hx | hx
    · obtain ⟨-, hy, key, hkx, hky⟩ := hxy
      have hkey := h.keys_expanded x hx key hkx
      exact (h.expanded_found key hkey y (mem_bucket.mpr ⟨hy, hky⟩)).resolve_right List.not_mem_nil
    · rw [h.visited_eq]
      exact List.mem_append_right _ (hdone x y hxy hx)
  have hseed : seed ∈ nodes := h.seed_found.resolve_left List.not_mem_nil
  refine ⟨h.visited_eq, h.nodup, h.fresh, fun x ↦ ⟨fun hx ↦ h.connected x (.inr hx), fun hx ↦ ?_⟩,
    hclosed⟩
  have hvisited : seed ∈ visited := by
    rw [h.visited_eq]
    exact List.mem_append_left _ hseed
  have hmem := (hclosed.mem_iff hx).mp hvisited
  rw [h.visited_eq, List.mem_append] at hmem
  refine hmem.resolve_right (fun hxdone ↦ h.fresh seed hseed ?_)
  exact (hdone.mem_iff hx).mpr hxdone

theorem search_found {result : List α × List α} (hdone : Closed keys items done) (hseed : seed ∉ done)
    (h : Searching keys items seed done pending visited expanded nodes)
    (hsearch : search keys items fuel pending visited expanded nodes = some result) :
    Found keys items seed done result.1 result.2 := by
  induction fuel generalizing pending visited expanded nodes with
  | zero => cases hsearch
  | succ fuel ih =>
    cases pending with
    | nil =>
      obtain rfl := Option.some.inj hsearch
      exact h.found hdone
    | cons x pending =>
      rw [search] at hsearch
      split_ifs at hsearch with hx
      · exact ih (h.skip hx hseed) hsearch
      · exact ih (h.expand hx) hsearch

/-- Every search ends: it visits an item, or it shortens the list of pending items. -/
theorem search_terminates (hinside : ∀ x ∈ pending, x ∈ items) :
    ∃ bound result, ∀ fuel, bound ≤ fuel →
      search keys items fuel pending visited expanded nodes = some result := by
  induction hn : (items.filter (· ∉ visited)).length using Nat.strong_induction_on generalizing
    pending visited expanded nodes with
  | _ n ihn =>
    induction pending with
    | nil =>
      refine ⟨1, (nodes, visited), fun fuel hfuel ↦ ?_⟩
      obtain ⟨fuel, rfl⟩ := Nat.exists_eq_add_of_le' hfuel
      rfl
    | cons x pending ih =>
      by_cases hx : x ∈ visited
      · obtain ⟨bound, result, hbound⟩ := ih (fun y hy ↦ hinside y (List.mem_cons_of_mem _ hy))
        refine ⟨bound + 1, result, fun fuel hfuel ↦ ?_⟩
        obtain ⟨fuel, rfl⟩ := Nat.exists_eq_add_of_le' (show 1 ≤ fuel by omega)
        rw [search, if_pos hx]
        exact hbound fuel (by omega)
      · have hlt : (items.filter (· ∉ x :: visited)).length < n := by
          have hfilter : items.filter (· ∉ x :: visited) =
              (items.filter (· ∉ visited)).filter (· ≠ x) := by
            rw [List.filter_filter]
            refine List.filter_congr (fun y _ ↦ ?_)
            simp
          rw [← hn, hfilter]
          refine List.length_filter_lt_length_iff_exists.mpr ⟨x, ?_, by simp⟩
          exact List.mem_filter.mpr ⟨hinside x List.mem_cons_self, decide_eq_true hx⟩
        have hnext : ∀ y ∈ (neighbors keys items x expanded).1 ++ pending, y ∈ items := by
          intro y hy
          rcases List.mem_append.mp hy with hy | hy
          · obtain ⟨key, -, hy⟩ := List.mem_flatMap.mp hy
            exact (mem_bucket.mp hy).1
          · exact hinside y (List.mem_cons_of_mem _ hy)
        obtain ⟨bound, result, hbound⟩ := ihn _ hlt hnext rfl
        refine ⟨bound + 1, result, fun fuel hfuel ↦ ?_⟩
        obtain ⟨fuel, rfl⟩ := Nat.exists_eq_add_of_le' (show 1 ≤ fuel by omega)
        rw [search, if_neg hx]
        exact hbound fuel (by omega)

theorem component_found {result : List α × List α} (hdone : Closed keys items done)
    (hitem : seed ∈ items) (hseed : seed ∉ done)
    (h : component keys items fuel seed done = some result) :
    Found keys items seed done result.1 result.2 := by
  refine search_found hdone hseed ⟨rfl, List.nodup_nil, nofun, ?_, ?_, nofun,
    fun _ hkey ↦ absurd hkey List.not_mem_nil, .inl List.mem_cons_self⟩ h
  · intro x hx
    rw [List.mem_singleton.mp hx]
    exact hitem
  · rintro x (hx | hx)
    · rw [List.mem_singleton.mp hx]
      exact .refl _
    · exact absurd hx List.not_mem_nil

theorem components_terminates (hseeds : ∀ seed ∈ seeds, seed ∈ items) :
    ∃ bound groups, ∀ fuel, bound ≤ fuel → components keys items fuel seeds done = some groups := by
  induction seeds generalizing done with
  | nil => exact ⟨0, [], fun _ _ ↦ rfl⟩
  | cons seed seeds ih =>
    have hrest : ∀ s ∈ seeds, s ∈ items := fun s hs ↦ hseeds s (List.mem_cons_of_mem _ hs)
    by_cases hseed : seed ∈ done
    · have hterminates : ∃ bound groups, ∀ fuel, bound ≤ fuel →
          components keys items fuel seeds done = some groups := ih hrest
      obtain ⟨bound, groups, hbound⟩ := hterminates
      refine ⟨bound, groups, fun fuel hfuel ↦ ?_⟩
      rw [components, if_pos hseed]
      exact hbound fuel hfuel
    · have hcomponent : ∃ bound result, ∀ fuel, bound ≤ fuel →
          component keys items fuel seed done = some result :=
        search_terminates (fun x hx ↦ List.mem_singleton.mp hx ▸ hseeds seed List.mem_cons_self)
      obtain ⟨bound, result, hbound⟩ := hcomponent
      have hterminates : ∃ bound groups, ∀ fuel, bound ≤ fuel →
          components keys items fuel seeds result.2 = some groups := ih hrest
      obtain ⟨bound', groups, hbound'⟩ := hterminates
      refine ⟨max bound bound', result.1 :: groups, fun fuel hfuel ↦ ?_⟩
      have hcomponent : component keys items fuel seed done = some result :=
        hbound fuel (le_of_max_le_left hfuel)
      rw [components, if_neg hseed, hcomponent]
      change (components keys items fuel seeds result.2).bind (fun rest ↦ some (result.1 :: rest)) = _
      rw [hbound' fuel (le_of_max_le_right hfuel)]
      rfl

/-- The groups are the classes of the seeds that had not been visited, and each is found once. -/
structure Grouped (keys : α → List κ) (items seeds done : List α) (groups : List (List α)) :
    Prop where
  nodup : ∀ g ∈ groups, g.Nodup
  fresh : ∀ g ∈ groups, ∀ x ∈ g, x ∉ done
  disjoint : groups.Pairwise List.Disjoint
  class_of : ∀ g ∈ groups, ∃ s ∈ seeds, ∀ x, x ∈ g ↔ EqvGen (Linked keys items) s x
  covered : ∀ s ∈ seeds, s ∈ done ∨ ∃ g ∈ groups, s ∈ g

theorem components_grouped {groups : List (List α)} (hdone : Closed keys items done)
    (hseeds : ∀ seed ∈ seeds, seed ∈ items)
    (h : components keys items fuel seeds done = some groups) :
    Grouped keys items seeds done groups := by
  induction seeds generalizing done groups with
  | nil =>
    obtain rfl := Option.some.inj h
    exact ⟨nofun, nofun, .nil, nofun, nofun⟩
  | cons seed seeds ih =>
    have hrest : ∀ s ∈ seeds, s ∈ items := fun s hs ↦ hseeds s (List.mem_cons_of_mem _ hs)
    rw [components] at h
    split_ifs at h with hseed
    · have hgrouped := ih hdone hrest h
      refine ⟨hgrouped.nodup, hgrouped.fresh, hgrouped.disjoint, fun g hg ↦ ?_, fun s hs ↦ ?_⟩
      · obtain ⟨s, hs, hclass⟩ := hgrouped.class_of g hg
        exact ⟨s, List.mem_cons_of_mem _ hs, hclass⟩
      · rcases List.mem_cons.mp hs with rfl | hs
        · exact .inl hseed
        · exact hgrouped.covered s hs
    · obtain ⟨⟨nodes, visited⟩, hcomponent, h⟩ := Option.bind_eq_some_iff.mp h
      obtain ⟨rest, hgroups, h⟩ := Option.bind_eq_some_iff.mp h
      obtain rfl := Option.some.inj h
      have hfound : Found keys items seed done nodes visited :=
        component_found hdone (hseeds seed List.mem_cons_self) hseed hcomponent
      have hgrouped := ih hfound.closed hrest hgroups
      have hvisited : ∀ x, x ∈ visited ↔ x ∈ nodes ∨ x ∈ done := by
        intro x
        rw [hfound.visited_eq, List.mem_append]
      refine ⟨?_, ?_, ?_, ?_, ?_⟩
      · intro g hg
        rcases List.mem_cons.mp hg with rfl | hg
        · exact hfound.nodup
        · exact hgrouped.nodup g hg
      · intro g hg x hx
        rcases List.mem_cons.mp hg with rfl | hg
        · exact hfound.fresh x hx
        · exact fun hxdone ↦ hgrouped.fresh g hg x hx ((hvisited x).mpr (.inr hxdone))
      · refine List.pairwise_cons.mpr ⟨fun g hg x hx hxg ↦ ?_, hgrouped.disjoint⟩
        exact hgrouped.fresh g hg x hxg ((hvisited x).mpr (.inl hx))
      · intro g hg
        rcases List.mem_cons.mp hg with rfl | hg
        · exact ⟨seed, List.mem_cons_self, hfound.mem_iff⟩
        · obtain ⟨s, hs, hclass⟩ := hgrouped.class_of g hg
          exact ⟨s, List.mem_cons_of_mem _ hs, hclass⟩
      · intro s hs
        rcases List.mem_cons.mp hs with rfl | hs
        · exact .inr ⟨nodes, List.mem_cons_self, (hfound.mem_iff _).mpr (.refl _)⟩
        · rcases hgrouped.covered s hs with hsvisited | ⟨g, hg, hsg⟩
          · rcases (hvisited s).mp hsvisited with hsnodes | hsdone
            · exact .inr ⟨nodes, List.mem_cons_self, hsnodes⟩
            · exact .inl hsdone
          · exact .inr ⟨g, List.mem_cons_of_mem _ hg, hsg⟩

end Foundation.Components
