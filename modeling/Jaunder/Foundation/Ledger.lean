import Mathlib.Algebra.Order.BigOperators.Group.List
import Mathlib.Data.Finmap
import Mathlib.Tactic

namespace Foundation.Ledger

variable {κ ρ : Type} [DecidableEq κ]

/-- A table with a primary key. -/
abbrev Keyed (κ ρ : Type) : Type := Finmap (fun _ : κ ↦ ρ)

/-- `SUM` over the rows. -/
def total (f : κ → ρ → ℤ) (m : Keyed κ ρ) : ℤ := (m.entries.map (fun e ↦ f e.1 e.2)).sum

/-- What the row of a key contributes to a sum. -/
def entry (f : κ → ρ → ℤ) (m : Keyed κ ρ) (k : κ) : ℤ := (m.lookup k).elim 0 (f k)

variable {f g : κ → ρ → ℤ} {m : Keyed κ ρ} {k k' : κ} {v : ρ}

theorem entry_of_lookup (h : m.lookup k = some v) : entry f m k = f k v := by
  rw [entry, h]
  rfl

theorem entry_of_none (h : m.lookup k = none) : entry f m k = 0 := by
  rw [entry, h]
  rfl

theorem lookup_insert_eq : (m.insert k v).lookup k' = if k' = k then some v else m.lookup k' := by
  split_ifs with hk
  · rw [hk, Finmap.lookup_insert]
  · exact Finmap.lookup_insert_of_ne m hk

theorem lookup_erase_eq : (m.erase k).lookup k' = if k' = k then none else m.lookup k' := by
  split_ifs with hk
  · rw [hk, Finmap.lookup_erase]
  · exact Finmap.lookup_erase_ne hk

theorem lookup_of_not_mem_keys (h : k ∉ m.keys) : m.lookup k = none :=
  Finmap.lookup_eq_none.mpr (fun hmem ↦ h (Finmap.mem_keys.mpr hmem))

theorem lookup_of_mem_keys (h : k ∈ m.keys) : ∃ v, m.lookup k = some v :=
  Finmap.mem_iff.mp (Finmap.mem_keys.mp h)

theorem mem_keys_of_lookup (h : m.lookup k = some v) : k ∈ m.keys :=
  Finmap.mem_keys.mpr (Finmap.mem_of_lookup_eq_some h)

theorem entry_insert : entry f (m.insert k v) k' = if k' = k then f k v else entry f m k' := by
  rw [entry, lookup_insert_eq]
  split_ifs with hk
  · rw [hk]
    rfl
  · rfl

theorem entry_erase : entry f (m.erase k) k' = if k' = k then 0 else entry f m k' := by
  rw [entry, lookup_erase_eq]
  split_ifs
  · rfl
  · rfl

omit [DecidableEq κ] in
@[simp] theorem total_empty : total f (∅ : Keyed κ ρ) = 0 := rfl

@[simp] theorem entry_empty : entry f (∅ : Keyed κ ρ) k = 0 := rfl

theorem total_eq_erase_add (f : κ → ρ → ℤ) (m : Keyed κ ρ) (k : κ) :
    total f m = total f (m.erase k) + entry f m k := by
  cases hlookup : m.lookup k with
  | none =>
    have herase : m.erase k = m := by
      refine Finmap.ext_lookup (fun k' ↦ ?_)
      rw [lookup_erase_eq]
      split_ifs with hk
      · rw [hk, hlookup]
      · rfl
    rw [entry_of_none hlookup, herase, add_zero]
  | some v =>
    have hinsert : (m.erase k).insert k v = m := by
      refine Finmap.ext_lookup (fun k' ↦ ?_)
      rw [lookup_insert_eq, lookup_erase_eq]
      split_ifs with hk
      · rw [hk, hlookup]
      · rfl
    have hentries := Finmap.entries_insert_of_notMem (b := v) (Finmap.notMem_erase_self (s := m) (a := k))
    rw [hinsert] at hentries
    rw [entry_of_lookup hlookup, total, hentries, Multiset.map_cons, Multiset.sum_cons, add_comm]
    rfl

theorem total_erase : total f (m.erase k) = total f m - entry f m k := by
  rw [total_eq_erase_add f m k]
  ring

theorem total_insert : total f (m.insert k v) = total f m - entry f m k + f k v := by
  have herase : (m.insert k v).erase k = m.erase k := by
    refine Finmap.ext_lookup (fun k' ↦ ?_)
    rw [lookup_erase_eq, lookup_erase_eq, lookup_insert_eq]
    split_ifs
    · rfl
    · rfl
  rw [total_eq_erase_add f (m.insert k v) k, herase, total_erase, entry_insert, if_pos rfl]

theorem total_congr (h : ∀ k v, m.lookup k = some v → f k v = g k v) : total f m = total g m := by
  refine congrArg Multiset.sum (Multiset.map_congr rfl (fun e he ↦ ?_))
  exact h e.1 e.2 (Finmap.lookup_eq_some_iff.mpr he)

theorem total_nonneg (h : ∀ k v, m.lookup k = some v → 0 ≤ f k v) : 0 ≤ total f m := by
  refine Multiset.sum_nonneg (fun x hx ↦ ?_)
  obtain ⟨e, he, rfl⟩ := Multiset.mem_map.mp hx
  exact h e.1 e.2 (Finmap.lookup_eq_some_iff.mpr he)

theorem entry_le_total (h : ∀ k v, m.lookup k = some v → 0 ≤ f k v) (k : κ) :
    entry f m k ≤ total f m := by
  have hrest : 0 ≤ total f (m.erase k) := by
    refine total_nonneg (fun k' v hlookup ↦ ?_)
    rw [lookup_erase_eq] at hlookup
    split_ifs at hlookup
    exact h k' v hlookup
  have := total_eq_erase_add f m k
  omega

section Order

variable (le : κ → κ → Prop) [DecidableRel le] [IsTrans κ le] [Std.Antisymm le] [Std.Total le]

/-- A set of keys in ascending order. -/
def ascending (keys : Finset κ) : List κ :=
  Quot.liftOn keys.val (List.insertionSort le) (fun l l' h ↦
    (((List.perm_insertionSort le l).trans h).trans (List.perm_insertionSort le l').symm).eq_of_pairwise'
      (List.pairwise_insertionSort le l) (List.pairwise_insertionSort le l'))

variable {le} {keys : Finset κ}

omit [DecidableEq κ] in
theorem ascending_coe : (ascending le keys : Multiset κ) = keys.val := by
  unfold ascending
  generalize keys.val = s
  induction s using Quot.inductionOn with
  | h l => exact Quot.sound (List.perm_insertionSort le l)

omit [DecidableEq κ] in
@[simp] theorem mem_ascending : k ∈ ascending le keys ↔ k ∈ keys := by
  rw [← Multiset.mem_coe, ascending_coe]
  rfl

omit [DecidableEq κ] in
theorem ascending_nodup : (ascending le keys).Nodup := by
  rw [← Multiset.coe_nodup, ascending_coe]
  exact keys.nodup

end Order

section Postings

variable {α : Type} [DecidableEq α]

/-- What a list of postings puts on one account. -/
def posted (postings : List (α × ℤ)) (a : α) : ℤ :=
  ((postings.filter (fun p ↦ p.1 = a)).map Prod.snd).sum

/-- `GROUP BY` with `COUNT(*)`, in the order of the keys. -/
def grouped (le : α → α → Bool) (l : List α) : List (α × ℤ) :=
  (l.dedup.insertionSort (fun a b ↦ le a b = true)).map (fun a ↦ (a, (l.count a : ℤ)))

variable {le : α → α → Bool} {l : List α} {postings : List (α × ℤ)} {a : α} {p : α × ℤ}

@[simp] theorem posted_nil : posted [] a = 0 := rfl

theorem posted_cons : posted (p :: postings) a = (if p.1 = a then p.2 else 0) + posted postings a := by
  unfold posted
  by_cases h : p.1 = a
  · rw [List.filter_cons_of_pos (by simpa using h), if_pos h, List.map_cons, List.sum_cons]
  · rw [List.filter_cons_of_neg (by simpa using h), if_neg h, zero_add]

theorem posted_nonneg (h : ∀ p ∈ postings, 0 ≤ p.2) : 0 ≤ posted postings a := by
  refine List.sum_nonneg (fun n hn ↦ ?_)
  obtain ⟨p, hp, rfl⟩ := List.mem_map.mp hn
  exact h p (List.mem_of_mem_filter hp)

/-- One posting for each element. -/
theorem posted_ones (l : List α) : posted (l.map (fun b ↦ (b, (1 : ℤ)))) a = l.count a := by
  induction l with
  | nil => rfl
  | cons b l ih =>
    rw [List.map_cons, posted_cons, ih, List.count_cons]
    by_cases h : b = a
    · simp [h, add_comm]
    · simp [h]

theorem posted_keyed {keys : List α} {n : α → ℤ} (h : keys.Nodup) :
    posted (keys.map (fun b ↦ (b, n b))) a = if a ∈ keys then n a else 0 := by
  induction keys with
  | nil => rfl
  | cons b keys ih =>
    obtain ⟨hb, hkeys⟩ := List.nodup_cons.mp h
    rw [List.map_cons, posted_cons, ih hkeys]
    by_cases ha : b = a
    · subst ha
      simp [hb]
    · simp [ha, Ne.symm ha]

/-- Grouping neither adds nor loses a posting. -/
theorem posted_grouped : posted (grouped le l) a = l.count a := by
  have hnodup : (l.dedup.insertionSort (fun a b ↦ le a b = true)).Nodup :=
    (List.perm_insertionSort _ _).nodup_iff.mpr (List.nodup_dedup l)
  rw [grouped, posted_keyed hnodup]
  by_cases ha : a ∈ l
  · rw [if_pos ((List.mem_insertionSort _).mpr (List.mem_dedup.mpr ha))]
  · rw [if_neg (fun h ↦ ha (List.mem_dedup.mp ((List.mem_insertionSort _).mp h))),
      List.count_eq_zero_of_not_mem ha]
    rfl

theorem grouped_pos (hp : p ∈ grouped le l) : 0 < p.2 := by
  obtain ⟨a, ha, rfl⟩ := List.mem_map.mp hp
  have hmem : a ∈ l := List.mem_dedup.mp ((List.mem_insertionSort _).mp ha)
  exact Int.natCast_pos.mpr (List.count_pos_iff.mpr hmem)

end Postings

end Foundation.Ledger
