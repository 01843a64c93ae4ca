import Mathlib.Data.Finset.Card
import Mathlib.Data.Fintype.Card
import Mathlib.Data.List.Infix
import Mathlib.Tactic

namespace Foundation.FreeName

variable {α : Type}

/-- Among the names of a numbered family one of the first is not taken. -/
theorem exists_free [DecidableEq α] {f : ℕ → α} (hf : Function.Injective f) (taken : List α) :
    ∃ k, 1 ≤ k ∧ k ≤ taken.length + 1 ∧ f k ∉ taken := by
  by_contra hnone
  have htaken : ∀ k ∈ Finset.Icc 1 (taken.length + 1), f k ∈ taken.toFinset := by
    intro k hk
    obtain ⟨hlow, hhigh⟩ := Finset.mem_Icc.mp hk
    by_contra hfree
    exact hnone ⟨k, hlow, hhigh, fun hmem ↦ hfree (List.mem_toFinset.mpr hmem)⟩
  have hcard := Finset.card_le_card_of_injOn f htaken hf.injOn
  rw [Nat.card_Icc] at hcard
  have hlength := taken.toFinset_card_le
  omega

/-- What follows the last separator of a name determines itself. -/
theorem suffix_injective {sep : α} {a b u v : List α} (hu : sep ∉ u) (hv : sep ∉ v)
    (h : a ++ sep :: u = b ++ sep :: v) : u = v := by
  rcases List.append_eq_append_iff.mp h with ⟨w, -, hw⟩ | ⟨w, -, hw⟩
  · cases w with
    | nil => exact (List.cons.inj hw).2
    | cons c w =>
      rw [List.cons_append] at hw
      exact absurd (by rw [(List.cons.inj hw).2]; simp) hu
  · cases w with
    | nil => exact (List.cons.inj hw).2.symm
    | cons c w =>
      rw [List.cons_append] at hw
      exact absurd (by rw [(List.cons.inj hw).2]; simp) hv

/-- All the stretches of a text. -/
def infixes (text : List α) : List (List α) := text.tails.flatMap List.inits

theorem mem_infixes {l text : List α} : l ∈ infixes text ↔ l <:+: text := by
  unfold infixes
  rw [List.mem_flatMap, List.infix_iff_prefix_suffix]
  constructor
  · rintro ⟨t, ht, hl⟩
    exact ⟨t, (List.mem_inits _ _).mp hl, (List.mem_tails _ _).mp ht⟩
  · rintro ⟨t, hl, ht⟩
    exact ⟨t, (List.mem_tails _ _).mpr ht, (List.mem_inits _ _).mpr hl⟩

theorem length_flatMap_inits_le {lists : List (List α)} {n : ℕ} (h : ∀ l ∈ lists, l.length ≤ n) :
    (lists.flatMap List.inits).length ≤ lists.length * (n + 1) := by
  induction lists with
  | nil => simp
  | cons l lists ih =>
    have hrest := ih (fun l' hl' ↦ h l' (List.mem_cons_of_mem _ hl'))
    have hhead := h l List.mem_cons_self
    rw [List.flatMap_cons, List.length_append, List.length_inits, List.length_cons, Nat.succ_mul]
    omega

theorem length_infixes_le (text : List α) : (infixes text).length ≤ (text.length + 1) ^ 2 := by
  have h := length_flatMap_inits_le
    (fun t (ht : t ∈ text.tails) ↦ ((List.mem_tails _ _).mp ht).length_le)
  rw [List.length_tails, ← pow_two] at h
  exact h

end Foundation.FreeName
