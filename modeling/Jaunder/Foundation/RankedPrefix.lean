import Mathlib.Data.List.TakeWhile
import Mathlib.Tactic

namespace Foundation.RankedPrefix

variable {α : Type}

/-- The elements that rank among the first `n` or satisfy the condition; ranks count from one. -/
def keepRanked (n : ℕ) (keep : α → Bool) (l : List α) : List α :=
  ((l.zipIdx 1).filter (fun p ↦ p.2 ≤ n || keep p.1)).map Prod.fst

theorem keepRanked_from (n : ℕ) (keep : α → Bool) (l : List α) (start : ℕ) :
    ((l.zipIdx (start + 1)).filter (fun p ↦ p.2 ≤ n || keep p.1)).map Prod.fst =
      l.take (n - start) ++ (l.drop (n - start)).filter keep := by
  induction l generalizing start with
  | nil => simp
  | cons x l ih =>
    rw [List.zipIdx_cons, List.filter_cons]
    by_cases hrank : start + 1 ≤ n
    · have hsub : n - start = n - (start + 1) + 1 := by omega
      simp only [hrank, decide_true, Bool.true_or, if_true, List.map_cons, ih, hsub,
        List.take_succ_cons, List.drop_succ_cons, List.cons_append]
    · have hsub : n - start = 0 := by omega
      have hsub' : n - (start + 1) = 0 := by omega
      simp only [hrank, decide_false, Bool.false_or, hsub, List.take_zero, List.drop_zero,
        List.nil_append, List.filter_cons]
      by_cases hkeep : keep x
      · simp [hkeep, ih, hsub']
      · simp [hkeep, ih, hsub']

theorem keepRanked_eq (n : ℕ) (keep : α → Bool) (l : List α) :
    keepRanked n keep l = l.take n ++ (l.drop n).filter keep :=
  keepRanked_from n keep l 0

theorem filter_eq_takeWhile {keep : α → Bool} {l : List α}
    (h : l.Pairwise (fun x y ↦ keep y → keep x)) : l.filter keep = l.takeWhile keep := by
  induction l with
  | nil => rfl
  | cons x l ih =>
    obtain ⟨hx, hl⟩ := List.pairwise_cons.mp h
    by_cases hkeep : keep x
    · rw [List.filter_cons_of_pos hkeep, List.takeWhile_cons_of_pos hkeep, ih hl]
    · rw [List.filter_cons_of_neg hkeep, List.takeWhile_cons_of_neg hkeep, List.filter_eq_nil_iff]
      exact fun y hy hky ↦ hkeep (hx y hy hky)

variable {n : ℕ} {p q : α → Bool} {l : List α}

theorem keepRanked_initial (h : l.Pairwise (fun x y ↦ q y → q x)) : keepRanked n q l <+: l := by
  rw [keepRanked_eq, filter_eq_takeWhile (h.sublist (List.drop_sublist n l))]
  conv_rhs => rw [← List.take_append_drop n l]
  exact (List.prefix_append_right_inj _).mpr (List.takeWhile_prefix _)

end Foundation.RankedPrefix
