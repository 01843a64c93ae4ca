import Mathlib.Data.List.DropRight
import Mathlib.Data.List.TakeWhile
import Mathlib.Tactic

namespace Foundation.Substrings

variable {α : Type*} [DecidableEq α] {a : α} {s t u sep : List α}

def stripPrefix (pre s : List α) : Option (List α) :=
  if pre.isPrefixOf s then some (s.drop pre.length) else none

def stripSuffix (suf s : List α) : Option (List α) :=
  if suf.isSuffixOf s then some (s.take (s.length - suf.length)) else none

/-- What is in front of the last separator, and what is behind it. -/
def rsplitOnce (a : α) (s : List α) : Option (List α × List α) :=
  if a ∈ s then some ((s.rdropWhile (fun b ↦ b ≠ a)).dropLast, s.rtakeWhile (fun b ↦ b ≠ a)) else none

/-- What is in front of the first occurrence of a text, and what is behind it. -/
def splitOnce (sep : List α) : List α → Option (List α × List α)
  | [] => if sep = [] then some ([], []) else none
  | a :: s =>
    if sep.isPrefixOf (a :: s) then some ([], (a :: s).drop sep.length)
    else (splitOnce sep s).map (fun (front, back) ↦ (a :: front, back))

theorem stripPrefix_eq_some : stripPrefix t s = some u ↔ s = t ++ u := by
  rw [stripPrefix]
  constructor
  · intro h
    split_ifs at h with ht
    obtain ⟨rest, rfl⟩ := List.isPrefixOf_iff_prefix.mp ht
    rw [← Option.some.inj h, List.drop_left]
  · rintro rfl
    rw [if_pos (List.isPrefixOf_iff_prefix.mpr (List.prefix_append t u)), List.drop_left]

theorem stripSuffix_eq_some : stripSuffix t s = some u ↔ s = u ++ t := by
  rw [stripSuffix]
  constructor
  · intro h
    split_ifs at h with ht
    obtain ⟨rest, rfl⟩ := List.isSuffixOf_iff_suffix.mp ht
    rw [← Option.some.inj h, List.length_append, Nat.add_sub_cancel, List.take_left]
  · rintro rfl
    rw [if_pos (List.isSuffixOf_iff_suffix.mpr (List.suffix_append u t)), List.length_append,
      Nat.add_sub_cancel, List.take_left]

theorem rsplitOnce_append (h : a ∉ t) : rsplitOnce a (s ++ a :: t) = some (s, t) := by
  have hmem : a ∈ s ++ a :: t := List.mem_append_right s List.mem_cons_self
  have hall : ∀ b ∈ t, decide (b ≠ a) = true := by
    intro b hb
    exact decide_eq_true fun heq ↦ h (heq ▸ hb)
  have hdrop : (s ++ a :: t).rdropWhile (fun b ↦ b ≠ a) = s ++ [a] := by
    rw [List.rdropWhile, List.reverse_append, List.reverse_cons, List.append_assoc,
      List.dropWhile_append_of_pos (by simpa using hall), List.singleton_append,
      List.dropWhile_cons_of_neg (by simp), List.reverse_cons, List.reverse_reverse]
  have htake : (s ++ a :: t).rtakeWhile (fun b ↦ b ≠ a) = t := by
    rw [List.rtakeWhile, List.reverse_append, List.reverse_cons, List.append_assoc,
      List.takeWhile_append_of_pos (by simpa using hall), List.singleton_append,
      List.takeWhile_cons_of_neg (by simp), List.append_nil, List.reverse_reverse]
  rw [rsplitOnce, if_pos hmem, hdrop, htake, List.dropLast_concat]

/-- A separator is found where it begins when its first character does not stand in front. -/
theorem splitOnce_append (h : a ∉ s) (t : List α) :
    splitOnce (a :: sep) (s ++ a :: sep ++ t) = some (s, t) := by
  induction s with
  | nil =>
    have hprefix : (a :: sep).isPrefixOf (a :: sep ++ t) = true :=
      List.isPrefixOf_iff_prefix.mpr (List.prefix_append _ t)
    rw [List.nil_append, List.cons_append, splitOnce, ← List.cons_append, if_pos hprefix, List.drop_left]
  | cons b s ih =>
    have hb : a ≠ b := fun heq ↦ h (heq ▸ List.mem_cons_self)
    have hnot : (a :: sep).isPrefixOf (b :: (s ++ a :: sep ++ t)) = false := by
      simp [List.isPrefixOf, hb]
    rw [List.cons_append, List.cons_append, splitOnce, hnot,
      ih fun hmem ↦ h (List.mem_cons_of_mem b hmem)]
    rfl

theorem splitOnce_eq_none (h : a ∉ s) : splitOnce (a :: sep) s = none := by
  induction s with
  | nil => rfl
  | cons b s ih =>
    have hb : a ≠ b := fun heq ↦ h (heq ▸ List.mem_cons_self)
    have hnot : (a :: sep).isPrefixOf (b :: s) = false := by simp [List.isPrefixOf, hb]
    rw [splitOnce, hnot, ih fun hmem ↦ h (List.mem_cons_of_mem b hmem)]
    rfl

theorem splitOnce_singleton_eq_some : splitOnce [a] s = some (t, u) ↔ s = t ++ a :: u ∧ a ∉ t := by
  have happend {t : List α} (h : a ∉ t) (u : List α) : splitOnce [a] (t ++ a :: u) = some (t, u) := by
    have hsplit : splitOnce [a] (t ++ [a] ++ u) = some (t, u) := splitOnce_append h u
    rwa [List.append_assoc] at hsplit
  constructor
  · intro h
    by_cases hmem : a ∈ s
    · obtain ⟨front, back, rfl, hfront⟩ := List.eq_append_cons_of_mem hmem
      rw [happend hfront] at h
      obtain ⟨rfl, rfl⟩ := Prod.mk.inj (Option.some.inj h)
      exact ⟨rfl, hfront⟩
    · rw [splitOnce_eq_none hmem] at h
      cases h
  · rintro ⟨rfl, ht⟩
    exact happend ht u

theorem rsplitOnce_eq_some (h : rsplitOnce a s = some (t, u)) : s = t ++ a :: u ∧ a ∉ u := by
  by_cases hmem : a ∈ s
  · obtain ⟨back, front, hs, hback⟩ := List.eq_append_cons_of_mem (List.mem_reverse.mpr hmem)
    have hs' : s = front.reverse ++ a :: back.reverse := by
      rw [← List.reverse_reverse s, hs, List.reverse_append, List.reverse_cons, List.append_assoc,
        List.singleton_append]
    have hback' : a ∉ back.reverse := fun hin ↦ hback (List.mem_reverse.mp hin)
    rw [hs', rsplitOnce_append hback'] at h
    obtain ⟨rfl, rfl⟩ := Prod.mk.inj (Option.some.inj h)
    exact ⟨hs', hback'⟩
  · rw [rsplitOnce, if_neg hmem] at h
    cases h

end Foundation.Substrings
