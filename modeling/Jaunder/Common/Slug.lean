import Mathlib.Data.List.Basic
import Mathlib.Data.List.DropRight
import Mathlib.Data.Nat.Digits.Lemmas
import Mathlib.Tactic

namespace Jaunder.Common.Slug

/-- What slugs use of the Unicode libraries: lowercasing followed by NFC, whether a grapheme cluster
ends between a text and the character that follows it, and which characters are letters or digits. -/
structure Unicode where
  normalize : List Char → List Char
  boundary : List Char → Char → Bool
  isAlphanumeric : Char → Bool

namespace Unicode

variable (u : Unicode)

def graphemesFrom (left current : List Char) : List Char → List (List Char)
  | [] => if current = [] then [] else [current]
  | c :: cs =>
    if current ≠ [] ∧ u.boundary left c then current :: graphemesFrom (left ++ [c]) [c] cs
    else graphemesFrom (left ++ [c]) (current ++ [c]) cs

def graphemes (s : List Char) : List (List Char) := u.graphemesFrom [] [] s

def baseIsAlphanumeric (grapheme : List Char) : Bool := grapheme.head?.any u.isAlphanumeric

end Unicode

def maxSlugChars : ℕ := 80

/-- `Slug::from_str` -/
def fromStr (u : Unicode) (s : List Char) : Option (List Char) :=
  let normalized := u.normalize s
  if normalized.length > maxSlugChars then none
  else
    match u.graphemes normalized with
    | [] => none
    | first :: rest =>
      if u.baseIsAlphanumeric first ∧ rest.all (fun g ↦ g = ['-'] ∨ u.baseIsAlphanumeric g) then
        some normalized
      else none

/-- A stored slug, as `from_str` leaves it. -/
def IsSlug (u : Unicode) (s : List Char) : Prop := fromStr u s = some s

instance (u : Unicode) (s : List Char) : Decidable (IsSlug u s) :=
  inferInstanceAs (Decidable (fromStr u s = some s))

/-- What the code relies on: normal texts stay normal when they are cut and when ASCII hyphens and
digits follow, ASCII digits are alphanumeric, and a digit starts a cluster after a hyphen or a
digit. -/
structure Unicode.Documented (u : Unicode) : Prop where
  normal_take : ∀ s n, u.normalize s = s → u.normalize (s.take n) = s.take n
  normal_suffix : ∀ s digits, u.normalize s = s → (∀ d ∈ digits, d.isDigit) →
    u.normalize (s ++ '-' :: digits) = s ++ '-' :: digits
  digit : ∀ d : Char, d.isDigit → u.isAlphanumeric d
  digit_boundary : ∀ left c d, (c = '-' ∨ c.isDigit) → d.isDigit → u.boundary (left ++ [c]) d
  hyphen : u.isAlphanumeric '-' = false

section Clusters

variable {u : Unicode} {left current s t : List Char} {c : Char}

/-- A cluster that a slug takes after its first one. -/
def Unicode.Good (u : Unicode) (g : List Char) : Prop := g = ['-'] ∨ u.baseIsAlphanumeric g = true

/-- The clusters that are still to come are good. -/
def Unicode.GoodFrom (u : Unicode) (left current s : List Char) : Prop :=
  ∀ g ∈ u.graphemesFrom left current s, u.Good g

theorem good_of_prefix {g g' : List Char} (h : u.Good (g ++ g')) (hg : g ≠ []) : u.Good g := by
  obtain ⟨c, cs, rfl⟩ := List.exists_cons_of_ne_nil hg
  rcases h with hdash | hbase
  · rw [List.cons_append] at hdash
    obtain ⟨rfl, hnil⟩ := List.cons.inj hdash
    rw [(List.append_eq_nil_iff.mp hnil).1]
    exact .inl rfl
  · exact .inr hbase

theorem goodFrom_nil : u.GoodFrom left current [] ↔ current = [] ∨ u.Good current := by
  unfold Unicode.GoodFrom Unicode.graphemesFrom
  split_ifs with hnil
  · simp [hnil]
  · simp [hnil]

theorem goodFrom_cons_break (h : current ≠ [] ∧ u.boundary left c = true) :
    u.GoodFrom left current (c :: s) ↔ u.Good current ∧ u.GoodFrom (left ++ [c]) [c] s := by
  unfold Unicode.GoodFrom
  rw [Unicode.graphemesFrom, if_pos h, List.forall_mem_cons]

theorem goodFrom_cons_join (h : ¬(current ≠ [] ∧ u.boundary left c = true)) :
    u.GoodFrom left current (c :: s) ↔ u.GoodFrom (left ++ [c]) (current ++ [c]) s := by
  unfold Unicode.GoodFrom
  rw [Unicode.graphemesFrom, if_neg h]

theorem good_current (h : u.GoodFrom left current s) (hcurrent : current ≠ []) :
    u.Good current := by
  induction s generalizing left current with
  | nil => exact (goodFrom_nil.mp h).resolve_left hcurrent
  | cons c s ih =>
    by_cases hbreak : current ≠ [] ∧ u.boundary left c = true
    · exact ((goodFrom_cons_break hbreak).mp h).1
    · exact good_of_prefix (ih ((goodFrom_cons_join hbreak).mp h) (by simp)) hcurrent

/-- A cluster rule looks at nothing beyond the next character, so cutting a text leaves its clusters
good. -/
theorem goodFrom_left (h : u.GoodFrom left current (s ++ t)) : u.GoodFrom left current s := by
  induction s generalizing left current with
  | nil =>
    rw [goodFrom_nil, or_iff_not_imp_left]
    exact good_current h
  | cons c s ih =>
    rw [List.cons_append] at h
    by_cases hbreak : current ≠ [] ∧ u.boundary left c = true
    · obtain ⟨hgood, hrest⟩ := (goodFrom_cons_break hbreak).mp h
      exact (goodFrom_cons_break hbreak).mpr ⟨hgood, ih hrest⟩
    · exact (goodFrom_cons_join hbreak).mpr (ih ((goodFrom_cons_join hbreak).mp h))

variable {digits : List Char}

theorem goodFrom_digits (hu : u.Documented) (hc : c = '-' ∨ c.isDigit) (hgood : u.Good current)
    (hcurrent : current ≠ []) (hdigits : ∀ d ∈ digits, d.isDigit) :
    u.GoodFrom (left ++ [c]) current digits := by
  induction digits generalizing left current c with
  | nil => exact goodFrom_nil.mpr (.inr hgood)
  | cons d digits ih =>
    have hd : d.isDigit := hdigits d List.mem_cons_self
    refine (goodFrom_cons_break ⟨hcurrent, hu.digit_boundary left c d hc hd⟩).mpr ⟨hgood, ?_⟩
    exact ih (.inr hd) (.inr (hu.digit d hd)) (by simp)
      (fun d' hd' ↦ hdigits d' (List.mem_cons_of_mem _ hd'))

/-- A hyphen and a number after a text that ends with something else. -/
theorem goodFrom_append_number (hu : u.Documented) (h : u.GoodFrom left current s)
    (hne : current ++ s ≠ []) (hlast : (current ++ s).getLast? ≠ some '-')
    (hdigits : ∀ d ∈ digits, d.isDigit) : u.GoodFrom left current (s ++ '-' :: digits) := by
  induction s generalizing left current with
  | nil =>
    rw [List.append_nil] at hne hlast
    have hgood := (goodFrom_nil.mp h).resolve_left hne
    have hbase : u.baseIsAlphanumeric current = true := by
      refine hgood.resolve_left (fun hdash ↦ hlast ?_)
      rw [hdash]
      rfl
    rw [List.nil_append]
    by_cases hbreak : current ≠ [] ∧ u.boundary left '-' = true
    · exact (goodFrom_cons_break hbreak).mpr
        ⟨hgood, goodFrom_digits hu (.inl rfl) (.inl rfl) (by simp) hdigits⟩
    · refine (goodFrom_cons_join hbreak).mpr
        (goodFrom_digits hu (.inl rfl) (.inr ?_) (by simp) hdigits)
      obtain ⟨b, bs, rfl⟩ := List.exists_cons_of_ne_nil hne
      exact hbase
  | cons c s ih =>
    rw [List.cons_append]
    by_cases hbreak : current ≠ [] ∧ u.boundary left c = true
    · obtain ⟨hgood, hrest⟩ := (goodFrom_cons_break hbreak).mp h
      refine (goodFrom_cons_break hbreak).mpr ⟨hgood, ih hrest (by simp) ?_⟩
      rwa [List.getLast?_append_of_ne_nil _ (by simp)] at hlast
    · refine (goodFrom_cons_join hbreak).mpr (ih ((goodFrom_cons_join hbreak).mp h) (by simp) ?_)
      rwa [List.append_assoc, List.singleton_append]

theorem graphemesFrom_head (h : current.head? = some c) :
    ∃ first rest, u.graphemesFrom left current s = first :: rest ∧ first.head? = some c := by
  have hne : current ≠ [] := by
    rintro rfl
    cases h
  induction s generalizing left current with
  | nil => exact ⟨current, [], by rw [Unicode.graphemesFrom, if_neg hne], h⟩
  | cons d s ih =>
    unfold Unicode.graphemesFrom
    split_ifs with hbreak
    · exact ⟨current, _, rfl, h⟩
    · exact ih (by rw [List.head?_append, h]; rfl) (by simp)

theorem isSlug_iff : IsSlug u s ↔ u.normalize s = s ∧ s.length ≤ maxSlugChars ∧
    s.head?.any u.isAlphanumeric = true ∧ u.GoodFrom [] [] s := by
  unfold IsSlug fromStr
  by_cases hnormal : u.normalize s = s
  · simp only [hnormal, true_and]
    by_cases hlength : s.length > maxSlugChars
    · rw [if_pos hlength]
      exact iff_of_false (by simp) (fun h ↦ absurd h.1 (by omega))
    · rw [if_neg hlength]
      have hshort : s.length ≤ maxSlugChars := by omega
      cases s with
      | nil => exact iff_of_false (by simp [Unicode.graphemes, Unicode.graphemesFrom]) (by simp)
      | cons c s =>
        obtain ⟨first, rest, hgraphemes, hfirst⟩ : ∃ first rest,
            u.graphemes (c :: s) = first :: rest ∧ first.head? = some c := by
          unfold Unicode.graphemes Unicode.graphemesFrom
          rw [if_neg (by simp)]
          exact graphemesFrom_head rfl
        have hbase : u.baseIsAlphanumeric first = u.isAlphanumeric c := by
          rw [Unicode.baseIsAlphanumeric, hfirst]
          rfl
        have hgood : u.GoodFrom [] [] (c :: s) ↔ u.Good first ∧ ∀ g ∈ rest, u.Good g := by
          unfold Unicode.GoodFrom
          rw [← Unicode.graphemes, hgraphemes, List.forall_mem_cons]
        rw [hgraphemes]
        dsimp only
        split_ifs with hclusters
        · rw [hbase] at hclusters
          refine iff_of_true rfl ⟨hshort, by simpa using hclusters.1, hgood.mpr ⟨?_, ?_⟩⟩
          · exact .inr (hbase.trans hclusters.1)
          · simpa [Unicode.Good] using hclusters.2
        · refine iff_of_false (by simp) (fun h ↦ hclusters ⟨?_, ?_⟩)
          · rw [hbase]
            simpa using h.2.1
          · simpa [Unicode.Good] using (hgood.mp h.2.2).2
  · refine iff_of_false (fun h ↦ hnormal ?_) (fun h ↦ hnormal h.1)
    dsimp only at h
    split_ifs at h
    split at h
    · cases h
    · split_ifs at h
      exact Option.some.inj h

end Clusters

section Suffix

variable {u : Unicode} {s digits : List Char} {n : ℕ}

/-- A slug that is cut, loses its trailing hyphens and gets a number is a slug again. -/
theorem isSlug_numbered (hu : u.Documented) (h : IsSlug u s) (hn : 0 < n)
    (hdigits : ∀ d ∈ digits, d.isDigit) (hlength : n + 1 + digits.length ≤ maxSlugChars) :
    IsSlug u ((s.take n).rdropWhile (· = '-') ++ '-' :: digits) := by
  obtain ⟨hnormal, -, hhead, hgood⟩ := isSlug_iff.mp h
  set stem := (s.take n).rdropWhile (· = '-') with hstem
  have hprefix : stem <+: s := (List.rdropWhile_prefix _ _).trans (List.take_prefix n s)
  have hshort : stem.length ≤ n :=
    (List.rdropWhile_prefix _ _).length_le.trans (List.length_take_le n s)
  obtain ⟨c, cs, hs⟩ : ∃ c cs, s = c :: cs := by
    cases s with
    | nil => simp at hhead
    | cons c cs => exact ⟨c, cs, rfl⟩
  have hc : u.isAlphanumeric c = true := by
    rw [hs] at hhead
    simpa using hhead
  have hne : stem ≠ [] := by
    intro hnil
    rw [hstem, List.rdropWhile_eq_nil_iff] at hnil
    have hdash := hnil c (by rw [hs]; simp [List.take_cons hn])
    rw [of_decide_eq_true hdash, hu.hyphen] at hc
    cases hc
  have hlast : stem.getLast? ≠ some '-' := by
    rw [List.getLast?_eq_getLast_of_ne_nil hne]
    intro hdash
    exact List.rdropWhile_last_not _ _ hne (by simpa using Option.some.inj hdash)
  have hcut : stem = s.take stem.length := (List.prefix_iff_eq_take.mp hprefix)
  obtain ⟨rest, hrest⟩ := hprefix
  refine isSlug_iff.mpr ⟨hu.normal_suffix _ _ ?_ hdigits, ?_, ?_, ?_⟩
  · rw [hcut]
    exact hu.normal_take s _ hnormal
  · rw [List.length_append, List.length_cons]
    omega
  · rw [← hrest, List.head?_append_of_ne_nil _ hne] at hhead
    rwa [List.head?_append_of_ne_nil _ hne]
  · refine goodFrom_append_number hu ?_ hne hlast hdigits
    rw [← hrest] at hgood
    exact goodFrom_left hgood

end Suffix

end Jaunder.Common.Slug
