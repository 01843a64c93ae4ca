import Jaunder.Common.PostText

namespace Jaunder.Common.PostSearch

open Jaunder.Common.PostText

/-- One folded letter: what is written so far and whether blanks have come since. -/
def normalizeNext (acc : List Char × Bool) (c : Char) : List Char × Bool :=
  if isWhitespace c then (acc.1, true)
  else (acc.1 ++ (if acc.2 ∧ acc.1 ≠ [] then [' '] else []) ++ [c], false)

variable (caseFold : Char → List Char)

def normalizePostSearchQuery (input : List Char) : List Char :=
  ((input.flatMap caseFold).foldl normalizeNext ([], true)).1

def authored (title : Option String) (slug : String) : List Char :=
  title.elim slug.toList (fun title ↦ title.toList ++ [' '] ++ slug.toList)

def postSearchProjection (title : Option String) (slug : String) : String :=
  String.ofList (normalizePostSearchQuery caseFold (authored title slug))

variable {caseFold} {input : List Char} {acc : List Char × Bool} {c d : Char}

theorem mem_normalizeNext (h : c ∈ (normalizeNext acc d).1) : c ∈ acc.1 ∨ c = ' ' ∨ c = d := by
  unfold normalizeNext at h
  split at h
  · exact .inl h
  · rcases List.mem_append.mp h with h | h
    · rcases List.mem_append.mp h with h | h
      · exact .inl h
      · split at h
        · exact .inr (.inl (List.mem_singleton.mp h))
        · cases h
    · exact .inr (.inr (List.mem_singleton.mp h))

theorem mem_foldl_normalizeNext (h : c ∈ (input.foldl normalizeNext acc).1) :
    c ∈ acc.1 ∨ c = ' ' ∨ c ∈ input := by
  induction input generalizing acc with
  | nil => exact .inl h
  | cons d input ih =>
    rcases ih h with h | h | h
    · rcases mem_normalizeNext h with h | h | rfl
      · exact .inl h
      · exact .inr (.inl h)
      · exact .inr (.inr List.mem_cons_self)
    · exact .inr (.inl h)
    · exact .inr (.inr (List.mem_cons_of_mem d h))

/-- Every letter is a blank or comes from the folding. -/
theorem mem_normalizePostSearchQuery (h : c ∈ normalizePostSearchQuery caseFold input) :
    c = ' ' ∨ ∃ d ∈ input, c ∈ caseFold d := by
  rcases mem_foldl_normalizeNext h with h | h | h
  · cases h
  · exact .inl h
  · exact .inr (List.mem_flatMap.mp h)

theorem isUpper_normalizePostSearchQuery (hfold : ∀ c, ∀ d ∈ caseFold c, d.isUpper = false)
    (h : c ∈ normalizePostSearchQuery caseFold input) : c.isUpper = false := by
  rcases mem_normalizePostSearchQuery h with rfl | ⟨d, -, hd⟩
  · decide
  · exact hfold d c hd

theorem toList_postSearchProjection (title : Option String) (slug : String) :
    (postSearchProjection caseFold title slug).toList =
      normalizePostSearchQuery caseFold (authored title slug) :=
  String.toList_ofList

end Jaunder.Common.PostSearch
