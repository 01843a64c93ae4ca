import Jaunder.Common.PostSearch
import Jaunder.Storage.Listings
import Jaunder.Storage.Posts.Tables
import Mathlib.Tactic

namespace Jaunder.Storage.TitleSearch

open Jaunder.Common.PostSearch
open Jaunder.Storage.Dialect Jaunder.Storage.Listings Jaunder.Storage.Schema

/-- SQLite compares the letters of ASCII without their case, PostgreSQL as they are. -/
def likeFold : Posts.Tables.Dialect → Char → Char
  | .sqlite => Char.toLower
  | .postgres => id

/-- `str::replace` of one letter -/
def replaceLetter (c : Char) (replacement search : List Char) : List Char :=
  search.flatMap (fun d ↦ if d = c then replacement else [d])

def fromSearch (search : List Char) : List Char :=
  '%' :: (replaceLetter '_' ['\\', '_'] (replaceLetter '%' ['\\', '%']
    (replaceLetter '\\' ['\\', '\\'] search)) ++ ['%'])

/-- `PostManagementRequest::new` -/
def searchOf (caseFold : Char → List Char) (search : List Char) : Option (List Char) :=
  let search := normalizePostSearchQuery caseFold search
  if search = [] then none else some search

def escape (c : Char) : List Char := if c = '\\' ∨ c = '%' ∨ c = '_' then ['\\', c] else [c]

/-- The three replacements do not disturb each other in this order. -/
theorem fromSearch_eq (search : List Char) : fromSearch search = searchPattern search := by
  have hletter (c : Char) : replaceLetter '_' ['\\', '_'] (replaceLetter '%' ['\\', '%']
      (replaceLetter '\\' ['\\', '\\'] [c])) = escape c := by
    by_cases hbackslash : c = '\\'
    · subst hbackslash
      decide
    by_cases hpercent : c = '%'
    · subst hpercent
      decide
    by_cases hunderscore : c = '_'
    · subst hunderscore
      decide
    · simp [replaceLetter, escape, hbackslash, hpercent, hunderscore]
  have happend (c : Char) (replacement s t : List Char) : replaceLetter c replacement (s ++ t) =
      replaceLetter c replacement s ++ replaceLetter c replacement t := List.flatMap_append
  have hescaped : replaceLetter '_' ['\\', '_'] (replaceLetter '%' ['\\', '%']
      (replaceLetter '\\' ['\\', '\\'] search)) = search.flatMap escape := by
    induction search with
    | nil => rfl
    | cons c search ih =>
      have hcons : c :: search = [c] ++ search := rfl
      rw [hcons, happend, happend, happend, hletter, ih, List.flatMap_append,
        List.flatMap_singleton]
  rw [fromSearch, hescaped]
  rfl

section Like

variable {fold : Char → Char} {pattern text search : List Char} {c d : Char}

/-- A wildcard leaves a suffix to the rest of the pattern. -/
theorem like_percent_iff : like fold ('%' :: pattern) text = true ↔
    ∃ rest, rest <:+ text ∧ like fold pattern rest = true := by
  induction text with
  | nil =>
    rw [like]
    refine ⟨fun h ↦ ⟨[], List.suffix_rfl, h⟩, ?_⟩
    rintro ⟨rest, hrest, h⟩
    rwa [List.suffix_nil.mp hrest] at h
  | cons d text ih =>
    rw [like, Bool.or_eq_true, ih]
    constructor
    · rintro (h | ⟨rest, hrest, h⟩)
      · exact ⟨d :: text, List.suffix_rfl, h⟩
      · exact ⟨rest, hrest.trans (List.suffix_cons d text), h⟩
    · rintro ⟨rest, hrest, h⟩
      rcases List.suffix_cons_iff.mp hrest with rfl | hrest
      · exact .inl h
      · exact .inr ⟨rest, hrest, h⟩

theorem like_all : like fold ['%'] text = true :=
  like_percent_iff.mpr ⟨[], List.nil_suffix, by rw [like]; rfl⟩

/-- An escaped letter stands for itself. -/
theorem like_escape_iff : like fold (escape c ++ pattern) text = true ↔
    ∃ d rest, text = d :: rest ∧ fold c = fold d ∧ like fold pattern rest = true := by
  have hnil : like fold (escape c ++ pattern) [] = false := by
    unfold escape
    split
    · simp [like]
    · rename_i hc
      push Not at hc
      simp [like, hc]
  have hcons (d : Char) (rest : List Char) : like fold (escape c ++ pattern) (d :: rest) =
      (decide (fold c = fold d) && like fold pattern rest) := by
    unfold escape
    split
    · simp [like]
    · rename_i hc
      push Not at hc
      simp [like, hc]
  cases text with
  | nil =>
    rw [hnil]
    refine ⟨fun h ↦ absurd h Bool.false_ne_true, ?_⟩
    rintro ⟨d, rest, h, -⟩
    cases h
  | cons d rest =>
    rw [hcons, Bool.and_eq_true, decide_eq_true_iff]
    constructor
    · exact fun h ↦ ⟨d, rest, rfl, h⟩
    · rintro ⟨d', rest', heq, h⟩
      cases heq
      exact h

theorem like_flatMap_escape_iff : like fold (search.flatMap escape ++ pattern) text = true ↔
    ∃ found rest, text = found ++ rest ∧ search.map fold = found.map fold ∧
      like fold pattern rest = true := by
  induction search generalizing text with
  | nil =>
    constructor
    · exact fun h ↦ ⟨[], text, rfl, rfl, h⟩
    · rintro ⟨found, rest, rfl, hfound, h⟩
      rw [List.map_eq_nil_iff.mp hfound.symm]
      exact h
  | cons c search ih =>
    rw [List.flatMap_cons, List.append_assoc, like_escape_iff]
    constructor
    · rintro ⟨d, tail, rfl, hletter, h⟩
      obtain ⟨found, rest, rfl, hfound, h⟩ := ih.mp h
      exact ⟨d :: found, rest, rfl, by rw [List.map_cons, List.map_cons, hletter, hfound], h⟩
    · rintro ⟨found, rest, rfl, hfound, h⟩
      obtain ⟨d, tail, rfl, hletter, htail⟩ := List.map_eq_cons_iff.mp hfound.symm
      exact ⟨d, tail ++ rest, rfl, hletter.symm, ih.mpr ⟨tail, rest, rfl, htail.symm, h⟩⟩

theorem like_searchPattern_iff : like fold (searchPattern search) text = true ↔
    ∃ found, found <:+: text ∧ search.map fold = found.map fold := by
  have heq : searchPattern search = '%' :: (search.flatMap escape ++ ['%']) := rfl
  rw [heq, like_percent_iff]
  constructor
  · rintro ⟨tail, ⟨before, rfl⟩, h⟩
    obtain ⟨found, rest, rfl, hfound, -⟩ := like_flatMap_escape_iff.mp h
    exact ⟨found, ⟨before, rest, List.append_assoc before found rest⟩, hfound⟩
  · rintro ⟨found, ⟨before, rest, rfl⟩, hfound⟩
    refine ⟨found ++ rest, ⟨before, (List.append_assoc before found rest).symm⟩, ?_⟩
    exact like_flatMap_escape_iff.mpr ⟨found, rest, rfl, hfound, like_all⟩

theorem toLower_of_not_isUpper (h : c.isUpper = false) : c.toLower = c := by
  have hrange : ¬(c.val ≥ 'A'.val ∧ c.val ≤ 'Z'.val) := of_decide_eq_false h
  exact dif_neg hrange

theorem isUpper_toLower (c : Char) : c.toLower.isUpper = false := by
  by_cases hupper : c.isUpper = true
  · have hrange : c.val ≥ 'A'.val ∧ c.val ≤ 'Z'.val := of_decide_eq_true hupper
    have hval : c.toLower.val = c.val + ('a'.val - 'A'.val) := by
      unfold Char.toLower
      rw [dif_pos hrange]
    refine decide_eq_false fun h ↦ ?_
    rw [hval] at h
    simp only [ge_iff_le, UInt32.le_iff_toNat_le, UInt32.toNat_add] at h hrange
    simp at h hrange
    omega
  · have hupper' := eq_false_of_ne_true hupper
    rw [toLower_of_not_isUpper hupper', hupper']

theorem map_likeFold (backend : Posts.Tables.Dialect) (h : ∀ c ∈ text, c.isUpper = false) :
    text.map (likeFold backend) = text := by
  cases backend with
  | sqlite =>
    exact (List.map_congr_left fun c hc ↦ toLower_of_not_isUpper (h c hc)).trans (List.map_id text)
  | postgres => exact List.map_id text

/-- Without capitals the search is for the very letters. -/
theorem like_searchPattern_plain_iff (backend : Posts.Tables.Dialect)
    (hsearch : ∀ c ∈ search, c.isUpper = false) (htext : ∀ c ∈ text, c.isUpper = false) :
    like (likeFold backend) (searchPattern search) text = true ↔ search <:+: text := by
  rw [like_searchPattern_iff]
  constructor
  · rintro ⟨found, hinside, heq⟩
    rw [map_likeFold backend hsearch,
      map_likeFold backend fun c hc ↦ htext c (hinside.subset hc)] at heq
    rwa [heq]
  · exact fun h ↦ ⟨search, h, rfl⟩

end Like

section Predicate

variable {caseFold : Char → List Char} {b : Backend} {decode : b.Stored → Common.Time.UtcInstant}
  {s : StoredPosts b decode} {p : Post} {title : Option String} {slug : String}

/-- The predicate of the search box adds that the normalized words stand in the stored text. -/
theorem managed_searchOf_iff (hfold : ∀ c, ∀ d ∈ caseFold c, d.isUpper = false)
    (backend : Posts.Tables.Dialect) (userId : ℤ) (request : PostManagementRequest)
    (search : List Char)
    (htext : s.searchText p.postId = some (postSearchProjection caseFold title slug).toList) :
    managed s (likeFold backend) userId { request with search := searchOf caseFold search } p =
        true ↔
      managed s (likeFold backend) userId { request with search := none } p = true ∧
        normalizePostSearchQuery caseFold search <:+:
          (postSearchProjection caseFold title slug).toList := by
  have hpredicate : (searchOf caseFold search).all (fun search ↦
      (s.searchText p.postId).any (like (likeFold backend) (searchPattern search))) = true ↔
        normalizePostSearchQuery caseFold search <:+:
          (postSearchProjection caseFold title slug).toList := by
    rw [htext, toList_postSearchProjection]
    unfold searchOf
    dsimp only
    split
    · rename_i hempty
      rw [hempty]
      exact ⟨fun _ ↦ List.nil_infix, fun _ ↦ rfl⟩
    · exact like_searchPattern_plain_iff backend
        (fun c hc ↦ isUpper_normalizePostSearchQuery hfold hc)
        (fun c hc ↦ isUpper_normalizePostSearchQuery hfold hc)
  unfold managed
  simp only [decide_eq_true_eq, Option.all_none, and_true]
  rw [hpredicate]
  tauto

end Predicate

end Jaunder.Storage.TitleSearch
