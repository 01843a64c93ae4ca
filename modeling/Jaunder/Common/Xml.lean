import Jaunder.Common.PostText

namespace Jaunder.Common.Xml

open Jaunder.Common.PostText Jaunder.Common.Tag

/-- The production `Char` of XML 1.0. -/
def isXmlChar (c : Char) : Bool :=
  c = '\t' ∨ c = '\n' ∨ c = '\r' ∨ (0x20 ≤ c.toNat ∧ c.toNat ≤ 0xD7FF) ∨
    (0xE000 ≤ c.toNat ∧ c.toNat ≤ 0xFFFD) ∨ (0x10000 ≤ c.toNat ∧ c.toNat ≤ 0x10FFFF)

def isMarkup (c : Char) : Bool := c ∈ ['<', '>', '&', '"', '\'']

def XmlText (s : String) : Prop := ∀ c ∈ s.toList, isXmlChar c = true

instance (s : String) : Decidable (XmlText s) := List.decidableBAll _ _

@[simp] theorem xmlText_append {s t : String} : XmlText (s ++ t) ↔ XmlText s ∧ XmlText t := by
  simp only [XmlText, String.toList_append, List.mem_append]
  refine ⟨fun h ↦ ⟨fun c hc ↦ h c (.inl hc), fun c hc ↦ h c (.inr hc)⟩, ?_⟩
  rintro ⟨hs, ht⟩ c (hc | hc)
  · exact hs c hc
  · exact ht c hc

theorem isMarkup_of_not_xml {c : Char} (h : isXmlChar c = false) : isMarkup c = false := by
  refine eq_false_of_ne_true fun hmarkup ↦ ?_
  have hmem : c ∈ ['<', '>', '&', '"', '\''] := of_decide_eq_true hmarkup
  simp only [List.mem_cons, List.not_mem_nil, or_false] at hmem
  rcases hmem with rfl | rfl | rfl | rfl | rfl <;> revert h <;> decide

theorem isXmlChar_of_ascii {c : Char} (hlow : 0x20 ≤ c.toNat) (hhigh : c.toNat < 0x80) :
    isXmlChar c = true := by
  simp only [isXmlChar, decide_eq_true_eq]
  omega

theorem isXmlChar_of_isDigit {c : Char} (h : c.isDigit = true) : isXmlChar c = true := by
  simp only [Char.isDigit, Bool.and_eq_true, decide_eq_true_eq, UInt32.le_iff_toNat_le] at h
  exact isXmlChar_of_ascii (by have := h.1; simp at this; omega) (by have := h.2; simp at this; omega)

theorem xmlText_repr (n : ℕ) : XmlText (Nat.repr n) := by
  intro c hc
  rw [Nat.repr, String.toList_ofList] at hc
  exact isXmlChar_of_isDigit (Nat.isDigit_of_mem_toDigits (by decide) (by decide) hc)

theorem xmlText_toString (n : ℤ) : XmlText (toString n) := by
  cases n with
  | ofNat n => exact xmlText_repr n
  | negSucc n =>
    have hrepr : toString (Int.negSucc n) = "-" ++ Nat.repr (n + 1) := rfl
    rw [hrepr, xmlText_append]
    exact ⟨by decide, xmlText_repr _⟩

section Admission

variable {c : Char} {s t : List Char}

theorem isXmlChar_of_isTagChar (h : isTagChar c = true) : isXmlChar c = true := by
  simp only [isTagChar, isTagStart, Char.le_def, UInt32.le_iff_toNat_le, Bool.decide_or,
    Bool.decide_and, Bool.or_eq_true, Bool.and_eq_true, decide_eq_true_eq] at h
  rcases h with (⟨hlow, hhigh⟩ | ⟨hlow, hhigh⟩) | rfl
  · exact isXmlChar_of_ascii ((by decide : 0x20 ≤ 'a'.val.toNat).trans hlow)
      (hhigh.trans_lt (by decide))
  · exact isXmlChar_of_ascii ((by decide : 0x20 ≤ '0'.val.toNat).trans hlow)
      (hhigh.trans_lt (by decide))
  · decide

theorem isXmlChar_of_lowercase (h : isTagChar (lowercase c) = true) : isXmlChar c = true := by
  by_cases hkelvin : c = Char.ofNat 0x212A
  · rw [hkelvin]
    decide
  · by_cases hupper : 'A' ≤ c ∧ c ≤ 'Z'
    · simp only [Char.le_def, UInt32.le_iff_toNat_le] at hupper
      exact isXmlChar_of_ascii ((by decide : 0x20 ≤ 'A'.val.toNat).trans hupper.1)
        (hupper.2.trans_lt (by decide))
    · rw [lowercase, if_neg hkelvin, if_neg hupper] at h
      exact isXmlChar_of_isTagChar h

theorem isTagChar_of_isTag (h : isTag s = true) : ∀ c ∈ s, isTagChar c = true := by
  cases s with
  | nil => exact fun c hc ↦ absurd hc List.not_mem_nil
  | cons a s =>
    rw [isTag, Bool.and_eq_true] at h
    intro c hc
    rcases List.mem_cons.1 hc with rfl | hc
    · simp [isTagChar, h.1]
    · exact List.all_eq_true.1 h.2 c hc

/-- No tag label carries a character that XML excludes. -/
theorem tagLabel_xml (h : tagLabel s = some t) : ∀ c ∈ t, isXmlChar c = true := by
  rw [tagLabel] at h
  by_cases htag : isTag ((trim s).map lowercase) = true
  · rw [if_pos htag] at h
    obtain rfl := Option.some.inj h
    exact fun c hc ↦ isXmlChar_of_lowercase
      (isTagChar_of_isTag htag _ (List.mem_map_of_mem hc))
  · rw [if_neg htag] at h
    cases h

theorem toNat_lt_of_isUsernameByte (h : isUsernameByte c = true) : c.toNat < 128 := by
  unfold isUsernameByte Char.isAlphanum Char.isAlpha Char.isUpper Char.isLower Char.isDigit at h
  simp only [Bool.or_eq_true, Bool.and_eq_true, decide_eq_true_eq,
    UInt32.le_iff_toNat_le, ge_iff_le] at h
  change ((((65 ≤ c.toNat ∧ c.toNat ≤ 90) ∨ (97 ≤ c.toNat ∧ c.toNat ≤ 122)) ∨
    (48 ≤ c.toNat ∧ c.toNat ≤ 57)) ∨ c = '_' ∨ c = '-') at h
  rcases h with ((h | h) | h) | rfl | rfl
  · omega
  · omega
  · omega
  · decide
  · decide

theorem isXmlChar_toLower (h : isUsernameByte c = true) : isXmlChar c.toLower = true := by
  have hall : ∀ n < 128, isUsernameByte (Char.ofNat n) = true →
      isXmlChar (Char.ofNat n).toLower = true := by decide +kernel
  have hc := hall c.toNat (toNat_lt_of_isUsernameByte h)
  rw [Char.ofNat_toNat] at hc
  exact hc h

/-- No username carries a character that XML excludes. -/
theorem username_xml (h : username s = some t) : ∀ c ∈ t, isXmlChar c = true := by
  rw [username] at h
  by_cases hbad : s = [] ∨ ¬s.all isUsernameByte
  · rw [if_pos hbad] at h
    cases h
  · rw [if_neg hbad] at h
    obtain rfl := Option.some.inj h
    rw [not_or, not_not, List.all_eq_true] at hbad
    intro c hc
    obtain ⟨d, hd, rfl⟩ := List.mem_map.1 hc
    exact isXmlChar_toLower (hbad.2 d hd)

theorem trim_flanked (c : Char) : trim ['a', c, 'a'] = ['a', c, 'a'] := by
  have ha : isWhitespace 'a' = false := by decide
  simp [trim, trimEnd, ha, List.rdropWhile]

theorem nonEmpty_flanked (c : Char) : nonEmpty ['a', c, 'a'] = some ['a', c, 'a'] := by
  rw [nonEmpty, trim_flanked]
  rfl

theorem postTitle_flanked (h : isLineSeparator c = false) :
    postTitle ['a', c, 'a'] = some ['a', c, 'a'] := by
  have ha : isLineSeparator 'a' = false := by decide
  rw [postTitle, if_neg (by simp [ha, h])]
  exact nonEmpty_flanked c

theorem postSummary_flanked (c : Char) : postSummary ['a', c, 'a'] = some ['a', c, 'a'] := by
  rw [postSummary, boundedNonEmpty, nonEmpty_flanked]
  rfl

theorem displayName_flanked (c : Char) : displayName ['a', c, 'a'] = some ['a', c, 'a'] := by
  rw [displayName, boundedNonEmpty, nonEmpty_flanked]
  rfl

theorem mem_lines (hc : c ∈ s) (hbreak : c ≠ '\n') : ∃ line ∈ lines s, c ∈ line := by
  induction s with
  | nil => exact absurd hc List.not_mem_nil
  | cons a s ih =>
    rw [lines]
    by_cases ha : a = '\n'
    · rw [if_pos ha]
      have hs : c ∈ s := (List.mem_cons.1 hc).resolve_left fun h ↦ hbreak (h.trans ha)
      obtain ⟨line, hline, hmem⟩ := ih hs
      exact ⟨line, List.mem_cons_of_mem _ hline, hmem⟩
    · rw [if_neg ha]
      cases hlines : lines s with
      | nil =>
        rcases List.mem_cons.1 hc with rfl | hs
        · exact ⟨[c], List.mem_singleton_self _, List.mem_singleton_self _⟩
        · obtain ⟨line, hline, -⟩ := ih hs
          rw [hlines] at hline
          exact absurd hline List.not_mem_nil
      | cons first rest =>
        rcases List.mem_cons.1 hc with rfl | hs
        · exact ⟨c :: first, List.mem_cons_self, List.mem_cons_self⟩
        · obtain ⟨line, hline, hmem⟩ := ih hs
          rw [hlines] at hline
          rcases List.mem_cons.1 hline with rfl | hrest
          · exact ⟨a :: line, List.mem_cons_self, List.mem_cons_of_mem _ hmem⟩
          · exact ⟨line, List.mem_cons_of_mem _ hrest, hmem⟩

theorem trim_eq_nil (h : trim s = []) : ∀ c ∈ s, isWhitespace c = true := by
  rw [trim, trimEnd, List.rdropWhile_eq_nil_iff] at h
  intro c hc
  rcases List.mem_append.1 (List.takeWhile_append_dropWhile (p := isWhitespace) (l := s) ▸ hc) with
    htake | hdrop
  · exact List.mem_takeWhile_imp htake
  · exact h c hdrop

theorem postBody_of_mem (hc : c ∈ s) (hblank : isWhitespace c = false) : postBody s = some s := by
  have hbreak : c ≠ '\n' := by
    rintro rfl
    exact absurd hblank (by decide)
  obtain ⟨line, hline, hmem⟩ := mem_lines hc hbreak
  rw [postBody, if_neg]
  intro hall
  have hnil := of_decide_eq_true (List.all_eq_true.1 hall line hline)
  rw [trim_eq_nil hnil c hmem] at hblank
  cases hblank

theorem mem_of_mem_trim (hc : c ∈ trim s) : c ∈ s :=
  (List.dropWhile_suffix _).subset ((List.rdropWhile_prefix _ _).subset hc)

/-- The characters that XML excludes and some title admits. -/
theorem postTitle_reaches (h : isXmlChar c = false) :
    (∃ s t, postTitle s = some t ∧ c ∈ t) ↔ c ≠ Char.ofNat 0x0B ∧ c ≠ Char.ofNat 0x0C := by
  have hseparator : isLineSeparator c = true ↔ c = Char.ofNat 0x0B ∨ c = Char.ofNat 0x0C := by
    simp only [isLineSeparator, decide_eq_true_eq, List.mem_cons, List.not_mem_nil, or_false]
    constructor
    · rintro (rfl | rfl | rfl | rfl | rfl | rfl | rfl)
      · exact absurd h (by decide)
      · exact absurd h (by decide)
      · exact .inl rfl
      · exact .inr rfl
      · exact absurd h (by decide)
      · exact absurd h (by decide)
      · exact absurd h (by decide)
    · rintro (rfl | rfl)
      · exact .inr (.inr (.inl rfl))
      · exact .inr (.inr (.inr (.inl rfl)))
  rw [← not_or, ← hseparator]
  constructor
  · rintro ⟨s, t, ht, hc⟩ hbreak
    rw [postTitle] at ht
    by_cases hany : s.any isLineSeparator = true
    · rw [if_pos hany] at ht
      cases ht
    · rw [if_neg hany, nonEmpty] at ht
      by_cases hnil : trim s = []
      · rw [if_pos hnil] at ht
        cases ht
      · rw [if_neg hnil] at ht
        obtain rfl := Option.some.inj ht
        exact hany (List.any_eq_true.2 ⟨c, mem_of_mem_trim hc, hbreak⟩)
  · intro hbreak
    exact ⟨['a', c, 'a'], ['a', c, 'a'], postTitle_flanked (eq_false_of_ne_true hbreak), by simp⟩

end Admission

end Jaunder.Common.Xml
