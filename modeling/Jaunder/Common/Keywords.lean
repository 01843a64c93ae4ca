import Jaunder.Common.PostText
import Jaunder.Foundation.Trimming

namespace Jaunder.Common.Keywords

open Foundation.Trimming
open Jaunder.Common.PostText Jaunder.Common.Tag

def isAscii (s : List Char) : Bool := s.all (fun c ↦ c.toNat < 128)

def isAsciiPunctuation (c : Char) : Bool :=
  ('!' ≤ c ∧ c ≤ '/') ∨ (':' ≤ c ∧ c ≤ '@') ∨ ('[' ≤ c ∧ c ≤ Char.ofNat 0x60) ∨ ('{' ≤ c ∧ c ≤ '~')

/-- Unlike `char::is_whitespace`, without the vertical tab. -/
def isAsciiWhitespace (c : Char) : Bool := c ∈ [' ', '\t', '\n', '\r', '\x0C']

def isSeparator (c : Char) : Bool := isAsciiPunctuation c || isAsciiWhitespace c

/-- The loop of `normalize_keyword` over the trimmed term. -/
def hyphenated (term : List Char) : List Char :=
  term.foldl (fun normalized c ↦
    if isSeparator c then
      if normalized.getLast? = some '-' then normalized else normalized ++ ['-']
    else normalized ++ [c.toLower]) []

def trimHyphens (s : List Char) : List Char := trimBy (· = '-') s

/-- `TagLabel::normalize_keyword` -/
def normalizeKeyword (term : List Char) : Option (List Char) :=
  match if isAscii (trim term) then tagLabel term else none with
  | some label => some label
  | none =>
    if ¬isAscii term then none
    else tagLabel (trimHyphens (hyphenated (trim term)))

/-- A label that the strict grammar admits and that ASCII spells. -/
def IsLabel (s : List Char) : Prop := isAscii s = true ∧ isTag (s.map lowercase) = true

instance (s : List Char) : Decidable (IsLabel s) := inferInstanceAs (Decidable (_ ∧ _))

section Characters

variable {c : Char} {s : List Char}

/-- What holds of each ASCII character holds of every character below 128. -/
theorem ascii_forall {P : Char → Prop} (h : ∀ n < 128, P (Char.ofNat n)) (hc : c.toNat < 128) : P c := by
  have hsmall := h c.toNat hc
  rwa [Char.ofNat_toNat] at hsmall

theorem toNat_lt_of_isTagChar (h : isTagChar c = true) : c.toNat < 128 := by
  have hcases := of_decide_eq_true h
  rcases hcases with hstart | rfl
  · rcases of_decide_eq_true hstart with ⟨-, hle⟩ | ⟨-, hle⟩
    · exact lt_of_le_of_lt (show c.toNat ≤ 'z'.toNat from hle) (by decide)
    · exact lt_of_le_of_lt (show c.toNat ≤ '9'.toNat from hle) (by decide)
  · decide

/-- The characters of a label are letters, digits and hyphens. -/
theorem isTagChar_lowercase (hc : c.toNat < 128) : isTagChar (lowercase c) = true ↔
    (('a' ≤ c ∧ c ≤ 'z') ∨ ('A' ≤ c ∧ c ≤ 'Z') ∨ ('0' ≤ c ∧ c ≤ '9')) ∨ c = '-' :=
  ascii_forall (P := fun c ↦ isTagChar (lowercase c) = true ↔
    (('a' ≤ c ∧ c ≤ 'z') ∨ ('A' ≤ c ∧ c ≤ 'Z') ∨ ('0' ≤ c ∧ c ≤ '9')) ∨ c = '-') (by decide) hc

theorem isTagStart_lowercase (hc : c.toNat < 128) : isTagStart (lowercase c) = true ↔
    ('a' ≤ c ∧ c ≤ 'z') ∨ ('A' ≤ c ∧ c ≤ 'Z') ∨ ('0' ≤ c ∧ c ≤ '9') :=
  ascii_forall (P := fun c ↦ isTagStart (lowercase c) = true ↔
    ('a' ≤ c ∧ c ≤ 'z') ∨ ('A' ≤ c ∧ c ≤ 'Z') ∨ ('0' ≤ c ∧ c ≤ '9')) (by decide) hc

theorem isTagChar_of_isTagStart (h : isTagStart c = true) : isTagChar c = true := decide_eq_true (.inl h)

theorem isAscii_iff : isAscii s = true ↔ ∀ c ∈ s, c.toNat < 128 := by
  rw [isAscii, List.all_eq_true]
  exact forall₂_congr fun c _ ↦ decide_eq_true_iff

theorem isAsciiWhitespace_isWhitespace (h : isAsciiWhitespace c = true) : isWhitespace c = true := by
  have hmem : c ∈ [' ', '\t', '\n', '\r', '\x0C'] := of_decide_eq_true h
  revert h
  simp only [List.mem_cons, List.not_mem_nil, or_false] at hmem
  rcases hmem with rfl | rfl | rfl | rfl | rfl <;> decide

/-- The vertical tab is the only ASCII white space that does not separate. -/
theorem isWhitespace_ascii (hc : c.toNat < 128) :
    isWhitespace c = true ↔ isAsciiWhitespace c = true ∨ c = '\x0B' :=
  ascii_forall (P := fun c ↦ isWhitespace c = true ↔ isAsciiWhitespace c = true ∨ c = '\x0B')
    (by decide) hc

theorem isSeparator_toLower (hc : c.toNat < 128) : isSeparator c.toLower = isSeparator c :=
  ascii_forall (P := fun c ↦ isSeparator c.toLower = isSeparator c) (by decide) hc

theorem toLower_eq_hyphen (hc : c.toNat < 128) (h : isSeparator c = false) : c.toLower ≠ '-' :=
  ascii_forall (P := fun c ↦ isSeparator c = false → c.toLower ≠ '-') (by decide) hc h

end Characters

section Labels

variable {c : Char} {s t : List Char}

theorem isTag_map_lowercase (h : isTag (s.map lowercase) = true) :
    s ≠ [] ∧ ∀ c ∈ s, isTagChar (lowercase c) = true := by
  cases s with
  | nil => cases h
  | cons c s =>
    rw [List.map_cons, isTag, Bool.and_eq_true, List.all_map, List.all_eq_true] at h
    exact ⟨List.cons_ne_nil c s, List.forall_mem_cons.mpr ⟨isTagChar_of_isTagStart h.1, h.2⟩⟩

theorem IsLabel.ne_nil (h : IsLabel s) : s ≠ [] := (isTag_map_lowercase h.2).1

theorem IsLabel.char (h : IsLabel s) (hc : c ∈ s) :
    (('a' ≤ c ∧ c ≤ 'z') ∨ ('A' ≤ c ∧ c ≤ 'Z') ∨ ('0' ≤ c ∧ c ≤ '9')) ∨ c = '-' :=
  (isTagChar_lowercase (isAscii_iff.mp h.1 c hc)).mp ((isTag_map_lowercase h.2).2 c hc)

/-- No white space stands in a label. -/
theorem IsLabel.not_whitespace (h : IsLabel s) (hc : c ∈ s) : isWhitespace c = false :=
  ascii_forall (P := fun c ↦ (('a' ≤ c ∧ c ≤ 'z') ∨ ('A' ≤ c ∧ c ≤ 'Z') ∨ ('0' ≤ c ∧ c ≤ '9')) ∨
    c = '-' → isWhitespace c = false) (by decide) (isAscii_iff.mp h.1 c hc) (h.char hc)

theorem IsLabel.trim_eq (h : IsLabel s) : trim s = s :=
  (tight_of_forall fun _ hc ↦ h.not_whitespace hc).trimBy_eq

theorem tagLabel_of_ascii (h : isAscii (trim s) = true) :
    tagLabel s = if IsLabel (trim s) then some (trim s) else none := by
  rw [tagLabel]
  exact if_congr ⟨fun htag ↦ ⟨h, htag⟩, fun hlabel ↦ hlabel.2⟩ rfl rfl

/-- The cases of `normalize_keyword` told by the trimmed term. -/
theorem normalizeKeyword_eq (term : List Char) : normalizeKeyword term =
    if IsLabel (trim term) then some (trim term)
    else if isAscii term then tagLabel (trimHyphens (hyphenated (trim term))) else none := by
  rw [normalizeKeyword]
  by_cases hascii : isAscii (trim term) = true
  · rw [if_pos hascii, tagLabel_of_ascii hascii]
    by_cases hlabel : IsLabel (trim term)
    · simp only [if_pos hlabel]
    · simp only [if_neg hlabel]
      rw [ite_not]
  · have hlabel : ¬ IsLabel (trim term) := fun h ↦ hascii h.1
    rw [if_neg hascii, if_neg hlabel]
    simp only
    rw [ite_not]

/-- The loop replaces the runs of separators, and lowers the letters. -/
theorem hyphenated_eq (h : isAscii s = true) :
    hyphenated s = replaceRuns isSeparator '-' (s.map Char.toLower) := by
  have hloop : ∀ normalized : List Char, s.foldl (fun normalized c ↦
      if isSeparator c then
        if normalized.getLast? = some '-' then normalized else normalized ++ ['-']
      else normalized ++ [c.toLower]) normalized =
        normalized ++ replaceFrom isSeparator '-' (normalized.getLast? = some '-')
          (s.map Char.toLower) := by
    induction s with
    | nil =>
      intro normalized
      rw [List.map_nil, replaceFrom, List.append_nil]
      rfl
    | cons c s ih =>
      intro normalized
      have hhead := isAscii_iff.mp h c List.mem_cons_self
      have htail := isAscii_iff.mpr fun d hd ↦ isAscii_iff.mp h d (List.mem_cons_of_mem c hd)
      rw [List.foldl_cons, ih htail, List.map_cons, replaceFrom, isSeparator_toLower hhead]
      by_cases hc : isSeparator c = true
      · rw [if_pos hc, if_pos hc]
        by_cases hlast : normalized.getLast? = some '-'
        · rw [if_pos hlast, if_pos (decide_eq_true hlast), decide_eq_true hlast]
        · rw [if_neg hlast, if_neg (by rw [decide_eq_false hlast]; exact Bool.false_ne_true),
            List.getLast?_concat, List.append_assoc]
          rfl
      · have hne : ¬some c.toLower = some '-' := fun heq ↦
          toLower_eq_hyphen hhead (eq_false_of_ne_true hc) (Option.some.inj heq)
        rw [if_neg hc, if_neg hc, List.getLast?_concat, decide_eq_false hne, List.append_assoc]
        rfl
  rw [hyphenated, hloop []]
  rfl

end Labels

end Jaunder.Common.Keywords
