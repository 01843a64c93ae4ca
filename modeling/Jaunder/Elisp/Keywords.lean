import Jaunder.Common.Keywords

namespace Jaunder.Elisp.Keywords

open Foundation.Trimming
open Jaunder.Common.PostText Jaunder.Common.Keywords

/-- `jaunder--ascii-tag-alphanumeric-p` -/
def isTagAlphanumeric (c : Char) : Bool :=
  ('a' ≤ c ∧ c ≤ 'z') ∨ ('A' ≤ c ∧ c ≤ 'Z') ∨ ('0' ≤ c ∧ c ≤ '9')

/-- What `string-trim` takes where no regexp is given. -/
def isBlank (c : Char) : Bool := c ∈ [' ', '\t', '\n', '\r']

inductive TagLabelDefect
  | empty
  | invalidStart
  | invalidCharacter (offset : ℕ)
deriving DecidableEq

/-- The scan of a trimmed label from the offset on. -/
def scanTagLabel : ℕ → List Char → Option TagLabelDefect
  | _, [] => none
  | offset, c :: rest =>
    if isTagAlphanumeric c || c = '-' then scanTagLabel (offset + 1) rest
    else some (.invalidCharacter offset)

/-- `jaunder--tag-label-defect` -/
def tagLabelDefect (label : List Char) : Option TagLabelDefect :=
  match trimBy isBlank label with
  | [] => some .empty
  | c :: rest => if ¬isTagAlphanumeric c then some .invalidStart else scanTagLabel 1 rest

/-- `jaunder--valid-tag-label-p` -/
def validTagLabel (label : List Char) : Bool := tagLabelDefect label = none

/-- The class of the replaced runs, with the backslash that the regexp lists as well. -/
def isReplaced (c : Char) : Bool :=
  ('!' ≤ c ∧ c ≤ '/') ∨ (':' ≤ c ∧ c ≤ '@') ∨ c = '\\' ∨ ('[' ≤ c ∧ c ≤ Char.ofNat 0x60) ∨
    ('{' ≤ c ∧ c ≤ '~') ∨ c ∈ [' ', '\t', '\n', '\r', '\x0C']

inductive InvalidKeyword
  | nonAscii
  | unusable
deriving DecidableEq

/-- `jaunder-normalize-keyword` of a string. The class that it trims is the white space of Rust, but
its regexp takes one character at each end; the hyphens are trimmed by one that repeats. -/
def normalizeKeyword (term : List Char) : Except InvalidKeyword (List Char) :=
  let trimmed := trimOnce isWhitespace term
  if validTagLabel trimmed then .ok trimmed
  else if ¬isAscii term then .error .nonAscii
  else
    let normalized := trimBy (· = '-') (replaceRuns isReplaced '-' (trimmed.map Char.toLower))
    if ¬validTagLabel normalized then .error .unusable else .ok normalized

section Labels

variable {c : Char} {s term : List Char}

theorem isTagAlphanumeric_iff : isTagAlphanumeric c = true ↔
    ('a' ≤ c ∧ c ≤ 'z') ∨ ('A' ≤ c ∧ c ≤ 'Z') ∨ ('0' ≤ c ∧ c ≤ '9') := decide_eq_true_iff

theorem isTagAlphanumeric_ascii (h : isTagAlphanumeric c = true) : c.toNat < 128 := by
  rcases isTagAlphanumeric_iff.mp h with ⟨-, hle⟩ | ⟨-, hle⟩ | ⟨-, hle⟩
  · exact lt_of_le_of_lt (show c.toNat ≤ 'z'.toNat from hle) (by decide)
  · exact lt_of_le_of_lt (show c.toNat ≤ 'Z'.toNat from hle) (by decide)
  · exact lt_of_le_of_lt (show c.toNat ≤ '9'.toNat from hle) (by decide)

/-- The grammar of the server, read as the client's scan reads it. -/
theorem isLabel_cons : IsLabel (c :: s) ↔
    isTagAlphanumeric c = true ∧ ∀ d ∈ s, isTagAlphanumeric d = true ∨ d = '-' := by
  constructor
  · intro h
    have hascii := isAscii_iff.mp h.1
    have hstart : Common.Tag.isTagStart (Common.Tag.lowercase c) = true := by
      have htag := h.2
      rw [List.map_cons, Common.Tag.isTag, Bool.and_eq_true] at htag
      exact htag.1
    refine ⟨isTagAlphanumeric_iff.mpr
      ((isTagStart_lowercase (hascii c List.mem_cons_self)).mp hstart), fun d hd ↦ ?_⟩
    exact (h.char (List.mem_cons_of_mem c hd)).imp_left isTagAlphanumeric_iff.mpr
  · rintro ⟨hc, hs⟩
    have hascii : ∀ d ∈ c :: s, d.toNat < 128 := by
      refine List.forall_mem_cons.mpr ⟨isTagAlphanumeric_ascii hc, fun d hd ↦ ?_⟩
      rcases hs d hd with hd | rfl
      · exact isTagAlphanumeric_ascii hd
      · decide
    refine ⟨isAscii_iff.mpr hascii, ?_⟩
    rw [List.map_cons, Common.Tag.isTag, Bool.and_eq_true, List.all_map, List.all_eq_true]
    refine ⟨(isTagStart_lowercase (hascii c List.mem_cons_self)).mpr (isTagAlphanumeric_iff.mp hc),
      fun d hd ↦ ?_⟩
    exact (isTagChar_lowercase (hascii d (List.mem_cons_of_mem c hd))).mpr
      ((hs d hd).imp_left isTagAlphanumeric_iff.mp)

theorem scanTagLabel_eq_none_iff (offset : ℕ) :
    scanTagLabel offset s = none ↔ ∀ d ∈ s, isTagAlphanumeric d = true ∨ d = '-' := by
  induction s generalizing offset with
  | nil => exact ⟨fun _ _ h ↦ absurd h List.not_mem_nil, fun _ ↦ rfl⟩
  | cons d s ih =>
    rw [scanTagLabel, List.forall_mem_cons]
    by_cases hd : (isTagAlphanumeric d || d = '-') = true
    · rw [if_pos hd, ih]
      rw [Bool.or_eq_true, decide_eq_true_iff] at hd
      exact ⟨fun h ↦ ⟨hd, h⟩, fun h ↦ h.2⟩
    · rw [if_neg hd]
      rw [Bool.or_eq_true, decide_eq_true_iff] at hd
      exact ⟨fun h ↦ (nomatch h), fun h ↦ absurd h.1 hd⟩

theorem validTagLabel_iff : validTagLabel s = true ↔ IsLabel (trimBy isBlank s) := by
  rw [validTagLabel, decide_eq_true_iff, tagLabelDefect]
  cases trimBy isBlank s with
  | nil => exact ⟨fun h ↦ (nomatch h), fun h ↦ absurd rfl h.ne_nil⟩
  | cons c rest =>
    simp only
    rw [isLabel_cons]
    by_cases hc : isTagAlphanumeric c = true
    · rw [if_neg (not_not_intro hc), scanTagLabel_eq_none_iff]
      exact ⟨fun h ↦ ⟨hc, h⟩, fun h ↦ h.2⟩
    · rw [if_pos hc]
      exact ⟨fun h ↦ (nomatch h), fun h ↦ absurd h.1 hc⟩

theorem isBlank_isWhitespace (h : isBlank c = true) : isWhitespace c = true := by
  have hmem : c ∈ [' ', '\t', '\n', '\r'] := of_decide_eq_true h
  simp only [List.mem_cons, List.not_mem_nil, or_false] at hmem
  rcases hmem with rfl | rfl | rfl | rfl <;> decide

theorem not_isBlank (h : isWhitespace c = false) : isBlank c = false := by
  rw [Bool.eq_false_iff]
  intro hblank
  rw [isBlank_isWhitespace hblank] at h
  cases h

/-- What the client's validation trims, the server trims as well. -/
theorem isLabel_trimBlank : IsLabel (trimBy isBlank s) ↔
    IsLabel (trim s) ∧ trimBy isBlank s = trim s := by
  constructor
  · intro h
    obtain ⟨a, b, hs, ha, hb⟩ := exists_flanks isBlank s
    have htrim : trim s = trimBy isBlank s := by
      conv_lhs => rw [hs]
      rw [trim, trimEnd, ← trimBy, trimBy_flanked (fun c hc ↦ isBlank_isWhitespace (ha c hc))
        (fun c hc ↦ isBlank_isWhitespace (hb c hc))]
      exact h.trim_eq
    rw [htrim]
    exact ⟨h, rfl⟩
  · rintro ⟨h, heq⟩
    rwa [heq]

theorem isReplaced_eq : isReplaced = isSeparator := by
  funext c
  have hbackslash : c = '\\' → '[' ≤ c ∧ c ≤ Char.ofNat 0x60 := by
    rintro rfl
    decide
  rw [Bool.eq_iff_iff, isReplaced, isSeparator, isAsciiPunctuation, isAsciiWhitespace,
    Bool.or_eq_true, decide_eq_true_iff, decide_eq_true_iff, decide_eq_true_iff]
  tauto

end Labels

section Replacement

variable {c : Char} {s term : List Char}

/-- What the replacement makes of a term. -/
def replaced (s : List Char) : List Char := trimHyphens (hyphenated s)

theorem isAscii_trimOnce (h : isAscii s = true) : isAscii (trimOnce isWhitespace s) = true := by
  obtain ⟨a, b, hs, -, -⟩ := exists_flanks_trimOnce isWhitespace s
  rw [isAscii_iff] at h ⊢
  intro c hc
  refine h c ?_
  rw [hs]
  exact List.mem_append_left b (List.mem_append_right a hc)

theorem mem_replaced (h : isAscii s = true) (hc : c ∈ replaced s) :
    c = '-' ∨ isSeparator c = false ∧ ∃ d ∈ s, d.toLower = c := by
  have hmem := mem_of_mem_trimBy hc
  rw [hyphenated_eq h] at hmem
  refine (mem_of_mem_replaceFrom hmem).imp_right fun ⟨hmem, hsep⟩ ↦ ⟨hsep, ?_⟩
  exact List.mem_map.mp hmem

theorem not_blank_replaced (h : isAscii s = true) (hc : c ∈ replaced s) : isBlank c = false := by
  rw [Bool.eq_false_iff]
  intro hblank
  have hmem : c ∈ [' ', '\t', '\n', '\r'] := of_decide_eq_true hblank
  simp only [List.mem_cons, List.not_mem_nil, or_false] at hmem
  rcases mem_replaced h hc with rfl | ⟨hsep, -⟩
  · exact absurd hblank (by decide)
  · rcases hmem with rfl | rfl | rfl | rfl <;> exact absurd hsep (by decide)

theorem isAscii_trim (h : isAscii s = true) : isAscii (trim s) = true :=
  isAscii_iff.mpr fun c hc ↦ isAscii_iff.mp h c (mem_of_mem_trimBy hc)

theorem isAscii_replaced (h : isAscii s = true) : isAscii (replaced s) = true := by
  refine isAscii_iff.mpr fun c hc ↦ ?_
  rcases mem_replaced h hc with rfl | ⟨-, d, hd, rfl⟩
  · decide
  · exact ascii_forall (P := fun c ↦ c.toLower.toNat < 128) (by decide) (isAscii_iff.mp h d hd)

/-- The client's function, told by the labels of the server. -/
theorem normalizeKeyword_eq (term : List Char) : normalizeKeyword term =
    if IsLabel (trimBy isBlank (trimOnce isWhitespace term)) then .ok (trimOnce isWhitespace term)
    else if isAscii term then
      if IsLabel (replaced (trimOnce isWhitespace term)) then .ok (replaced (trimOnce isWhitespace term))
      else .error .unusable
    else .error .nonAscii := by
  rw [normalizeKeyword]
  simp only
  by_cases hlabel : IsLabel (trimBy isBlank (trimOnce isWhitespace term))
  · rw [if_pos hlabel, if_pos (validTagLabel_iff.mpr hlabel)]
  · rw [if_neg hlabel, if_neg (mt validTagLabel_iff.mp hlabel), ite_not]
    by_cases hascii : isAscii term = true
    · have hbody := isAscii_trimOnce hascii
      rw [if_pos hascii, if_pos hascii, isReplaced_eq, ← hyphenated_eq hbody, ← trimHyphens,
        ← replaced]
      have htight : trimBy isBlank (replaced (trimOnce isWhitespace term)) =
          replaced (trimOnce isWhitespace term) :=
        (tight_of_forall fun c hc ↦ not_blank_replaced hbody hc).trimBy_eq
      by_cases h : IsLabel (replaced (trimOnce isWhitespace term))
      · rw [if_pos h, if_neg (not_not_intro (validTagLabel_iff.mpr (by rwa [htight])))]
      · rw [if_neg h, if_pos]
        intro hvalid
        rw [validTagLabel_iff, htight] at hvalid
        exact h hvalid
    · rw [if_neg hascii, if_neg hascii]

end Replacement

section Cores

variable {c : Char} {a b s term : List Char}

theorem map_toLower_blank (h : isAscii a = true) (ha : Blank isSeparator a) :
    Blank isSeparator (a.map Char.toLower) := by
  intro c hc
  obtain ⟨d, hd, rfl⟩ := List.mem_map.mp hc
  rw [isSeparator_toLower (isAscii_iff.mp h d hd)]
  exact ha d hd

/-- Separators at the ends do not matter. -/
theorem replaced_flanked (h : isAscii (a ++ s ++ b) = true) (ha : Blank isSeparator a)
    (hb : Blank isSeparator b) : replaced (a ++ s ++ b) = replaced s := by
  have hall := isAscii_iff.mp h
  have hascii : isAscii s = true := isAscii_iff.mpr fun c hc ↦
    hall c (List.mem_append_left b (List.mem_append_right a hc))
  have hfirst : isAscii a = true := isAscii_iff.mpr fun c hc ↦
    hall c (List.mem_append_left b (List.mem_append_left s hc))
  have hlast : isAscii b = true := isAscii_iff.mpr fun c hc ↦ hall c (List.mem_append_right _ hc)
  rw [replaced, replaced, hyphenated_eq h, hyphenated_eq hascii, List.map_append, List.map_append]
  exact trimBy_replaceRuns_flanked (q := (· = '-')) (decide_eq_true rfl)
    (map_toLower_blank hfirst ha) (map_toLower_blank hlast hb) _

/-- Without a vertical tab the white space at the ends is replaced like any other. -/
theorem replaced_trim (h : isAscii s = true) (htab : '\x0B' ∉ s) : replaced s = replaced (trim s) := by
  obtain ⟨a, b, hs, ha, hb⟩ := exists_flanks isWhitespace s
  have hsep {t : List Char} (ht : Blank isWhitespace t) (hsub : t ⊆ s) : Blank isSeparator t := by
    intro c hc
    rcases (isWhitespace_ascii (isAscii_iff.mp h c (hsub hc))).mp (ht c hc) with hspace | rfl
    · rw [isSeparator, hspace, Bool.or_true]
    · exact absurd (hsub hc) htab
  have hfirst : a ⊆ s := fun c hc ↦ by
    rw [hs]
    exact List.mem_append_left b (List.mem_append_left _ hc)
  have hlast : b ⊆ s := fun c hc ↦ by
    rw [hs]
    exact List.mem_append_right _ hc
  conv_lhs => rw [hs]
  rw [replaced_flanked (by rwa [← hs]) (hsep ha hfirst) (hsep hb hlast)]
  rfl

/-- A vertical tab is kept. -/
theorem mem_replaced_tab (h : isAscii s = true) (htab : '\x0B' ∈ s) : '\x0B' ∈ replaced s := by
  rw [replaced, hyphenated_eq h]
  refine mem_trimBy (mem_replaceFrom (List.mem_map.mpr ⟨_, htab, ?_⟩) ?_) ?_ <;> decide

theorem IsLabel.not_mem_tab (h : IsLabel s) : '\x0B' ∉ s := by
  intro hmem
  have hspace := h.not_whitespace hmem
  exact absurd hspace (by decide)

/-- A label that its replacement leaves as it is. -/
structure Plain (s : List Char) : Prop where
  lower : ∀ c ∈ s, ¬('A' ≤ c ∧ c ≤ 'Z')
  lone : Lone (· = '-') s
  last : s.getLast? ≠ some '-'

theorem toLower_ne_upper (hc : c.toNat < 128) : ¬('A' ≤ c.toLower ∧ c.toLower ≤ 'Z') :=
  ascii_forall (P := fun c ↦ ¬('A' ≤ c.toLower ∧ c.toLower ≤ 'Z')) (by decide) hc

theorem toLower_eq_self (hc : c.toNat < 128) (h : ¬('A' ≤ c ∧ c ≤ 'Z')) : c.toLower = c :=
  ascii_forall (P := fun c ↦ ¬('A' ≤ c ∧ c ≤ 'Z') → c.toLower = c) (by decide) hc h

theorem isTagAlphanumeric_toLower (hc : c.toNat < 128) :
    isTagAlphanumeric c.toLower = isTagAlphanumeric c :=
  ascii_forall (P := fun c ↦ isTagAlphanumeric c.toLower = isTagAlphanumeric c) (by decide) hc

theorem not_isSeparator_of_alphanumeric (hc : isTagAlphanumeric c = true) : isSeparator c = false :=
  ascii_forall (P := fun c ↦ isTagAlphanumeric c = true → isSeparator c = false) (by decide)
    (isTagAlphanumeric_ascii hc) hc

/-- The only separator in a label is the hyphen. -/
theorem IsLabel.eq_hyphen (h : IsLabel s) (hc : c ∈ s) (hsep : isSeparator c = true) : c = '-' := by
  rcases h.char hc with halpha | heq
  · rw [not_isSeparator_of_alphanumeric (isTagAlphanumeric_iff.mpr halpha)] at hsep
    cases hsep
  · exact heq

theorem replaced_eq_self_iff (h : IsLabel s) : replaced s = s ↔ Plain s := by
  have hascii := isAscii_iff.mp h.1
  constructor
  · intro heq
    have hlone : Lone isSeparator s := by
      rw [← heq, replaced, hyphenated_eq h.1]
      exact lone_replaceFrom.of_infix ( trimBy_infix _ _)
    have htight : Tight (· = '-') s := by
      rw [← heq]
      exact tight_trimBy _ _
    refine ⟨fun c hc hupper ↦ ?_, ?_, fun hlast ↦ ?_⟩
    · rw [← heq] at hc
      rcases mem_replaced h.1 hc with rfl | ⟨-, d, hd, rfl⟩
      · exact absurd hupper (by decide)
      · exact toLower_ne_upper (hascii d hd) hupper
    · refine List.IsChain.imp (fun c d hcd hboth ↦ hcd ?_) hlone
      rw [of_decide_eq_true hboth.1, of_decide_eq_true hboth.2]
      exact ⟨by decide, by decide⟩
    · exact absurd (htight.last '-' hlast) (by decide)
  · rintro ⟨hlower, hlone, hlast⟩
    have hmap : s.map Char.toLower = s := by
      conv_rhs => rw [← List.map_id s]
      exact List.map_congr_left fun c hc ↦ toLower_eq_self (hascii c hc) (hlower c hc)
    have hlone' : Lone isSeparator s := by
      refine List.IsChain.imp_of_mem_imp (fun c d hc hd hcd hboth ↦ hcd ?_) hlone
      exact ⟨decide_eq_true (IsLabel.eq_hyphen h hc hboth.1),
        decide_eq_true (IsLabel.eq_hyphen h hd hboth.2)⟩
    have htight : Tight (· = '-') s := by
      refine ⟨fun c hc ↦ ?_, fun c hc ↦ decide_eq_false ?_⟩
      · obtain ⟨d, rest, rfl⟩ := List.exists_cons_of_ne_nil h.ne_nil
        rw [List.head?_cons, Option.mem_some_iff] at hc
        subst hc
        refine decide_eq_false ?_
        rintro rfl
        exact absurd (isLabel_cons.mp h).1 (by decide)
      · rintro rfl
        exact hlast hc
    rw [replaced, hyphenated_eq h.1, hmap, replaceRuns,
      hlone'.replaceFrom_eq (fun c hc hsep ↦ IsLabel.eq_hyphen h hc hsep)
        fun hfalse ↦ absurd hfalse Bool.false_ne_true]
    exact htight.trimBy_eq

end Cores

section Agreement

variable {c : Char} {s w term : List Char}

/-- Letters, digits and separators, of which a letter or a digit is the first. -/
def Spelled : List Char → Prop
  | [] => False
  | c :: rest => isTagAlphanumeric c = true ∧ ∀ d ∈ rest, isTagAlphanumeric d = true ∨ isSeparator d = true

/-- Between separators, and then vertical tabs, at its ends the trimmed term spells a label. -/
def Usable (term : List Char) : Prop := Spelled (trimBy (· = '\x0B') (trimBy isSeparator (trim term)))

theorem isLabel_replaceRuns (h : isAscii w = true) :
    IsLabel (replaceRuns isSeparator '-' (w.map Char.toLower)) ↔ Spelled w := by
  cases w with
  | nil => exact ⟨fun h ↦ absurd rfl h.ne_nil, fun h ↦ h.elim⟩
  | cons c rest =>
    have hascii := isAscii_iff.mp h
    have hc := hascii c List.mem_cons_self
    rw [replaceRuns, List.map_cons, replaceFrom, isSeparator_toLower hc, Spelled]
    by_cases hsep : isSeparator c = true
    · have hnot : isTagAlphanumeric c ≠ true := fun halpha ↦ by
        rw [not_isSeparator_of_alphanumeric halpha] at hsep
        cases hsep
      rw [if_pos hsep, if_neg Bool.false_ne_true, isLabel_cons]
      exact ⟨fun hlabel ↦ absurd hlabel.1 (by decide), fun hspelled ↦ absurd hspelled.1 hnot⟩
    · rw [if_neg hsep, isLabel_cons, isTagAlphanumeric_toLower hc]
      refine and_congr_right fun _ ↦ ⟨fun hrest d hd ↦ ?_, fun hrest d hd ↦ ?_⟩
      · have hd' := hascii d (List.mem_cons_of_mem c hd)
        by_cases hdsep : isSeparator d = true
        · exact .inr hdsep
        · have hkept := eq_false_of_ne_true hdsep
          have hmem := @mem_replaceFrom Char isSeparator _ d.toLower '-' false
            (List.mem_map_of_mem (f := Char.toLower) hd) ((isSeparator_toLower hd').trans hkept)
          rcases hrest d.toLower hmem with halpha | heq
          · exact .inl ((isTagAlphanumeric_toLower hd').symm.trans halpha)
          · exact absurd heq (toLower_eq_hyphen hd' hkept)
      · rcases mem_of_mem_replaceFrom hd with rfl | ⟨hmem, hdsep⟩
        · exact .inr rfl
        · obtain ⟨e, he, rfl⟩ := List.mem_map.mp hmem
          have he' := hascii e (List.mem_cons_of_mem c he)
          rw [isSeparator_toLower he'] at hdsep
          rw [isTagAlphanumeric_toLower he']
          rcases hrest e he with halpha | hesep
          · exact .inl halpha
          · rw [hdsep] at hesep
            cases hesep

theorem toLower_tab (hc : c.toNat < 128) : c.toLower = '\x0B' ↔ c = '\x0B' :=
  ascii_forall (P := fun c ↦ c.toLower = '\x0B' ↔ c = '\x0B') (by decide) hc

/-- White space that does not separate is a vertical tab. -/
theorem not_isWhitespace (hc : c.toNat < 128) (hsep : isSeparator c = false) (htab : c ≠ '\x0B') :
    isWhitespace c = false := by
  rw [Bool.eq_false_iff]
  intro hspace
  rcases (isWhitespace_ascii hc).mp hspace with h | h
  · rw [isSeparator, h, Bool.or_true] at hsep
    cases hsep
  · exact htab h

theorem tight_replaceRuns (h : isAscii w = true) (hw : Tight (· = '\x0B') w) :
    Tight isWhitespace (replaceRuns isSeparator '-' (w.map Char.toLower)) := by
  have hascii := isAscii_iff.mp h
  have hchar {c d : Char} (hd : d.toNat < 128) (htab : decide (d = '\x0B') = false)
      (heq : d.toLower = c) (hsep : isSeparator c = false) : isWhitespace c = false := by
    subst heq
    rw [isSeparator_toLower hd] at hsep
    have hd' : d.toLower.toNat < 128 :=
      ascii_forall (P := fun c ↦ c.toLower.toNat < 128) (by decide) hd
    exact not_isWhitespace hd' ((isSeparator_toLower hd).trans hsep)
      fun heq ↦ of_decide_eq_false htab ((toLower_tab hd).mp heq)
  refine ⟨fun c hc ↦ ?_, fun c hc ↦ ?_⟩
  · rcases replaceRuns_head hc with ⟨hhead, hsep⟩ | ⟨rfl, -⟩
    · rw [List.head?_map, Option.mem_map] at hhead
      obtain ⟨d, hd, heq⟩ := hhead
      exact hchar (hascii d (List.mem_of_mem_head? hd)) (hw.first d hd) heq hsep
    · decide
  · rcases replaceFrom_last hc with ⟨hlast, hsep⟩ | ⟨rfl, -⟩
    · rw [List.getLast?_map, Option.mem_map] at hlast
      obtain ⟨d, hd, heq⟩ := hlast
      exact hchar (hascii d (List.mem_of_mem_getLast? hd)) (hw.last d hd) heq hsep
    · decide

theorem tight_replaceRuns_hyphen (h : isAscii s = true) (hs : Tight isSeparator s) :
    Tight (· = '-') (replaceRuns isSeparator '-' (s.map Char.toLower)) := by
  have hascii := isAscii_iff.mp h
  have hkept {c : Char} (hsep : isSeparator c = false) : decide (c = '-') = false := by
    refine decide_eq_false ?_
    rintro rfl
    exact absurd hsep (by decide)
  refine ⟨fun c hc ↦ ?_, fun c hc ↦ ?_⟩
  · rcases replaceRuns_head hc with ⟨-, hsep⟩ | ⟨-, d, hd, hsep⟩
    · exact hkept hsep
    · rw [List.head?_map, Option.mem_map] at hd
      obtain ⟨e, he, rfl⟩ := hd
      rw [isSeparator_toLower (hascii e (List.mem_of_mem_head? he)), hs.first e he] at hsep
      cases hsep
  · rcases replaceFrom_last hc with ⟨-, hsep⟩ | ⟨-, d, hd, hsep⟩
    · exact hkept hsep
    · rw [List.getLast?_map, Option.mem_map] at hd
      obtain ⟨e, he, rfl⟩ := hd
      rw [isSeparator_toLower (hascii e (List.mem_of_mem_getLast? he)), hs.last e he] at hsep
      cases hsep

/-- The server accepts what is left of a replaced term if the term is usable. -/
theorem isLabel_trim_replaced (h : isAscii s = true) :
    IsLabel (trim (replaced s)) ↔ Spelled (trimBy (· = '\x0B') (trimBy isSeparator s)) := by
  obtain ⟨a, b, hs, ha, hb⟩ := exists_flanks isSeparator s
  obtain ⟨v, x, hm, hv, hx⟩ := exists_flanks (· = '\x0B') (trimBy isSeparator s)
  have hm' : isAscii (trimBy isSeparator s) = true :=
    isAscii_iff.mpr fun c hc ↦ isAscii_iff.mp h c (mem_of_mem_trimBy hc)
  have hw : isAscii (trimBy (· = '\x0B') (trimBy isSeparator s)) = true :=
    isAscii_iff.mpr fun c hc ↦ isAscii_iff.mp hm' c (mem_of_mem_trimBy hc)
  have hmiddle := tight_trimBy isSeparator s
  have htabs := tight_trimBy (· = '\x0B') (trimBy isSeparator s)
  have hreplaced : replaced s = replaced (trimBy isSeparator s) := by
    conv_lhs => rw [hs]
    exact replaced_flanked (by rwa [← hs]) ha hb
  generalize trimBy isSeparator s = m at *
  generalize trimBy (· = '\x0B') m = w at *
  have htab {t : List Char} (ht : Blank (· = '\x0B') t) : t.map Char.toLower = t := by
    conv_rhs => rw [← List.map_id t]
    refine List.map_congr_left fun c hc ↦ ?_
    rw [of_decide_eq_true (ht c hc)]
    decide
  have hkept {t : List Char} (ht : Blank (· = '\x0B') t) : ∀ c ∈ t, isSeparator c = false := by
    intro c hc
    rw [of_decide_eq_true (ht c hc)]
    decide
  have hspace {t : List Char} (ht : Blank (· = '\x0B') t) : Blank isWhitespace t := by
    intro c hc
    rw [of_decide_eq_true (ht c hc)]
    decide
  have hhyphens := tight_replaceRuns_hyphen hm' hmiddle
  have hruns : replaceRuns isSeparator '-' (m.map Char.toLower) =
      v ++ replaceRuns isSeparator '-' (w.map Char.toLower) ++ x := by
    rw [hm, List.map_append, List.map_append, htab hv, htab hx, replaceRuns,
      replaceFrom_keep_append (hkept hx), replaceFrom_append_keep (hkept hv) (.inr rfl)]
    rfl
  rw [hreplaced, replaced, hyphenated_eq hm', trimHyphens, hhyphens.trimBy_eq, hruns, trim, trimEnd,
    ← trimBy, trimBy_flanked (hspace hv) (hspace hx), (tight_replaceRuns hw htabs).trimBy_eq]
  exact isLabel_replaceRuns hw

/-- Both reject the term, or both give the same label, which neither changes again. -/
def Agree (term : List Char) : Prop :=
  Common.Keywords.normalizeKeyword term = (normalizeKeyword term).toOption ∧
    ∀ label, Common.Keywords.normalizeKeyword term = some label →
      Common.Keywords.normalizeKeyword label = some label ∧ normalizeKeyword label = .ok label

/-- What stands around the label, or around what is to become one, does not hinder the client. -/
def Unhindered (term : List Char) : Prop :=
  if IsLabel (trim term) then
    trimOnce isWhitespace term = trim term ∨
      isAscii term = true ∧ '\x0B' ∉ trimOnce isWhitespace term ∧
        '\x0C' ∈ trimOnce isWhitespace term ∧ Plain (trim term)
  else isAscii term = true → Usable term → '\x0B' ∉ trimOnce isWhitespace term

theorem trim_trimOnce (s : List Char) : trim (trimOnce isWhitespace s) = trim s := trimBy_trimOnce _ s

theorem IsLabel.trimOnce_eq (h : IsLabel s) : trimOnce isWhitespace s = s :=
  (tight_of_forall fun _ hc ↦ h.not_whitespace hc).trimOnce_eq

theorem IsLabel.trimBlank_eq (h : IsLabel s) : trimBy isBlank s = s :=
  (tight_of_forall fun _ hc ↦ not_isBlank (h.not_whitespace hc)).trimBy_eq

theorem IsLabel.normalizeKeyword_self (h : IsLabel s) :
    Common.Keywords.normalizeKeyword s = some s ∧ normalizeKeyword s = .ok s := by
  constructor
  · rw [Common.Keywords.normalizeKeyword_eq, h.trim_eq, if_pos h]
  · have hblank : IsLabel (trimBy isBlank (trimOnce isWhitespace s)) := by
      rw [IsLabel.trimOnce_eq h]
      rwa [IsLabel.trimBlank_eq h]
    rw [normalizeKeyword_eq, if_pos hblank, IsLabel.trimOnce_eq h]

/-- What the server accepts is a label. -/
theorem isLabel_of_normalizeKeyword {label : List Char}
    (h : Common.Keywords.normalizeKeyword term = some label) : IsLabel label := by
  rw [Common.Keywords.normalizeKeyword_eq] at h
  split at h
  · rename_i hlabel
    cases h
    exact hlabel
  · split at h
    · rename_i hascii
      rw [← replaced, tagLabel_of_ascii (isAscii_trim (isAscii_replaced (isAscii_trim hascii)))] at h
      split at h
      · rename_i hlabel
        cases h
        exact hlabel
      · cases h
    · cases h

theorem agree_of_eq (h : Common.Keywords.normalizeKeyword term = (normalizeKeyword term).toOption) :
    Agree term :=
  ⟨h, fun _ hlabel ↦ IsLabel.normalizeKeyword_self (isLabel_of_normalizeKeyword hlabel)⟩

/-- Without tabs and form feeds to stand in the way, both trim the same. -/
theorem trimBlank_eq_trim (h : isAscii s = true) (htab : '\x0B' ∉ s) (hfeed : '\x0C' ∉ s) :
    trimBy isBlank s = trim s := by
  obtain ⟨a, b, hs, ha, hb⟩ := exists_flanks isWhitespace s
  have hblank {t : List Char} (ht : Blank isWhitespace t) (hsub : t ⊆ s) : Blank isBlank t := by
    intro c hc
    rcases (isWhitespace_ascii (isAscii_iff.mp h c (hsub hc))).mp (ht c hc) with hspace | rfl
    · have hmem : c ∈ [' ', '\t', '\n', '\r', '\x0C'] := of_decide_eq_true hspace
      simp only [List.mem_cons, List.not_mem_nil, or_false] at hmem
      rcases hmem with rfl | rfl | rfl | rfl | rfl
      · decide
      · decide
      · decide
      · decide
      · exact absurd (hsub hc) hfeed
    · exact absurd (hsub hc) htab
  have hfirst : a ⊆ s := fun c hc ↦ by
    rw [hs]
    exact List.mem_append_left b (List.mem_append_left _ hc)
  have hlast : b ⊆ s := fun c hc ↦ by
    rw [hs]
    exact List.mem_append_right _ hc
  have htight := tight_trimBy isWhitespace s
  have hcore : Tight isBlank (trim s) :=
    ⟨fun c hc ↦ not_isBlank (htight.first c hc), fun c hc ↦ not_isBlank (htight.last c hc)⟩
  conv_lhs => rw [hs]
  rw [trimBy_flanked (hblank ha hfirst) (hblank hb hlast)]
  exact hcore.trimBy_eq

theorem trim_replaced (h : isAscii s = true) (htab : '\x0B' ∉ s) : trim (replaced s) = replaced s := by
  refine (tight_of_forall fun c hc ↦ ?_).trimBy_eq
  have hc' := isAscii_iff.mp (isAscii_replaced h) c hc
  rcases mem_replaced h hc with rfl | ⟨hsep, d, hd, heq⟩
  · decide
  · refine not_isWhitespace hc' hsep ?_
    rintro rfl
    rw [(toLower_tab (isAscii_iff.mp h d hd)).mp heq] at hd
    exact htab hd

/-- The client rejects a term that keeps a vertical tab. -/
theorem normalizeKeyword_of_tab (hascii : isAscii term = true)
    (htab : '\x0B' ∈ trimOnce isWhitespace term) : normalizeKeyword term = .error .unusable := by
  have hblank : ¬ IsLabel (trimBy isBlank (trimOnce isWhitespace term)) := fun h ↦
    IsLabel.not_mem_tab h (mem_trimBy htab (by decide))
  have hreplaced : ¬ IsLabel (replaced (trimOnce isWhitespace term)) := fun h ↦
    IsLabel.not_mem_tab h (mem_replaced_tab (isAscii_trimOnce hascii) htab)
  rw [normalizeKeyword_eq, if_neg hblank, if_pos hascii, if_neg hreplaced]

/-- Where the trimmed term is a label, the server returns it. -/
theorem agree_iff_of_isLabel (hcore : IsLabel (trim term)) : Agree term ↔ Unhindered term := by
  have hserver : Common.Keywords.normalizeKeyword term = some (trim term) := by
    rw [Common.Keywords.normalizeKeyword_eq, if_pos hcore]
  have htrim := trim_trimOnce term
  rw [Unhindered, if_pos hcore]
  by_cases hblank : IsLabel (trimBy isBlank (trimOnce isWhitespace term))
  · have hclient : normalizeKeyword term = .ok (trimOnce isWhitespace term) := by
      rw [normalizeKeyword_eq, if_pos hblank]
    by_cases hbody : trimOnce isWhitespace term = trim term
    · refine iff_of_true (agree_of_eq ?_) (.inl hbody)
      rw [hserver, hclient, hbody]
      rfl
    · refine iff_of_false (fun hagree ↦ hbody ?_) ?_
      · have heq := hagree.1
        rw [hserver, hclient] at heq
        exact (Option.some.inj heq).symm
      · rintro (heq | ⟨-, -, hfeed, -⟩)
        · exact hbody heq
        · have hmem := mem_trimBy (p := isBlank) hfeed (by decide)
          exact absurd (hblank.not_whitespace hmem) (by decide)
  · have hbody : trimOnce isWhitespace term ≠ trim term := by
      intro heq
      refine hblank (isLabel_trimBlank.mpr ⟨by rwa [htrim], ?_⟩)
      rw [htrim, heq, IsLabel.trimBlank_eq hcore]
    by_cases hascii : isAscii term = true
    · by_cases htab : '\x0B' ∈ trimOnce isWhitespace term
      · refine iff_of_false (fun hagree ↦ ?_) ?_
        · have heq := hagree.1
          rw [hserver, normalizeKeyword_of_tab hascii htab] at heq
          cases heq
        · rintro (heq | ⟨-, hno, -⟩)
          · exact hbody heq
          · exact hno htab
      · have hbody' := isAscii_trimOnce hascii
        have hfeed : '\x0C' ∈ trimOnce isWhitespace term := by
          by_contra hfeed
          have hsame := trimBlank_eq_trim hbody' htab hfeed
          exact hblank (isLabel_trimBlank.mpr ⟨by rwa [htrim], hsame⟩)
        have hclient : normalizeKeyword term =
            if IsLabel (replaced (trim term)) then .ok (replaced (trim term)) else .error .unusable := by
          rw [normalizeKeyword_eq, if_neg hblank, if_pos hascii, replaced_trim hbody' htab, htrim]
        constructor
        · intro hagree
          have heq := hagree.1
          rw [hserver, hclient] at heq
          split at heq
          · exact .inr ⟨hascii, htab, hfeed,
              (replaced_eq_self_iff hcore).mp (Option.some.inj heq).symm⟩
          · cases heq
        · rintro (heq | ⟨-, -, -, hplain⟩)
          · exact absurd heq hbody
          · refine agree_of_eq ?_
            rw [hserver, hclient, (replaced_eq_self_iff hcore).mpr hplain, if_pos hcore]
            rfl
    · refine iff_of_false (fun hagree ↦ ?_) ?_
      · have heq := hagree.1
        rw [hserver, normalizeKeyword_eq, if_neg hblank, if_neg hascii] at heq
        cases heq
      · rintro (heq | ⟨h, -⟩)
        · exact hbody heq
        · exact hascii h

/-- Where it is none, both replace the same, up to vertical tabs. -/
theorem agree_iff_of_not_isLabel (hcore : ¬ IsLabel (trim term)) : Agree term ↔ Unhindered term := by
  have htrim := trim_trimOnce term
  have hblank : ¬ IsLabel (trimBy isBlank (trimOnce isWhitespace term)) := by
    intro h
    have hbody := (isLabel_trimBlank.mp h).1
    rw [htrim] at hbody
    exact hcore hbody
  rw [Unhindered, if_neg hcore]
  by_cases hascii : isAscii term = true
  · have hcore' := isAscii_trim hascii
    have hserver : Common.Keywords.normalizeKeyword term =
        if IsLabel (trim (replaced (trim term))) then some (trim (replaced (trim term))) else none := by
      rw [Common.Keywords.normalizeKeyword_eq, if_neg hcore, if_pos hascii, ← replaced]
      exact tagLabel_of_ascii (isAscii_trim (isAscii_replaced hcore'))
    have husable : IsLabel (trim (replaced (trim term))) ↔ Usable term := isLabel_trim_replaced hcore'
    by_cases htab : '\x0B' ∈ trimOnce isWhitespace term
    · constructor
      · intro hagree _ hused
        have heq := hagree.1
        rw [hserver, if_pos (husable.mpr hused), normalizeKeyword_of_tab hascii htab] at heq
        cases heq
      · intro h
        refine agree_of_eq ?_
        rw [hserver, if_neg fun hlabel ↦ h hascii (husable.mp hlabel) htab,
          normalizeKeyword_of_tab hascii htab]
        rfl
    · refine iff_of_true (agree_of_eq ?_) fun _ _ ↦ htab
      have hbody := isAscii_trimOnce hascii
      have hsame : trim (replaced (trim term)) = replaced (trim term) := by
        rw [← htrim, ← replaced_trim hbody htab]
        exact trim_replaced hbody htab
      rw [hserver, hsame, normalizeKeyword_eq, if_neg hblank, if_pos hascii, replaced_trim hbody htab,
        htrim]
      split <;> rfl
  · refine iff_of_true (agree_of_eq ?_) fun h ↦ absurd h hascii
    rw [Common.Keywords.normalizeKeyword_eq, if_neg hcore, if_neg hascii, normalizeKeyword_eq,
      if_neg hblank, if_neg hascii]
    rfl

/-- The two functions agree on exactly these terms. -/
theorem agree_iff_unhindered (term : List Char) : Agree term ↔ Unhindered term := by
  by_cases hcore : IsLabel (trim term)
  · exact agree_iff_of_isLabel hcore
  · exact agree_iff_of_not_isLabel hcore

/-- Of two spaces at each end the client leaves one. -/
theorem two_spaces_disagree : ¬ Agree [' ', ' ', 'R', 'u', 's', 't', ' ', ' '] := by
  intro h
  exact absurd h.1 (by decide)

end Agreement

end Jaunder.Elisp.Keywords
