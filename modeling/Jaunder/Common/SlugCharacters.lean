import Jaunder.Common.PostText
import Jaunder.Common.Slug
import Jaunder.Foundation.Graphemes
import Jaunder.Foundation.ScriptData

namespace Jaunder.Common.Slug

open Foundation.Graphemes (Property)
open Foundation.ScriptData (isLower_toLower toLower_of_isLower)
open Foundation.Segmentation
open Jaunder.Common.PostText (isWhitespace)

/-- The Unicode tables behind slugs. -/
structure UnicodeData where
  toLowercase : List Char → List Char
  nfc : List Char → List Char
  isAlphanumeric : Char → Bool
  isMark : Char → Bool
  property : Char → Property

namespace UnicodeData

variable (d : UnicodeData)

def normalize (s : List Char) : List Char := d.nfc (d.toLowercase s)

/-- Whether a character belongs to the grapheme cluster before it. -/
def joins (left : List Char) (c : Char) : Bool :=
  Foundation.Graphemes.joins (left.map d.property) (d.property c)

def unicode : Unicode where
  normalize := d.normalize
  boundary := fun left c ↦ !d.joins left.reverse c
  isAlphanumeric := d.isAlphanumeric

def attaches (c : Char) : Bool := (d.property c).breakClass.attaches

def isPrepend (c : Char) : Bool := (d.property c).breakClass = .prepend

end UnicodeData

/-- `char::is_control` -/
def isControl (c : Char) : Bool := c.toNat < 0x20 ∨ (0x7F ≤ c.toNat ∧ c.toNat < 0xA0)

/-- A character that means something in the path of a URL, or nothing that can be seen. -/
def isSpecial (c : Char) : Bool :=
  c = '/' ∨ c = '?' ∨ c = '#' ∨ c = '%' ∨ isWhitespace c ∨ isControl c

/-- What the Unicode standard says of the tables. -/
structure UnicodeData.Documented (d : UnicodeData) : Prop where
  nfc_nfc : ∀ s, d.nfc (d.nfc s) = d.nfc s
  toLowercase_nfc : ∀ s, d.toLowercase (d.nfc (d.toLowercase s)) = d.nfc (d.toLowercase s)
  normal_infix : ∀ s t, d.normalize s = s → t <:+: s → d.normalize t = t
  normal_hyphen : ∀ s t, d.normalize s = s → d.normalize t = t →
    d.normalize (s ++ '-' :: t) = s ++ '-' :: t
  normal_ascii : ∀ s, (∀ c ∈ s, c.isDigit ∨ c.isLower) → d.normalize s = s
  ascii : ∀ c : Char, c.isDigit ∨ c.isLower → d.isAlphanumeric c ∧ (d.property c).Plain
  hyphen : d.isAlphanumeric '-' = false ∧ (d.property '-').Plain
  hangul : ∀ c, (d.property c).breakClass.isHangul → d.isAlphanumeric c
  consonant : ∀ c, (d.property c).conjunct = .consonant → d.isAlphanumeric c
  control : ∀ c, (d.property c).breakClass.isControl → d.isAlphanumeric c = false ∧ d.isMark c = false
  joiner : ∀ c, (d.property c).breakClass = .zwj → d.isAlphanumeric c = false ∧ d.isMark c = false
  regional : ∀ c, (d.property c).breakClass = .regional →
    d.isAlphanumeric c = false ∧ d.isMark c = false
  special : ∀ c, isSpecial c → d.isAlphanumeric c = false ∧ d.isMark c = false

section Clusters

variable {d : UnicodeData} {left current s t n : List Char} {c : Char}

theorem joins_isLocal : Local d.joins := Foundation.Graphemes.joins_isLocal d.property

theorem graphemesFrom_eq :
    d.unicode.graphemesFrom left current s = segmentsFrom d.joins left.reverse current s := by
  induction s generalizing left current with
  | nil => rfl
  | cons c s ih =>
    have hboundary : d.unicode.boundary left c = true ↔ d.joins left.reverse c = false := by
      simp [UnicodeData.unicode]
    have hleft : (left ++ [c]).reverse = c :: left.reverse := by simp
    rw [Unicode.graphemesFrom, segmentsFrom, ih, ih, hleft]
    simp only [hboundary]

theorem graphemes_eq : d.unicode.graphemes s = segments d.joins s := graphemesFrom_eq

theorem goodFrom_iff : d.unicode.GoodFrom [] [] s ↔ ∀ g ∈ segments d.joins s, d.unicode.Good g := by
  rw [← graphemes_eq]
  rfl

theorem normalize_normalize (hd : d.Documented) :
    d.normalize (d.normalize s) = d.normalize s := by
  rw [UnicodeData.normalize, UnicodeData.normalize, hd.toLowercase_nfc, hd.nfc_nfc]

/-- The tables give what slugs rely on. -/
theorem documented_unicode (hd : d.Documented) : d.unicode.Documented where
  normal_take s n h := hd.normal_infix s _ h (List.take_prefix n s).isInfix
  normal_suffix s digits h hdigits :=
    hd.normal_hyphen s digits h (hd.normal_ascii digits (fun c hc ↦ .inl (hdigits c hc)))
  digit c hc := (hd.ascii c (.inl hc)).1
  digit_boundary left c e hc he := by
    have hplain : (d.property c).Plain := by
      rcases hc with rfl | hc
      · exact hd.hyphen.2
      · exact (hd.ascii c (.inl hc)).2
    have hjoins : d.joins (c :: left.reverse) e = d.attaches e :=
      Foundation.Graphemes.joins_plain_left hplain
    have hfree : d.attaches e = false := by
      rw [UnicodeData.attaches, (hd.ascii e (.inl he)).2.breakClass]
      rfl
    have hreverse : (left ++ [c]).reverse = c :: left.reverse := by simp
    simp only [UnicodeData.unicode, hreverse, hjoins, hfree, Bool.not_false]
  hyphen := hd.hyphen.1

/-- What a slug is parsed to depends on the normal form alone. -/
theorem fromStr_normalize (hd : d.Documented) :
    fromStr d.unicode (d.normalize s) = fromStr d.unicode s := by
  have hnormal : d.unicode.normalize (d.normalize s) = d.unicode.normalize s :=
    normalize_normalize hd
  rw [fromStr, fromStr, hnormal]

theorem fromStr_normal (h : fromStr d.unicode s = some n) : d.normalize s = n := by
  have hnormalize : d.unicode.normalize s = d.normalize s := rfl
  simp only [fromStr, hnormalize] at h
  split_ifs at h
  split at h
  · exact absurd h nofun
  · split_ifs at h
    exact Option.some.inj h

theorem isSlug_of_fromStr (hd : d.Documented) (h : fromStr d.unicode s = some n) :
    IsSlug d.unicode n := by
  obtain rfl := fromStr_normal h
  exact (fromStr_normalize hd).trans h

end Clusters

section Characters

variable (d : UnicodeData)

/-- The characters that a slug is meant to have. -/
def IsSlugChar (c : Char) : Prop := d.isAlphanumeric c = true ∨ c = '-' ∨ d.isMark c = true

/-- What permalinks need of a parsed slug. -/
structure IsCanonical (n : List Char) : Prop where
  chars : ∀ c ∈ n, IsSlugChar d c
  harmless : ∀ c ∈ n, isSpecial c = false
  representative : ∀ s, d.normalize s = d.normalize n → fromStr d.unicode s = some n

/-- The characters that a cluster may draw into a slug behind its first one. -/
structure Attachable (s : List Char) : Prop where
  attaching : ∀ c ∈ s, d.attaches c = true → d.isAlphanumeric c = true ∨ d.isMark c = true
  behindPrepend : ∀ p c, [p, c] <:+: s → d.isPrepend p = true → IsSlugChar d c

variable {d} {left n : List Char} {p c : Char}

theorem IsSlugChar.not_control (hd : d.Documented) (h : IsSlugChar d c) :
    (d.property c).breakClass.isControl = false := by
  by_contra hcontrol
  obtain ⟨halnum, hmark⟩ := hd.control c (by simpa using hcontrol)
  rcases h with h | rfl | h
  · exact absurd (halnum.symm.trans h) Bool.false_ne_true
  · rw [hd.hyphen.2.breakClass] at hcontrol
    exact hcontrol rfl
  · exact absurd (hmark.symm.trans h) Bool.false_ne_true

theorem IsSlugChar.not_joiner (hd : d.Documented) (h : IsSlugChar d c) :
    (d.property c).breakClass ≠ .zwj := by
  intro hjoiner
  obtain ⟨halnum, hmark⟩ := hd.joiner c hjoiner
  rcases h with h | rfl | h
  · exact absurd (halnum.symm.trans h) Bool.false_ne_true
  · rw [hd.hyphen.2.breakClass] at hjoiner
    exact absurd hjoiner nofun
  · exact absurd (hmark.symm.trans h) Bool.false_ne_true

theorem IsSlugChar.not_regional (hd : d.Documented) (h : IsSlugChar d c) :
    (d.property c).breakClass ≠ .regional := by
  intro hregional
  obtain ⟨halnum, hmark⟩ := hd.regional c hregional
  rcases h with h | rfl | h
  · exact absurd (halnum.symm.trans h) Bool.false_ne_true
  · rw [hd.hyphen.2.breakClass] at hregional
    exact absurd hregional nofun
  · exact absurd (hmark.symm.trans h) Bool.false_ne_true

theorem IsSlugChar.not_special (hd : d.Documented) (h : IsSlugChar d c) : isSpecial c = false := by
  by_contra hspecial
  obtain ⟨halnum, hmark⟩ := hd.special c (by simpa using hspecial)
  rcases h with h | rfl | h
  · exact absurd (halnum.symm.trans h) Bool.false_ne_true
  · exact hspecial (by decide)
  · exact absurd (hmark.symm.trans h) Bool.false_ne_true

/-- Behind the characters of a slug only a mark, or what a prepended character binds, can join that
is not one itself. -/
theorem isSlugChar_of_joins (hd : d.Documented) (hp : IsSlugChar d p)
    (h : d.joins (p :: left) c = true)
    (hattach : d.attaches c = true → d.isAlphanumeric c = true ∨ d.isMark c = true)
    (hprepend : d.isPrepend p = true → IsSlugChar d c) : IsSlugChar d c := by
  have hcontrol := hp.not_control hd
  have hcr : (d.property p).breakClass ≠ .cr := by
    intro hcr
    rw [hcr] at hcontrol
    exact absurd hcontrol nofun
  rw [UnicodeData.joins, List.map_cons, Foundation.Graphemes.joins,
    if_neg (fun hbreak ↦ hcr hbreak.1)] at h
  split_ifs at h
  rcases of_decide_eq_true h with hhangul | hmark | hbound | hconsonant | hpict | hregional
  · exact .inl (hd.hangul c (Foundation.Graphemes.isHangul_of_hangulJoins hhangul))
  · exact (hattach hmark).elim .inl (fun hmark ↦ .inr (.inr hmark))
  · exact hprepend (decide_eq_true hbound)
  · exact .inl (hd.consonant c hconsonant.1)
  · exact absurd hpict.1 (hp.not_joiner hd)
  · exact absurd hregional.1 (hp.not_regional hd)

theorem isSlugChar_of_isSlug (hd : d.Documented) (hslug : IsSlug d.unicode n)
    (h : Attachable d n) : ∀ c ∈ n, IsSlugChar d c := by
  obtain ⟨-, -, -, hgood⟩ := isSlug_iff.mp hslug
  obtain ⟨hsegmented, hflatten⟩ := segments_segmented (joins_isLocal (d := d)) n
  have hcluster : ∀ g ∈ segments d.joins n, ∀ c ∈ g, IsSlugChar d c := by
    intro g hg
    have hinfix : g <:+: n := by
      rw [← hflatten]
      exact List.infix_of_mem_flatten hg
    refine (hsegmented.segment g hg).forall (fun c hc ↦ ?_) (fun p left c hleft hpair hjoins ↦ ?_)
    · rcases goodFrom_iff.mp hgood g hg with rfl | hbase
      · exact .inr (.inl (Option.some.inj hc).symm)
      · rw [Unicode.baseIsAlphanumeric, hc] at hbase
        exact .inl hbase
    · have hin : [p, c] <:+: n := hpair.trans hinfix
      have hc : c ∈ n := hin.subset (by simp)
      exact isSlugChar_of_joins hd (hleft p List.mem_cons_self) hjoins (h.attaching c hc)
        (h.behindPrepend p c hin)
  intro c hc
  rw [← hflatten] at hc
  obtain ⟨g, hg, hcg⟩ := List.mem_flatten.mp hc
  exact hcluster g hg c hcg

theorem attachable_of_isSlugChar (hd : d.Documented) (h : ∀ c ∈ n, IsSlugChar d c) :
    Attachable d n := by
  refine ⟨fun c hc hattach ↦ ?_, fun p c hpair _ ↦ h c (hpair.subset (by simp))⟩
  rcases h c hc with halnum | rfl | hmark
  · exact .inl halnum
  · rw [UnicodeData.attaches, hd.hyphen.2.breakClass] at hattach
    exact absurd hattach nofun
  · exact .inr hmark

theorem fromStr_isCanonical_iff {s : List Char} (hd : d.Documented)
    (h : fromStr d.unicode s = some n) :
    IsCanonical d n ↔ Attachable d (d.normalize s) := by
  have hslug := isSlug_of_fromStr hd h
  rw [fromStr_normal h]
  constructor
  · intro hcanonical
    exact attachable_of_isSlugChar hd hcanonical.chars
  · intro hattachable
    have hchars := isSlugChar_of_isSlug hd hslug hattachable
    refine ⟨hchars, fun c hc ↦ (hchars c hc).not_special hd, fun s' hs' ↦ ?_⟩
    rw [← fromStr_normalize hd, hs', fromStr_normalize hd]
    exact hslug

end Characters

section Sample

def dotReph : Char := Char.ofNat 0x0D4E

def zeroWidthSpace : Char := Char.ofNat 0x200B

def fatha : Char := Char.ofNat 0x064E

def plainProperty : Property := ⟨.other, .none, false, by decide, by decide, by decide⟩

/-- Tables that agree with the Unicode standard on ASCII and on three more characters. -/
def sampleData : UnicodeData where
  toLowercase := List.map Char.toLower
  nfc := id
  isAlphanumeric := fun c ↦ c.isAlphanum ∨ c = dotReph ∨ c = fatha
  isMark := fun c ↦ c = fatha
  property := fun c ↦
    if c = dotReph then ⟨.prepend, .none, false, by decide, by decide, by decide⟩
    else if c = '\r' then ⟨.cr, .none, false, by decide, by decide, by decide⟩
    else if c = '\n' then ⟨.lf, .none, false, by decide, by decide, by decide⟩
    else if isControl c ∨ c = zeroWidthSpace then
      ⟨.control, .none, false, by decide, by decide, by decide⟩
    else if c = fatha then ⟨.extend, .extend, false, by decide, by decide, by decide⟩
    else plainProperty

theorem toLower_toLower (c : Char) : c.toLower.toLower = c.toLower := by
  by_cases hletter : c.isAlpha = true
  · exact toLower_of_isLower (isLower_toLower hletter)
  · have hsame : c.toLower = c := by
      unfold Char.toLower
      refine dif_neg (fun hupper ↦ hletter ?_)
      unfold Char.isAlpha Char.isUpper
      rw [decide_eq_true hupper, Bool.true_or]
    rw [hsame, hsame]

variable {c : Char} {s t : List Char}

theorem sampleData_normal : sampleData.normalize s = s ↔ ∀ c ∈ s, c.toLower = c := by
  have hmap : sampleData.normalize s = s.map Char.toLower := rfl
  rw [hmap]
  constructor
  · intro h c hc
    exact List.map_inj_left.mp (h.trans (List.map_id s).symm) c hc
  · intro h
    exact (List.map_congr_left h).trans (List.map_id s)

theorem toNat_of_alphanumeric (h : sampleData.isAlphanumeric c = true) :
    (48 ≤ c.toNat ∧ c.toNat ≤ 57) ∨ (65 ≤ c.toNat ∧ c.toNat ≤ 90) ∨
      (97 ≤ c.toNat ∧ c.toNat ≤ 122) ∨ c.toNat = 0xD4E ∨ c.toNat = 0x64E := by
  rcases of_decide_eq_true h with halnum | rfl | rfl
  · unfold Char.isAlphanum Char.isAlpha Char.isUpper Char.isLower Char.isDigit at halnum
    simp only [Bool.or_eq_true, Bool.and_eq_true, decide_eq_true_eq, UInt32.le_iff_toNat_le, ge_iff_le]
      at halnum
    change ((65 ≤ c.toNat ∧ c.toNat ≤ 90) ∨ (97 ≤ c.toNat ∧ c.toNat ≤ 122)) ∨
      (48 ≤ c.toNat ∧ c.toNat ≤ 57) at halnum
    omega
  · exact .inr (.inr (.inr (.inl (by decide))))
  · exact .inr (.inr (.inr (.inr (by decide))))

theorem alphanumeric_of_toNat
    (h : (48 ≤ c.toNat ∧ c.toNat ≤ 57) ∨ (97 ≤ c.toNat ∧ c.toNat ≤ 122)) :
    sampleData.isAlphanumeric c = true := by
  refine decide_eq_true (.inl ?_)
  unfold Char.isAlphanum Char.isAlpha Char.isUpper Char.isLower Char.isDigit
  simp only [Bool.or_eq_true, Bool.and_eq_true, decide_eq_true_eq, UInt32.le_iff_toNat_le, ge_iff_le]
  change ((65 ≤ c.toNat ∧ c.toNat ≤ 90) ∨ (97 ≤ c.toNat ∧ c.toNat ≤ 122)) ∨
    (48 ≤ c.toNat ∧ c.toNat ≤ 57)
  omega

theorem toNat_of_special (h : isSpecial c = true) : c.toNat < 48 ∨ c.toNat = 0x3F ∨
    (0x7F ≤ c.toNat ∧ c.toNat ≤ 0xA0) ∨ 0x1680 ≤ c.toNat := by
  rcases of_decide_eq_true h with rfl | rfl | rfl | rfl | hspace | hcontrol
  · exact .inl (by decide)
  · exact .inr (.inl (by decide))
  · exact .inl (by decide)
  · exact .inl (by decide)
  · have hspace := of_decide_eq_true hspace
    omega
  · have hcontrol := of_decide_eq_true hcontrol
    omega

theorem sampleData_unmarked (h : c.toNat < 48 ∨ c.toNat = 0x3F ∨
    (0x7F ≤ c.toNat ∧ c.toNat ≤ 0xA0) ∨ 0x1680 ≤ c.toNat) :
    sampleData.isAlphanumeric c = false ∧ sampleData.isMark c = false := by
  have halnum : sampleData.isAlphanumeric c = false := by
    by_contra halnum
    have hcases := toNat_of_alphanumeric (by simpa using halnum)
    omega
  have hmark : sampleData.isMark c = false := by
    refine decide_eq_false ?_
    rintro rfl
    exact absurd h (by decide)
  exact ⟨halnum, hmark⟩

theorem property_control (h : (sampleData.property c).breakClass.isControl = true) :
    c.toNat < 32 ∨ (0x7F ≤ c.toNat ∧ c.toNat < 0xA0) ∨ c.toNat = 0x200B := by
  simp only [sampleData] at h
  split_ifs at h with hreph hcr hlf hcontrol hfatha
  · exact absurd h nofun
  · rw [hcr]
    decide
  · rw [hlf]
    decide
  · rcases hcontrol with hcontrol | rfl
    · have hcontrol := of_decide_eq_true hcontrol
      omega
    · decide
  · exact absurd h nofun
  · exact absurd h nofun

theorem property_of_ascii (h : 33 ≤ c.toNat ∧ c.toNat < 127) :
    sampleData.property c = plainProperty := by
  have hne (e : Char) (he : e.toNat < 33 ∨ 127 ≤ e.toNat) : c ≠ e := by
    rintro rfl
    omega
  have hcontrol : ¬(isControl c = true ∨ c = zeroWidthSpace) := by
    rintro (hcontrol | rfl)
    · have hcontrol := of_decide_eq_true hcontrol
      omega
    · exact absurd h (by decide)
  simp only [sampleData]
  rw [if_neg (hne dotReph (by decide)), if_neg (hne _ (by decide)), if_neg (hne _ (by decide)),
    if_neg hcontrol, if_neg (hne fatha (by decide))]

theorem toNat_of_ascii (h : c.isDigit ∨ c.isLower) :
    (48 ≤ c.toNat ∧ c.toNat ≤ 57) ∨ (97 ≤ c.toNat ∧ c.toNat ≤ 122) := by
  unfold Char.isLower Char.isDigit at h
  simp only [Bool.and_eq_true, decide_eq_true_eq,
    UInt32.le_iff_toNat_le, ge_iff_le] at h
  change (48 ≤ c.toNat ∧ c.toNat ≤ 57) ∨ (97 ≤ c.toNat ∧ c.toNat ≤ 122) at h
  exact h

theorem plain_plainProperty : plainProperty.Plain := ⟨rfl, rfl, rfl⟩

theorem toLower_of_ascii (h : c.toNat < 65 ∨ 90 < c.toNat) : c.toLower = c := by
  unfold Char.toLower
  refine dif_neg (fun hupper ↦ ?_)
  have hlow : 65 ≤ c.toNat := hupper.1
  have hhigh : c.toNat ≤ 90 := hupper.2
  omega

theorem sampleData_documented : sampleData.Documented where
  nfc_nfc _ := rfl
  toLowercase_nfc s := by
    change (s.map Char.toLower).map Char.toLower = s.map Char.toLower
    rw [List.map_map]
    exact List.map_congr_left (fun c _ ↦ toLower_toLower c)
  normal_infix s t hs hts :=
    sampleData_normal.mpr (fun c hc ↦ sampleData_normal.mp hs c (hts.subset hc))
  normal_hyphen s t hs ht := by
    refine sampleData_normal.mpr (fun c hc ↦ ?_)
    rcases List.mem_append.mp hc with hc | hc
    · exact sampleData_normal.mp hs c hc
    · rcases List.mem_cons.mp hc with rfl | hc
      · rfl
      · exact sampleData_normal.mp ht c hc
  normal_ascii s hs := by
    refine sampleData_normal.mpr (fun c hc ↦ toLower_of_ascii ?_)
    have hrange := toNat_of_ascii (hs c hc)
    omega
  ascii c hc := by
    have hrange := toNat_of_ascii hc
    refine ⟨alphanumeric_of_toNat hrange, ?_⟩
    rw [property_of_ascii (by omega)]
    exact plain_plainProperty
  hyphen := ⟨by decide, plain_plainProperty⟩
  hangul c hc := by
    simp only [sampleData] at hc
    split_ifs at hc
    all_goals exact absurd hc nofun
  consonant c hc := by
    simp only [sampleData] at hc
    split_ifs at hc
    all_goals exact absurd hc nofun
  control c hc := by
    have hrange := property_control hc
    exact sampleData_unmarked (by omega)
  joiner c hc := by
    simp only [sampleData] at hc
    split_ifs at hc
    all_goals exact absurd hc nofun
  regional c hc := by
    simp only [sampleData] at hc
    split_ifs at hc
    all_goals exact absurd hc nofun
  special c hc := sampleData_unmarked (toNat_of_special hc)

theorem fromStr_isCanonical_sample :
    IsCanonical sampleData ['a', '-', 'b'] ↔
      Attachable sampleData (sampleData.normalize ['A', '-', 'B']) :=
  fromStr_isCanonical_iff sampleData_documented (by decide)

/-- A prepended letter takes a solidus along. -/
theorem fromStr_not_canonical : sampleData.Documented ∧
    fromStr sampleData.unicode [dotReph, '/'] = some [dotReph, '/'] ∧
      isSpecial '/' = true ∧ ¬IsCanonical sampleData [dotReph, '/'] := by
  refine ⟨sampleData_documented, by decide, by decide, fun h ↦ ?_⟩
  exact absurd (h.harmless '/' (by simp)) (by decide)

end Sample

end Jaunder.Common.Slug
