import Jaunder.Foundation.Segmentation

namespace Foundation.Graphemes

/-- `Grapheme_Cluster_Break` -/
inductive BreakClass
  | cr
  | lf
  | control
  | extend
  | zwj
  | regional
  | prepend
  | spacingMark
  | hangulL
  | hangulV
  | hangulT
  | hangulLV
  | hangulLVT
  | other
deriving DecidableEq

/-- `Indic_Conjunct_Break` -/
inductive ConjunctClass
  | none
  | consonant
  | linker
  | extend
deriving DecidableEq

def BreakClass.isControl : BreakClass → Bool
  | .cr | .lf | .control => true
  | _ => false

/-- The classes that are never separated from what they follow. -/
def BreakClass.attaches : BreakClass → Bool
  | .extend | .zwj | .spacingMark => true
  | _ => false

def BreakClass.isHangul : BreakClass → Bool
  | .hangulL | .hangulV | .hangulT | .hangulLV | .hangulLVT => true
  | _ => false

/-- What the segmentation reads of a character. -/
structure Property where
  breakClass : BreakClass
  conjunct : ConjunctClass
  pictographic : Bool
  conjunct_attaches : conjunct = .linker ∨ conjunct = .extend → breakClass.attaches = true
  control_plain : breakClass.isControl = true → conjunct = .none ∧ pictographic = false
  prepend_plain : breakClass = .prepend → conjunct = .none ∧ pictographic = false

/-- A syllable of Hangul goes on. -/
def hangulJoins : BreakClass → BreakClass → Bool
  | .hangulL, .hangulL | .hangulL, .hangulV | .hangulL, .hangulLV | .hangulL, .hangulLVT => true
  | .hangulLV, .hangulV | .hangulLV, .hangulT | .hangulV, .hangulV | .hangulV, .hangulT => true
  | .hangulLVT, .hangulT | .hangulT, .hangulT => true
  | _, _ => false

/-- A consonant with a linker behind it ends the text, which is read from its end. -/
def conjunctOpen : Bool → List Property → Bool
  | _, [] => false
  | sawLinker, p :: left =>
    match p.conjunct with
    | .consonant => sawLinker
    | .linker => conjunctOpen true left
    | .extend => conjunctOpen sawLinker left
    | .none => false

/-- A pictograph with its extenders ends the text, which is read from its end. -/
def pictographOpen : List Property → Bool
  | [] => false
  | p :: left => if p.breakClass = .extend then pictographOpen left else p.pictographic

def regionalRun (left : List Property) : ℕ :=
  (left.takeWhile (fun p ↦ p.breakClass = .regional)).length

/-- Whether a character belongs to the cluster of the one before it. The text in front of it is read
from its end. -/
def joins : List Property → Property → Bool
  | [], _ => false
  | p :: left, c =>
    if p.breakClass = .cr ∧ c.breakClass = .lf then true
    else if p.breakClass.isControl ∨ c.breakClass.isControl then false
    else
      hangulJoins p.breakClass c.breakClass ∨ c.breakClass.attaches ∨ p.breakClass = .prepend ∨
        (c.conjunct = .consonant ∧ conjunctOpen false (p :: left)) ∨
        (p.breakClass = .zwj ∧ c.pictographic ∧ pictographOpen left) ∨
        (p.breakClass = .regional ∧ c.breakClass = .regional ∧ regionalRun (p :: left) % 2 = 1)

/-- A character that no rule looks past, such as a hyphen. -/
structure Property.Plain (p : Property) : Prop where
  breakClass : p.breakClass = .other
  conjunct : p.conjunct = .none
  pictographic : p.pictographic = false

theorem isHangul_of_hangulJoins {a b : BreakClass} (h : hangulJoins a b = true) :
    b.isHangul = true := by
  cases a <;> cases b <;> first | rfl | exact absurd h Bool.false_ne_true

section Rules

variable {p c x : Property} {left cur : List Property}

theorem joins_attaches (hc : c.breakClass.attaches = true) :
    joins (p :: left) c = !p.breakClass.isControl := by
  have hlf : c.breakClass ≠ .lf := by
    intro h
    rw [h] at hc
    exact absurd hc Bool.false_ne_true
  have hcontrol : c.breakClass.isControl = false := by
    cases h : c.breakClass <;> rw [h] at hc <;> first | rfl | exact absurd hc Bool.false_ne_true
  rw [joins, if_neg (fun h ↦ hlf h.2), hcontrol]
  cases hp : p.breakClass.isControl with
  | false => simp [hc]
  | true => simp

theorem joins_plain_right (hc : c.Plain) :
    joins (p :: left) c = decide (p.breakClass = .prepend) := by
  have hhangul : hangulJoins p.breakClass .other = false := by
    cases p.breakClass <;> rfl
  rw [joins, hc.breakClass]
  cases hp : p.breakClass with
  | prepend => rfl
  | cr => rfl
  | lf => rfl
  | control => rfl
  | _ => simp [hc.conjunct, hc.pictographic, BreakClass.attaches, BreakClass.isControl, hangulJoins]

theorem joins_plain_left (hp : p.Plain) : joins (p :: left) c = c.breakClass.attaches := by
  have hhangul : hangulJoins .other c.breakClass = false := by
    cases c.breakClass <;> rfl
  have hopen : conjunctOpen false (p :: left) = false := by
    rw [conjunctOpen, hp.conjunct]
  rw [joins, hp.breakClass, hhangul, hopen]
  cases hc : c.breakClass <;> simp [BreakClass.attaches, BreakClass.isControl]

/-- A character that binds what follows it is itself bound by such a character only. -/
theorem joins_prepend (h : joins (p :: left) c = true) (hc : c.breakClass = .prepend) :
    p.breakClass = .prepend := by
  have hhangul : hangulJoins p.breakClass .prepend = false := by
    cases p.breakClass <;> rfl
  obtain ⟨hconjunct, hpict⟩ := c.prepend_plain hc
  rw [joins, hc, if_neg (fun hcr ↦ nomatch hcr.2), hhangul, hconjunct, hpict] at h
  by_cases hcontrol : p.breakClass.isControl = true ∨ BreakClass.prepend.isControl = true
  · rw [if_pos hcontrol] at h
    exact absurd h nofun
  · rw [if_neg hcontrol] at h
    simpa [BreakClass.attaches] using h

/-- Nothing is read past a plain character. -/
theorem conjunctOpen_plain (left cur : List Property) (hx : x.Plain) (sawLinker : Bool) :
    conjunctOpen sawLinker (cur ++ x :: left) = conjunctOpen sawLinker cur := by
  induction cur generalizing sawLinker with
  | nil => simp only [List.nil_append, conjunctOpen, hx.conjunct]
  | cons p cur ih =>
    rw [List.cons_append, conjunctOpen, conjunctOpen]
    cases p.conjunct with
    | none => rfl
    | consonant => rfl
    | linker => exact ih true
    | extend => exact ih sawLinker

theorem pictographOpen_plain (hx : x.Plain) :
    pictographOpen (cur ++ x :: left) = pictographOpen cur := by
  induction cur with
  | nil => simp [pictographOpen, hx.breakClass, hx.pictographic]
  | cons p cur ih => rw [List.cons_append, pictographOpen, pictographOpen, ih]

theorem regionalRun_plain (left cur : List Property) (hx : x.Plain) : regionalRun (cur ++ x :: left) = regionalRun cur := by
  induction cur with
  | nil =>
    rw [List.nil_append, regionalRun, List.takeWhile_cons_of_neg (by simp [hx.breakClass])]
    rfl
  | cons p cur ih =>
    rw [regionalRun, regionalRun] at ih
    rw [List.cons_append, regionalRun, regionalRun, List.takeWhile_cons, List.takeWhile_cons]
    split_ifs
    · rw [List.length_cons, List.length_cons, ih]
    · rfl

theorem joins_opaque (hx : x.Plain) (hcur : cur ≠ []) :
    joins (cur ++ x :: left) c = joins cur c := by
  cases cur with
  | nil => exact absurd rfl hcur
  | cons p cur =>
    have hconjunct := conjunctOpen_plain left (p :: cur) hx false
    have hregional := regionalRun_plain left (p :: cur) hx
    rw [List.cons_append] at hconjunct hregional
    rw [List.cons_append, joins, joins, hconjunct, hregional, pictographOpen_plain hx]

end Rules

section Locality

variable {first c : Property} {before cur : List Property}

/-- Behind a break the text is read no further when what follows attaches. -/
theorem control_of_break (h : joins before first = false) (hfirst : first.breakClass.attaches = true) :
    ∀ p ∈ before.head?, p.breakClass.isControl = true := by
  cases before with
  | nil => exact fun _ hp ↦ absurd hp nofun
  | cons p left =>
    intro q hq
    obtain rfl : p = q := Option.some.inj hq
    rw [joins_attaches hfirst] at h
    simpa using h

theorem conjunctOpen_local (cur : List Property) (h : joins before first = false)
    (sawLinker : Bool) :
    conjunctOpen sawLinker (cur ++ first :: before) = conjunctOpen sawLinker (cur ++ [first]) := by
  have hbefore (hattaches : first.breakClass.attaches = true) (saw : Bool) :
      conjunctOpen saw before = false := by
    cases before with
    | nil => rfl
    | cons p left =>
      have hp := control_of_break h hattaches p rfl
      rw [conjunctOpen, (p.control_plain hp).1]
  induction cur generalizing sawLinker with
  | nil =>
    rw [List.nil_append, List.nil_append, conjunctOpen, conjunctOpen]
    cases hconjunct : first.conjunct with
    | none => rfl
    | consonant => rfl
    | linker => exact hbefore (first.conjunct_attaches (.inl hconjunct)) true
    | extend => exact hbefore (first.conjunct_attaches (.inr hconjunct)) sawLinker
  | cons p cur ih =>
    rw [List.cons_append, List.cons_append, conjunctOpen, conjunctOpen]
    cases p.conjunct with
    | none => rfl
    | consonant => rfl
    | linker => exact ih true
    | extend => exact ih sawLinker

theorem pictographOpen_before (h : joins before first = false)
    (hattaches : first.breakClass.attaches = true) : pictographOpen before = false := by
  cases before with
  | nil => rfl
  | cons p left =>
    have hp := control_of_break h hattaches p rfl
    have hextend : p.breakClass ≠ .extend := by
      intro heq
      rw [heq] at hp
      exact absurd hp Bool.false_ne_true
    rw [pictographOpen, if_neg hextend, (p.control_plain hp).2]

theorem pictographOpen_local (h : joins before first = false) :
    pictographOpen (cur ++ first :: before) = pictographOpen (cur ++ [first]) := by
  induction cur with
  | nil =>
    rw [List.nil_append, List.nil_append, pictographOpen, pictographOpen]
    split_ifs with hextend
    · exact pictographOpen_before h (by rw [hextend]; rfl)
    · rfl
  | cons p cur ih => rw [List.cons_append, List.cons_append, pictographOpen, pictographOpen, ih]

theorem regionalRun_local (cur : List Property) (h : joins before first = false) :
    regionalRun (cur ++ first :: before) % 2 = regionalRun (cur ++ [first]) % 2 := by
  induction cur with
  | nil =>
    rw [List.nil_append, List.nil_append, regionalRun, regionalRun, List.takeWhile_cons,
      List.takeWhile_cons]
    by_cases hfirst : first.breakClass = .regional
    · rw [if_pos (decide_eq_true hfirst), if_pos (decide_eq_true hfirst), List.length_cons,
        ← regionalRun]
      have heven : regionalRun before % 2 = 0 := by
        cases before with
        | nil => rfl
        | cons p left =>
          by_cases hp : p.breakClass = .regional
          · rw [joins, if_neg (by rw [hp]; exact fun h ↦ absurd h.1 nofun),
              if_neg (by rw [hp, hfirst]; exact Bool.false_ne_true ∘ Or.rec id id)] at h
            simp only [hp, hfirst, decide_eq_false_iff_not, not_or, true_and] at h
            omega
          · rw [regionalRun, List.takeWhile_cons_of_neg (by simpa using hp)]
            rfl
      simp only [List.takeWhile_nil, List.length_cons, List.length_nil]
      omega
    · rw [if_neg (by simpa using hfirst), if_neg (by simpa using hfirst)]
  | cons p cur ih =>
    rw [regionalRun, regionalRun] at ih
    rw [List.cons_append, List.cons_append, regionalRun, regionalRun, List.takeWhile_cons,
      List.takeWhile_cons]
    split_ifs
    · rw [List.length_cons, List.length_cons]
      omega
    · rfl

/-- Whether a cluster goes on is decided inside of it. -/
theorem joins_local (h : joins before first = false) :
    joins (cur ++ first :: before) c = joins (cur ++ [first]) c := by
  have hconjunct := conjunctOpen_local cur h false
  have hregional := regionalRun_local cur h
  cases cur with
  | nil =>
    rw [List.nil_append, List.nil_append] at *
    have hpict : first.breakClass = .zwj → pictographOpen before = pictographOpen [] :=
      fun hzwj ↦ pictographOpen_before h (by rw [hzwj]; rfl)
    rw [joins, joins, hconjunct, hregional]
    by_cases hzwj : first.breakClass = .zwj
    · rw [hpict hzwj]
    · simp only [hzwj, false_and]
  | cons p cur =>
    rw [List.cons_append, List.cons_append] at *
    rw [joins, joins, hconjunct, hregional, pictographOpen_local h]

theorem joins_isLocal {α : Type*} (f : α → Property) :
    Segmentation.Local (fun left c ↦ joins (left.map f) (f c)) := by
  intro before first cur c h
  simp only [List.map_append, List.map_cons, List.map_nil]
  exact joins_local h

end Locality

end Foundation.Graphemes
