import Mathlib.Data.List.Basic
import Mathlib.Tactic

namespace Foundation.Json

inductive Value
  | null
  | bool (b : Bool)
  | num (n : ℤ)
  | str (s : String)
  | arr (elements : List Value)
  | obj (fields : List (String × Value))

def intText : ℤ → List Char
  | .ofNat n => Nat.toDigits 10 n
  | .negSucc n => '-' :: Nat.toDigits 10 (n + 1)

section Printing

variable (quote : List Char → List Char)

mutual

/-- The compact text of a value, with a spelling for the inside of its strings. -/
def print : Value → List Char
  | .null => ['n', 'u', 'l', 'l']
  | .bool true => ['t', 'r', 'u', 'e']
  | .bool false => ['f', 'a', 'l', 's', 'e']
  | .num n => intText n
  | .str s => '"' :: (quote s.toList ++ ['"'])
  | .arr [] => ['[', ']']
  | .arr (v :: elements) => '[' :: (print v ++ printElements elements)
  | .obj [] => ['{', '}']
  | .obj ((key, v) :: fields) =>
    '{' :: '"' :: (quote key.toList ++ '"' :: ':' :: (print v ++ printFields fields))

def printElements : List Value → List Char
  | [] => [']']
  | v :: elements => ',' :: (print v ++ printElements elements)

def printFields : List (String × Value) → List Char
  | [] => ['}']
  | (key, v) :: fields =>
    ',' :: '"' :: (quote key.toList ++ '"' :: ':' :: (print v ++ printFields fields))

end

end Printing

mutual

/-- The keys and strings of a value in the order of its text. -/
def strings : Value → List (List Char)
  | .null => []
  | .bool _ => []
  | .num _ => []
  | .str s => [s.toList]
  | .arr elements => elementStrings elements
  | .obj fields => fieldStrings fields

def elementStrings : List Value → List (List Char)
  | [] => []
  | v :: elements => strings v ++ elementStrings elements

def fieldStrings : List (String × Value) → List (List Char)
  | [] => []
  | (key, v) :: fields => key.toList :: (strings v ++ fieldStrings fields)

end

def isSpace (c : Char) : Bool := c ∈ [' ', '\t', '\n', '\r']

def skipSpace (t : List Char) : List Char := t.dropWhile isSpace

def hexDigit (c : Char) : Option ℕ :=
  if c.isDigit then some (c.toNat - 48)
  else if 'a' ≤ c ∧ c ≤ 'f' then some (c.toNat - 87)
  else if 'A' ≤ c ∧ c ≤ 'F' then some (c.toNat - 55)
  else none

def simpleEscape (c : Char) : Option Char :=
  if c = '"' then some '"' else if c = '\\' then some '\\' else if c = '/' then some '/'
  else if c = 'b' then some (Char.ofNat 8) else if c = 'f' then some (Char.ofNat 12)
  else if c = 'n' then some '\n' else if c = 'r' then some '\r'
  else if c = 't' then some '\t' else none

def hexChar (a b c d : Char) : Option Char := do
  let n := 4096 * (← hexDigit a) + 256 * (← hexDigit b) + 16 * (← hexDigit c) + (← hexDigit d)
  if n.isValidChar then some (Char.ofNat n) else none

/-- The string that ends at the next quote; surrogate pairs are left out. -/
def parseString : List Char → Option (List Char × List Char)
  | [] => none
  | c :: t =>
    if c = '"' then some ([], t)
    else if c = '\\' then
      match t with
      | 'u' :: h₁ :: h₂ :: h₃ :: h₄ :: t => do
        let d ← hexChar h₁ h₂ h₃ h₄
        let (s, t) ← parseString t
        return (d :: s, t)
      | e :: t => do
        let d ← simpleEscape e
        let (s, t) ← parseString t
        return (d :: s, t)
      | [] => none
    else if c.toNat < 0x20 then none
    else do
      let (s, t) ← parseString t
      return (c :: s, t)

def parseNat (t : List Char) : Option (ℕ × List Char) :=
  let digits := t.takeWhile Char.isDigit
  if digits = [] then none else some (Nat.ofDigitChars 10 digits 0, t.dropWhile Char.isDigit)

def parseInt : List Char → Option (ℤ × List Char)
  | '-' :: t => (parseNat t).map (fun (n, t) ↦ (-(n : ℤ), t))
  | t => (parseNat t).map (fun (n, t) ↦ ((n : ℤ), t))

section Parsing

variable (value : List Char → Option (Value × List Char))

def parseElements : ℕ → List Char → Option (List Value × List Char)
  | 0, _ => none
  | fuel + 1, t =>
    match skipSpace t with
    | ']' :: t => some ([], t)
    | ',' :: t => do
      let (v, t) ← value t
      let (elements, t) ← parseElements fuel t
      return (v :: elements, t)
    | _ => none

def parseField (t : List Char) : Option ((String × Value) × List Char) :=
  match skipSpace t with
  | '"' :: t => do
    let (key, t) ← parseString t
    match skipSpace t with
    | ':' :: t => do
      let (v, t) ← value t
      return ((String.ofList key, v), t)
    | _ => none
  | _ => none

def parseFields : ℕ → List Char → Option (List (String × Value) × List Char)
  | 0, _ => none
  | fuel + 1, t =>
    match skipSpace t with
    | '}' :: t => some ([], t)
    | ',' :: t => do
      let (field, t) ← parseField value t
      let (fields, t) ← parseFields fuel t
      return (field :: fields, t)
    | _ => none

def parseArray (fuel : ℕ) (t : List Char) : Option (Value × List Char) :=
  match skipSpace t with
  | ']' :: t => some (.arr [], t)
  | t => do
    let (v, t) ← value t
    let (elements, t) ← parseElements value fuel t
    return (.arr (v :: elements), t)

def parseObject (fuel : ℕ) (t : List Char) : Option (Value × List Char) :=
  match skipSpace t with
  | '}' :: t => some (.obj [], t)
  | t => do
    let (field, t) ← parseField value t
    let (fields, t) ← parseFields value fuel t
    return (.obj (field :: fields), t)

end Parsing

/-- A value at the start of the text, with the text behind it. -/
def parseValue : ℕ → List Char → Option (Value × List Char)
  | 0, _ => none
  | fuel + 1, t =>
    match skipSpace t with
    | 'n' :: 'u' :: 'l' :: 'l' :: t => some (.null, t)
    | 't' :: 'r' :: 'u' :: 'e' :: t => some (.bool true, t)
    | 'f' :: 'a' :: 'l' :: 's' :: 'e' :: t => some (.bool false, t)
    | '"' :: t => (parseString t).map (fun (s, t) ↦ (.str (String.ofList s), t))
    | '[' :: t => parseArray (parseValue fuel) fuel t
    | '{' :: t => parseObject (parseValue fuel) fuel t
    | t => (parseInt t).map (fun (n, t) ↦ (.num n, t))

def parse (t : List Char) : Option Value :=
  match parseValue (t.length + 1) t with
  | some (v, t) => if skipSpace t = [] then some v else none
  | none => none

section RoundTrip

variable {quote : List Char → List Char} {rest : List Char}

/-- The text does not continue a number. -/
def EndsNumber (t : List Char) : Prop := ∀ c ∈ t.head?, c.isDigit = false

theorem endsNumber_cons {c : Char} {t : List Char} (h : c.isDigit = false) :
    EndsNumber (c :: t) := by
  intro d hd
  obtain rfl := Option.some.inj hd
  exact h

theorem skipSpace_cons {c : Char} {t : List Char} (h : isSpace c = false) :
    skipSpace (c :: t) = c :: t := by
  rw [skipSpace, List.dropWhile_cons_of_neg (by simp [h])]

theorem parseNat_toDigits (n : ℕ) (hrest : EndsNumber rest) :
    parseNat (Nat.toDigits 10 n ++ rest) = some (n, rest) := by
  have hdigits : ∀ c ∈ Nat.toDigits 10 n, c.isDigit = true :=
    fun c hc ↦ Nat.isDigit_of_mem_toDigits (by decide) (by decide) hc
  have htake : rest.takeWhile Char.isDigit = [] := by
    cases rest with
    | nil => rfl
    | cons c rest => rw [List.takeWhile_cons_of_neg (by simp [hrest c rfl])]
  have hdrop : rest.dropWhile Char.isDigit = rest := by
    cases rest with
    | nil => rfl
    | cons c rest => rw [List.dropWhile_cons_of_neg (by simp [hrest c rfl])]
  rw [parseNat, List.takeWhile_append_of_pos hdigits, List.dropWhile_append_of_pos hdigits, htake,
    hdrop, List.append_nil, if_neg Nat.toDigits_ne_nil, Nat.ofDigitChars_ten_toDigits]

theorem toDigits_cons (n : ℕ) : ∃ c t, Nat.toDigits 10 n = c :: t ∧ c.isDigit = true := by
  cases h : Nat.toDigits 10 n with
  | nil => exact absurd h Nat.toDigits_ne_nil
  | cons c t =>
    refine ⟨c, t, rfl, Nat.isDigit_of_mem_toDigits (b := 10) (n := n) (by decide) (by decide) ?_⟩
    rw [h]
    exact List.mem_cons_self

theorem parseInt_intText (n : ℤ) (hrest : EndsNumber rest) :
    parseInt (intText n ++ rest) = some (n, rest) := by
  cases n with
  | ofNat n =>
    obtain ⟨c, t, hdigits, hc⟩ := toDigits_cons n
    have hparse := parseNat_toDigits n hrest
    rw [hdigits, List.cons_append] at hparse
    have hdash : c ≠ '-' := by
      rintro rfl
      exact absurd hc (by decide)
    rw [intText, hdigits, List.cons_append, parseInt, hparse]
    · rfl
    · exact fun t h ↦ hdash (List.cons.inj h).1
  | negSucc n =>
    rw [intText, List.cons_append, parseInt, parseNat_toDigits _ hrest]
    rfl

theorem intText_cons (n : ℤ) : ∃ c t, intText n = c :: t ∧ (c.isDigit = true ∨ c = '-') := by
  cases n with
  | ofNat n =>
    obtain ⟨c, t, hdigits, hc⟩ := toDigits_cons n
    exact ⟨c, t, hdigits, .inl hc⟩
  | negSucc n => exact ⟨'-', _, rfl, .inr rfl⟩

theorem isSpace_of_isDigit {c : Char} (h : c.isDigit = true) : isSpace c = false := by
  refine decide_eq_false fun hmem ↦ ?_
  have hall : ∀ c ∈ [' ', '\t', '\n', '\r'], c.isDigit = false := by simp [Char.isDigit]
  rw [hall c hmem] at h
  cases h

theorem parseValue_num (n : ℤ) (fuel : ℕ) (hrest : EndsNumber rest) :
    parseValue (fuel + 1) (intText n ++ rest) = some (.num n, rest) := by
  obtain ⟨c, t, htext, hc⟩ := intText_cons n
  have hparse := parseInt_intText n hrest
  rw [htext, List.cons_append] at hparse ⊢
  have hne : c ≠ 'n' ∧ c ≠ 't' ∧ c ≠ 'f' ∧ c ≠ '"' ∧ c ≠ '[' ∧ c ≠ '\x7b' ∧ isSpace c = false := by
    rcases hc with hc | rfl
    · refine ⟨?_, ?_, ?_, ?_, ?_, ?_, isSpace_of_isDigit hc⟩
      iterate 6
        rintro rfl
        exact absurd hc (by decide)
    · decide
  obtain ⟨hn, ht, hf, hquote, hbracket, hbrace, hspace⟩ := hne
  rw [parseValue, skipSpace_cons hspace]
  split
  · rename_i h
    exact absurd (List.cons.inj h).1 hn
  · rename_i h
    exact absurd (List.cons.inj h).1 ht
  · rename_i h
    exact absurd (List.cons.inj h).1 hf
  · rename_i h
    exact absurd (List.cons.inj h).1 hquote
  · rename_i h
    exact absurd (List.cons.inj h).1 hbracket
  · rename_i h
    exact absurd (List.cons.inj h).1 hbrace
  · rw [hparse]
    rfl

theorem print_length_pos (v : Value) : 0 < (print quote v).length := by
  cases v with
  | null => exact Nat.succ_pos _
  | bool b => cases b <;> exact Nat.succ_pos _
  | num n =>
    obtain ⟨c, t, htext, -⟩ := intText_cons n
    rw [print, htext]
    exact Nat.succ_pos _
  | str s => exact Nat.succ_pos _
  | arr elements => cases elements <;> exact Nat.succ_pos _
  | obj fields => cases fields <;> exact Nat.succ_pos _

theorem endsNumber_elements (elements : List Value) :
    EndsNumber (printElements quote elements ++ rest) := by
  cases elements <;> exact endsNumber_cons (by decide)

theorem endsNumber_fields (fields : List (String × Value)) :
    EndsNumber (printFields quote fields ++ rest) := by
  cases fields <;> exact endsNumber_cons (by decide)

/-- The text of a value does not begin with a space or a closing bracket. -/
theorem print_cons (v : Value) :
    ∃ c t, print quote v = c :: t ∧ isSpace c = false ∧ c ≠ ']' := by
  cases v with
  | null => exact ⟨_, _, rfl, by decide, by decide⟩
  | bool b => cases b <;> exact ⟨_, _, rfl, by decide, by decide⟩
  | num n =>
    obtain ⟨c, t, htext, hc | rfl⟩ := intText_cons n
    · exact ⟨c, t, htext, isSpace_of_isDigit hc, fun h ↦ absurd (h ▸ hc) (by decide)⟩
    · exact ⟨_, _, htext, by decide, by decide⟩
  | str s => exact ⟨_, _, rfl, by decide, by decide⟩
  | arr elements => cases elements <;> exact ⟨_, _, rfl, by decide, by decide⟩
  | obj fields => cases fields <;> exact ⟨_, _, rfl, by decide, by decide⟩

theorem parseArray_of_value {value : List Char → Option (Value × List Char)} {fuel : ℕ}
    {t u w : List Char} {v : Value} {elements : List Value} {c : Char} (ht : t = c :: w)
    (hspace : isSpace c = false) (hclose : c ≠ ']') (hvalue : value t = some (v, u))
    (helements : parseElements value fuel u = some (elements, rest)) :
    parseArray value fuel t = some (.arr (v :: elements), rest) := by
  subst ht
  rw [parseArray, skipSpace_cons hspace]
  split
  · rename_i h
    exact absurd (List.cons.inj h).1 hclose
  · rw [hvalue]
    dsimp only [Option.bind_eq_bind, Option.bind_some]
    rw [helements]
    rfl

theorem parseObject_of_field {value : List Char → Option (Value × List Char)} {fuel : ℕ}
    {t u : List Char} {field : String × Value} {fields : List (String × Value)}
    (hfield : parseField value ('"' :: t) = some (field, u))
    (hfields : parseFields value fuel u = some (fields, rest)) :
    parseObject value fuel ('"' :: t) = some (.obj (field :: fields), rest) := by
  rw [parseObject, skipSpace_cons (by decide)]
  split
  · rename_i h
    exact absurd (List.cons.inj h).1 (by decide)
  · rw [hfield]
    dsimp only [Option.bind_eq_bind, Option.bind_some]
    rw [hfields]
    rfl

theorem parseField_of_value {value : List Char → Option (Value × List Char)}
    (hquote : ∀ s t, parseString (quote s ++ '"' :: t) = some (s, t)) {key : String}
    {u : List Char} {v : Value} (hvalue : value u = some (v, rest)) :
    parseField value ('"' :: (quote key.toList ++ '"' :: ':' :: u)) = some ((key, v), rest) := by
  have hcolon : skipSpace (':' :: u) = ':' :: u := skipSpace_cons (by decide)
  rw [parseField, skipSpace_cons (by decide)]
  simp only [hquote, hcolon, hvalue, String.ofList_toList, Option.bind_eq_bind, Option.bind_some,
    Option.pure_def]

mutual

theorem parseValue_print (hquote : ∀ s t, parseString (quote s ++ '"' :: t) = some (s, t)) :
    ∀ (v : Value) (fuel : ℕ) (rest : List Char), (print quote v).length ≤ fuel → EndsNumber rest →
      parseValue fuel (print quote v ++ rest) = some (v, rest)
  | v, 0, rest, hfuel, _ => absurd hfuel (print_length_pos v).not_ge
  | .null, fuel + 1, rest, _, _ => rfl
  | .bool true, fuel + 1, rest, _, _ => rfl
  | .bool false, fuel + 1, rest, _, _ => rfl
  | .num n, fuel + 1, rest, _, hrest => parseValue_num n fuel hrest
  | .str s, fuel + 1, rest, _, _ => by
    rw [print, List.cons_append, List.append_assoc, parseValue, skipSpace_cons (by decide)]
    simp only [List.singleton_append, hquote, Option.map_some, String.ofList_toList]
  | .arr [], fuel + 1, rest, _, _ => rfl
  | .arr (v :: elements), fuel + 1, rest, hfuel, _ => by
    rw [print, List.length_cons, List.length_append] at hfuel
    have hvalue := parseValue_print hquote v fuel (printElements quote elements ++ rest) (by omega)
      (endsNumber_elements elements)
    have helements := parseElements_print hquote elements fuel fuel rest (by omega) (by omega)
    obtain ⟨c, t, htext, hspace, hclose⟩ := @print_cons quote v
    have harray := parseArray_of_value (by rw [htext, List.cons_append]) hspace hclose hvalue
      helements
    rw [print, List.cons_append, List.append_assoc, parseValue, skipSpace_cons (by decide)]
    exact harray
  | .obj [], fuel + 1, rest, _, _ => rfl
  | .obj ((key, v) :: fields), fuel + 1, rest, hfuel, _ => by
    simp only [print, List.length_cons, List.length_append] at hfuel
    have hvalue := parseValue_print hquote v fuel (printFields quote fields ++ rest) (by omega)
      (endsNumber_fields fields)
    have hfields := parseFields_print hquote fields fuel fuel rest (by omega) (by omega)
    have hfield := @parseField_of_value _ _ _ hquote key _ _ hvalue
    have hobject := parseObject_of_field hfield hfields
    simp only [print, List.cons_append, List.append_assoc]
    rw [parseValue, skipSpace_cons (by decide)]
    exact hobject

theorem parseElements_print (hquote : ∀ s t, parseString (quote s ++ '"' :: t) = some (s, t)) :
    ∀ (elements : List Value) (inner fuel : ℕ) (rest : List Char),
      (printElements quote elements).length ≤ inner →
      (printElements quote elements).length ≤ fuel →
      parseElements (parseValue inner) fuel (printElements quote elements ++ rest) =
        some (elements, rest)
  | [], inner, 0, rest, _, hfuel => absurd hfuel (Nat.not_succ_le_zero _)
  | [], inner, fuel + 1, rest, _, _ => rfl
  | v :: elements, inner, 0, rest, _, hfuel => absurd hfuel (Nat.not_succ_le_zero _)
  | v :: elements, inner, fuel + 1, rest, hinner, hfuel => by
    rw [printElements, List.length_cons, List.length_append] at hinner hfuel
    have hvalue := parseValue_print hquote v inner (printElements quote elements ++ rest) (by omega)
      (endsNumber_elements elements)
    have helements := parseElements_print hquote elements inner fuel rest (by omega) (by omega)
    rw [printElements, List.cons_append, List.append_assoc, parseElements,
      skipSpace_cons (by decide)]
    simp only [hvalue, helements, Option.bind_eq_bind, Option.bind_some, Option.pure_def]

theorem parseFields_print (hquote : ∀ s t, parseString (quote s ++ '"' :: t) = some (s, t)) :
    ∀ (fields : List (String × Value)) (inner fuel : ℕ) (rest : List Char),
      (printFields quote fields).length ≤ inner →
      (printFields quote fields).length ≤ fuel →
      parseFields (parseValue inner) fuel (printFields quote fields ++ rest) =
        some (fields, rest)
  | [], inner, 0, rest, _, hfuel => absurd hfuel (Nat.not_succ_le_zero _)
  | [], inner, fuel + 1, rest, _, _ => rfl
  | field :: fields, inner, 0, rest, _, hfuel => absurd hfuel (Nat.not_succ_le_zero _)
  | (key, v) :: fields, inner, fuel + 1, rest, hinner, hfuel => by
    simp only [printFields, List.length_cons, List.length_append] at hinner hfuel
    have hvalue := parseValue_print hquote v inner (printFields quote fields ++ rest) (by omega)
      (endsNumber_fields fields)
    have hfields := parseFields_print hquote fields inner fuel rest (by omega) (by omega)
    have hfield := @parseField_of_value _ _ _ hquote key _ _ hvalue
    simp only [printFields, List.cons_append, List.append_assoc]
    rw [parseFields, skipSpace_cons (by decide)]
    simp only [hfield, hfields, Option.bind_eq_bind, Option.bind_some, Option.pure_def]

end

theorem parse_print (hquote : ∀ s t, parseString (quote s ++ '"' :: t) = some (s, t)) (v : Value) :
    parse (print quote v) = some v := by
  have hvalue := parseValue_print hquote v ((print quote v).length + 1) [] (by omega) nofun
  rw [List.append_nil] at hvalue
  rw [parse, hvalue]
  rfl

end RoundTrip

end Foundation.Json
