import Jaunder.Common.PostText
import Jaunder.Common.Seed
import Jaunder.Foundation.ScriptData

namespace Jaunder.Server.Document

open Foundation.Json Foundation.ScriptData
open Jaunder.Common.Seed

def hexText (n : ℕ) : Char := if n < 10 then Char.ofNat (48 + n) else Char.ofNat (87 + n)

/-- What `serde_json` writes for a character that JSON does not admit in a string. -/
def escapeChar (c : Char) : List Char :=
  if c = '"' then ['\\', '"'] else if c = '\\' then ['\\', '\\']
  else if c = Char.ofNat 8 then ['\\', 'b'] else if c = '\t' then ['\\', 't']
  else if c = '\n' then ['\\', 'n'] else if c = Char.ofNat 12 then ['\\', 'f']
  else if c = '\r' then ['\\', 'r']
  else if c.toNat < 0x20 then ['\\', 'u', '0', '0', hexText (c.toNat / 16), hexText (c.toNat % 16)]
  else [c]

def escape (s : List Char) : List Char := s.flatMap escapeChar

/-- `serde_json::to_string`. -/
def toString (v : Value) : List Char := print escape v

/-- `replace("</", "<\\/")`. -/
def replaceEndTags : List Char → List Char
  | '<' :: '/' :: t => '<' :: '\\' :: '/' :: replaceEndTags t
  | c :: t => c :: replaceEndTags t
  | [] => []

def seedTag : List Char := "<script type=\"application/json\" id=\"jaunder-seed\">".toList

/-- What the document writes around the seed: its markup in front, and the boot script. -/
structure Shell where
  prepaint : List Char
  head : List Char
  body : List Char
  boot : List Char

variable {T : TextTypes}

def blob (presentation : PublicPresentation T) : List Char :=
  replaceEndTags (toString presentation.toJson)

def beforeSeed (shell : Shell) : List Char :=
  "<!DOCTYPE html><html lang=\"en\"><head>".toList ++ shell.prepaint ++ shell.head ++
    "</head><body><div id=\"app\">".toList ++ shell.body ++ "</div>".toList ++ seedTag

def afterSeed (shell : Shell) : List Char := shell.boot ++ "</body></html>".toList

/-- `document_with_urls`. -/
def documentWithUrls (shell : Shell) (presentation : PublicPresentation T) : List Char :=
  beforeSeed shell ++ (blob presentation ++ (endTag ++ '>' :: afterSeed shell))

/-- What ends the name of a start tag where no control character is written as it is. -/
def endsName (c : Char) : Bool := c ∈ [' ', '/', '>']

/-- Where the texts leave a reader who reads them one after the other. -/
def readTexts (mode : Mode) (texts : List (List Char)) : Mode := texts.foldl (scan endsName) mode

section Escaping

/-- The replacement behind a character. -/
def replaceAfter (previous : Char) : List Char → List Char
  | [] => []
  | c :: t => if previous = '<' ∧ c = '/' then '\\' :: '/' :: replaceAfter c t
    else c :: replaceAfter c t

theorem replaceAfter_eq {previous : Char} {t : List Char}
    (h : previous = '<' → t.head? ≠ some '/') : replaceAfter previous t = replaceEndTags t := by
  induction t using replaceEndTags.induct generalizing previous with
  | case1 t ih =>
    rw [replaceEndTags, replaceAfter, if_neg (fun hc ↦ absurd hc.2 (by decide)), replaceAfter,
      if_pos ⟨rfl, rfl⟩, ih (fun hslash ↦ absurd hslash (by decide))]
  | case2 c t hno ih =>
    have hkeep : ¬(previous = '<' ∧ c = '/') := fun hc ↦ h hc.1 (congrArg some hc.2)
    rw [replaceEndTags, replaceAfter, if_neg hkeep, ih]
    · rintro rfl hhead
      cases t with
      | nil => cases hhead
      | cons d t =>
        obtain rfl := Option.some.inj hhead
        exact hno t rfl rfl
    · exact hno
  | case3 => rfl

theorem replaceAfter_of_ne {previous : Char} (h : previous ≠ '<') (t : List Char) :
    replaceAfter previous t = replaceEndTags t := replaceAfter_eq fun hlt ↦ absurd hlt h

theorem head_replaceAfter (t : List Char) : (replaceAfter '<' t).head? ≠ some '/' := by
  cases t with
  | nil => nofun
  | cons c t =>
    rw [replaceAfter]
    by_cases hslash : '<' = '<' ∧ c = '/'
    · rw [if_pos hslash]
      nofun
    · rw [if_neg hslash]
      exact fun h ↦ hslash ⟨rfl, Option.some.inj h⟩

/-- After the replacement no end tag opens. -/
theorem noEndTag_replaceAfter (previous : Char) (t : List Char) :
    NoEndTag (replaceAfter previous t) := by
  induction t generalizing previous with
  | nil => trivial
  | cons c t ih =>
    have hkeep : NoEndTag (c :: replaceAfter c t) := by
      refine ⟨?_, ih c⟩
      rintro ⟨rfl, hhead⟩
      exact head_replaceAfter t hhead
    rw [replaceAfter]
    by_cases hslash : previous = '<' ∧ c = '/'
    · rw [if_pos hslash]
      obtain ⟨-, rfl⟩ := hslash
      exact ⟨fun h ↦ absurd h.1 (by decide), hkeep⟩
    · rw [if_neg hslash]
      exact hkeep

theorem noEndTag_replaceEndTags (t : List Char) : NoEndTag (replaceEndTags t) := by
  have hspace : replaceAfter ' ' t = replaceEndTags t := replaceAfter_of_ne (by decide) t
  rw [← hspace]
  exact noEndTag_replaceAfter _ t

/-- The character is written as an escape. -/
structure Escaped (c : Char) : Prop where
  text : escapeChar c = '\\' :: (escapeChar c).tail
  tail : ∀ d ∈ (escapeChar c).tail, d ≠ '<' ∧ d ≠ '-' ∧ d ≠ '/'
  ne : c ≠ '<' ∧ c ≠ '-' ∧ c ≠ '/' ∧ c ≠ '!' ∧ c ≠ '>'
  name : c.isAlpha = false ∧ endsName c = false
  parse : ∀ t s rest, parseString t = some (s, rest) →
    parseString (escapeChar c ++ t) = some (c :: s, rest)

/-- The character is written as it is. -/
structure Plain (c : Char) : Prop where
  text : escapeChar c = [c]
  quote : c ≠ '"'
  backslash : c ≠ '\\'
  visible : 0x20 ≤ c.toNat

theorem parseString_simple {e c : Char} (hsimple : simpleEscape e = some c) (hu : e ≠ 'u')
    {t s rest : List Char} (h : parseString t = some (s, rest)) :
    parseString ('\\' :: e :: t) = some (c :: s, rest) := by
  rw [parseString, if_neg (by decide), if_pos rfl]
  · rw [hsimple, h]
    rfl
  · rintro _ _ _ _ _ rfl
    exact fun _ ↦ hu rfl

theorem parseString_control {c : Char} (hcontrol : c.toNat < 0x20) {t s rest : List Char}
    (h : parseString t = some (s, rest)) :
    parseString (['\\', 'u', '0', '0', hexText (c.toNat / 16), hexText (c.toNat % 16)] ++ t) =
      some (c :: s, rest) := by
  have hall : ∀ n < 0x20, hexChar '0' '0' (hexText (n / 16)) (hexText (n % 16)) =
      some (Char.ofNat n) := by decide +kernel
  have hc := hall c.toNat hcontrol
  rw [Char.ofNat_toNat] at hc
  simp only [List.cons_append, List.nil_append]
  rw [parseString, if_neg (by decide), if_pos rfl]
  simp only [hc, h, Option.bind_eq_bind, Option.bind_some, Option.pure_def]

theorem parseString_escapeChar {c : Char} (hc : c = '"' ∨ c = '\\' ∨ c.toNat < 0x20)
    {t s rest : List Char} (h : parseString t = some (s, rest)) :
    parseString (escapeChar c ++ t) = some (c :: s, rest) := by
  unfold escapeChar
  by_cases hquote : c = '"'
  · subst hquote
    exact parseString_simple rfl (by decide) h
  rw [if_neg hquote]
  by_cases hbackslash : c = '\\'
  · subst hbackslash
    exact parseString_simple rfl (by decide) h
  rw [if_neg hbackslash]
  by_cases hback : c = Char.ofNat 8
  · subst hback
    exact parseString_simple rfl (by decide) h
  rw [if_neg hback]
  by_cases htab : c = '\t'
  · subst htab
    exact parseString_simple rfl (by decide) h
  rw [if_neg htab]
  by_cases hline : c = '\n'
  · subst hline
    exact parseString_simple rfl (by decide) h
  rw [if_neg hline]
  by_cases hfeed : c = Char.ofNat 12
  · subst hfeed
    exact parseString_simple rfl (by decide) h
  rw [if_neg hfeed]
  by_cases hreturn : c = '\r'
  · subst hreturn
    exact parseString_simple rfl (by decide) h
  have hcontrol := (hc.resolve_left hquote).resolve_left hbackslash
  rw [if_neg hreturn, if_pos hcontrol]
  exact parseString_control hcontrol h

theorem plain_or_escaped (c : Char) : Plain c ∨ Escaped c := by
  by_cases hc : c = '"' ∨ c = '\\' ∨ c.toNat < 0x20
  · right
    have hfacts : escapeChar c = '\\' :: (escapeChar c).tail ∧
        (escapeChar c).tail.all (fun d ↦ d ≠ '<' ∧ d ≠ '-' ∧ d ≠ '/') = true ∧
        (c ≠ '<' ∧ c ≠ '-' ∧ c ≠ '/' ∧ c ≠ '!' ∧ c ≠ '>') ∧
        c.isAlpha = false ∧ endsName c = false := by
      rcases hc with rfl | rfl | hcontrol
      · decide
      · decide
      · have hall : ∀ n < 0x20, escapeChar (Char.ofNat n) = '\\' :: (escapeChar (Char.ofNat n)).tail ∧
            (escapeChar (Char.ofNat n)).tail.all (fun d ↦ d ≠ '<' ∧ d ≠ '-' ∧ d ≠ '/') = true ∧
            (Char.ofNat n ≠ '<' ∧ Char.ofNat n ≠ '-' ∧ Char.ofNat n ≠ '/' ∧ Char.ofNat n ≠ '!' ∧
              Char.ofNat n ≠ '>') ∧
            (Char.ofNat n).isAlpha = false ∧ endsName (Char.ofNat n) = false := by decide +kernel
        have hn := hall c.toNat hcontrol
        rw [Char.ofNat_toNat] at hn
        exact hn
    obtain ⟨htext, htail, hne, hname⟩ := hfacts
    exact ⟨htext, fun d hd ↦ of_decide_eq_true (List.all_eq_true.1 htail d hd), hne, hname,
      fun t s rest h ↦ parseString_escapeChar hc h⟩
  · left
    rw [not_or, not_or, not_lt] at hc
    obtain ⟨hquote, hbackslash, hvisible⟩ := hc
    refine ⟨?_, hquote, hbackslash, hvisible⟩
    have hne : ∀ n < 0x20, c ≠ Char.ofNat n := by
      rintro n hn rfl
      have hsmall : ∀ n < 0x20, (Char.ofNat n).toNat = n := by decide
      rw [hsmall n hn] at hvisible
      omega
    rw [escapeChar, if_neg hquote, if_neg hbackslash, if_neg (hne 8 (by decide)),
      if_neg (hne 9 (by decide)), if_neg (hne 10 (by decide)), if_neg (hne 12 (by decide)),
      if_neg (hne 13 (by decide)), if_neg hvisible.not_gt]

/-- A text without slashes is copied. -/
theorem replaceAfter_append {w : List Char} (hw : ∀ d ∈ w, d ≠ '/') (previous : Char)
    (t : List Char) : ∃ last, replaceAfter previous (w ++ t) = w ++ replaceAfter last t := by
  induction w generalizing previous with
  | nil => exact ⟨previous, rfl⟩
  | cons d w ih =>
    obtain ⟨last, hlast⟩ := ih (fun e he ↦ hw e (List.mem_cons_of_mem _ he)) d
    refine ⟨last, ?_⟩
    rw [List.cons_append, replaceAfter, if_neg (fun h ↦ hw d List.mem_cons_self h.2), hlast]
    rfl

theorem Escaped.replaceAfter_cons {c : Char} (hc : Escaped c) (previous : Char) (s : List Char) :
    ∃ last, replaceAfter previous (escape (c :: s)) =
      escapeChar c ++ replaceAfter last (escape s) := by
  refine replaceAfter_append (fun d hd ↦ ?_) previous (escape s)
  rw [hc.text] at hd
  rcases List.mem_cons.1 hd with rfl | hd
  · decide
  · exact (hc.tail d hd).2.2

theorem Plain.escape_cons {c : Char} (hc : Plain c) (s : List Char) :
    escape (c :: s) = c :: escape s := by
  rw [escape, List.flatMap_cons, hc.text]
  rfl

theorem Plain.parse {c : Char} (hc : Plain c) {t s rest : List Char}
    (h : parseString t = some (s, rest)) : parseString (c :: t) = some (c :: s, rest) := by
  rw [parseString.eq_def]
  dsimp only
  rw [if_neg hc.quote, if_neg hc.backslash, if_neg hc.visible.not_gt, h]
  rfl

theorem parseString_escape (s t : List Char) : parseString (escape s ++ '"' :: t) = some (s, t) := by
  induction s with
  | nil =>
    change parseString ('"' :: t) = _
    rw [parseString.eq_def]
    exact if_pos rfl
  | cons c s ih =>
    rcases plain_or_escaped c with hc | hc
    · rw [hc.escape_cons, List.cons_append]
      exact hc.parse ih
    · have hcons : escape (c :: s) = escapeChar c ++ escape s := List.flatMap_cons
      rw [hcons, List.append_assoc]
      exact hc.parse _ _ _ ih

/-- The spelling of a string is read back. -/
theorem parseString_spelled (previous : Char) (s t : List Char) :
    parseString (replaceAfter previous (escape s) ++ '"' :: t) = some (s, t) := by
  induction s generalizing previous with
  | nil =>
    change parseString ('"' :: t) = _
    rw [parseString.eq_def]
    exact if_pos rfl
  | cons c s ih =>
    rcases plain_or_escaped c with hc | hc
    · rw [hc.escape_cons, replaceAfter]
      by_cases hslash : previous = '<' ∧ c = '/'
      · obtain ⟨rfl, rfl⟩ := hslash
        rw [if_pos ⟨rfl, rfl⟩]
        exact parseString_simple rfl (by decide) (ih '/')
      · rw [if_neg hslash]
        exact hc.parse (ih c)
    · obtain ⟨last, hlast⟩ := hc.replaceAfter_cons previous s
      rw [hlast, List.append_assoc]
      exact hc.parse _ _ _ (ih last)

theorem isPrefixOf_spelled {p : List Char} (hp : ∀ d ∈ p, d ∈ ['!', '-', '>']) (previous : Char)
    (s : List Char) : p.isPrefixOf (replaceAfter previous (escape s)) = p.isPrefixOf s := by
  induction p generalizing previous s with
  | nil => simp
  | cons a p ih =>
    have ha := hp a List.mem_cons_self
    have hrest := ih fun d hd ↦ hp d (List.mem_cons_of_mem _ hd)
    have hbackslash : a ≠ '\\' := by
      rintro rfl
      exact absurd ha (by decide)
    cases s with
    | nil => rfl
    | cons c s =>
      rcases plain_or_escaped c with hc | hc
      · rw [hc.escape_cons, replaceAfter]
        by_cases hslash : previous = '<' ∧ c = '/'
        · have hac : a ≠ c := by
            rintro rfl
            rw [hslash.2] at ha
            exact absurd ha (by decide)
          rw [if_pos hslash, List.isPrefixOf, List.isPrefixOf, beq_false_of_ne hbackslash,
            beq_false_of_ne hac]
          rfl
        · rw [if_neg hslash]
          simp only [List.isPrefixOf, hrest]
      · obtain ⟨last, hlast⟩ := hc.replaceAfter_cons previous s
        have hac : a ≠ c := by
          rintro rfl
          simp only [List.mem_cons, List.not_mem_nil, or_false] at ha
          rcases ha with rfl | rfl | rfl
          · exact hc.ne.2.2.2.1 rfl
          · exact hc.ne.2.1 rfl
          · exact hc.ne.2.2.2.2 rfl
        rw [hlast, hc.text, List.cons_append, List.isPrefixOf, List.isPrefixOf,
          beq_false_of_ne hbackslash, beq_false_of_ne hac]
        rfl

theorem Escaped.not_isAlpha {c : Char} (hc : Escaped c) : ¬c.isAlpha = true := by
  rw [hc.name.1]
  exact Bool.false_ne_true

theorem takeWhile_spelled (previous : Char) (s : List Char) :
    (replaceAfter previous (escape s)).takeWhile Char.isAlpha = s.takeWhile Char.isAlpha := by
  induction s generalizing previous with
  | nil => rfl
  | cons c s ih =>
    rcases plain_or_escaped c with hc | hc
    · rw [hc.escape_cons, replaceAfter]
      by_cases hslash : previous = '<' ∧ c = '/'
      · rw [if_pos hslash, hslash.2]
        rfl
      · rw [if_neg hslash, List.takeWhile_cons, List.takeWhile_cons, ih]
    · obtain ⟨last, hlast⟩ := hc.replaceAfter_cons previous s
      rw [hlast, hc.text, List.takeWhile_cons_of_neg hc.not_isAlpha]
      rfl

theorem Plain.isDelimiter_eq {c : Char} (hc : Plain c) : isDelimiter c = endsName c := by
  have hvisible := hc.visible
  refine decide_eq_decide.2 ⟨fun h ↦ ?_, fun h ↦ ?_⟩
  · simp only [List.mem_cons, List.not_mem_nil, or_false] at h
    rcases h with rfl | rfl | rfl | rfl | rfl | rfl
    · exact absurd hvisible (by decide)
    · exact absurd hvisible (by decide)
    · exact absurd hvisible (by decide)
    · decide
    · decide
    · decide
  · exact List.mem_cons_of_mem _ (List.mem_cons_of_mem _ (List.mem_cons_of_mem _ h))

theorem dropWhile_spelled {previous : Char} (hlt : previous ≠ '<') (s : List Char) :
    ((replaceAfter previous (escape s)).dropWhile Char.isAlpha).head?.any isDelimiter =
      (s.dropWhile Char.isAlpha).head?.any endsName := by
  induction s generalizing previous with
  | nil => rfl
  | cons c s ih =>
    rcases plain_or_escaped c with hc | hc
    · rw [hc.escape_cons, replaceAfter, if_neg (fun h ↦ hlt h.1)]
      by_cases hletter : c.isAlpha = true
      · rw [List.dropWhile_cons_of_pos hletter, List.dropWhile_cons_of_pos hletter,
          ih (ne_of_isAlpha hletter).1]
      · rw [List.dropWhile_cons_of_neg hletter, List.dropWhile_cons_of_neg hletter, List.head?_cons,
          List.head?_cons, Option.any_some, Option.any_some, hc.isDelimiter_eq]
    · obtain ⟨last, hlast⟩ := hc.replaceAfter_cons previous s
      rw [hlast, hc.text, List.dropWhile_cons_of_neg hc.not_isAlpha, List.head?_cons,
        Option.any_some, hc.name.2]
      rfl

theorem opensScript_spelled (s : List Char) :
    opensScript isDelimiter (replaceAfter '<' (escape s)) = opensScript endsName s := by
  rw [opensScript, opensScript, takeWhile_spelled]
  cases s with
  | nil => rfl
  | cons c s =>
    by_cases hletter : c.isAlpha = true
    · have hc : Plain c := (plain_or_escaped c).resolve_right fun hc ↦ hc.not_isAlpha hletter
      have hne := ne_of_isAlpha hletter
      have hslash : c ≠ '/' := by
        rintro rfl
        exact absurd hletter (by decide)
      rw [hc.escape_cons, replaceAfter, if_neg (fun h ↦ hslash h.2),
        List.dropWhile_cons_of_pos hletter, List.dropWhile_cons_of_pos hletter,
        dropWhile_spelled hne.1]
    · rw [List.takeWhile_cons_of_neg hletter]
      refine decide_eq_decide.2 ⟨fun h ↦ absurd h.1 (by decide), fun h ↦ absurd h.1 (by decide)⟩

/-- The scanner reads the spelling of a string as it reads the string. -/
theorem scan_spelled (mode : Mode) (previous : Char) (s : List Char) :
    scan isDelimiter mode (replaceAfter previous (escape s)) = scan endsName mode s := by
  induction s generalizing mode previous with
  | nil => rfl
  | cons c s ih =>
    rcases plain_or_escaped c with hc | hc
    · have hcons : scan isDelimiter mode (c :: replaceAfter c (escape s)) =
          scan endsName mode (c :: s) := by
        cases mode with
        | plain => rw [scan, scan, isPrefixOf_spelled (by simp), ih, ih]
        | comment =>
          rw [scan, scan, isPrefixOf_spelled (by simp), ih, ih, ih]
          by_cases hlt : c = '<'
          · subst hlt
            rw [opensScript_spelled]
          · rw [if_neg (fun h : c = '<' ∧ _ ↦ hlt h.1), if_neg (fun h : c = '<' ∧ _ ↦ hlt h.1)]
        | script => rw [scan, scan, isPrefixOf_spelled (by simp), ih, ih]
      rw [hc.escape_cons, replaceAfter]
      by_cases hslash : previous = '<' ∧ c = '/'
      · rw [if_pos hslash, scan_skip (by decide) (by decide)]
        rw [hslash.2] at hcons ⊢
        exact hcons
      · rw [if_neg hslash]
        exact hcons
    · obtain ⟨last, hlast⟩ := hc.replaceAfter_cons previous s
      rw [hlast, scan_skip_append, ih, scan_skip hc.ne.1 hc.ne.2.1]
      intro d hd
      rw [hc.text] at hd
      rcases List.mem_cons.1 hd with rfl | hd
      · exact ⟨by decide, by decide⟩
      · exact ⟨(hc.tail d hd).1, (hc.tail d hd).2.1⟩

/-- The spelling of a string in the seed. -/
def spell (s : List Char) : List Char := replaceEndTags (escape s)

theorem replaceAfter_space (s : List Char) : replaceAfter ' ' (escape s) = spell s :=
  replaceAfter_of_ne (by decide) _

theorem parseString_spell (s t : List Char) :
    parseString (spell s ++ '"' :: t) = some (s, t) := by
  rw [← replaceAfter_space]
  exact parseString_spelled ' ' s t

theorem scan_spell (mode : Mode) (s : List Char) :
    scan isDelimiter mode (spell s) = scan endsName mode s := by
  rw [← replaceAfter_space]
  exact scan_spelled mode ' ' s

theorem replaceEndTags_cons {c : Char} (h : c ≠ '<') (t : List Char) :
    replaceEndTags (c :: t) = c :: replaceEndTags t := by
  rw [replaceEndTags]
  exact fun _ hlt ↦ absurd hlt h

theorem replaceEndTags_append {w : List Char} (hw : ∀ c ∈ w, c ≠ '<') (t : List Char) :
    replaceEndTags (w ++ t) = w ++ replaceEndTags t := by
  induction w with
  | nil => rfl
  | cons c w ih =>
    rw [List.cons_append, replaceEndTags_cons (hw c List.mem_cons_self),
      ih fun d hd ↦ hw d (List.mem_cons_of_mem _ hd)]
    rfl

theorem replaceEndTags_quote (u t : List Char) :
    replaceEndTags (u ++ '"' :: t) = replaceEndTags u ++ '"' :: replaceEndTags t := by
  induction u using replaceEndTags.induct with
  | case1 u ih =>
    rw [List.cons_append, List.cons_append, replaceEndTags, ih, replaceEndTags]
    rfl
  | case2 c u hno ih =>
    have hno' : ∀ w, c = '<' → u ++ '"' :: t = '/' :: w → False := by
      intro w hlt hw
      cases u with
      | nil => exact absurd (List.cons.inj hw).1 (by decide)
      | cons d u =>
        obtain ⟨rfl, -⟩ := List.cons.inj hw
        exact hno u hlt rfl
    rw [List.cons_append, replaceEndTags, ih, replaceEndTags]
    · rfl
    · exact hno
    · exact hno'
  | case3 => exact replaceEndTags_cons (by decide) t

theorem intText_digits (n : ℤ) : ∃ digits : List Char, digits ≠ [] ∧
    (∀ c ∈ digits, c.isDigit = true) ∧ (intText n = digits ∨ intText n = '-' :: digits) := by
  have hdigits : ∀ m c, c ∈ Nat.toDigits 10 m → c.isDigit = true :=
    fun m c hc ↦ Nat.isDigit_of_mem_toDigits (by decide) (by decide) hc
  cases n with
  | ofNat m => exact ⟨_, Nat.toDigits_ne_nil, hdigits m, .inl rfl⟩
  | negSucc m => exact ⟨_, Nat.toDigits_ne_nil, hdigits (m + 1), .inr rfl⟩

theorem ne_of_isDigit {c : Char} (h : c.isDigit = true) : c ≠ '<' ∧ c ≠ '-' := by
  constructor
  · rintro rfl
    exact absurd h (by decide)
  · rintro rfl
    exact absurd h (by decide)

theorem replaceEndTags_intText (n : ℤ) (t : List Char) :
    replaceEndTags (intText n ++ t) = intText n ++ replaceEndTags t := by
  obtain ⟨digits, -, hdigits, htext | htext⟩ := intText_digits n
  · exact replaceEndTags_append (fun c hc ↦ (ne_of_isDigit (hdigits c (htext ▸ hc))).1) t
  · rw [htext, List.cons_append, replaceEndTags_cons (by decide),
      replaceEndTags_append fun c hc ↦ (ne_of_isDigit (hdigits c hc)).1]
    rfl

mutual

/-- The replacement respells the strings of a text, and nothing else. -/
theorem replaceEndTags_print : ∀ (v : Value) (t : List Char),
    replaceEndTags (print escape v ++ t) = print spell v ++ replaceEndTags t
  | .null, t => replaceEndTags_append (by simp [print]) t
  | .bool true, t => replaceEndTags_append (by simp [print]) t
  | .bool false, t => replaceEndTags_append (by simp [print]) t
  | .num n, t => replaceEndTags_intText n t
  | .str s, t => by
    simp only [print, List.cons_append, List.append_assoc, List.nil_append]
    rw [replaceEndTags_cons (by decide), replaceEndTags_quote]
    rfl
  | .arr [], t => replaceEndTags_append (w := ['[', ']']) (by simp) t
  | .arr (v :: elements), t => by
    simp only [print, List.cons_append, List.append_assoc]
    rw [replaceEndTags_cons (by decide), replaceEndTags_print v, replaceEndTags_elements elements]
  | .obj [], t => replaceEndTags_append (w := ['{', '}']) (by simp) t
  | .obj ((key, v) :: fields), t => by
    simp only [print, List.cons_append, List.append_assoc]
    rw [replaceEndTags_cons (by decide), replaceEndTags_cons (by decide), replaceEndTags_quote,
      replaceEndTags_cons (by decide), replaceEndTags_print v, replaceEndTags_fields fields]
    rfl

theorem replaceEndTags_elements : ∀ (elements : List Value) (t : List Char),
    replaceEndTags (printElements escape elements ++ t) =
      printElements spell elements ++ replaceEndTags t
  | [], t => replaceEndTags_append (w := [']']) (by simp) t
  | v :: elements, t => by
    simp only [printElements, List.cons_append, List.append_assoc]
    rw [replaceEndTags_cons (by decide), replaceEndTags_print v, replaceEndTags_elements elements]

theorem replaceEndTags_fields : ∀ (fields : List (String × Value)) (t : List Char),
    replaceEndTags (printFields escape fields ++ t) =
      printFields spell fields ++ replaceEndTags t
  | [], t => replaceEndTags_append (w := ['}']) (by simp) t
  | (key, v) :: fields, t => by
    simp only [printFields, List.cons_append, List.append_assoc]
    rw [replaceEndTags_cons (by decide), replaceEndTags_cons (by decide), replaceEndTags_quote,
      replaceEndTags_cons (by decide), replaceEndTags_print v, replaceEndTags_fields fields]
    rfl

end

theorem blob_eq (presentation : PublicPresentation T) :
    blob presentation = print spell presentation.toJson := by
  have h := replaceEndTags_print presentation.toJson []
  rw [List.append_nil] at h
  rw [blob, toString, h]
  exact List.append_nil _

end Escaping

section Reading

variable {mode : Mode}

theorem quote_separates : Separates isDelimiter '"' := ⟨by decide, by decide, by decide⟩

/-- The scanner reads a quoted text as it reads the string. -/
theorem scan_quoted (s t : List Char) :
    scan isDelimiter mode ('"' :: (spell s ++ '"' :: t)) =
      scan isDelimiter (scan endsName mode s) t := by
  rw [scan_skip (by decide) (by decide), scan_separated quote_separates, scan_spell]

theorem scan_intText (n : ℤ) (t : List Char) :
    scan isDelimiter mode (intText n ++ t) = scan isDelimiter mode t := by
  obtain ⟨digits, hne, hdigits, htext | htext⟩ := intText_digits n
  · exact scan_skip_append (fun c hc ↦ ne_of_isDigit (hdigits c (htext ▸ hc))) t
  · have hskip : scan isDelimiter mode (digits ++ t) = scan isDelimiter mode t :=
      scan_skip_append (fun c hc ↦ ne_of_isDigit (hdigits c hc)) t
    rw [htext, List.cons_append, ← hskip]
    cases digits with
    | nil => exact absurd rfl hne
    | cons d digits =>
      have hd := ne_of_isDigit (hdigits d List.mem_cons_self)
      cases mode <;> simp [scan, Ne.symm hd.2]

theorem readTexts_append (texts more : List (List Char)) :
    readTexts mode (texts ++ more) = readTexts (readTexts mode texts) more := List.foldl_append

mutual

/-- Of the text of a value the scanner reads the keys and strings alone. -/
theorem scan_print : ∀ (v : Value) (mode : Mode) (t : List Char),
    scan isDelimiter mode (print spell v ++ t) = scan isDelimiter (readTexts mode (strings v)) t
  | .null, _, t => scan_skip_append (by simp [print]) t
  | .bool true, _, t => scan_skip_append (by simp [print]) t
  | .bool false, _, t => scan_skip_append (by simp [print]) t
  | .num n, _, t => scan_intText n t
  | .str s, mode, t => by
    simp only [print, List.cons_append, List.append_assoc, List.nil_append]
    exact scan_quoted s.toList t
  | .arr [], _, t => scan_skip_append (w := ['[', ']']) (by simp) t
  | .arr (v :: elements), mode, t => by
    simp only [print, List.cons_append, List.append_assoc]
    rw [scan_skip (by decide) (by decide), scan_print v, scan_elements elements, ← readTexts_append]
    rfl
  | .obj [], _, t => scan_skip_append (w := ['{', '}']) (by simp) t
  | .obj ((key, v) :: fields), mode, t => by
    simp only [print, List.cons_append, List.append_assoc]
    rw [scan_skip (by decide) (by decide), scan_quoted, scan_skip (by decide) (by decide),
      scan_print v, scan_fields fields, ← readTexts_append]
    rfl

theorem scan_elements : ∀ (elements : List Value) (mode : Mode) (t : List Char),
    scan isDelimiter mode (printElements spell elements ++ t) =
      scan isDelimiter (readTexts mode (elementStrings elements)) t
  | [], _, t => scan_skip_append (w := [']']) (by simp) t
  | v :: elements, mode, t => by
    simp only [printElements, List.cons_append, List.append_assoc]
    rw [scan_skip (by decide) (by decide), scan_print v, scan_elements elements, ← readTexts_append]
    rfl

theorem scan_fields : ∀ (fields : List (String × Value)) (mode : Mode) (t : List Char),
    scan isDelimiter mode (printFields spell fields ++ t) =
      scan isDelimiter (readTexts mode (fieldStrings fields)) t
  | [], _, t => scan_skip_append (w := ['}']) (by simp) t
  | (key, v) :: fields, mode, t => by
    simp only [printFields, List.cons_append, List.append_assoc]
    rw [scan_skip (by decide) (by decide), scan_quoted, scan_skip (by decide) (by decide),
      scan_print v, scan_fields fields, ← readTexts_append]
    rfl

end

theorem scan_blob (presentation : PublicPresentation T) :
    scan isDelimiter .plain (blob presentation) =
      readTexts .plain (strings presentation.toJson) := by
  have h := scan_print presentation.toJson .plain []
  rw [List.append_nil] at h
  rw [blob_eq, h]
  cases readTexts .plain (strings presentation.toJson) <;> rfl

/-- A text that leaves every reader where it was. -/
def Idle (s : String) : Prop := ∀ mode, scan endsName mode s.toList = mode

theorem Idle.readTexts {s : String} (h : Idle s) (texts : List (List Char)) :
    readTexts mode (s.toList :: texts) = readTexts mode texts := by
  rw [Document.readTexts, List.foldl_cons, h]
  rfl

instance (s : String) : Decidable (Idle s) :=
  decidable_of_iff (∀ mode ∈ [Mode.plain, .comment, .script], scan endsName mode s.toList = mode)
    ⟨fun h mode ↦ h mode (by cases mode <;> simp), fun h mode _ ↦ h mode⟩

/-- The texts of a value are the given ones, but for idle ones. -/
def Reads (v : Value) (texts : List String) : Prop :=
  ∀ mode, readTexts mode (strings v) = readTexts mode (texts.map String.toList)

def ReadsFields (fields : List (String × Value)) (texts : List String) : Prop :=
  ∀ mode, readTexts mode (fieldStrings fields) = readTexts mode (texts.map String.toList)

variable {key : String} {v : Value} {fields : List (String × Value)} {texts more : List String}

theorem Reads.idle {s : String} (h : Idle s) : Reads (.str s) [] := fun _ ↦ h.readTexts []

theorem Reads.str (s : String) : Reads (.str s) [s] := fun _ ↦ rfl

theorem Reads.option {type : TextType} (o : Option (Str T type)) :
    Reads (optionToJson Str.toJson o) (optionTexts o) := by
  cases o with
  | none => exact fun _ ↦ rfl
  | some s => exact Reads.str s.value

theorem Reads.num (n : ℤ) : Reads (.num n) [] := fun _ ↦ rfl

theorem Reads.bool (b : Bool) : Reads (.bool b) [] := fun _ ↦ rfl

theorem Reads.of_eq (h : Reads v texts) (htexts : texts = more) : Reads v more := htexts ▸ h

theorem ReadsFields.nil : ReadsFields [] [] := fun _ ↦ rfl

theorem ReadsFields.cons (hkey : Idle key) (hv : Reads v texts) (hfields : ReadsFields fields more) :
    ReadsFields ((key, v) :: fields) (texts ++ more) := by
  intro mode
  rw [fieldStrings, hkey.readTexts, readTexts_append, hv, hfields, List.map_append,
    readTexts_append]

theorem Reads.arr {α : Type} {toJson : α → Value} {texts : α → List String}
    (h : ∀ a, Reads (toJson a) (texts a)) (l : List α) :
    Reads (.arr (l.map toJson)) (l.flatMap texts) := by
  intro mode
  change readTexts mode (elementStrings (l.map toJson)) = _
  induction l generalizing mode with
  | nil => rfl
  | cons a l ih =>
    rw [List.map_cons, elementStrings, readTexts_append, h, ih, List.flatMap_cons, List.map_append,
      readTexts_append]

theorem reads_renderedPost (p : RenderedPost T) : Reads p.toJson p.texts := by
  have hlicense : Reads (optionToJson (fun l ↦ .str l.token) p.contentLicense) [] := by
    cases p.contentLicense with
    | none => exact fun _ ↦ rfl
    | some l =>
      refine Reads.idle ?_
      cases l <;> decide
  have htitle : Reads (optionToJson .str p.renderedTitle) p.renderedTitle.toList := by
    cases p.renderedTitle with
    | none => exact fun _ ↦ rfl
    | some t => exact Reads.str t
  have htag : ∀ t : TagSummary T, Reads t.toJson [t.slug.value, t.display.value] := fun t ↦
    ReadsFields.cons (by decide) (.str _) (.cons (by decide) (.str _) .nil)
  refine Reads.of_eq (ReadsFields.cons (by decide) (.num _) (.cons (by decide)
    (.str _) (.cons (by decide) (.option _) (.cons (by decide) hlicense
    (.cons (by decide) htitle (.cons (by decide) (.option _) (.cons
    (by decide) (.str _) (.cons (by decide) (.str _) (.cons (by decide)
    (.str _) (.cons (by decide) (.option _) (.cons (by decide) (.option _)
    (.cons (by decide) (.bool _) (.cons (by decide) (.arr htag p.tags)
    .nil))))))))))))) ?_
  simp [RenderedPost.texts]

theorem reads_order (order : TimelineOrder) : Reads (.str order.token) [] := by
  refine Reads.idle ?_
  cases order <;> decide

theorem reads_page (p : Page T) : Reads p.toJson p.texts := by
  have hcursor : Reads (optionToJson TimelineCursor.toJson p.nextCursor)
      (p.nextCursor.toList.map (fun c ↦ c.publishedAt.value)) := by
    cases p.nextCursor with
    | none => exact fun _ ↦ rfl
    | some c =>
      exact ReadsFields.cons (by decide) (.str _) (.cons (by decide) (.num _)
        (.cons (by decide) (reads_order c.order) .nil))
  refine Reads.of_eq (ReadsFields.cons (by decide) (.arr reads_renderedPost p.posts)
    (.cons (by decide) hcursor (.cons (by decide) (.bool _) .nil))) ?_
  simp [Page.texts]

theorem reads_authoredPost (p : AuthoredPost T) : Reads p.toJson p.texts := by
  have hformat : Reads (.str (formatToken p.format)) [] := by
    refine Reads.idle ?_
    cases p.format <;> decide
  refine Reads.of_eq (ReadsFields.cons (by decide) (reads_renderedPost p.post)
    (.cons (by decide) (.option _) (.cons (by decide) (.str _)
    (.cons (by decide) hformat (.cons (by decide) (.option _) .nil))))) ?_
  simp [AuthoredPost.texts]

theorem reads_siteIdentity (i : SiteIdentity T) : Reads i.toJson i.texts := by
  obtain ⟨title, tagline, baseUrl⟩ := i
  cases tagline with
  | none =>
    refine Reads.of_eq (ReadsFields.cons (by decide) (.str _) (.cons (by decide)
      (.option baseUrl) .nil)) ?_
    simp [SiteIdentity.texts, optionTexts]
  | some tagline =>
    refine Reads.of_eq (ReadsFields.cons (by decide) (.str _) (.cons (by decide)
      (.str tagline.value) (.cons (by decide) (.option baseUrl) .nil))) ?_
    simp [SiteIdentity.texts, optionTexts]

theorem reads_variant {variant : String} (h : Idle variant) (hv : Reads v texts) :
    Reads (.obj [(variant, v)]) texts :=
  Reads.of_eq (ReadsFields.cons h hv .nil) (List.append_nil texts)

theorem reads_feedSurface (f : FeedSurface T) : Reads f.toJson f.texts := by
  cases f with
  | site => exact Reads.idle (by decide)
  | siteTag tag =>
    exact reads_variant (by decide) (ReadsFields.cons (by decide) (.str _) .nil)
  | user username =>
    exact reads_variant (by decide) (ReadsFields.cons (by decide) (.str _) .nil)
  | userTag username tag =>
    exact reads_variant (by decide) (ReadsFields.cons (by decide) (.str _)
      (.cons (by decide) (.str _) .nil))

theorem reads_pageSeed (p : PageSeed T) : Reads p.toJson p.texts := by
  cases p with
  | siteTimeline identity registrationPolicy order page =>
    have hpolicy : Reads (.str registrationPolicy.token) [] := by
      refine Reads.idle ?_
      cases registrationPolicy <;> decide
    refine reads_variant (by decide) (Reads.of_eq (ReadsFields.cons (by decide)
      (reads_siteIdentity identity) (.cons (by decide) hpolicy (.cons (by decide)
      (reads_order order) (.cons (by decide) (reads_page page) .nil)))) ?_)
    simp [PageSeed.texts]
  | profile username order page =>
    refine reads_variant (by decide) (Reads.of_eq (ReadsFields.cons (by decide)
      (.str _) (.cons (by decide) (reads_order order) (.cons (by decide)
      (reads_page page) .nil))) ?_)
    simp [PageSeed.texts]
  | siteTag tag order page =>
    refine reads_variant (by decide) (Reads.of_eq (ReadsFields.cons (by decide)
      (.str _) (.cons (by decide) (reads_order order) (.cons (by decide)
      (reads_page page) .nil))) ?_)
    simp [PageSeed.texts]
  | userTag username tag order page =>
    refine reads_variant (by decide) (Reads.of_eq (ReadsFields.cons (by decide)
      (.str _) (.cons (by decide) (.str _) (.cons (by decide) (reads_order order)
      (.cons (by decide) (reads_page page) .nil)))) ?_)
    simp [PageSeed.texts]
  | permalink post => exact reads_variant (by decide) (reads_authoredPost post)
  | feedDiscovery surface => exact reads_variant (by decide) (reads_feedSurface surface)

theorem reads_theme (t : PublishedThemePresentation T) : Reads t.toJson t.texts := by
  have hidentity : Reads t.identity.toJson [] := by
    cases t.identity with
    | builtIn theme =>
      have htheme : Reads (.str theme.token) [] := by
        refine Reads.idle ?_
        cases theme <;> decide
      exact ReadsFields.cons (by decide) (.idle (by decide))
        (.cons (by decide) htheme .nil)
    | custom id =>
      exact ReadsFields.cons (by decide) (.idle (by decide))
        (.cons (by decide) (.num _) .nil)
  refine Reads.of_eq (ReadsFields.cons (by decide) hidentity (.cons (by decide)
    (.option _) (.cons (by decide) (.str _) (.cons (by decide) (.option _)
    (.cons (by decide) (.option _) .nil))))) ?_
  simp [PublishedThemePresentation.texts]

theorem reads_presentation (p : PublicPresentation T) : Reads p.toJson p.texts :=
  Reads.of_eq (ReadsFields.cons (by decide) (reads_theme p.theme)
    (.cons (by decide) (reads_pageSeed p.page) .nil)) (by simp [PublicPresentation.texts])

end Reading

/-- The text content of the element whose end tag leaves the rest of its input. -/
def textContent (input rest : List Char) : List Char :=
  input.take (input.length - rest.length - endTag.length)

/-- The seed ends at the end tag of the template, and its text is the presentation. -/
structure Isolated (shell : Shell) (presentation : PublicPresentation T) : Prop where
  ends : run .data ((documentWithUrls shell presentation).drop (beforeSeed shell).length) =
    some ('>' :: afterSeed shell)
  reads : (parse (textContent ((documentWithUrls shell presentation).drop (beforeSeed shell).length)
    ('>' :: afterSeed shell))).bind (PublicPresentation.fromJson T) = some presentation

theorem drop_beforeSeed (shell : Shell) (presentation : PublicPresentation T) :
    (documentWithUrls shell presentation).drop (beforeSeed shell).length =
      blob presentation ++ (endTag ++ '>' :: afterSeed shell) := List.drop_left

theorem textContent_blob (shell : Shell) (presentation : PublicPresentation T) :
    textContent (blob presentation ++ (endTag ++ '>' :: afterSeed shell)) ('>' :: afterSeed shell) =
      blob presentation := by
  rw [textContent, List.length_append, List.length_append]
  have hlength : (blob presentation).length +
      (endTag.length + ('>' :: afterSeed shell).length) - ('>' :: afterSeed shell).length -
        endTag.length = (blob presentation).length := by omega
  rw [hlength, List.take_left]

theorem parse_blob (presentation : PublicPresentation T) :
    (parse (blob presentation)).bind (PublicPresentation.fromJson T) = some presentation := by
  rw [blob_eq, parse_print parseString_spell]
  exact presentation.fromJson_toJson

theorem seed_isolated_iff (T : TextTypes) (shell : Shell) (presentation : PublicPresentation T) :
    Isolated shell presentation ↔
      readTexts .plain (presentation.texts.map String.toList) ≠ .script := by
  have hends := ends_at_tag_iff (noEndTag_replaceEndTags (toString presentation.toJson))
    (afterSeed shell)
  have hscan := scan_blob presentation
  rw [blob] at hscan
  rw [hscan, reads_presentation presentation] at hends
  constructor
  · intro h
    have hrun := h.ends
    rw [drop_beforeSeed] at hrun
    exact hends.1 hrun
  · intro h
    refine ⟨?_, ?_⟩
    · rw [drop_beforeSeed]
      exact hends.2 h
    · rw [drop_beforeSeed, textContent_blob]
      exact parse_blob presentation

section Samples

def acceptAll : TextTypes where
  fromStr _ s := some s
  accepted _ := rfl

def text {type : TextType} (s : String) : Str acceptAll type := ⟨s, rfl⟩

/-- The page of a post with the summary. -/
def permalinkPage (summary : String) : PublicPresentation acceptAll where
  theme := {
    identity := .builtIn .terminal
    revision := none
    stylesheetUrl := text "/style/jaunder-themes.css"
    logoUrl := none
    headerUrl := none }
  page := .permalink {
    post := {
      postId := 1
      username := text "alice"
      displayName := none
      contentLicense := none
      renderedTitle := none
      summary := some (text summary)
      slug := text "hello"
      renderedHtml := "<p>Hello</p>"
      createdAt := text "2026-01-01T00:00:00Z"
      publishedAt := some (text "2026-01-01T00:00:00Z")
      permalink := some (text "/~alice/2026/01/01/hello")
      isAuthor := false
      tags := [] }
    title := none
    body := text "Hello"
    format := .markdown
    permalinkDescription := none }

def bootShell : Shell where
  prepaint := []
  head := []
  body := "<p>Hello</p>".toList
  boot := "<script type=\"module\" src=\"/assets/index.js\"></script>".toList

/-- Its summary keeps the tokenizer inside the seed to the end of the document. -/
theorem commented_script_not_isolated :
    Common.PostText.postSummary "<!--<script>".toList = some "<!--<script>".toList ∧
      ¬Isolated bootShell (permalinkPage "<!--<script>") := by
  refine ⟨by decide +kernel, ?_⟩
  intro h
  have hends := h.ends
  rw [drop_beforeSeed] at hends
  have hrun : run .data (blob (permalinkPage "<!--<script>") ++
      (endTag ++ '>' :: afterSeed bootShell)) = none := by decide +kernel
  rw [hrun] at hends
  cases hends

end Samples

end Jaunder.Server.Document
