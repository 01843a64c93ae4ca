import Mathlib.Data.List.Infix
import Mathlib.Tactic

namespace Foundation.ScriptData

/-- The states in which an HTML tokenizer reads the content of a script element. -/
inductive State
  | data
  | lessThan
  | endTagOpen
  | endTagName (name : List Char)
  | escapeStart
  | escapeStartDash
  | escaped
  | escapedDash
  | escapedDashDash
  | escapedLessThan
  | escapedEndTagOpen
  | escapedEndTagName (name : List Char)
  | doubleEscapeStart (buffer : List Char)
  | doubleEscaped
  | doubleEscapedDash
  | doubleEscapedDashDash
  | doubleEscapedLessThan
  | doubleEscapeEnd (buffer : List Char)
deriving DecidableEq

def script : List Char := ['s', 'c', 'r', 'i', 'p', 't']

/-- What ends a tag name. -/
def isDelimiter (c : Char) : Bool :=
  c ∈ ['\t', '\n', Char.ofNat 0x0C, ' ', '/', '>']

def inData (c : Char) : State := if c = '<' then .lessThan else .data

def inEscaped (c : Char) : State :=
  if c = '-' then .escapedDash else if c = '<' then .escapedLessThan else .escaped

def inDoubleEscaped (c : Char) : State :=
  if c = '-' then .doubleEscapedDash else if c = '<' then .doubleEscapedLessThan
  else .doubleEscaped

def inDoubleEscapeStart (buffer : List Char) (c : Char) : State :=
  if isDelimiter c then if buffer = script then .doubleEscaped else .escaped
  else if c.isAlpha then .doubleEscapeStart (buffer ++ [c.toLower])
  else inEscaped c

/-- What consumes a character; `none` is the end of the name in the element's own end tag. -/
def step : State → Char → Option State
  | .data, c => some (inData c)
  | .lessThan, c =>
    some (if c = '/' then .endTagOpen else if c = '!' then .escapeStart else inData c)
  | .endTagOpen, c => some (if c.isAlpha then .endTagName [c.toLower] else inData c)
  | .endTagName name, c =>
    if isDelimiter c ∧ name = script then none
    else some (if c.isAlpha then .endTagName (name ++ [c.toLower]) else inData c)
  | .escapeStart, c => some (if c = '-' then .escapeStartDash else inData c)
  | .escapeStartDash, c => some (if c = '-' then .escapedDashDash else inData c)
  | .escaped, c => some (inEscaped c)
  | .escapedDash, c => some (if c = '-' then .escapedDashDash else inEscaped c)
  | .escapedDashDash, c =>
    some (if c = '-' then .escapedDashDash else if c = '>' then .data else inEscaped c)
  | .escapedLessThan, c =>
    some (if c = '/' then .escapedEndTagOpen
      else if c.isAlpha then inDoubleEscapeStart [] c else inEscaped c)
  | .escapedEndTagOpen, c => some (if c.isAlpha then .escapedEndTagName [c.toLower] else inEscaped c)
  | .escapedEndTagName name, c =>
    if isDelimiter c ∧ name = script then none
    else some (if c.isAlpha then .escapedEndTagName (name ++ [c.toLower]) else inEscaped c)
  | .doubleEscapeStart buffer, c => some (inDoubleEscapeStart buffer c)
  | .doubleEscaped, c => some (inDoubleEscaped c)
  | .doubleEscapedDash, c => some (if c = '-' then .doubleEscapedDashDash else inDoubleEscaped c)
  | .doubleEscapedDashDash, c =>
    some (if c = '-' then .doubleEscapedDashDash else if c = '>' then .data else inDoubleEscaped c)
  | .doubleEscapedLessThan, c =>
    some (if c = '/' then .doubleEscapeEnd [] else inDoubleEscaped c)
  | .doubleEscapeEnd buffer, c =>
    some (if isDelimiter c then if buffer = script then .escaped else .doubleEscaped
      else if c.isAlpha then .doubleEscapeEnd (buffer ++ [c.toLower]) else inDoubleEscaped c)

/-- The rest of the input from the delimiter behind the name in the element's end tag. -/
def run : State → List Char → Option (List Char)
  | _, [] => none
  | s, c :: t =>
    match step s c with
    | none => some (c :: t)
    | some s' => run s' t

/-- The state behind a text in which no end tag of the element is complete. -/
def advance : State → List Char → Option State
  | s, [] => some s
  | s, c :: t =>
    match step s c with
    | none => none
    | some s' => advance s' t

theorem run_append {s s' : State} {t : List Char} (h : advance s t = some s') (u : List Char) :
    run s (t ++ u) = run s' u := by
  induction t generalizing s with
  | nil =>
    obtain rfl := Option.some.inj h
    rfl
  | cons c t ih =>
    rw [advance] at h
    rw [List.cons_append, run]
    cases hstep : step s c with
    | none =>
      rw [hstep] at h
      cases h
    | some next =>
      rw [hstep] at h
      exact ih h

theorem run_length {s : State} {t rest : List Char} (h : run s t = some rest) :
    rest.length ≤ t.length := by
  induction t generalizing s with
  | nil => cases h
  | cons c t ih =>
    rw [run] at h
    cases hstep : step s c with
    | none =>
      rw [hstep] at h
      rw [← Option.some.inj h]
    | some next =>
      rw [hstep] at h
      exact (ih h).trans (List.sublist_cons_self c t).length_le

/-- Where a text leaves its reader: outside comments, inside one, or inside a script in one. -/
inductive Mode
  | plain
  | comment
  | script
deriving DecidableEq

/-- The text continues a less-than sign to the start tag of a script. -/
def opensScript (delimiter : Char → Bool) (t : List Char) : Bool :=
  (t.takeWhile Char.isAlpha).map Char.toLower = script ∧
    (t.dropWhile Char.isAlpha).head?.any delimiter

/-- A comment lasts from its opener to the next closer, and a script in it as long. -/
def scan (delimiter : Char → Bool) : Mode → List Char → Mode
  | mode, [] => mode
  | .plain, c :: t =>
    if c = '<' ∧ ['!', '-', '-'].isPrefixOf t then scan delimiter .comment t
    else scan delimiter .plain t
  | .comment, c :: t =>
    if c = '-' ∧ ['-', '>'].isPrefixOf t then scan delimiter .plain t
    else if c = '<' ∧ opensScript delimiter t then scan delimiter .script t
    else scan delimiter .comment t
  | .script, c :: t =>
    if c = '-' ∧ ['-', '>'].isPrefixOf t then scan delimiter .plain t
    else scan delimiter .script t

variable {delimiter : Char → Bool} {mode : Mode} {c : Char} {t : List Char}

/-- No opener and no closer begins at another character. -/
theorem scan_skip (hlt : c ≠ '<') (hdash : c ≠ '-') :
    scan delimiter mode (c :: t) = scan delimiter mode t := by
  cases mode <;> simp [scan, hlt, hdash]

theorem scan_plain_cons (h : c ≠ '<') : scan delimiter .plain (c :: t) = scan delimiter .plain t := by
  rw [scan, if_neg fun hc ↦ h hc.1]

/-- No end tag opens in the text. -/
def NoEndTag : List Char → Prop
  | [] => True
  | c :: t => ¬(c = '<' ∧ t.head? = some '/') ∧ NoEndTag t

/-- What a state knows of the text that it has read: its mode, and the text behind it that an opener
or a closer may still begin in. -/
def view : State → Option (Mode × List Char)
  | .data => some (.plain, [])
  | .lessThan => some (.plain, ['<'])
  | .escapeStart => some (.plain, ['<', '!'])
  | .escapeStartDash => some (.plain, ['<', '!', '-'])
  | .escaped => some (.comment, [])
  | .escapedDash => some (.comment, ['-'])
  | .escapedDashDash => some (.comment, ['-', '-'])
  | .escapedLessThan => some (.comment, ['<'])
  | .doubleEscapeStart buffer =>
    if buffer.all Char.isLower then some (.comment, '<' :: buffer) else none
  | .doubleEscaped => some (.script, [])
  | .doubleEscapedDash => some (.script, ['-'])
  | .doubleEscapedDashDash => some (.script, ['-', '-'])
  | .doubleEscapedLessThan => some (.script, ['<'])
  | _ => none

/-- The step of a state that reads a character with pending text follows the scanner. -/
def Follows (mode : Mode) (pending : List Char) (c : Char) (t : List Char) (s : State) : Prop :=
  ∃ mode' pending', view s = some (mode', pending') ∧
    scan isDelimiter mode (pending ++ c :: t) = scan isDelimiter mode' (pending' ++ t) ∧
    (NoEndTag (pending ++ c :: t) → NoEndTag (pending' ++ t))

theorem inData_follows (c : Char) (t : List Char) : Follows .plain [] c t (inData c) := by
  by_cases hlt : c = '<'
  · subst hlt
    exact ⟨.plain, ['<'], rfl, rfl, id⟩
  · refine ⟨.plain, [], by rw [inData, if_neg hlt]; rfl, scan_plain_cons hlt, fun h ↦ h.2⟩

theorem inEscaped_follows (c : Char) (t : List Char) : Follows .comment [] c t (inEscaped c) := by
  by_cases hdash : c = '-'
  · subst hdash
    exact ⟨.comment, ['-'], rfl, rfl, id⟩
  · by_cases hlt : c = '<'
    · subst hlt
      exact ⟨.comment, ['<'], rfl, rfl, id⟩
    · refine ⟨.comment, [], by rw [inEscaped, if_neg hdash, if_neg hlt]; rfl, ?_, fun h ↦ h.2⟩
      exact scan_skip hlt hdash

theorem inDoubleEscaped_follows (c : Char) (t : List Char) :
    Follows .script [] c t (inDoubleEscaped c) := by
  by_cases hdash : c = '-'
  · subst hdash
    exact ⟨.script, ['-'], rfl, rfl, id⟩
  · by_cases hlt : c = '<'
    · subst hlt
      exact ⟨.script, ['<'], rfl, rfl, id⟩
    · refine ⟨.script, [], by rw [inDoubleEscaped, if_neg hdash, if_neg hlt]; rfl, ?_, fun h ↦ h.2⟩
      exact scan_skip hlt hdash

/-- Pending text that turns out to begin nothing is dropped. -/
theorem Follows.drop {pending : List Char} {s : State} (h : Follows mode [] c t s)
    (hscan : scan isDelimiter mode (pending ++ c :: t) = scan isDelimiter mode (c :: t))
    (htag : NoEndTag (pending ++ c :: t) → NoEndTag (c :: t)) : Follows mode pending c t s := by
  obtain ⟨mode', pending', hview, hmode, hend⟩ := h
  exact ⟨mode', pending', hview, hscan.trans hmode, fun hp ↦ hend (htag hp)⟩

theorem NoEndTag.of_append {p u : List Char} (h : NoEndTag (p ++ u)) : NoEndTag u := by
  induction p with
  | nil => exact h
  | cons c p ih => exact ih h.2

theorem scan_skip_append {w : List Char} (hw : ∀ c ∈ w, c ≠ '<' ∧ c ≠ '-') (t : List Char) :
    scan delimiter mode (w ++ t) = scan delimiter mode t := by
  induction w with
  | nil => rfl
  | cons c w ih =>
    have hc := hw c List.mem_cons_self
    rw [List.cons_append, scan_skip hc.1 hc.2]
    exact ih fun d hd ↦ hw d (List.mem_cons_of_mem _ hd)

theorem isAlpha_of_isLower (h : c.isLower = true) : c.isAlpha = true := by
  unfold Char.isAlpha
  rw [h, Bool.or_true]

theorem ne_of_isAlpha (h : c.isAlpha = true) : c ≠ '<' ∧ c ≠ '-' := by
  constructor
  · rintro rfl
    exact absurd h (by decide)
  · rintro rfl
    exact absurd h (by decide)

theorem isAlpha_of_isDelimiter (h : isDelimiter c = true) : c.isAlpha = false := by
  have hmem : c ∈ ['\t', '\n', Char.ofNat 0x0C, ' ', '/', '>'] := of_decide_eq_true h
  have hall : ∀ c ∈ ['\t', '\n', Char.ofNat 0x0C, ' ', '/', '>'], c.isAlpha = false := by
    intro c hc
    simp only [List.mem_cons, List.not_mem_nil, or_false] at hc
    rcases hc with rfl | rfl | rfl | rfl | rfl | rfl <;> decide
  exact hall c hmem

theorem ne_of_isDelimiter (h : isDelimiter c = true) : c ≠ '<' ∧ c ≠ '-' := by
  constructor
  · rintro rfl
    exact absurd h (by decide)
  · rintro rfl
    exact absurd h (by decide)

theorem toNat_lt_of_isAlpha (h : c.isAlpha = true) : c.toNat < 128 := by
  unfold Char.isAlpha Char.isUpper Char.isLower at h
  simp only [Bool.or_eq_true, Bool.and_eq_true, decide_eq_true_eq, UInt32.le_iff_toNat_le, ge_iff_le] at h
  change (65 ≤ c.toNat ∧ c.toNat ≤ 90) ∨ (97 ≤ c.toNat ∧ c.toNat ≤ 122) at h
  omega

theorem isLower_toLower (h : c.isAlpha = true) : c.toLower.isLower = true := by
  have hall : ∀ n < 128, (Char.ofNat n).isAlpha = true → (Char.ofNat n).toLower.isLower = true := by
    decide +kernel
  have hc := hall c.toNat (toNat_lt_of_isAlpha h)
  rw [Char.ofNat_toNat] at hc
  exact hc h

theorem toLower_of_isLower (h : c.isLower = true) : c.toLower = c := by
  have hall : ∀ n < 128, (Char.ofNat n).isLower = true →
      (Char.ofNat n).toLower = Char.ofNat n := by decide +kernel
  have hc := hall c.toNat (toNat_lt_of_isAlpha (isAlpha_of_isLower h))
  rw [Char.ofNat_toNat] at hc
  exact hc h

theorem map_toLower {w : List Char} (h : w.all Char.isLower = true) : w.map Char.toLower = w := by
  rw [List.all_eq_true] at h
  exact (List.map_congr_left fun c hc ↦ toLower_of_isLower (h c hc)).trans (List.map_id' w)

/-- Letters in front are part of the name. -/
theorem opensScript_append {w : List Char} (hw : ∀ c ∈ w, c.isAlpha = true) :
    opensScript delimiter (w ++ t) = decide
      (w.map Char.toLower ++ (t.takeWhile Char.isAlpha).map Char.toLower = script ∧
        (t.dropWhile Char.isAlpha).head?.any delimiter = true) := by
  rw [opensScript, List.takeWhile_append_of_pos hw, List.dropWhile_append_of_pos hw,
    List.map_append]

theorem noEndTag_name {w : List Char} (hw : ∀ d ∈ w, d.isAlpha = true) (hne : w ≠ [])
    (h : NoEndTag t) : NoEndTag ('<' :: (w ++ t)) := by
  have hskip : NoEndTag (w ++ t) := by
    clear hne
    induction w with
    | nil => exact h
    | cons d w ih =>
      refine ⟨fun hd ↦ (ne_of_isAlpha (hw d List.mem_cons_self)).1 hd.1, ih fun e he ↦ ?_⟩
      exact hw e (List.mem_cons_of_mem _ he)
  refine ⟨fun hend ↦ ?_, hskip⟩
  cases w with
  | nil => exact hne rfl
  | cons d w =>
    obtain rfl : d = '/' := Option.some.inj hend.2
    exact absurd (hw '/' List.mem_cons_self) (by decide)

theorem scan_comment_lt : scan delimiter .comment ('<' :: t) =
    if opensScript delimiter t then scan delimiter .script t else scan delimiter .comment t := by
  simp [scan]

theorem inDoubleEscapeStart_follows {buffer : List Char} (hbuffer : buffer.all Char.isLower = true) :
    Follows .comment ('<' :: buffer) c t (inDoubleEscapeStart buffer c) := by
  have halpha : ∀ d ∈ buffer, d.isAlpha = true :=
    fun d hd ↦ isAlpha_of_isLower (List.all_eq_true.1 hbuffer d hd)
  have hskip : ∀ d ∈ buffer, d ≠ '<' ∧ d ≠ '-' := fun d hd ↦ ne_of_isAlpha (halpha d hd)
  have hopens := @opensScript_append isDelimiter (c :: t) _ halpha
  rw [map_toLower hbuffer] at hopens
  unfold inDoubleEscapeStart
  by_cases hdelimiter : isDelimiter c = true
  · have hc := ne_of_isDelimiter hdelimiter
    have hletter : ¬c.isAlpha = true := by simp [isAlpha_of_isDelimiter hdelimiter]
    rw [List.takeWhile_cons_of_neg hletter, List.dropWhile_cons_of_neg hletter, List.map_nil,
      List.append_nil] at hopens
    rw [if_pos hdelimiter]
    by_cases hscript : buffer = script
    · rw [if_pos hscript]
      refine ⟨.script, [], rfl, ?_, fun h ↦ (NoEndTag.of_append (p := '<' :: buffer) h).2⟩
      rw [List.cons_append, scan_comment_lt, hopens, if_pos (by simp [hscript, hdelimiter]),
        scan_skip_append hskip, scan_skip hc.1 hc.2]
      rfl
    · rw [if_neg hscript]
      refine ⟨.comment, [], rfl, ?_, fun h ↦ (NoEndTag.of_append (p := '<' :: buffer) h).2⟩
      rw [List.cons_append, scan_comment_lt, hopens, if_neg (by simp [hscript]),
        scan_skip_append hskip, scan_skip hc.1 hc.2]
      rfl
  · rw [if_neg hdelimiter]
    by_cases hletter : c.isAlpha = true
    · rw [if_pos hletter]
      have hc := ne_of_isAlpha hletter
      have hlower := isLower_toLower hletter
      have hl := ne_of_isAlpha (isAlpha_of_isLower hlower)
      have hopens' := @opensScript_append isDelimiter t (buffer ++ [c.toLower]) (by
        intro d hd
        rcases List.mem_append.1 hd with hd | hd
        · exact halpha d hd
        · obtain rfl := List.mem_singleton.1 hd
          exact isAlpha_of_isLower hlower)
      have hall : (buffer ++ [c.toLower]).all Char.isLower = true := by
        rw [List.all_append, hbuffer]
        simp [hlower]
      rw [map_toLower hall] at hopens'
      rw [List.takeWhile_cons_of_pos hletter, List.dropWhile_cons_of_pos hletter, List.map_cons]
        at hopens
      refine ⟨.comment, '<' :: (buffer ++ [c.toLower]), by rw [view, if_pos hall], ?_, ?_⟩
      · rw [List.cons_append, List.cons_append, scan_comment_lt, scan_comment_lt, hopens, hopens',
          List.append_assoc, List.append_assoc, List.singleton_append]
        have hrest : ∀ mode, scan isDelimiter mode (buffer ++ c :: t) =
            scan isDelimiter mode (buffer ++ c.toLower :: t) := by
          intro mode
          rw [scan_skip_append hskip, scan_skip_append hskip, scan_skip hc.1 hc.2,
            scan_skip hl.1 hl.2]
        rw [hrest, hrest]
        rfl
      · intro h
        exact noEndTag_name (fun d hd ↦ isAlpha_of_isLower (List.all_eq_true.1 hall d hd)) (by simp)
          (NoEndTag.of_append (p := '<' :: buffer) h).2
    · rw [if_neg hletter]
      rw [List.takeWhile_cons_of_neg hletter, List.dropWhile_cons_of_neg hletter, List.map_nil,
        List.append_nil] at hopens
      refine (inEscaped_follows c t).drop ?_ NoEndTag.of_append
      rw [List.cons_append, scan_comment_lt, hopens, if_neg (by simp [hdelimiter]),
        scan_skip_append hskip]

theorem step_follows {s : State} {pending : List Char} (hview : view s = some (mode, pending))
    (htag : NoEndTag (pending ++ c :: t)) :
    ∃ s', step s c = some s' ∧ Follows mode pending c t s' := by
  cases s with
  | data =>
    obtain ⟨rfl, rfl⟩ := Prod.ext_iff.1 (Option.some.inj hview)
    exact ⟨_, rfl, inData_follows c t⟩
  | lessThan =>
    obtain ⟨rfl, rfl⟩ := Prod.ext_iff.1 (Option.some.inj hview)
    refine ⟨_, rfl, ?_⟩
    have hslash : c ≠ '/' := fun h ↦ htag.1 ⟨rfl, congrArg some h⟩
    rw [if_neg hslash]
    by_cases hbang : c = '!'
    · subst hbang
      exact ⟨.plain, ['<', '!'], rfl, rfl, id⟩
    · rw [if_neg hbang]
      refine (inData_follows c t).drop ?_ NoEndTag.of_append
      simp [scan, Ne.symm hbang]
  | escapeStart =>
    obtain ⟨rfl, rfl⟩ := Prod.ext_iff.1 (Option.some.inj hview)
    refine ⟨_, rfl, ?_⟩
    by_cases hdash : c = '-'
    · subst hdash
      exact ⟨.plain, ['<', '!', '-'], rfl, rfl, id⟩
    · rw [if_neg hdash]
      refine (inData_follows c t).drop ?_ NoEndTag.of_append
      simp [scan, Ne.symm hdash]
  | escapeStartDash =>
    obtain ⟨rfl, rfl⟩ := Prod.ext_iff.1 (Option.some.inj hview)
    refine ⟨_, rfl, ?_⟩
    by_cases hdash : c = '-'
    · subst hdash
      refine ⟨.comment, ['-', '-'], rfl, ?_, fun h ↦ h.2.2⟩
      simp [scan]
    · rw [if_neg hdash]
      refine (inData_follows c t).drop ?_ NoEndTag.of_append
      simp [scan, Ne.symm hdash]
  | escaped =>
    obtain ⟨rfl, rfl⟩ := Prod.ext_iff.1 (Option.some.inj hview)
    exact ⟨_, rfl, inEscaped_follows c t⟩
  | escapedDash =>
    obtain ⟨rfl, rfl⟩ := Prod.ext_iff.1 (Option.some.inj hview)
    refine ⟨_, rfl, ?_⟩
    by_cases hdash : c = '-'
    · subst hdash
      exact ⟨.comment, ['-', '-'], rfl, rfl, id⟩
    · rw [if_neg hdash]
      refine (inEscaped_follows c t).drop ?_ NoEndTag.of_append
      simp [scan, Ne.symm hdash]
  | escapedDashDash =>
    obtain ⟨rfl, rfl⟩ := Prod.ext_iff.1 (Option.some.inj hview)
    refine ⟨_, rfl, ?_⟩
    by_cases hdash : c = '-'
    · subst hdash
      refine ⟨.comment, ['-', '-'], rfl, ?_, fun h ↦ h.2⟩
      simp [scan]
    · rw [if_neg hdash]
      by_cases hclose : c = '>'
      · subst hclose
        refine ⟨.plain, [], rfl, ?_, fun h ↦ h.2.2.2⟩
        simp [scan]
      · rw [if_neg hclose]
        refine (inEscaped_follows c t).drop ?_ NoEndTag.of_append
        simp [scan, Ne.symm hdash, Ne.symm hclose]
  | escapedLessThan =>
    obtain ⟨rfl, rfl⟩ := Prod.ext_iff.1 (Option.some.inj hview)
    refine ⟨_, rfl, ?_⟩
    have hslash : c ≠ '/' := fun h ↦ htag.1 ⟨rfl, congrArg some h⟩
    rw [if_neg hslash]
    by_cases hletter : c.isAlpha = true
    · rw [if_pos hletter]
      exact inDoubleEscapeStart_follows rfl
    · rw [if_neg hletter]
      refine (inEscaped_follows c t).drop ?_ NoEndTag.of_append
      have hopens : opensScript isDelimiter (c :: t) = false := by
        rw [opensScript, List.takeWhile_cons_of_neg hletter]
        exact decide_eq_false fun h ↦ absurd h.1 (by decide)
      rw [List.singleton_append, scan_comment_lt, hopens, if_neg Bool.false_ne_true]
  | doubleEscapeStart buffer =>
    rw [view] at hview
    split at hview
    · rename_i hbuffer
      obtain ⟨rfl, rfl⟩ := Prod.ext_iff.1 (Option.some.inj hview)
      exact ⟨_, rfl, inDoubleEscapeStart_follows hbuffer⟩
    · cases hview
  | doubleEscaped =>
    obtain ⟨rfl, rfl⟩ := Prod.ext_iff.1 (Option.some.inj hview)
    exact ⟨_, rfl, inDoubleEscaped_follows c t⟩
  | doubleEscapedDash =>
    obtain ⟨rfl, rfl⟩ := Prod.ext_iff.1 (Option.some.inj hview)
    refine ⟨_, rfl, ?_⟩
    by_cases hdash : c = '-'
    · subst hdash
      exact ⟨.script, ['-', '-'], rfl, rfl, id⟩
    · rw [if_neg hdash]
      refine (inDoubleEscaped_follows c t).drop ?_ NoEndTag.of_append
      simp [scan, Ne.symm hdash]
  | doubleEscapedDashDash =>
    obtain ⟨rfl, rfl⟩ := Prod.ext_iff.1 (Option.some.inj hview)
    refine ⟨_, rfl, ?_⟩
    by_cases hdash : c = '-'
    · subst hdash
      refine ⟨.script, ['-', '-'], rfl, ?_, fun h ↦ h.2⟩
      simp [scan]
    · rw [if_neg hdash]
      by_cases hclose : c = '>'
      · subst hclose
        refine ⟨.plain, [], rfl, ?_, fun h ↦ h.2.2.2⟩
        simp [scan]
      · rw [if_neg hclose]
        refine (inDoubleEscaped_follows c t).drop ?_ NoEndTag.of_append
        simp [scan, Ne.symm hdash, Ne.symm hclose]
  | doubleEscapedLessThan =>
    obtain ⟨rfl, rfl⟩ := Prod.ext_iff.1 (Option.some.inj hview)
    refine ⟨_, rfl, ?_⟩
    have hslash : c ≠ '/' := fun h ↦ htag.1 ⟨rfl, congrArg some h⟩
    rw [if_neg hslash]
    refine (inDoubleEscaped_follows c t).drop ?_ NoEndTag.of_append
    simp [scan]
  | endTagOpen => cases hview
  | endTagName name => cases hview
  | escapedEndTagOpen => cases hview
  | escapedEndTagName name => cases hview
  | doubleEscapeEnd buffer => cases hview

/-- A character that belongs to no opener or closer separates texts. -/
structure Separates (delimiter : Char → Bool) (q : Char) : Prop where
  outside : q ∉ ['<', '!', '-', '>']
  letter : q.isAlpha = false
  delimiter : delimiter q = false

theorem Separates.ne {q : Char} (hq : Separates delimiter q) : q ≠ '<' ∧ q ≠ '-' := by
  have houtside := hq.outside
  simp only [List.mem_cons, List.not_mem_nil, or_false, not_or] at houtside
  exact ⟨houtside.1, houtside.2.2.1⟩

theorem isPrefixOf_append_separator {q : Char} (hq : Separates delimiter q) {p : List Char}
    (hp : ∀ d ∈ p, d ∈ ['<', '!', '-', '>']) (u t : List Char) :
    p.isPrefixOf (u ++ q :: t) = p.isPrefixOf u := by
  induction p generalizing u with
  | nil => simp
  | cons a p ih =>
    cases u with
    | nil =>
      have hne : a ≠ q := by
        rintro rfl
        exact hq.outside (hp a List.mem_cons_self)
      change (a == q && p.isPrefixOf t) = false
      rw [beq_false_of_ne hne]
      rfl
    | cons c u =>
      rw [List.cons_append, List.isPrefixOf, List.isPrefixOf,
        ih fun d hd ↦ hp d (List.mem_cons_of_mem _ hd)]

theorem opensScript_append_separator {q : Char} (hq : Separates delimiter q) (u t : List Char) :
    opensScript delimiter (u ++ q :: t) = opensScript delimiter u := by
  have hletter : ¬q.isAlpha = true := by
    rw [hq.letter]
    exact Bool.false_ne_true
  have htake : (u ++ q :: t).takeWhile Char.isAlpha = u.takeWhile Char.isAlpha := by
    induction u with
    | nil => rw [List.nil_append, List.takeWhile_cons_of_neg hletter]; rfl
    | cons c u ih => rw [List.cons_append, List.takeWhile_cons, List.takeWhile_cons, ih]
  have hdrop : ((u ++ q :: t).dropWhile Char.isAlpha).head?.any delimiter =
      (u.dropWhile Char.isAlpha).head?.any delimiter := by
    induction u with
    | nil =>
      rw [List.nil_append, List.dropWhile_cons_of_neg hletter, List.head?_cons, Option.any_some,
        hq.delimiter]
      rfl
    | cons c u ih =>
      by_cases hc : c.isAlpha = true
      · rw [List.cons_append, List.takeWhile_cons_of_pos hc, List.takeWhile_cons_of_pos hc] at htake
        rw [List.cons_append, List.dropWhile_cons_of_pos hc, List.dropWhile_cons_of_pos hc]
        exact ih (List.cons.inj htake).2
      · rw [List.cons_append, List.dropWhile_cons_of_neg hc, List.dropWhile_cons_of_neg hc]
        rfl
  rw [opensScript, opensScript, htake, hdrop]

/-- The scanner reads separated texts one after the other. -/
theorem scan_separated {q : Char} (hq : Separates delimiter q) (u t : List Char) :
    scan delimiter mode (u ++ q :: t) = scan delimiter (scan delimiter mode u) t := by
  induction u generalizing mode with
  | nil =>
    rw [List.nil_append, scan_skip hq.ne.1 hq.ne.2]
    rfl
  | cons c u ih =>
    have hopener := isPrefixOf_append_separator hq (p := ['!', '-', '-']) (by simp) u t
    have hcloser := isPrefixOf_append_separator hq (p := ['-', '>']) (by simp) u t
    have hscript := opensScript_append_separator hq u t
    cases mode with
    | plain =>
      rw [List.cons_append, scan, scan, hopener, ih, ih]
      split <;> rfl
    | comment =>
      rw [List.cons_append, scan, scan, hcloser, hscript, ih, ih, ih]
      split
      · rfl
      · split <;> rfl
    | script =>
      rw [List.cons_append, scan, scan, hcloser, ih, ih]
      split <;> rfl

/-- What pends at the end of a text begins nothing. -/
theorem scan_pending {s : State} {pending : List Char} (hview : view s = some (mode, pending)) :
    scan isDelimiter mode pending = mode := by
  cases s with
  | doubleEscapeStart buffer =>
    rw [view] at hview
    split at hview
    · rename_i hbuffer
      obtain ⟨rfl, rfl⟩ := Prod.ext_iff.1 (Option.some.inj hview)
      have halpha : ∀ d ∈ buffer, d.isAlpha = true :=
        fun d hd ↦ isAlpha_of_isLower (List.all_eq_true.1 hbuffer d hd)
      have hopens := @opensScript_append isDelimiter [] _ halpha
      rw [List.append_nil] at hopens
      have hrest := @scan_skip_append isDelimiter .comment _
        (fun d hd ↦ ne_of_isAlpha (halpha d hd)) []
      rw [List.append_nil] at hrest
      rw [scan_comment_lt, hopens, if_neg (by simp), hrest]
      rfl
    · cases hview
  | endTagOpen => cases hview
  | endTagName name => cases hview
  | escapedEndTagOpen => cases hview
  | escapedEndTagName name => cases hview
  | doubleEscapeEnd buffer => cases hview
  | _ =>
    obtain ⟨rfl, rfl⟩ := Prod.ext_iff.1 (Option.some.inj hview)
    decide

/-- Over a text without end tags the tokenizer ends in the mode that the scanner finds. -/
theorem advance_scan {s : State} {pending : List Char} (hview : view s = some (mode, pending))
    (htag : NoEndTag (pending ++ t)) :
    ∃ s' pending', advance s t = some s' ∧
      view s' = some (scan isDelimiter mode (pending ++ t), pending') := by
  induction t generalizing s mode pending with
  | nil =>
    refine ⟨s, pending, rfl, ?_⟩
    rw [List.append_nil, scan_pending hview]
    exact hview
  | cons c t ih =>
    obtain ⟨s', hstep, mode', pending', hview', hscan, hend⟩ := step_follows hview htag
    rw [advance, hstep, hscan]
    exact ih hview' (hend htag)

def endTag : List Char := ['<', '/', 's', 'c', 'r', 'i', 'p', 't']

/-- Outside a script in a comment the end tag ends the element. -/
theorem run_endTag {s : State} {pending : List Char} (hview : view s = some (mode, pending))
    (hmode : mode ≠ .script) (after : List Char) :
    run s (endTag ++ '>' :: after) = some ('>' :: after) := by
  cases s with
  | doubleEscaped => exact absurd (Prod.ext_iff.1 (Option.some.inj hview)).1.symm hmode
  | doubleEscapedDash => exact absurd (Prod.ext_iff.1 (Option.some.inj hview)).1.symm hmode
  | doubleEscapedDashDash => exact absurd (Prod.ext_iff.1 (Option.some.inj hview)).1.symm hmode
  | doubleEscapedLessThan => exact absurd (Prod.ext_iff.1 (Option.some.inj hview)).1.symm hmode
  | endTagOpen => cases hview
  | endTagName name => cases hview
  | escapedEndTagOpen => cases hview
  | escapedEndTagName name => cases hview
  | doubleEscapeEnd buffer => cases hview
  | _ => rfl

/-- There it ends only the script. -/
theorem run_endTag_script {s : State} {pending : List Char}
    (hview : view s = some (.script, pending)) (after : List Char) :
    run s (endTag ++ '>' :: after) = run .escaped after := by
  cases s with
  | doubleEscaped => rfl
  | doubleEscapedDash => rfl
  | doubleEscapedDashDash => rfl
  | doubleEscapedLessThan => rfl
  | doubleEscapeStart buffer =>
    rw [view] at hview
    split at hview <;> cases hview
  | _ => cases hview

/-- The element ends at the end tag behind a text without end tags iff the text does not leave its
reader inside a script in a comment. -/
theorem ends_at_tag_iff (htag : NoEndTag t) (after : List Char) :
    run .data (t ++ (endTag ++ '>' :: after)) = some ('>' :: after) ↔
      scan isDelimiter .plain t ≠ .script := by
  obtain ⟨s, pending, hadvance, hview⟩ := advance_scan (s := .data) rfl htag
  rw [run_append hadvance]
  constructor
  · intro hrun hscript
    rw [List.nil_append, hscript] at hview
    rw [run_endTag_script hview] at hrun
    have hlength := run_length hrun
    rw [List.length_cons] at hlength
    omega
  · exact fun hscan ↦ run_endTag hview hscan after

end Foundation.ScriptData
