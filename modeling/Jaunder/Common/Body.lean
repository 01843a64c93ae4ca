import Jaunder.Common.PostText
import Jaunder.Common.Render
import Jaunder.Foundation.TextLines

namespace Jaunder.Common.Body

open Foundation.TextLines
open Jaunder.Common.PostText (isWhitespace trim)
open Jaunder.Common.Render

/-- A body: some line of it is not blank. -/
structure PostBody where
  text : List Char
  valid : (lines text).all (fun line ↦ trim line = []) = false
deriving DecidableEq

def PostBody.fromStr (s : List Char) : Option PostBody :=
  if h : (lines s).all (fun line ↦ trim line = []) = false then some ⟨s, h⟩
  else none

def trimStart (s : List Char) : List Char := s.dropWhile isWhitespace

/-- The loop of `normalize_body_whitespace`. -/
def normalizeLines : Bool → List Line → List Char
  | _, [] => []
  | started, line :: rest =>
    if ¬started ∧ trim line = [] then normalizeLines started rest
    else line ++ '\n' :: normalizeLines true rest

def normalizeBodyWhitespace (body : List Char) : List Char :=
  normalizeLines false (lines (PostText.trimEnd body))

def startsWithTitle (t : List Char) : Bool := "#+title:".toList.isPrefixOf (t.map Char.toLower)

/-- The loop of `canonicalize_org_body`: the lines that it keeps. -/
def keptLines : Bool → Bool → Bool → List Line → List Line
  | _, _, _, [] => []
  | inHeader, sawTitle, keptEmpty, line :: rest =>
    if ¬inHeader then
      if keptEmpty ∧ trim line = [] then keptLines inHeader sawTitle keptEmpty rest
      else line :: keptLines inHeader sawTitle false rest
    else
      let t := trimStart line
      if t = [] then
        if ¬keptEmpty then line :: keptLines inHeader sawTitle false rest
        else keptLines inHeader sawTitle keptEmpty rest
      else if startsWithTitle t then keptLines inHeader true keptEmpty rest
      else if "#+".toList.isPrefixOf t then line :: keptLines inHeader sawTitle false rest
      else if ¬sawTitle ∧ keptEmpty ∧ "* ".toList.isPrefixOf t then
        keptLines false sawTitle keptEmpty rest
      else line :: keptLines false sawTitle false rest

def canonicalizeOrgBody (body : PostBody) : Option PostBody :=
  PostBody.fromStr (normalizeBodyWhitespace
    (joinLines (keptLines true false true (lines body.text))))

def canonicalizeBody (body : PostBody) : PostFormat → Option PostBody
  | .html => some body
  | .markdown => PostBody.fromStr (normalizeBodyWhitespace body.text)
  | .org => canonicalizeOrgBody body

example : (canonicalizeBody ⟨"\n\n- a\n\n- b \n\n".toList, by decide⟩ .markdown).map PostBody.text =
    some "- a\n\n- b\n".toList := by decide

section Whitespace

theorem trim_eq_nil_iff {s : List Char} : trim s = [] ↔ Blank isWhitespace s := by
  rw [trim, PostText.trimEnd, List.rdropWhile_eq_nil_iff, Blank, List.all_eq_true]
  constructor
  · intro h c hc
    by_cases hws : isWhitespace c = true
    · exact hws
    · rw [← List.takeWhile_append_dropWhile (p := isWhitespace) (l := s), List.mem_append] at hc
      exact hc.elim (List.mem_takeWhile_imp ·) (h c)
  · exact fun h c hc ↦ h c (List.dropWhile_subset _ hc)

theorem trimStart_eq_nil_iff {s : List Char} : trimStart s = [] ↔ Blank isWhitespace s :=
  List.dropWhile_eq_nil_iff.trans List.all_eq_true.symm

theorem normalizeLines_true (ls : List Line) : normalizeLines true ls = unlines ls := by
  induction ls with
  | nil => rfl
  | cons line rest ih =>
    rw [normalizeLines, if_neg (by simp), ih, unlines, unlines, List.flatMap_cons,
      List.append_assoc, List.singleton_append]

theorem normalizeLines_false (ls : List Line) :
    normalizeLines false ls = unlines (ls.dropWhile (fun l ↦ Blank isWhitespace l)) := by
  induction ls with
  | nil => rfl
  | cons line rest ih =>
    rw [normalizeLines, List.dropWhile_cons]
    simp only [trim_eq_nil_iff, Bool.false_eq_true, not_false_eq_true, true_and, decide_eq_true_eq]
    split_ifs with hblank
    · exact ih
    · rw [normalizeLines_true, unlines, unlines, List.flatMap_cons, List.append_assoc,
        List.singleton_append]

theorem isWhitespace_newline : isWhitespace '\n' = true := rfl

theorem isWhitespace_return : isWhitespace '\r' = true := rfl

theorem normalize_joinLines {ls : List Line} (h : Plain ls) :
    normalizeBodyWhitespace (joinLines ls) =
      unlines ((settle isWhitespace ls).dropWhile (fun l ↦ Blank isWhitespace l)) := by
  have hlines := lines_trimEnd isWhitespace_newline h
  rw [normalizeBodyWhitespace, normalizeLines_false, ← hlines]
  rfl

theorem normalize_unlines {ls : List Line} (h : Plain ls) :
    normalizeBodyWhitespace (unlines ls) =
      unlines ((settle isWhitespace ls).dropWhile (fun l ↦ Blank isWhitespace l)) := by
  have hplain : Plain (ls ++ [[]]) := by
    intro l hl
    rcases List.mem_append.mp hl with hl | hl
    · exact h l hl
    · rw [List.mem_singleton.mp hl]
      exact List.not_mem_nil
  have hblank : Blank isWhitespace [] := rfl
  rw [unlines_eq_joinLines, normalize_joinLines hplain, settle_append_blank hblank]

/-- Normalizing a text a second time: its lines lose a carriage return each time. -/
theorem normalize_normalize_iff {ls : List Line} (h : Plain ls) :
    normalizeBodyWhitespace (normalizeBodyWhitespace (joinLines ls)) =
        normalizeBodyWhitespace (joinLines ls) ↔
      NoReturns (settle isWhitespace (ls.dropWhile (fun l ↦ Blank isWhitespace l))) := by
  have hdrop : Plain (ls.dropWhile (fun l ↦ Blank isWhitespace l)) :=
    fun l hl ↦ h l (List.dropWhile_subset _ hl)
  have hsettled := plain_settle isWhitespace hdrop
  have htwice : ((settle isWhitespace (ls.dropWhile (fun l ↦ Blank isWhitespace l))).dropWhile
      (fun l ↦ Blank isWhitespace l)) =
        settle isWhitespace (ls.dropWhile (fun l ↦ Blank isWhitespace l)) := by
    rw [settle_dropWhile isWhitespace_return, List.dropWhile_idempotent]
  rw [normalize_joinLines h, settle_dropWhile isWhitespace_return, normalize_unlines hsettled,
    settle_dropWhile isWhitespace_return, htwice, unlines_inj (plain_settle isWhitespace hsettled) hsettled,
    settle_settle_iff isWhitespace_return]

end Whitespace

section Markdown

/-- No line behind the leading blank lines and in front of the last line that is not blank ends with
a carriage return. -/
def ReturnFree (ls : List Line) : Prop :=
  Inner isWhitespace (fun l ↦ l.getLast? ≠ some '\r')
    (ls.dropWhile (fun l ↦ Blank isWhitespace l))

theorem inner_map_chomp {ls : List Line} :
    Inner isWhitespace (fun l ↦ l.getLast? ≠ some '\r') (ls.map chomp) ↔
      Inner isWhitespace (fun l ↦ (chomp l).getLast? ≠ some '\r') ls := by
  induction ls with
  | nil => exact ⟨fun _ ↦ inner_nil, fun _ ↦ inner_nil⟩
  | cons line rest ih =>
    have hiff : (∃ l ∈ rest.map chomp, ¬ Blank isWhitespace l) ↔
        ∃ l ∈ rest, ¬ Blank isWhitespace l := by
      constructor
      · rintro ⟨l, hl, hnot⟩
        obtain ⟨line, hline, rfl⟩ := List.mem_map.mp hl
        exact ⟨line, hline, fun h ↦ hnot ((blank_chomp isWhitespace_return).mpr h)⟩
      · rintro ⟨line, hline, hnot⟩
        exact ⟨_, List.mem_map_of_mem hline,
          fun h ↦ hnot ((blank_chomp isWhitespace_return).mp h)⟩
    rw [List.map_cons, inner_cons, inner_cons, ih, hiff]

theorem dropWhile_map_chomp (ls : List Line) :
    (ls.map chomp).dropWhile (fun l ↦ Blank isWhitespace l) =
      (ls.dropWhile (fun l ↦ Blank isWhitespace l)).map chomp := by
  rw [List.dropWhile_map]
  congr 2
  funext l
  exact decide_eq_decide.mpr (blank_chomp isWhitespace_return)

theorem returnFree_cons {ls : List Line} {line : Line} :
    ReturnFree (line :: ls) ↔ if Blank isWhitespace line then ReturnFree ls
      else Inner isWhitespace (fun l ↦ l.getLast? ≠ some '\r') (line :: ls) := by
  rw [ReturnFree, List.dropWhile_cons]
  simp only [decide_eq_true_eq]
  split_ifs
  · rfl
  · rfl

/-- Of the last piece of a text it only matters whether it is blank. -/
theorem returnFree_concat {ls : List Line} {line line' : Line}
    (h : Blank isWhitespace line ↔ Blank isWhitespace line') :
    ReturnFree (ls ++ [line]) ↔ ReturnFree (ls ++ [line']) := by
  induction ls with
  | nil =>
    have hone (l : Line) : ReturnFree [l] := by
      rw [returnFree_cons]
      split_ifs
      · exact inner_nil
      · exact inner_cons.mpr ⟨fun ⟨_, hmem, _⟩ ↦ absurd hmem List.not_mem_nil, inner_nil⟩
    exact iff_of_true (hone line) (hone line')
  | cons first rest ih =>
    rw [List.cons_append, List.cons_append, returnFree_cons, returnFree_cons, ih,
      ← List.cons_append, ← List.cons_append, inner_concat h]

theorem returnFree_concat_blank (ls : List Line) {line : Line} (h : Blank isWhitespace line) :
    ReturnFree (ls ++ [line]) ↔ ReturnFree ls := by
  induction ls with
  | nil => simp [returnFree_cons, h]
  | cons first rest ih =>
    rw [List.cons_append, returnFree_cons, returnFree_cons, ih, ← List.cons_append,
      inner_concat_blank h]

theorem returnFree_lines (s : List Char) :
    ReturnFree (lines s) ↔ ReturnFree ((segments s).map chomp) := by
  have hne := segments_ne_nil s
  have hlines := lines_joinLines (plain_segments s) hne
  rw [joinLines_segments] at hlines
  have hplain := plain_segments s _ (List.getLast_mem hne)
  have hpieces : (segments s).map chomp =
      (segments s).dropLast.map chomp ++ [chomp ((segments s).getLast hne)] := by
    conv_lhs => rw [← List.dropLast_append_getLast hne]
    rw [List.map_append]
    rfl
  rw [hlines, hpieces, lines_plain hplain]
  split_ifs with hnil
  · have hblank : Blank isWhitespace (chomp []) := rfl
    rw [List.append_nil, hnil, returnFree_concat_blank _ hblank]
  · exact returnFree_concat (blank_chomp isWhitespace_return).symm

theorem normalize_settled_iff (s : List Char) :
    normalizeBodyWhitespace (normalizeBodyWhitespace s) = normalizeBodyWhitespace s ↔
      ReturnFree (lines s) := by
  have h := normalize_normalize_iff (plain_segments s)
  rw [joinLines_segments] at h
  rw [h, noReturns_settle isWhitespace_return, returnFree_lines, ReturnFree, dropWhile_map_chomp,
    inner_map_chomp]

end Markdown

section Title

/-- A line of the leading block: blank or a keyword. -/
def isHeaderLine (line : Line) : Bool :=
  trimStart line = [] ∨ "#+".toList.isPrefixOf (trimStart line)

def isTitleLine (line : Line) : Bool := startsWithTitle (trimStart line)

def isHeading (line : Line) : Bool := "* ".toList.isPrefixOf (trimStart line)

def header (ls : List Line) : List Line := ls.takeWhile isHeaderLine

def below (ls : List Line) : List Line := ls.dropWhile isHeaderLine

/-- What is below a heading that gives the title: a heading with nothing but blank lines above. -/
def titleSource (ls : List Line) : Option (List Line) :=
  match below ls with
  | [] => none
  | line :: rest =>
    if isHeading line ∧ ∀ l ∈ header ls, Blank isWhitespace l then some rest else none

/-- The lines without the title source and the blank lines in front. -/
def content (ls : List Line) : List Line :=
  match titleSource ls with
  | some rest => rest.dropWhile (fun l ↦ Blank isWhitespace l)
  | none =>
    ((header ls).filter (fun l ↦ ¬isTitleLine l)).dropWhile (fun l ↦ Blank isWhitespace l) ++
      below ls

/-- Of a heading that ends the body the space may belong to the white space at the end. -/
def StillHeading (line : Line) (rest : List Line) : Prop :=
  isHeading line = true ∧
    (isHeading (Foundation.TextLines.trimEnd isWhitespace line) = true ∨
      ∃ l ∈ rest, ¬ Blank isWhitespace l)

/-- A heading is the first line below the leading block. -/
def Opens (ls : List Line) : Prop := ∃ line rest, below ls = line :: rest ∧ StillHeading line rest

def Named (ls : List Line) : Prop := ∃ l ∈ header ls, ¬ Blank isWhitespace l

def Untitled (ls : List Line) : Prop := ∀ l ∈ header ls, isTitleLine l = false

/-- Below the title source there is no other one. -/
def TitleOnce (ls : List Line) : Prop :=
  match titleSource ls with
  | some rest => Untitled rest ∧ (Opens rest → Named rest)
  | none => Opens ls → ∃ l ∈ header ls, ¬ Blank isWhitespace l ∧ isTitleLine l = false

/-- When a body is a stored form already, up to what its first canonicalization removes. -/
def Settled (body : PostBody) : PostFormat → Prop
  | .html => True
  | .markdown => ReturnFree (lines body.text)
  | .org => ReturnFree ((content (lines body.text)).map chomp) ∧ TitleOnce (lines body.text)

theorem isHeaderLine_of_blank {line : Line} (h : Blank isWhitespace line) :
    isHeaderLine line = true := by
  simp [isHeaderLine, trimStart_eq_nil_iff.mpr h]

theorem isTitleLine_of_blank {line : Line} (h : Blank isWhitespace line) :
    isTitleLine line = false := by
  rw [isTitleLine, trimStart_eq_nil_iff.mpr h]
  rfl

theorem isHeading_of_blank {line : Line} (h : Blank isWhitespace line) :
    isHeading line = false := by
  rw [isHeading, trimStart_eq_nil_iff.mpr h]
  rfl

theorem toLower_eq {c d : Char} (hd : d.toNat < 97) (h : c.toLower = d) : c = d := by
  unfold Char.toLower at h
  split at h
  · rename_i hupper
    exfalso
    have hval : (c.val + 32).toNat = d.toNat := congrArg Char.toNat h
    have hlow : 65 ≤ c.val.toNat := hupper.1
    have hhigh : c.val.toNat ≤ 90 := hupper.2
    have hshift : (32 : UInt32).toNat = 32 := rfl
    rw [UInt32.toNat_add] at hval
    omega
  · exact h

theorem isHeaderLine_of_title {line : Line} (h : isTitleLine line = true) :
    isHeaderLine line = true := by
  have htitle : "#+title:".toList = ['#', '+', 't', 'i', 't', 'l', 'e', ':'] := rfl
  have hkey : "#+".toList = ['#', '+'] := rfl
  rw [isTitleLine, startsWithTitle, List.isPrefixOf_iff_prefix, htitle] at h
  obtain ⟨rest, hrest⟩ := h
  cases hline : trimStart line with
  | nil => rw [hline] at hrest; exact absurd hrest nofun
  | cons c s =>
    rw [hline, List.map_cons] at hrest
    obtain ⟨hc, hs⟩ := List.cons.inj hrest
    cases s with
    | nil => exact absurd hs nofun
    | cons d s =>
      obtain ⟨hd, -⟩ := List.cons.inj hs
      obtain rfl := toLower_eq (by decide) hc.symm
      obtain rfl := toLower_eq (by decide) hd.symm
      rw [isHeaderLine, hline, hkey]
      simp [List.isPrefixOf]

theorem keptLines_body (sawTitle keptEmpty : Bool) (ls : List Line) :
    keptLines false sawTitle keptEmpty ls =
      if keptEmpty then ls.dropWhile (fun l ↦ Blank isWhitespace l) else ls := by
  induction ls generalizing keptEmpty with
  | nil => cases keptEmpty <;> rfl
  | cons line rest ih =>
    rw [keptLines, if_pos (by simp), List.dropWhile_cons]
    simp only [trim_eq_nil_iff, ih, decide_eq_true_eq]
    cases keptEmpty with
    | false => simp
    | true => simp

/-- The scan, from any of its states in the leading block. -/
theorem keptLines_header (ls : List Line) : ∀ sawTitle keptEmpty : Bool,
    keptLines true sawTitle keptEmpty ls =
      (if keptEmpty then ((header ls).filter (fun l ↦ ¬isTitleLine l)).dropWhile
          (fun l ↦ Blank isWhitespace l)
        else (header ls).filter (fun l ↦ ¬isTitleLine l)) ++
      match below ls with
      | [] => []
      | line :: rest =>
        if isHeading line ∧ (sawTitle = false ∧ keptEmpty) ∧
            ∀ l ∈ header ls, Blank isWhitespace l then
          rest.dropWhile (fun l ↦ Blank isWhitespace l)
        else line :: rest := by
  induction ls with
  | nil => intro sawTitle keptEmpty; cases keptEmpty <;> rfl
  | cons line rest ih =>
    intro sawTitle keptEmpty
    have hheader (h : isHeaderLine line = true) : header (line :: rest) = line :: header rest :=
      List.takeWhile_cons_of_pos h
    have hbelow (h : isHeaderLine line = true) : below (line :: rest) = below rest :=
      List.dropWhile_cons_of_pos h
    rw [keptLines, if_neg (by simp)]
    simp only
    by_cases hblank : Blank isWhitespace line
    · -- A blank line is kept behind a kept one only.
      have hline := isHeaderLine_of_blank hblank
      rw [if_pos (trimStart_eq_nil_iff.mpr hblank), hheader hline, hbelow hline, ih, ih,
        List.filter_cons_of_pos (by simp [isTitleLine_of_blank hblank]), List.dropWhile_cons]
      simp only [List.forall_mem_cons, hblank, true_and, decide_true, if_true]
      cases keptEmpty with
      | false => simp
      | true => simp
    rw [if_neg (fun h ↦ hblank (trimStart_eq_nil_iff.mp h))]
    by_cases htitle : isTitleLine line = true
    · have hline := isHeaderLine_of_title htitle
      rw [if_pos (show startsWithTitle (trimStart line) = true from htitle), hheader hline,
        hbelow hline, ih, List.filter_cons_of_neg (by simp [htitle])]
      simp only [List.forall_mem_cons, hblank, false_and, and_false, Bool.true_eq_false, if_false]
    rw [if_neg (show ¬ startsWithTitle (trimStart line) = true from htitle)]
    by_cases hkeyword : "#+".toList.isPrefixOf (trimStart line) = true
    · have hline : isHeaderLine line = true := by
        rw [isHeaderLine, decide_eq_true_eq]
        exact .inr hkeyword
      rw [if_pos hkeyword, hheader hline, hbelow hline, ih,
        List.filter_cons_of_pos (by simpa using htitle), List.dropWhile_cons]
      simp only [List.forall_mem_cons, hblank, false_and, and_false, Bool.false_eq_true, if_false,
        decide_false, ite_self, List.cons_append]
    · have hline : ¬ isHeaderLine line = true := by
        rw [isHeaderLine, decide_eq_true_eq, not_or]
        exact ⟨fun h ↦ hblank (trimStart_eq_nil_iff.mp h), hkeyword⟩
      have hnone : header (line :: rest) = [] := List.takeWhile_cons_of_neg hline
      have hall : below (line :: rest) = line :: rest := List.dropWhile_cons_of_neg hline
      rw [if_neg hkeyword, hnone, hall, keptLines_body, keptLines_body]
      have hswap : (¬ sawTitle = true ∧ keptEmpty = true ∧
          "* ".toList.isPrefixOf (trimStart line) = true) ↔
          (isHeading line = true ∧ (sawTitle = false ∧ keptEmpty = true) ∧
            ∀ l ∈ ([] : List Line), Blank isWhitespace l) := by
        rw [isHeading, Bool.not_eq_true]
        simp only [List.not_mem_nil, false_imp_iff, implies_true, and_true]
        tauto
      simp only [hswap, List.filter_nil, List.dropWhile_nil, ite_self, List.nil_append,
        Bool.false_eq_true, if_false]
      split_ifs with hdrop hkept
      · rfl
      · exact absurd hdrop.2.1.2 hkept
      · rfl

theorem keptLines_eq_content (ls : List Line) : keptLines true false true ls = content ls := by
  rw [keptLines_header, content, titleSource, if_pos rfl]
  cases hbelow : below ls with
  | nil => rfl
  | cons line rest =>
    simp only [true_and]
    by_cases hdrop : isHeading line = true ∧ ∀ l ∈ header ls, Blank isWhitespace l
    · have hempty : ((header ls).filter (fun l ↦ ¬isTitleLine l)).dropWhile
          (fun l ↦ Blank isWhitespace l) = [] :=
        List.dropWhile_eq_nil_iff.mpr (fun l hl ↦
          decide_eq_true (hdrop.2 l (List.mem_filter.mp hl).1))
      rw [if_pos hdrop, if_pos hdrop, hempty, List.nil_append]
    · rw [if_neg hdrop, if_neg hdrop]

theorem header_append_below (ls : List Line) : header ls ++ below ls = ls :=
  List.takeWhile_append_dropWhile

theorem isHeaderLine_of_mem_header {ls : List Line} {l : Line} (h : l ∈ header ls) :
    isHeaderLine l = true := List.mem_takeWhile_imp h

theorem not_isHeaderLine_of_below {ls rest : List Line} {line : Line}
    (h : below ls = line :: rest) : isHeaderLine line = false := by
  have hhead := List.head?_dropWhile_not isHeaderLine ls
  rw [show ls.dropWhile isHeaderLine = line :: rest from h] at hhead
  simpa using hhead

theorem titleSource_eq_some {ls rest : List Line} : titleSource ls = some rest ↔
    ∃ line, below ls = line :: rest ∧ isHeading line = true ∧
      ∀ l ∈ header ls, Blank isWhitespace l := by
  rw [titleSource]
  cases hbelow : below ls with
  | nil => exact ⟨nofun, fun ⟨_, h, _⟩ ↦ absurd h nofun⟩
  | cons line below =>
    simp only
    constructor
    · intro h
      split_ifs at h with hboth
      obtain rfl := Option.some.inj h
      exact ⟨line, rfl, hboth⟩
    · rintro ⟨line', heq, hboth⟩
      obtain ⟨rfl, rfl⟩ := List.cons.inj heq
      rw [if_pos hboth]

theorem titleSource_eq_none {ls : List Line} (h : titleSource ls = none) :
    ∀ line rest, below ls = line :: rest → isHeading line = true →
      ∃ l ∈ header ls, ¬ Blank isWhitespace l := by
  intro line rest hbelow hheading
  by_contra hall
  push Not at hall
  have hsome := titleSource_eq_some.mpr ⟨line, hbelow, hheading, hall⟩
  rw [h] at hsome
  exact absurd hsome nofun

/-- The first line that is kept, if there is one, is not blank. -/
def Starts (ls : List Line) : Prop := ∀ line ∈ ls.head?, ¬ Blank isWhitespace line

theorem dropWhile_of_starts {ls : List Line} (h : Starts ls) :
    ls.dropWhile (fun l ↦ Blank isWhitespace l) = ls := by
  cases ls with
  | nil => rfl
  | cons line rest =>
    rw [List.dropWhile_cons, if_neg (by simpa using h line rfl)]

theorem starts_dropWhile (ls : List Line) :
    Starts (ls.dropWhile (fun l ↦ Blank isWhitespace l)) := by
  intro line hline
  have hhead := List.head?_dropWhile_not (fun l ↦ decide (Blank isWhitespace l)) ls
  rw [hline] at hhead
  simpa using hhead

/-- A heading is the first line below the leading block, wherever it stands. -/
def Headed (ls : List Line) : Prop := ∃ line rest, below ls = line :: rest ∧ isHeading line = true

theorem content_of_none {ls : List Line} (h : titleSource ls = none) :
    content ls = ((header ls).filter (fun l ↦ ¬isTitleLine l)).dropWhile
      (fun l ↦ Blank isWhitespace l) ++ below ls := by
  rw [content, h]

theorem content_of_some {ls rest : List Line} (h : titleSource ls = some rest) :
    content ls = rest.dropWhile (fun l ↦ Blank isWhitespace l) := by
  rw [content, h]

theorem starts_header {ls : List Line} (h : Starts ls) : Starts (header ls) := by
  cases ls with
  | nil => exact h
  | cons line rest =>
    rw [header, List.takeWhile_cons]
    split_ifs
    · exact h
    · exact fun _ hline ↦ absurd hline nofun

/-- The scan keeps everything just when there is nothing in the leading block to give the title. -/
theorem content_eq_self_iff {ls : List Line} (h : Starts ls) :
    content ls = ls ↔ Untitled ls ∧ (Headed ls → Named ls) := by
  constructor
  · intro heq
    have hnone : titleSource ls = none := by
      cases hsource : titleSource ls with
      | none => rfl
      | some rest =>
        exfalso
        obtain ⟨line, hbelow, -⟩ := titleSource_eq_some.mp hsource
        have hle := List.length_dropWhile_le (fun l ↦ decide (Blank isWhitespace l)) rest
        have hall := congrArg List.length (header_append_below ls)
        rw [← content_of_some hsource, heq] at hle
        rw [List.length_append, hbelow, List.length_cons] at hall
        omega
    refine ⟨?_, fun ⟨line, rest, hbelow, hheading⟩ ↦
      titleSource_eq_none hnone line rest hbelow hheading⟩
    rw [content_of_none hnone] at heq
    have hheader := List.append_cancel_right (heq.trans (header_append_below ls).symm)
    have hle := List.length_dropWhile_le (fun l ↦ decide (Blank isWhitespace l))
      ((header ls).filter (fun l ↦ ¬isTitleLine l))
    rw [hheader] at hle
    have hfilter := (List.filter_sublist (l := header ls)).eq_of_length_le hle
    intro l hl
    rw [← hfilter] at hl
    simpa using (List.mem_filter.mp hl).2
  · rintro ⟨huntitled, hnamed⟩
    have hnone : titleSource ls = none := by
      cases hsource : titleSource ls with
      | none => rfl
      | some rest =>
        obtain ⟨line, hbelow, hheading, hall⟩ := titleSource_eq_some.mp hsource
        obtain ⟨l, hl, hnot⟩ := hnamed ⟨line, rest, hbelow, hheading⟩
        exact absurd (hall l hl) hnot
    have hfilter : (header ls).filter (fun l ↦ ¬isTitleLine l) = header ls :=
      List.filter_eq_self.mpr (fun l hl ↦ by simp [huntitled l hl])
    rw [content_of_none hnone, hfilter, dropWhile_of_starts (starts_header h),
      header_append_below]

end Title

section Classification

/-- Characters that cannot end a mark do not matter behind a line. -/
theorem isPrefixOf_append (f : Char → Char) (mark : List Char) (last : Char) {s t : List Char}
    (ht : ∀ c ∈ t, f c ≠ last) :
    (mark ++ [last]).isPrefixOf ((s ++ t).map f) = (mark ++ [last]).isPrefixOf (s.map f) := by
  rw [Bool.eq_iff_iff, List.isPrefixOf_iff_prefix, List.isPrefixOf_iff_prefix, List.map_append]
  constructor
  · rintro ⟨rest, hrest⟩
    rcases List.append_eq_append_iff.mp hrest with ⟨extra, hs, -⟩ | ⟨extra, hmark, ht'⟩
    · exact ⟨extra, hs.symm⟩
    · cases hextra : extra.getLast? with
      | none =>
        rw [List.getLast?_eq_none_iff.mp hextra, List.append_nil] at hmark
        rw [hmark]
      | some c =>
        -- The mark would have to end behind the line.
        exfalso
        have hlast := congrArg List.getLast? hmark
        rw [List.getLast?_concat, List.getLast?_append, hextra] at hlast
        obtain rfl : last = c := Option.some.inj hlast
        have hmem : last ∈ t.map f := by
          rw [ht']
          exact List.mem_append_left _ (List.mem_of_getLast? hextra)
        obtain ⟨d, hd, hfd⟩ := List.mem_map.mp hmem
        exact ht d hd hfd
  · exact fun h ↦ h.trans (List.prefix_append _ _)

theorem trimStart_append {s : List Char} (h : ¬ Blank isWhitespace s) (t : List Char) :
    trimStart (s ++ t) = trimStart s ++ t := by
  rw [trimStart, trimStart, List.dropWhile_append, if_neg]
  rw [List.isEmpty_iff]
  exact fun hnil ↦ h (trimStart_eq_nil_iff.mp hnil)

theorem toLower_of_blank {c : Char} (h : isWhitespace c = true) : c.toLower = c := by
  unfold Char.toLower
  rw [dif_neg]
  rintro ⟨hlow, hhigh⟩
  have hlow' : 65 ≤ c.toNat := hlow
  have hhigh' : c.toNat ≤ 90 := hhigh
  rw [isWhitespace, decide_eq_true_eq] at h
  omega

/-- The marks of a line that loses white space at its end. -/
structure SameMarks (line line' : Line) : Prop where
  blank : Blank isWhitespace line ↔ Blank isWhitespace line'
  header : isHeaderLine line = isHeaderLine line'
  title : isTitleLine line = isTitleLine line'

theorem sameMarks_append {s t : List Char} (ht : Blank isWhitespace t) : SameMarks s (s ++ t) := by
  have hws := List.all_eq_true.mp ht
  have hiff : Blank isWhitespace s ↔ Blank isWhitespace (s ++ t) := by
    simp only [Blank, List.all_append, Bool.and_eq_true]
    exact (and_iff_left ht).symm
  by_cases hblank : Blank isWhitespace s
  · have hblank' := hiff.mp hblank
    exact ⟨hiff, (isHeaderLine_of_blank hblank).trans (isHeaderLine_of_blank hblank').symm,
      (isTitleLine_of_blank hblank).trans (isTitleLine_of_blank hblank').symm⟩
  · have hblank' : ¬ Blank isWhitespace (s ++ t) := fun h ↦ hblank (hiff.mpr h)
    have hkey := isPrefixOf_append (fun c ↦ c) ['#'] '+' (s := trimStart s) (t := t)
      (fun c hc heq ↦ absurd (hws c hc) (by rw [heq]; decide))
    have htitle := isPrefixOf_append Char.toLower ['#', '+', 't', 'i', 't', 'l', 'e'] ':'
      (s := trimStart s) (t := t) (fun c hc heq ↦ by
        rw [toLower_of_blank (hws c hc)] at heq
        exact absurd (hws c hc) (by rw [heq]; decide))
    rw [List.map_id', List.map_id'] at hkey
    refine ⟨hiff, ?_, ?_⟩
    · have hnil : trimStart s ≠ [] := fun h ↦ hblank (trimStart_eq_nil_iff.mp h)
      have hnil' : trimStart s ++ t ≠ [] := fun h ↦ hnil (List.append_eq_nil_iff.mp h).1
      rw [isHeaderLine, isHeaderLine, trimStart_append hblank]
      simp only [hnil, hnil', false_or]
      exact congrArg (fun b ↦ decide (b = true)) hkey.symm
    · rw [isTitleLine, isTitleLine, trimStart_append hblank]
      exact htitle.symm

theorem sameMarks_trimEnd (line : Line) :
    SameMarks (Foundation.TextLines.trimEnd isWhitespace line) line := by
  obtain ⟨t, ht, hline⟩ := exists_trimEnd_append isWhitespace line
  conv => rhs; rw [hline]
  exact sameMarks_append ht

theorem sameMarks_chomp (line : Line) : SameMarks (chomp line) line := by
  rcases chomp_eq_or line with h | h
  · rw [h]
    exact ⟨Iff.rfl, rfl, rfl⟩
  · conv => rhs; rw [h]
    exact sameMarks_append rfl

theorem isHeading_chomp (line : Line) : isHeading (chomp line) = isHeading line := by
  rcases chomp_eq_or line with h | h
  · rw [h]
  · by_cases hblank : Blank isWhitespace (chomp line)
    · rw [isHeading_of_blank hblank,
        isHeading_of_blank ((blank_chomp isWhitespace_return).mp hblank)]
    · have happend := isPrefixOf_append (fun c ↦ c) ['*'] ' ' (s := trimStart (chomp line))
        (t := ['\r']) (fun c hc heq ↦ by
          rw [List.mem_singleton.mp hc] at heq
          exact absurd heq (by decide))
      rw [List.map_id', List.map_id'] at happend
      conv_rhs => rw [h]
      rw [isHeading, isHeading, trimStart_append hblank]
      exact happend.symm

end Classification

section Settling

variable {ls rest : List Line} {line : Line}

theorem untitled_cons : Untitled (line :: rest) ↔
    (isHeaderLine line = true → isTitleLine line = false ∧ Untitled rest) := by
  rw [Untitled, header, List.takeWhile_cons]
  split_ifs with hline
  · rw [List.forall_mem_cons, forall_prop_of_true hline]
    rfl
  · exact iff_of_true (fun _ h ↦ absurd h List.not_mem_nil) (fun h ↦ absurd h hline)

theorem named_cons : Named (line :: rest) ↔
    isHeaderLine line = true ∧ (¬ Blank isWhitespace line ∨ Named rest) := by
  rw [Named, header, List.takeWhile_cons]
  split_ifs with hline
  · simp only [List.mem_cons, or_and_right, exists_or, exists_eq_left, hline, true_and]
    rfl
  · exact iff_of_false (fun ⟨_, h, _⟩ ↦ absurd h List.not_mem_nil) (fun h ↦ hline h.1)

theorem below_cons : below (line :: rest) =
    if isHeaderLine line then below rest else line :: rest := List.dropWhile_cons

theorem headed_cons : Headed (line :: rest) ↔
    if isHeaderLine line then Headed rest else isHeading line = true := by
  rw [Headed, below_cons]
  split_ifs
  · rfl
  · exact ⟨fun ⟨_, _, heq, h⟩ ↦ (List.cons.inj heq).1 ▸ h, fun h ↦ ⟨line, rest, rfl, h⟩⟩

theorem opens_cons : Opens (line :: rest) ↔
    if isHeaderLine line then Opens rest else StillHeading line rest := by
  rw [Opens, below_cons]
  split_ifs
  · rfl
  · constructor
    · rintro ⟨line', rest', heq, h⟩
      obtain ⟨rfl, rfl⟩ := List.cons.inj heq
      exact h
    · exact fun h ↦ ⟨line, rest, rfl, h⟩

theorem of_all_blank (h : ∀ l ∈ ls, Blank isWhitespace l) :
    Untitled ls ∧ ¬ Named ls ∧ ¬ Opens ls := by
  induction ls with
  | nil =>
    exact ⟨fun _ h ↦ absurd h List.not_mem_nil, fun ⟨_, h, _⟩ ↦ absurd h List.not_mem_nil,
      fun ⟨_, _, h, _⟩ ↦ absurd h nofun⟩
  | cons line rest ih =>
    obtain ⟨hblank, hrest⟩ := List.forall_mem_cons.mp h
    obtain ⟨huntitled, hnamed, hopens⟩ := ih hrest
    rw [untitled_cons, named_cons, opens_cons, if_pos (isHeaderLine_of_blank hblank)]
    exact ⟨fun _ ↦ ⟨isTitleLine_of_blank hblank, huntitled⟩,
      fun ⟨_, hor⟩ ↦ hor.elim (fun hnot ↦ hnot hblank) hnamed, hopens⟩

theorem isHeading_of_trimEnd
    (h : isHeading (Foundation.TextLines.trimEnd isWhitespace line) = true) :
    isHeading line = true := by
  obtain ⟨t, -, hline⟩ := exists_trimEnd_append isWhitespace line
  have hblank : ¬ Blank isWhitespace (Foundation.TextLines.trimEnd isWhitespace line) := by
    intro hblank
    rw [isHeading_of_blank hblank] at h
    exact absurd h Bool.false_ne_true
  rw [hline, isHeading, trimStart_append hblank, List.isPrefixOf_iff_prefix]
  exact (List.isPrefixOf_iff_prefix.mp h).trans (List.prefix_append _ _)

theorem untitled_settle : Untitled (settle isWhitespace ls) ↔ Untitled ls := by
  induction ls with
  | nil => rfl
  | cons line rest ih =>
    rw [settle]
    split_ifs with hall hblank
    · exact iff_of_true (fun _ h ↦ absurd h List.not_mem_nil)
        (of_all_blank (List.forall_mem_cons.mpr ⟨hblank, hall⟩)).1
    · have hmarks := sameMarks_trimEnd line
      rw [untitled_cons, untitled_cons, hmarks.header, hmarks.title,
        and_iff_left (of_all_blank hall).1]
      exact forall_congr' fun _ ↦ and_iff_left (fun _ h ↦ absurd h List.not_mem_nil)
    · have hmarks := sameMarks_chomp line
      rw [untitled_cons, untitled_cons, hmarks.header, hmarks.title, ih]

theorem not_named_nil : ¬ Named [] := by
  rintro ⟨l, hl, -⟩
  exact List.not_mem_nil hl

theorem named_settle : Named (settle isWhitespace ls) ↔ Named ls := by
  induction ls with
  | nil => rfl
  | cons line rest ih =>
    rw [settle]
    split_ifs with hall hblank
    · exact iff_of_false not_named_nil (of_all_blank (List.forall_mem_cons.mpr ⟨hblank, hall⟩)).2.1
    · have hmarks := sameMarks_trimEnd line
      rw [named_cons, named_cons, hmarks.header, hmarks.blank,
        or_iff_left (of_all_blank hall).2.1, or_iff_left not_named_nil]
    · have hmarks := sameMarks_chomp line
      rw [named_cons, named_cons, hmarks.header, hmarks.blank, ih]

theorem not_headed_nil : ¬ Headed [] := by
  rintro ⟨line, rest, h, -⟩
  exact List.cons_ne_nil _ _ h.symm

theorem not_opens_nil : ¬ Opens [] := by
  rintro ⟨line, rest, h, -⟩
  exact List.cons_ne_nil _ _ h.symm

theorem headed_settle : Headed (settle isWhitespace ls) ↔ Opens ls := by
  induction ls with
  | nil => exact iff_of_false not_headed_nil not_opens_nil
  | cons line rest ih =>
    rw [settle]
    split_ifs with hall hblank
    · exact iff_of_false not_headed_nil (of_all_blank (List.forall_mem_cons.mpr ⟨hblank, hall⟩)).2.2
    · rw [headed_cons, opens_cons, (sameMarks_trimEnd line).header]
      split_ifs
      · exact iff_of_false not_headed_nil (of_all_blank hall).2.2
      · have hnone : ¬ ∃ l ∈ rest, ¬ Blank isWhitespace l := by
          rintro ⟨l, hl, hnot⟩
          exact hnot (hall l hl)
        rw [StillHeading, or_iff_left hnone]
        exact ⟨fun h ↦ ⟨isHeading_of_trimEnd h, h⟩, And.right⟩
    · push Not at hall
      rw [headed_cons, opens_cons, (sameMarks_chomp line).header, ih, isHeading_chomp, StillHeading,
        and_iff_left (.inr hall)]

theorem starts_settle (h : Starts ls) : Starts (settle isWhitespace ls) := by
  cases ls with
  | nil => exact h
  | cons line rest =>
    have hline : ¬ Blank isWhitespace line := h line rfl
    rw [settle]
    split_ifs with hall
    · intro l hl
      obtain rfl : _ = l := Option.some.inj hl
      exact fun hblank ↦ hline (blank_trimEnd.mp hblank)
    · intro l hl
      obtain rfl : _ = l := Option.some.inj hl
      exact fun hblank ↦ hline ((blank_chomp isWhitespace_return).mp hblank)

theorem content_sublist (ls : List Line) : (content ls).Sublist ls := by
  cases hsource : titleSource ls with
  | some rest =>
    obtain ⟨line, hbelow, -⟩ := titleSource_eq_some.mp hsource
    have hsub : rest.Sublist (below ls) := hbelow ▸ List.sublist_cons_self line rest
    rw [content_of_some hsource]
    exact (List.dropWhile_sublist _).trans (hsub.trans (List.dropWhile_sublist _))
  | none =>
    rw [content_of_none hsource]
    conv => rhs; rw [← header_append_below ls]
    exact ((List.dropWhile_sublist _).trans List.filter_sublist).append (List.Sublist.refl _)

theorem plain_content (h : Plain ls) : Plain (content ls) :=
  fun l hl ↦ h l ((content_sublist ls).subset hl)

theorem starts_content (ls : List Line) : Starts (content ls) := by
  cases hsource : titleSource ls with
  | some rest =>
    rw [content_of_some hsource]
    exact starts_dropWhile rest
  | none =>
    rw [content_of_none hsource]
    generalize hkept : ((header ls).filter (fun l ↦ ¬isTitleLine l)).dropWhile
      (fun l ↦ Blank isWhitespace l) = kept
    cases kept with
    | nil =>
      intro line hline
      rw [List.nil_append] at hline
      cases hbelow : below ls with
      | nil =>
        rw [hbelow] at hline
        exact absurd hline nofun
      | cons first rest =>
        rw [hbelow] at hline
        obtain rfl : first = line := Option.some.inj hline
        intro hblank
        have hfirst := not_isHeaderLine_of_below hbelow
        rw [isHeaderLine_of_blank hblank] at hfirst
        exact absurd hfirst nofun
    | cons first rest =>
      have hstarts := starts_dropWhile ((header ls).filter (fun l ↦ ¬isTitleLine l))
      rw [hkept] at hstarts
      exact hstarts

end Settling

section Idempotence

theorem length_chomp_le (line : Line) : (chomp line).length ≤ line.length := by
  rcases chomp_eq_or line with h | h
  · exact (congrArg List.length h).le
  · conv_rhs => rw [h, List.length_append]
    exact Nat.le_add_right _ _

theorem noReturns_of_settle_map_chomp {ls : List Line}
    (h : settle isWhitespace (ls.map chomp) = ls) : NoReturns ls := by
  induction ls with
  | nil => exact fun _ h ↦ absurd h List.not_mem_nil
  | cons line rest ih =>
    rw [List.map_cons, settle] at h
    split_ifs at h with hall hblank
    · obtain ⟨hline, hrest⟩ := List.cons.inj h
      intro l hl
      rw [← hrest, ← hline, List.mem_singleton] at hl
      rw [hl]
      exact not_return_trimEnd isWhitespace_return _
    · obtain ⟨hline, hrest⟩ := List.cons.inj h
      have hlength := congrArg List.length hline
      have hle := length_chomp_le (chomp line)
      have hle' := length_chomp_le line
      have hself : chomp line = line := by
        rcases chomp_eq_or line with hsame | hmore
        · exact hsame
        · have hmore := congrArg List.length hmore
          rw [List.length_append, List.length_singleton] at hmore
          omega
      exact List.forall_mem_cons.mpr ⟨chomp_eq_self_iff.mp hself, ih hrest⟩

/-- The scan and the white space pass leave settled lines alone. -/
theorem settle_content_iff (ls : List Line) :
    settle isWhitespace (content ((settle isWhitespace ls).map chomp)) = settle isWhitespace ls ↔
      NoReturns (settle isWhitespace ls) ∧ content (settle isWhitespace ls) = settle isWhitespace ls := by
  constructor
  · intro h
    have hkept : content ((settle isWhitespace ls).map chomp) =
        (settle isWhitespace ls).map chomp := by
      refine (content_sublist _).eq_of_length_le ?_
      have hle := length_settle_le isWhitespace
        (content ((settle isWhitespace ls).map chomp))
      rw [h] at hle
      rwa [List.length_map]
    rw [hkept] at h
    have hreturns := noReturns_of_settle_map_chomp h
    rw [map_chomp_of_noReturns hreturns] at hkept
    exact ⟨hreturns, hkept⟩
  · rintro ⟨hreturns, hkept⟩
    rw [map_chomp_of_noReturns hreturns, hkept]
    exact (settle_settle_iff isWhitespace_return).mpr hreturns

theorem marks_dropWhile (ls : List Line) :
    (Untitled (ls.dropWhile (fun l ↦ Blank isWhitespace l)) ↔ Untitled ls) ∧
      (Named (ls.dropWhile (fun l ↦ Blank isWhitespace l)) ↔ Named ls) ∧
      (Opens (ls.dropWhile (fun l ↦ Blank isWhitespace l)) ↔ Opens ls) := by
  induction ls with
  | nil => exact ⟨Iff.rfl, Iff.rfl, Iff.rfl⟩
  | cons line rest ih =>
    rw [List.dropWhile_cons]
    split_ifs with hblank
    · have hblank := of_decide_eq_true hblank
      have hline := isHeaderLine_of_blank hblank
      obtain ⟨huntitled, hnamed, hopens⟩ := ih
      refine ⟨huntitled.trans ?_, hnamed.trans ?_, hopens.trans ?_⟩
      · rw [untitled_cons, forall_prop_of_true hline, and_iff_right (isTitleLine_of_blank hblank)]
      · rw [named_cons, and_iff_right hline, or_iff_right (not_not_intro hblank)]
      · rw [opens_cons, if_pos hline]
    · exact ⟨Iff.rfl, Iff.rfl, Iff.rfl⟩

theorem header_below_append (ls : List Line) {kept : List Line}
    (hkept : ∀ l ∈ kept, isHeaderLine l = true) :
    header (kept ++ below ls) = kept ∧ below (kept ++ below ls) = below ls := by
  have hempty : header (below ls) = [] ∧ below (below ls) = below ls := by
    cases hbelow : below ls with
    | nil => exact ⟨rfl, rfl⟩
    | cons line rest =>
      have hline := not_isHeaderLine_of_below hbelow
      exact ⟨List.takeWhile_cons_of_neg (by rw [hline]; exact Bool.false_ne_true),
        List.dropWhile_cons_of_neg (by rw [hline]; exact Bool.false_ne_true)⟩
  constructor
  · rw [header, List.takeWhile_append_of_pos hkept, ← header, hempty.1, List.append_nil]
  · rw [below, List.dropWhile_append_of_pos hkept, ← below, hempty.2]

theorem mem_dropWhile_blank {ls : List Line} {l : Line} (hl : l ∈ ls)
    (hnot : ¬ Blank isWhitespace l) : l ∈ ls.dropWhile (fun l ↦ Blank isWhitespace l) := by
  rw [← List.takeWhile_append_dropWhile (p := fun l ↦ decide (Blank isWhitespace l)) (l := ls),
    List.mem_append] at hl
  exact hl.resolve_left (fun hmem ↦ hnot (by simpa using List.mem_takeWhile_imp hmem))

theorem titleOnce_iff (ls : List Line) :
    TitleOnce ls ↔ Untitled (content ls) ∧ (Opens (content ls) → Named (content ls)) := by
  cases hsource : titleSource ls with
  | some rest =>
    obtain ⟨huntitled, hnamed, hopens⟩ := marks_dropWhile rest
    rw [TitleOnce, hsource, content_of_some hsource, huntitled, hnamed, hopens]
  | none =>
    have hfilter : ∀ l ∈ ((header ls).filter (fun l ↦ ¬isTitleLine l)).dropWhile
        (fun l ↦ Blank isWhitespace l), isHeaderLine l = true ∧ isTitleLine l = false := by
      intro l hl
      obtain ⟨hmem, htitle⟩ := List.mem_filter.mp (List.dropWhile_subset _ hl)
      exact ⟨isHeaderLine_of_mem_header hmem, by simpa using htitle⟩
    obtain ⟨hheader, hbelow⟩ := header_below_append ls (fun l hl ↦ (hfilter l hl).1)
    have hopens : Opens (((header ls).filter (fun l ↦ ¬isTitleLine l)).dropWhile
        (fun l ↦ Blank isWhitespace l) ++ below ls) ↔ Opens ls := by
      rw [Opens, hbelow]
      rfl
    rw [TitleOnce, hsource, content_of_none hsource, Untitled, Named, hheader, hopens,
      and_iff_right (fun l hl ↦ (hfilter l hl).2)]
    refine imp_congr Iff.rfl ⟨?_, ?_⟩
    · rintro ⟨l, hl, hnot, htitle⟩
      exact ⟨l, mem_dropWhile_blank (List.mem_filter.mpr ⟨hl, by simp [htitle]⟩) hnot, hnot⟩
    · rintro ⟨l, hl, hnot⟩
      exact ⟨l, (List.mem_filter.mp (List.dropWhile_subset _ hl)).1, hnot, (hfilter l hl).2⟩

theorem fromStr_eq_some {s : List Char} {body : PostBody} :
    PostBody.fromStr s = some body ↔ body.text = s := by
  rw [PostBody.fromStr]
  constructor
  · intro h
    split_ifs at h
    rw [← Option.some.inj h]
  · rintro rfl
    rw [dif_pos body.valid]

theorem org_text {body : PostBody} : normalizeBodyWhitespace
    (joinLines (keptLines true false true (lines body.text))) =
      unlines (settle isWhitespace (content (lines body.text))) := by
  rw [keptLines_eq_content, normalize_joinLines (plain_content (plain_lines _)),
    dropWhile_of_starts (starts_settle (starts_content _))]

/-- A body that was canonicalized comes back from a second canonicalization just when it was settled
before. -/
theorem canonicalizeBody_settled_iff (body canonical : PostBody) (format : PostFormat)
    (h : canonicalizeBody body format = some canonical) :
    canonicalizeBody canonical format = some canonical ↔ Settled body format := by
  cases format with
  | html => exact iff_of_true rfl trivial
  | markdown =>
    have htext := fromStr_eq_some.mp h
    rw [canonicalizeBody, fromStr_eq_some, htext, Settled, ← normalize_settled_iff]
    exact eq_comm
  | org =>
    have htext := fromStr_eq_some.mp h
    rw [org_text] at htext
    have hplain := plain_settle isWhitespace (plain_content (plain_lines body.text))
    have hstarts := starts_content (lines body.text)
    have hplain' : Plain ((settle isWhitespace (content (lines body.text))).map chomp) := by
      intro l hl
      obtain ⟨line, hline, rfl⟩ := List.mem_map.mp hl
      exact not_mem_chomp (hplain line hline)
    rw [canonicalizeBody, canonicalizeOrgBody, fromStr_eq_some, org_text, htext,
      lines_unlines hplain, eq_comm, unlines_inj (plain_settle isWhitespace (plain_content hplain')) hplain,
      settle_content_iff, content_eq_self_iff (starts_settle hstarts), untitled_settle,
      headed_settle, named_settle, ← titleOnce_iff, noReturns_settle isWhitespace_return, Settled,
      ReturnFree, dropWhile_map_chomp, dropWhile_of_starts hstarts, inner_map_chomp]

def titledBody : PostBody := ⟨"* Title\n\nBody \n\n".toList, by decide⟩

def storedBody : PostBody := ⟨"Body\n".toList, by decide⟩

theorem titledBody_settled :
    canonicalizeBody storedBody .org = some storedBody ↔ Settled titledBody .org :=
  canonicalizeBody_settled_iff titledBody storedBody .org (by decide)

def headedBody : PostBody := ⟨"* First\n* Second\ntext\n".toList, by decide⟩

/-- Below a heading that gave the title a second one is taken for the title the next time. -/
theorem headedBody_not_idempotent :
    (canonicalizeBody headedBody .org).map PostBody.text = some "* Second\ntext\n".toList ∧
      ((canonicalizeBody headedBody .org).bind (fun body ↦ canonicalizeBody body .org)).map
        PostBody.text = some "text\n".toList := by
  constructor <;> decide

end Idempotence

end Jaunder.Common.Body
