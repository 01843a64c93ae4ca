import Jaunder.Common.Body
import Jaunder.Common.SlugTitles
import Jaunder.Foundation.Outcome

namespace Jaunder.Common.PostNaming

open Foundation.Outcome (bind_eq_ok)
open Foundation.TextLines (Line joinLines lines)
open Jaunder.Common.Body (PostBody)
open Jaunder.Common.PostText (isWhitespace postTitle trim trimEnd)
open Jaunder.Common.Render
open Jaunder.Common.Slug

structure PostTitle where
  text : List Char
  valid : postTitle text = some text
deriving DecidableEq

theorem trim_trim (s : List Char) : trim (trim s) = trim s := by
  have hdrop : (trim s).dropWhile isWhitespace = trim s := by
    cases htrim : trim s with
    | nil => rfl
    | cons c cs =>
      obtain ⟨more, hmore⟩ : trim s <+: s.dropWhile isWhitespace := List.rdropWhile_prefix _ _
      rw [htrim, List.cons_append] at hmore
      have hhead := List.head_dropWhile_not isWhitespace (l := s) (by rw [← hmore]; simp)
      simp only [← hmore, List.head_cons] at hhead
      rw [List.dropWhile_cons_of_neg (by simp [hhead])]
  have hcut : trimEnd (trim s) = trim s := List.rdropWhile_idempotent _ _
  calc trim (trim s) = trimEnd ((trim s).dropWhile isWhitespace) := rfl
    _ = trim s := by rw [hdrop, hcut]

theorem postTitle_postTitle {s t : List Char} (h : postTitle s = some t) :
    postTitle t = some t := by
  rw [postTitle] at h
  split_ifs at h with hseparator
  simp only [PostText.nonEmpty] at h
  split_ifs at h with hempty
  obtain rfl := Option.some.inj h
  have hsub : ∀ c ∈ trim s, c ∈ s := fun c hc ↦
    (List.dropWhile_suffix _).subset ((List.rdropWhile_prefix _ _).subset hc)
  have hclean : (trim s).any PostText.isLineSeparator = false := by
    rw [List.any_eq_false]
    intro c hc hsep
    exact hseparator (List.any_eq_true.mpr ⟨c, hsub c hc, hsep⟩)
  rw [postTitle, if_neg (by simp [hclean]), PostText.nonEmpty, trim_trim]
  exact if_neg hempty

def PostTitle.fromStr (s : List Char) : Option PostTitle :=
  match h : postTitle s with
  | some t => some ⟨t, postTitle_postTitle h⟩
  | none => none

def nonEmptyTrimmedPrefix (s : List Char) : Option (List Char) :=
  let trimmed := trimEnd s
  if trimmed ≠ [] then some trimmed else none

def isSentenceEnd (c : Char) : Bool := c = '.' ∨ c = '!' ∨ c = '?'

/-- The text up to the last character of a kind, with it. -/
def upToLast (kind : Char → Bool) (s : List Char) : List Char := s.rdropWhile (fun c ↦ !kind c)

def truncateAtTextBoundary (input : List Char) (maxScalars : ℕ) : List Char :=
  if input.length ≤ maxScalars then input
  else
    let hardCap := input.take maxScalars
    match nonEmptyTrimmedPrefix (upToLast isSentenceEnd hardCap) with
    | some sentence => sentence
    | none =>
      match nonEmptyTrimmedPrefix (upToLast isWhitespace hardCap).dropLast with
      | some word => word
      | none => hardCap

def stripPrefix (pre s : List Char) : Option (List Char) :=
  if pre.isPrefixOf s then some (s.drop pre.length) else none

/-- The loop of `extract_markdown_title`: the title, and the lines that stay. -/
def markdownTitleLoop : Option (List Char) → List Line → Option (List Char) × List Line
  | found, [] => (found, [])
  | some title, line :: rest =>
    let (found, output) := markdownTitleLoop (some title) rest
    (found, line :: output)
  | none, line :: rest =>
    let trimmed := trim line
    if trimmed = [] then markdownTitleLoop none rest
    else
      match stripPrefix ['#', ' '] trimmed with
      | some title => markdownTitleLoop (some (trim title)) rest
      | none =>
        let (found, output) := markdownTitleLoop none rest
        (found, line :: output)

def extractMarkdownTitle (body : List Char) : Option (List Char × List Char) :=
  let (found, output) := markdownTitleLoop none (lines body)
  found.map (fun title ↦ (title, trim (joinLines output)))

def splitOnce (sep : Char) (s : List Char) : Option (List Char × List Char) :=
  if sep ∈ s then
    some (s.takeWhile (fun c ↦ !decide (c = sep)), (s.dropWhile (fun c ↦ !decide (c = sep))).tail)
  else none

def eqIgnoreAsciiCase (s t : List Char) : Bool := s.map Char.toLower = t.map Char.toLower

/-- What a line of the header block says. -/
inductive OrgHeader
  | title (title : List Char)
  | skipped
  | heading (title : List Char)
  | content

def orgHeader (trimmed : List Char) : OrgHeader :=
  let heading :=
    match stripPrefix ['*', ' '] trimmed with
    | some title => .heading (trim title)
    | none => .content
  match splitOnce ':' trimmed with
  | some (key, value) =>
    if eqIgnoreAsciiCase key "#+title".toList ∧ trim value ≠ [] then .title (trim value)
    else if "#+".toList.isPrefixOf key then .skipped
    else heading
  | none => heading

/-- The loop of `extract_org_title`. -/
def orgTitleLoop : List Line → Option (List Char × List Line)
  | [] => none
  | line :: rest =>
    let trimmed := trim line
    if trimmed = [] then orgTitleLoop rest
    else
      match orgHeader trimmed with
      | .title title => some (title, rest)
      | .skipped => orgTitleLoop rest
      | .heading title => some (title, rest)
      | .content => none

def extractOrgTitle (body : List Char) : Option (List Char × List Char) :=
  (orgTitleLoop (lines body)).map (fun (title, output) ↦ (title, trim (joinLines output)))

inductive NamingError
  | invalidPostTitle
  | unreachable
deriving DecidableEq

def firstMeaningfulLine (body : PostBody) : Except NamingError (List Char) :=
  match ((lines body.text).map trim).find? (· ≠ []) with
  | some line => .ok (truncateAtTextBoundary line 100)
  | none => .error .unreachable

/-- The title that the author gave or the body begins with. -/
def publicTitle (explicitTitle : Option PostTitle) (body : PostBody) (format : PostFormat) :
    Except NamingError (Option PostTitle) :=
  match explicitTitle with
  | some title => .ok (some title)
  | none =>
    let trimmed := trim body.text
    let extracted :=
      match format with
      | .markdown => (extractMarkdownTitle trimmed).map Prod.fst
      | .org => (extractOrgTitle trimmed).map Prod.fst
      | .html => none
    match extracted with
    | none => .ok none
    | some extracted =>
      match PostTitle.fromStr extracted with
      | some title => .ok (some title)
      | none => .error .invalidPostTitle

/-- The text that the slug is made of. -/
def slugSeed (title : Option PostTitle) (body : PostBody) : Except NamingError (List Char) :=
  match title with
  | some title => .ok title.text
  | none => firstMeaningfulLine body

def derivePostNaming (d : UnicodeData) (explicitTitle : Option PostTitle) (body : PostBody)
    (format : PostFormat) : Except NamingError (Option PostTitle × List Char) := do
  let title ← publicTitle explicitTitle body format
  let seed ← slugSeed title body
  match fromStr d.unicode (slugifyTitle d.unicode seed) with
  | some slug => .ok (title, slug)
  | none => .error .unreachable

section Naming

variable {explicitTitle title : Option PostTitle} {body : PostBody} {format : PostFormat}
  {seed : List Char} {d : UnicodeData}

/-- A body has a line for an untitled post to be named by. -/
theorem firstMeaningfulLine_ok (body : PostBody) :
    ∃ line, firstMeaningfulLine body = .ok line := by
  rw [firstMeaningfulLine]
  cases hfind : ((lines body.text).map trim).find? (· ≠ []) with
  | some line => exact ⟨_, rfl⟩
  | none =>
    have hvalid := body.valid
    rw [List.find?_eq_none] at hfind
    have hall : (lines body.text).all (fun line ↦ trim line = []) = true := by
      rw [List.all_eq_true]
      intro line hline
      have hblank := hfind (trim line) (List.mem_map_of_mem hline)
      simpa using hblank
    exact absurd (hall.symm.trans hvalid) nofun

theorem slugSeed_ok (title : Option PostTitle) (body : PostBody) :
    ∃ seed, slugSeed title body = .ok seed := by
  cases title with
  | some title => exact ⟨title.text, rfl⟩
  | none => exact firstMeaningfulLine_ok body

/-- The names of a post whose title is known: the slug is parsed from what the seed gives. -/
theorem derivePostNaming_of_seed (htitle : publicTitle explicitTitle body format = .ok title)
    (hseed : slugSeed title body = .ok seed) :
    derivePostNaming d explicitTitle body format =
      match fromStr d.unicode (slugifyTitle d.unicode seed) with
      | some slug => .ok (title, slug)
      | none => .error .unreachable := by
  rw [derivePostNaming, htitle]
  change (slugSeed title body >>= _) = _
  rw [hseed]
  rfl

/-- A seed is named by the slug that it gives, or the server stops. -/
theorem derivePostNaming_cases (hd : d.Documented)
    (htitle : publicTitle explicitTitle body format = .ok title)
    (hseed : slugSeed title body = .ok seed) :
    if IsSlug d.unicode (slugifyTitle d.unicode seed) then
      derivePostNaming d explicitTitle body format = .ok (title, slugifyTitle d.unicode seed)
    else derivePostNaming d explicitTitle body format = .error .unreachable := by
  rw [derivePostNaming_of_seed htitle hseed]
  split_ifs with hslug
  · have hparse : fromStr d.unicode (slugifyTitle d.unicode seed) = _ := hslug
    rw [hparse]
  · cases hparse : fromStr d.unicode (slugifyTitle d.unicode seed) with
    | none => rfl
    | some slug =>
      have hsame := (fromStr_normal hparse).symm.trans (slugifyTitle_normal hd)
      rw [hsame] at hparse
      exact absurd hparse hslug

theorem derivePostNaming_reachable_iff (hd : d.Documented)
    (htitle : publicTitle explicitTitle body format = .ok title)
    (hseed : slugSeed title body = .ok seed) :
    (fromStr d.unicode (slugifyTitle d.unicode seed) = some (slugifyTitle d.unicode seed) ∧
        derivePostNaming d explicitTitle body format ≠ .error .unreachable) ↔
      Clear d (items d.unicode (d.unicode.graphemes (d.normalize seed))) := by
  have hcases := derivePostNaming_cases hd htitle hseed
  rw [← slugifyTitle_isSlug_iff hd]
  constructor
  · exact And.left
  · intro hslug
    rw [if_pos hslug] at hcases
    refine ⟨hslug, ?_⟩
    rw [hcases]
    exact nofun

/-- A body is named when its title, if it begins with one, is valid and its seed gives a slug. -/
theorem derivePostNaming_ok_iff (hd : d.Documented) :
    (∃ slug, derivePostNaming d explicitTitle body format = .ok (title, slug)) ↔
      ∃ seed, publicTitle explicitTitle body format = .ok title ∧ slugSeed title body = .ok seed ∧
        Clear d (items d.unicode (d.unicode.graphemes (d.normalize seed))) := by
  constructor
  · rintro ⟨slug, h⟩
    obtain ⟨title', htitle, h⟩ := bind_eq_ok.mp h
    obtain ⟨seed, hseed, h⟩ := bind_eq_ok.mp h
    cases hparse : fromStr d.unicode (slugifyTitle d.unicode seed) with
    | none =>
      rw [hparse] at h
      exact absurd h nofun
    | some slug' =>
      rw [hparse] at h
      obtain ⟨rfl, -⟩ := Prod.mk.inj (Except.ok.inj h)
      have hsame := (fromStr_normal hparse).symm.trans (slugifyTitle_normal hd)
      rw [hsame] at hparse
      exact ⟨seed, htitle, hseed, (slugifyTitle_isSlug_iff hd).mp hparse⟩
  · rintro ⟨seed, htitle, hseed, hclear⟩
    have hcases := derivePostNaming_cases hd htitle hseed
    rw [if_pos ((slugifyTitle_isSlug_iff hd).mpr hclear)] at hcases
    exact ⟨_, hcases⟩

def headedBody : PostBody :=
  ⟨['#', ' ', 'a', zeroWidthSpace, fatha, 'b', '\n'], by decide⟩

theorem derivePostNaming_reachable_sample :
    (fromStr sampleData.unicode (slugifyTitle sampleData.unicode ['A', ' ', 'b']) =
        some (slugifyTitle sampleData.unicode ['A', ' ', 'b']) ∧
      derivePostNaming sampleData none ⟨['#', ' ', 'A', ' ', 'b'], by decide⟩ .markdown ≠
        .error .unreachable) ↔
      Clear sampleData (items sampleData.unicode
        (sampleData.unicode.graphemes (sampleData.normalize ['A', ' ', 'b']))) :=
  have htitle : publicTitle none ⟨['#', ' ', 'A', ' ', 'b'], by decide⟩ .markdown =
      .ok (some ⟨['A', ' ', 'b'], by decide⟩) := by decide
  derivePostNaming_reachable_iff sampleData_documented htitle rfl

/-- A title whose mark stands behind a dropped character. -/
theorem derivePostNaming_panics : sampleData.Documented ∧
    slugifyTitle sampleData.unicode ['a', zeroWidthSpace, fatha, 'b'] = ['a', '-', fatha, 'b'] ∧
      fromStr sampleData.unicode ['a', '-', fatha, 'b'] = none ∧
        derivePostNaming sampleData none headedBody .markdown = .error .unreachable := by
  exact ⟨sampleData_documented, by decide, by decide, by decide⟩

end Naming

end Jaunder.Common.PostNaming
