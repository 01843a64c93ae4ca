import Jaunder.Foundation.Substrings
import Mathlib.Data.List.DropRight
import Mathlib.Tactic

namespace Jaunder.Elisp.OrgLinks

open Foundation.Substrings (stripPrefix)

/-- A link as `org-element` reports it. Positions count the characters of the parsed text, and the
end is the one in front of the blanks behind the link. -/
structure OrgLink where
  type : String
  path : List Char
  rawLink : List Char
  searchOption : Option (List Char)
  start : ℕ
  stop : ℕ
  contents : Option (ℕ × ℕ)
deriving DecidableEq

/-- What the client uses of Emacs. An attachment is looked up in a buffer, given by its settings and
its text, where the lookup may signal. -/
structure Emacs where
  Settings : Type
  inFileSettings : List Char → Settings
  links : Settings → List Char → List OrgLink
  unhex : List Char → List Char
  expandFileName : List Char → List Char
  isFileNameAbsolute : List Char → Bool
  orgAttachExpand : Settings → List Char → OrgLink → List Char → Option (List Char)

/-- `jaunder--org-link->record`. -/
structure LinkRecord where
  type : String
  path : List Char
  rawLink : List Char
  searchOption : Option (List Char)
  file : Option (List Char)
deriving DecidableEq

section Records

variable (emacs : Emacs)

def orgLinkFile (settings : emacs.Settings) (text : List Char) (link : OrgLink) : Option (List Char) :=
  let path := emacs.unhex (link.path.takeWhile (· ≠ '#'))
  if link.type = "attachment" then emacs.orgAttachExpand settings text link path
  else some (emacs.expandFileName path)

def isLocalType (type : String) : Bool := type = "file" ∨ type = "attachment"

def orgLinkToRecord (settings : emacs.Settings) (text : List Char) (link : OrgLink) :
    Option LinkRecord :=
  if isLocalType link.type then
    (orgLinkFile emacs settings text link).map
      (fun file ↦ ⟨link.type, link.path, link.rawLink, link.searchOption, some file⟩)
  else some ⟨link.type, link.path, link.rawLink, link.searchOption, none⟩

def records (settings : emacs.Settings) (text : List Char) : Option (List LinkRecord) :=
  (emacs.links settings text).mapM (orgLinkToRecord emacs settings text)

def localPostLinkCandidate (record : LinkRecord) : Bool :=
  let filePart := record.path.takeWhile (fun c ↦ c ≠ '?' ∧ c ≠ '#')
  record.type = "file" ∧ emacs.isFileNameAbsolute filePart = false ∧
    ".org".toList.isSuffixOf filePart

def mediaLink (record : LinkRecord) : Bool :=
  isLocalType record.type ∧ localPostLinkCandidate emacs record = false

end Records

section Substitution

variable (emacs : Emacs)

/-- The text that stands for a link after its rewriting. -/
def bracketLink (description : Option (List Char)) (url : List Char) : List Char :=
  match description with
  | some description => "[[".toList ++ url ++ "][".toList ++ description ++ "]]".toList
  | none => "[[".toList ++ url ++ "]]".toList

def substring (start stop : ℕ) (text : List Char) : List Char := (text.take stop).drop start

def rewriteLink (text : List Char) (pair : OrgLink × List Char) : List Char :=
  let (link, url) := pair
  let description := link.contents.map (fun (start, stop) ↦ substring start stop text)
  text.take link.start ++ bracketLink description url ++ text.drop link.stop

/-- `jaunder--org-substitute-links`; the links are rewritten from the last to the first. -/
def orgSubstituteLinks (body : List Char) (predicate : LinkRecord → Bool) (urls : List (List Char)) :
    Option (List Char) := do
  let settings := emacs.inFileSettings body
  let links := emacs.links settings body
  let records ← records emacs settings body
  let selected := ((links.zip records).filter (fun pair ↦ predicate pair.2)).map Prod.fst
  return (selected.zip urls).reverse.foldl rewriteLink body

end Substitution

section Publishing

/-- The answers of the server and the checks of the client around them: the address of the Post that a
Local Post Link names, whether a file can be uploaded, and its address after the upload. -/
structure Services where
  postHref : LinkRecord → Option (List Char)
  preflight : List Char → Bool
  uploadMedia : List Char → Option (List Char)

/-- A buffer with a Post: its text in front of `jaunder--body-start` and behind it. -/
structure PostBuffer where
  header : List Char
  region : List Char

variable (emacs : Emacs) (services : Services)

def PostBuffer.settings (buffer : PostBuffer) : emacs.Settings :=
  emacs.inFileSettings (buffer.header ++ buffer.region)

/-- `jaunder--org-body-links`. -/
def orgBodyLinks (buffer : PostBuffer) : Option (List LinkRecord) :=
  records emacs (buffer.settings emacs) buffer.region

/-- `string-trim-right`. -/
def stringTrimRight (text : List Char) : List Char :=
  text.rdropWhile (fun c ↦ c ∈ [' ', '\t', '\n', '\r'])

def localizePostLinks (buffer : PostBuffer) (body : List Char) : Option (List Char) := do
  let candidates := (← orgBodyLinks emacs buffer).filter (localPostLinkCandidate emacs)
  if candidates = [] then return body
  let urls ← candidates.mapM services.postHref
  orgSubstituteLinks emacs body (localPostLinkCandidate emacs) urls

/-- The addresses of the files that have been uploaded. -/
abbrev UploadCache : Type := List (List Char × List Char)

def uploadEach : List (List Char) → UploadCache → Option UploadCache
  | [], cache => some cache
  | path :: paths, cache => do
    if (cache.lookup path).isSome then uploadEach paths cache
    else
      let url ← services.uploadMedia path
      uploadEach paths ((path, url) :: cache)

def localizeMedia (buffer : PostBuffer) (body : List Char) : Option (List Char) := do
  let media := (← orgBodyLinks emacs buffer).filter (mediaLink emacs)
  let paths := media.filterMap LinkRecord.file
  if paths.all services.preflight = false then none
  else
    let cache ← uploadEach services paths []
    orgSubstituteLinks emacs body (mediaLink emacs)
      (paths.map (fun path ↦ (cache.lookup path).getD []))

/-- The body that is sent for a buffer. -/
def publishedBody (buffer : PostBuffer) : Option (List Char) := do
  let body ← localizePostLinks emacs services buffer (stringTrimRight buffer.region)
  localizeMedia emacs services buffer body

end Publishing

end Jaunder.Elisp.OrgLinks
