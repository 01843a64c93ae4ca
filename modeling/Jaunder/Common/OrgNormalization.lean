import Jaunder.Common.Etag
import Jaunder.Common.Org
import Jaunder.Common.PostNaming
import Jaunder.Foundation.Octets
import Jaunder.Foundation.Outcome

namespace Jaunder.Common.Org

open Foundation.Octets Foundation.Outcome
open Foundation.TextLines (Line joinLines)
open Jaunder.Common.Body (PostBody canonicalizeBody trimStart)
open Jaunder.Common.Etag (ETag isValidEtag)
open Jaunder.Common.PostNaming (PostTitle derivePostNaming splitOnce stripPrefix)
open Jaunder.Common.PostText (isWhitespace tagLabel trim)
open Jaunder.Common.Render Jaunder.Common.Tag Jaunder.Common.Time Jaunder.Common.Visibility
open Jaunder.Common.Slug (UnicodeData)

section Values

structure PostSummary where
  text : List Char
  valid : ∃ s, PostText.postSummary s = some text
deriving DecidableEq

def PostSummary.fromStr (s : List Char) : Option PostSummary :=
  match h : PostText.postSummary s with
  | some text => some ⟨text, s, h⟩
  | none => none

def tagLabelFromStr (s : List Char) : Option TagLabel :=
  (tagLabel s).bind (fun label ↦
    if h : isTag (label.map lowercase) = true then
      some ⟨String.ofList label, by rwa [String.toList_ofList]⟩
    else none)

def isAscii (s : List Char) : Bool := s.all (fun c ↦ c.toNat < 128)

def isAsciiPunctuation (c : Char) : Bool :=
  (33 ≤ c.toNat ∧ c.toNat ≤ 47) ∨ (58 ≤ c.toNat ∧ c.toNat ≤ 64) ∨
    (91 ≤ c.toNat ∧ c.toNat ≤ 96) ∨ (123 ≤ c.toNat ∧ c.toNat ≤ 126)

def isAsciiWhitespace (c : Char) : Bool := c.toNat ∈ [0x20, 0x09, 0x0A, 0x0C, 0x0D]

/-- The loop of `TagLabel::normalize_keyword`. -/
def normalizedKeyword (term : List Char) : List Char :=
  term.foldl (fun normalized c ↦
    if isAsciiPunctuation c ∨ isAsciiWhitespace c then
      if normalized.getLast? = some '-' then normalized else normalized ++ ['-']
    else normalized ++ [c.toLower]) []

def normalizeKeyword (term : List Char) : Option TagLabel :=
  match if isAscii (trim term) then tagLabelFromStr term else none with
  | some label => some label
  | none =>
    if isAscii term then
      tagLabelFromStr (((normalizedKeyword (trim term)).dropWhile (· = '-')).rdropWhile (· = '-'))
    else none

def maxTagsPerPost : ℕ := 256

/-- The first label of every tag. -/
def firstLabels (labels : List TagLabel) : List TagLabel :=
  labels.foldl (fun out label ↦
    if label.slug ∈ out.map TagLabel.slug then out else out ++ [label]) []

def parseAndValidateTags (labels : List TagLabel) : Option (List TagLabel) :=
  if (firstLabels labels).length > maxTagsPerPost then none else some (firstLabels labels)

def postFormatFromStr (s : List Char) : Option PostFormat :=
  if s = "markdown".toList then some .markdown
  else if s = "org".toList then some .org
  else if s = "html".toList then some .html
  else none

def etagFromStr (s : List Char) : Option String :=
  if isValidEtag (utf8 s) then some (String.ofList s) else none

end Values

/-- What is read by other libraries: the children of the first section of a parsed document, each
with whether it is a keyword and its end in bytes, and times. -/
structure Readers where
  section_ : List Char → Option (List (Bool × ℕ))
  instant : List Char → Option UtcInstant
  Date : Type
  date : List Char → Option Date
  weekday : Date → List Char
  DateTime : Type
  sameDateTime : DecidableEq DateTime
  dateTime : List Char → Option DateTime
  TimeZone : Type
  timeZone : List Char → Option TimeZone
  compatible : TimeZone → DateTime → Option UtcInstant
  toDateTime : TimeZone → UtcInstant → DateTime

instance (r : Readers) : DecidableEq r.DateTime := r.sameDateTime

structure OrgStructuredMetadata where
  title : Presence PostTitle
  summary : Presence PostSummary
  tags : Presence (List TagLabel)
  audiences : Presence (List AudienceTarget)
  lifecycle : Presence PublicationState
deriving DecidableEq

inductive OrgOperation
  | create
  | update (postId : ℤ)
deriving DecidableEq

structure OrgEffectiveMetadata where
  title : Presence PostTitle
  summary : Presence PostSummary
  tags : Presence (List TagLabel)
  audiences : Presence (List AudienceTarget)
  lifecycle : Presence PublicationState
deriving DecidableEq

structure OrgNormalization where
  body : PostBody
  metadata : OrgEffectiveMetadata
  bookkeeping : OrgBookkeeping
deriving DecidableEq

/-- A rejected request, or the panic of a body that no slug can be derived from. -/
inductive OrgFailure
  | rejected (error : OrgMetadataError)
  | unreachable
deriving DecidableEq

structure HeaderFields where
  titles : List (List Char)
  summaries : List (List Char)
  tags : List TagLabel
  audiences : List AudienceTarget
  date : Option (List Char)
  timezone : Option (List Char)
  status : Option (List Char)
  bookkeeping : OrgBookkeeping

def HeaderFields.default : HeaderFields :=
  ⟨[], [], [], [], none, none, none, ⟨none, none, none, none, none, none⟩⟩

inductive HeaderKeyword
  | title (value : List Char)
  | description (value : List Char)
  | keywords (value : List Char)
  | date (value : List Char)
  | property (value : List Char)

inductive PropertyName
  | dateTimezone
  | status
  | audience
  | slug
  | format
  | id
  | synced
  | syncedAt
  | dateUtc

inductive PropertyLine
  | unknown
  | recognized (name : PropertyName) (value : List Char)

abbrev Parsed (α : Type) : Type := Except OrgMetadataError α

def invalid {α : Type} (message : String) : Parsed α := .error (.invalid message)

def nonblank (value : List Char) (field : String) : Parsed (List Char) :=
  if value = [] then invalid (field ++ " must not be blank") else .ok value

/-- `set_once` and `set_bookkeeping`. -/
def setOnce {α : Type} (slot : Option α) (value : α) (name : String) : Parsed (Option α) :=
  match slot with
  | some _ => invalid ("duplicate " ++ name)
  | none => .ok (some value)

def keyword (line : Line) : Option (List Char × List Char) := do
  let (key, value) ← splitOnce ':' (trimStart line)
  let key ← stripPrefix ['#', '+'] key
  return (key.map Char.toLower, value)

def headerKeyword (line : Line) : Option HeaderKeyword :=
  match keyword line with
  | none => none
  | some (name, value) =>
    let trimmed := trim value
    if name = "title".toList then some (.title trimmed)
    else if name = "description".toList then some (.description trimmed)
    else if name = "keywords".toList then some (.keywords value)
    else if name = "date".toList then some (.date trimmed)
    else if name = "property".toList then some (.property trimmed)
    else none

def propertyName (name : List Char) : Option PropertyName :=
  let lower := name.map Char.toLower
  if lower = "jaunder_date_tz".toList then some .dateTimezone
  else if lower = "jaunder_status".toList then some .status
  else if lower = "jaunder_audience".toList then some .audience
  else if lower = "jaunder_slug".toList then some .slug
  else if lower = "jaunder_format".toList then some .format
  else if lower = "jaunder_id".toList then some .id
  else if lower = "jaunder_synced".toList then some .synced
  else if lower = "jaunder_synced_at".toList then some .syncedAt
  else if lower = "jaunder_date_utc".toList then some .dateUtc
  else none

def propertyLine (value : List Char) : Parsed PropertyLine :=
  if value.any isWhitespace then
    let name := value.takeWhile (fun c ↦ ¬isWhitespace c)
    match propertyName name with
    | none => .ok .unknown
    | some property => do
      let value ← nonblank (trim (value.drop (name.length + 1))) "PROPERTY"
      return .recognized property value
  else
    match propertyName value with
    | some _ => invalid "PROPERTY must name a value"
    | none => .ok .unknown

def parseKeywords (value : List Char) : Parsed (List TagLabel) :=
  let terms := (value.splitOn ',').filter (fun term ↦ trim term ≠ [])
  if terms = [] then invalid "KEYWORDS must contain a tag"
  else terms.mapM (fun term ↦ orError (normalizeKeyword term) (.invalid "invalid KEYWORDS tag"))

variable (r : Readers) (d : UnicodeData)

def parseProperty (name : PropertyName) (value : List Char) (fields : HeaderFields) :
    Parsed HeaderFields :=
  match name with
  | .dateTimezone => do
    let timezone ← setOnce fields.timezone value "JAUNDER_DATE_TZ"
    return { fields with timezone }
  | .status => do
    let status ← setOnce fields.status value "JAUNDER_STATUS"
    return { fields with status }
  | .audience => do
    let audience ← parseAudience (String.ofList value)
    return { fields with audiences := fields.audiences ++ [audience] }
  | .slug => do
    let slug ← orError (Slug.fromStr d.unicode value) (.invalid "invalid Jaunder slug")
    let slug ← setOnce fields.bookkeeping.slug (String.ofList slug) "JAUNDER_SLUG"
    return { fields with bookkeeping := { fields.bookkeeping with slug } }
  | .format => do
    let format ← orError (postFormatFromStr value) (.invalid "invalid Jaunder format")
    let format ← setOnce fields.bookkeeping.format format "JAUNDER_FORMAT"
    return { fields with bookkeeping := { fields.bookkeeping with format } }
  | .id => do
    let postId ← orError (parseI64 value) (.invalid "invalid Jaunder ID")
    let postId ← setOnce fields.bookkeeping.postId postId "JAUNDER_ID"
    return { fields with bookkeeping := { fields.bookkeeping with postId } }
  | .synced => do
    let synced ← orError (etagFromStr value) (.invalid "invalid Jaunder sync ETag")
    let synced ← setOnce fields.bookkeeping.synced synced "JAUNDER_SYNCED"
    return { fields with bookkeeping := { fields.bookkeeping with synced } }
  | .syncedAt => do
    let syncedAt ← orError (r.instant value) (.invalid "invalid Jaunder sync time")
    let syncedAt ← setOnce fields.bookkeeping.syncedAt syncedAt "JAUNDER_SYNCED_AT"
    return { fields with bookkeeping := { fields.bookkeeping with syncedAt } }
  | .dateUtc => do
    let dateUtc ← orError (r.instant value) (.invalid "invalid Jaunder publication time")
    let dateUtc ← setOnce fields.bookkeeping.dateUtc dateUtc "JAUNDER_DATE_UTC"
    return { fields with bookkeeping := { fields.bookkeeping with dateUtc } }

/-- The fields after a line that is a header, none after one that is content. -/
def parseHeaderKeyword (line : Line) (fields : HeaderFields) : Parsed (Option HeaderFields) :=
  match headerKeyword line with
  | none => .ok none
  | some (.title value) => do
    let title ← nonblank value "TITLE"
    return some { fields with titles := fields.titles ++ [title] }
  | some (.description value) => do
    let summary ← nonblank value "DESCRIPTION"
    return some { fields with summaries := fields.summaries ++ [summary] }
  | some (.keywords value) => do
    let tags ← parseKeywords value
    return some { fields with tags := fields.tags ++ tags }
  | some (.date value) => do
    let value ← nonblank value "DATE"
    let date ← setOnce fields.date value "DATE"
    return some { fields with date }
  | some (.property value) => do
    match ← propertyLine value with
    | .unknown => return none
    | .recognized name value => return some (← parseProperty r d name value fields)

/-- `split_inclusive`: the line feed stays at its line. -/
def splitInclusive : List Char → List Line
  | [] => []
  | c :: s =>
    if c = '\n' then [c] :: splitInclusive s
    else
      match splitInclusive s with
      | [] => [[c]]
      | line :: rest => (c :: line) :: rest

def stripNewline (sourceLine : Line) : Line :=
  if sourceLine.getLast? = some '\n' then sourceLine.dropLast else sourceLine

def leadingKeywordEnd (source : List Char) : ℕ :=
  match r.section_ source with
  | none => 0
  | some nodes => ((nodes.takeWhile Prod.fst).getLast?.map Prod.snd).getD 0

def handleLine (headerEnd offset : ℕ) (line : Line) (fields : HeaderFields) :
    Parsed (Option HeaderFields) :=
  if offset < headerEnd then parseHeaderKeyword r d line fields else .ok none

/-- The loop of `parse_leading_block`: the fields, and the lines that stay. -/
def headerLoop (headerEnd : ℕ) : ℕ → HeaderFields → List Line → Parsed (HeaderFields × List Line)
  | _, fields, [] => .ok (fields, [])
  | offset, fields, sourceLine :: rest => do
    let line := stripNewline sourceLine
    let next := offset + (utf8 sourceLine).length
    match ← handleLine r d headerEnd offset line fields with
    | some fields => headerLoop headerEnd next fields rest
    | none => do
      let (fields, body) ← headerLoop headerEnd next fields rest
      return (fields, line :: body)

def splitWhitespace (s : List Char) : List (List Char) :=
  (s.splitOnP isWhitespace).filter (fun part ↦ part ≠ [])

def parseOrgDate (value timezone : List Char) : Parsed UtcInstant := do
  let value ← orError
    ((stripPrefix ['['] value).bind (fun v ↦ if v.getLast? = some ']' then some v.dropLast else none))
    (.invalid "DATE must be an inactive Org timestamp")
  match splitWhitespace value with
  | [day, weekday, time] => do
    let date ← orError (r.date day) (.invalid "invalid DATE")
    require (r.weekday date = weekday) (.invalid "DATE weekday does not match date")
    let datetime ← orError (r.dateTime (day ++ 'T' :: time ++ ":00".toList)) (.invalid "invalid DATE")
    let timezone ← orError (r.timeZone timezone) (.invalid "invalid Jaunder timezone")
    let timestamp ← orError (r.compatible timezone datetime) (.invalid "invalid DATE")
    require (r.toDateTime timezone timestamp = datetime) (.invalid "DATE is in a DST gap")
    return timestamp
  | _ => invalid "invalid DATE"

def validateLifecycle (lifecycle : Presence PublicationState) (clock : UtcInstant) : Parsed Unit :=
  match lifecycle with
  | .present (.published at_) =>
    if clock < at_ then invalid "published instant must not be future" else .ok ()
  | _ => .ok ()

def lifecycleInstant (date timezone : Option (List Char)) : Parsed (Option UtcInstant) :=
  match date, timezone with
  | none, none => .ok none
  | some date, some timezone => (parseOrgDate r date timezone).map some
  | _, _ => invalid "DATE and JAUNDER_DATE_TZ must occur together"

/-- The states that a status, in lower case, and an instant can mean. -/
def lifecycleState (status : List Char) (instant : Option UtcInstant) (clock : UtcInstant) :
    Parsed PublicationState :=
  if status = "draft".toList ∧ instant = none then .ok .draft
  else if status = "published".toList then .ok (.published (instant.getD clock))
  else match instant with
    | some at_ =>
      if status = "scheduled".toList ∧ clock < at_ then .ok (.scheduled at_)
      else invalid "invalid JAUNDER_STATUS lifecycle"
    | none => invalid "invalid JAUNDER_STATUS lifecycle"

def parseLifecycle (status date timezone : Option (List Char)) (clock : UtcInstant) :
    Parsed (Presence PublicationState) :=
  match status with
  | none =>
    if date.isSome ∨ timezone.isSome then invalid "DATE and JAUNDER_DATE_TZ require JAUNDER_STATUS"
    else .ok .absent
  | some status => do
    let instant ← lifecycleInstant r date timezone
    let state ← lifecycleState (status.map Char.toLower) instant clock
    validateLifecycle (.present state) clock
    return .present state

structure ParsedBlock where
  body : List Char
  title : Presence PostTitle
  summary : Presence PostSummary
  tags : Presence (List TagLabel)
  audiences : Presence (List AudienceTarget)
  lifecycle : Presence PublicationState
  bookkeeping : OrgBookkeeping

/-- A field that is present when some line has given it. -/
def presentIfAny {α β : Type} (values : List α) (parse : List α → Option β) (error : String) :
    Parsed (Presence β) :=
  if values = [] then .ok .absent
  else (orError (parse values) (.invalid error)).map Presence.present

/-- `parse_leading_block` behind its loop. -/
def parseFields (fields : HeaderFields) (body : List Line) (clock : UtcInstant) :
    Parsed ParsedBlock := do
  let title ← presentIfAny fields.titles (fun titles ↦ PostTitle.fromStr (joinLines titles))
    "invalid TITLE"
  let summary ← presentIfAny fields.summaries
    (fun summaries ↦ PostSummary.fromStr (joinLines summaries)) "invalid DESCRIPTION"
  let tags ← presentIfAny fields.tags parseAndValidateTags "invalid KEYWORDS"
  let audiences := if fields.audiences = [] then .absent else .present fields.audiences
  let lifecycle ← parseLifecycle r fields.status fields.date fields.timezone clock
  return ⟨joinLines body, title, summary, tags, audiences, lifecycle, fields.bookkeeping⟩

def parseLeadingBlock (source : List Char) (clock : UtcInstant) : Parsed ParsedBlock := do
  let (fields, body) ←
    headerLoop r d (leadingKeywordEnd r source) 0 .default (splitInclusive source)
  parseFields r fields body clock

def validateOperation (bookkeeping : OrgBookkeeping) (operation : OrgOperation) : Parsed Unit :=
  match operation with
  | .create =>
    if bookkeeping.postId.isSome ∨ bookkeeping.synced.isSome ∨ bookkeeping.syncedAt.isSome then
      invalid "create cannot include ID or sync bookkeeping"
    else .ok ()
  | .update postId =>
    if bookkeeping.postId.any (· ≠ postId) then invalid "JAUNDER_ID does not match update target"
    else .ok ()

/-- The source of the canonical body: a title that the header gave leaves its mark. -/
def markedSource (body : List Char) (headerSuppliesTitle : Bool) : List Char :=
  if headerSuppliesTitle then "#+TITLE:".toList ++ '\n' :: body else body

def rejected {α : Type} (x : Parsed α) : Except OrgFailure α := x.mapError .rejected

/-- The title that the body begins with. -/
def headingTitle (source : PostBody) : Except OrgFailure (Option PostTitle) :=
  match derivePostNaming d none source .org with
  | .ok (title, _) => .ok title
  | .error .invalidPostTitle => .error (.rejected (.invalid "invalid Post title"))
  | .error .unreachable => .error .unreachable

def canonicalBody (body : List Char) (headerSuppliesTitle : Bool) :
    Except OrgFailure (PostBody × Option PostTitle) := do
  let source ← orError (PostBody.fromStr (markedSource body headerSuppliesTitle))
    (.rejected .metadataOnly)
  let headingTitle ← headingTitle d source
  let canonical ← orError (canonicalizeBody source .org) (.rejected .metadataOnly)
  return (canonical, headingTitle)

def Presence.isPresent {α : Type} : Presence α → Bool
  | .present _ => true
  | .absent => false

def Presence.ofOption {α : Type} : Option α → Presence α
  | some value => .present value
  | none => .absent

def normalizeOrg (source : List Char) (structured : OrgStructuredMetadata)
    (operation : OrgOperation) (requestClock : UtcInstant) : Except OrgFailure OrgNormalization := do
  rejected (validateLifecycle structured.lifecycle requestClock)
  let parsed ← rejected (parseLeadingBlock r d source requestClock)
  rejected (validateOperation parsed.bookkeeping operation)
  let (body, headingTitle) ← canonicalBody d parsed.body parsed.title.isPresent
  let title := choose (choose structured.title parsed.title) (.ofOption headingTitle)
  let summary := choose structured.summary parsed.summary
  let tags := choose structured.tags parsed.tags
  let audiences := choose structured.audiences parsed.audiences
  rejected (validateAudiences audiences)
  let lifecycle := choose structured.lifecycle parsed.lifecycle
  return ⟨body, ⟨title, summary, tags, audiences, lifecycle⟩, parsed.bookkeeping⟩

end Jaunder.Common.Org
