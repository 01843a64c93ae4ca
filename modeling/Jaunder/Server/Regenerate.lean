import Jaunder.Common.Media
import Jaunder.Storage.Publisher
import Jaunder.Storage.Syndication

namespace Jaunder.Server.Regenerate

open Foundation.Calendar Foundation.Decimal
open Jaunder.Common.Copyright Jaunder.Common.Feed Jaunder.Common.Hash Jaunder.Common.Owned
open Jaunder.Common.SqliteTime Jaunder.Common.Time
open Jaunder.Host.Etag Jaunder.Host.FeedPath Jaunder.Host.Metadata
open Jaunder.Storage.Dialect Jaunder.Storage.FeedCache Jaunder.Storage.Publisher
open Jaunder.Storage.Schema Jaunder.Storage.Syndication

/-- The functions that rendering takes from elsewhere: the hash, URL resolution, the HTML
projections and the three serializers, of which Atom's can fail. -/
structure FeedLibrary where
  sha256 : List UInt8 → ContentHash
  join : Text → String → Text
  renderedTitleVisibleText : Text → Text
  summarizeRenderedHtml : Text → Option Text
  renderRss : FeedMetadata → Vec FeedItem → String
  renderAtom : FeedMetadata → Vec FeedItem → Option String
  renderJson : FeedMetadata → Vec FeedItem → String

inductive RegenerateError
  | badUrl
  | baseUrlRequired
  | storage
  | publisher
deriving DecidableEq

def titleForSurface (siteTitle : Text) : FeedSurface → Text
  | .site => siteTitle
  | .siteTag tag => .compose (siteTitle.value ++ " — #" ++ tag)
  | .user username => .compose (siteTitle.value ++ " — @" ++ username)
  | .userTag username tag => .compose (siteTitle.value ++ " — @" ++ username ++ " #" ++ tag)

def descriptionFromSiteTagline (tagline : Option Text) : FeedSurface → Option Text
  | .site => tagline
  | .siteTag _ => tagline
  | .user _ => none
  | .userTag _ _ => none

/-- `{:04}`, whose width includes the sign. -/
def permalinkYear (year : ℤ) : List Char :=
  if 0 ≤ year then digits 4 year.toNat
  else '-' :: digits (if year.natAbs < 1000 then 3 else 4) year.natAbs

def canonicalPermalinkPath (username : Text) (date : UtcInstant) (slug : Text) : String :=
  "/~" ++ username.value ++ "/" ++ String.ofList (permalinkYear (year date)) ++ "/" ++
    String.ofList (digits 2 (civilMonth (epochDay date)).toNat) ++ "/" ++
    String.ofList (digits 2 (civilDay (epochDay date)).toNat) ++ "/" ++ slug.value

def declarationForPost (createdAt : UtcInstant) (displayName : Option Text) (username : Text)
    (license : ContentLicense) : CopyrightDeclaration :=
  ⟨Int16.ofInt (year createdAt), displayName.elim (.username username) .displayName, license⟩

/-- `urlencoding::encode` keeps the same characters as the media segments do. -/
def canonicalPath : FeedSurface → String
  | .site => "/"
  | .siteTag tag => "/tags/" ++ Common.Media.utf8PercentEncode tag ++ "/"
  | .user username => "/~" ++ username ++ "/"
  | .userTag username tag => "/~" ++ username ++ "/tags/" ++ Common.Media.utf8PercentEncode tag ++ "/"

variable (lib : FeedLibrary)

def buildFeedItem (base : Text) (record : SyndicationPostRecord) : FeedItem :=
  let p := record.post
  let publishedAt := p.publishedAt.getD p.createdAt
  { id := p.postId
    copyrightDeclaration := declarationForPost p.createdAt record.author.displayName
      record.author.username record.author.contentLicense
    renderedTitle := p.renderedTitle
    visibleTitle := (p.renderedTitle.map lib.renderedTitleVisibleText).filter
      (fun title ↦ !title.value.isEmpty)
    permalink := lib.join base (canonicalPermalinkPath record.author.username publishedAt p.slug)
    summary := p.summary.or (lib.summarizeRenderedHtml p.renderedHtml)
    contentHtml := p.renderedHtml
    publishedAt := publishedAt
    updatedAt := p.updatedAt
    tags := .collect (record.tags.map Prod.snd) }

def feedMetadata (snapshot : PublisherSnapshot) (base : Text) (feedPath : FeedPath)
    (representationModifiedAt : UtcInstant) : FeedMetadata where
  title := titleForSurface snapshot.identity.title feedPath.surface
  description := descriptionFromSiteTagline snapshot.identity.tagline feedPath.surface
  canonicalUrl := lib.join base (canonicalPath feedPath.surface)
  selfUrl := lib.join base feedPath.text
  hubUrl := snapshot.feeds.websubHubUrl
  representationModifiedAt := representationModifiedAt

def renderBody (format : FeedFormat) (metadata : FeedMetadata) (items : Vec FeedItem) :
    Option String :=
  match format with
  | .rss => some (lib.renderRss metadata items)
  | .atom => lib.renderAtom metadata items
  | .json => some (lib.renderJson metadata items)

/-- `render`, with the posts that its query reads and the instant that it reads from the clock. -/
def render (b : Backend) (snapshot : PublisherSnapshot) (posts : Database) (feedPath : FeedPath)
    (generatedAt : UtcInstant) : Except RegenerateError FeedCacheRow :=
  let representationModifiedAt := generatedAt.wholeSeconds
  let published := listPublishedInWindow b posts feedPath.surface snapshot.feeds.window generatedAt
    .anonymous
  match snapshot.identity.baseUrl with
  | none => .error .baseUrlRequired
  | some base =>
    let items := Vec.collect (published.map (buildFeedItem lib base))
    let metadata := feedMetadata lib snapshot base feedPath representationModifiedAt
    match renderBody lib feedPath.format metadata items with
    | none => .error .publisher
    | some body =>
      let fingerprint := feedSemanticFingerprint lib.sha256 feedPath.format metadata items
      match FeedCacheRow.new feedPath ⟨feedPath.format, body⟩
        (feedEtag lib.sha256 fingerprint representationModifiedAt) representationModifiedAt
        generatedAt fingerprint with
      | none => .error .badUrl
      | some row => .ok row

variable {lib} {b : Backend} {snapshot : PublisherSnapshot} {posts : Database} {feedPath : FeedPath}
  {generatedAt : UtcInstant} {row : FeedCacheRow}

/-- What a rendered row says about the request that it answers. -/
theorem render_spec (h : render lib b snapshot posts feedPath generatedAt = .ok row) :
    row.feedPath = feedPath ∧ row.generatedAt = generatedAt ∧
      row.representationModifiedAt = generatedAt.wholeSeconds := by
  rw [render] at h
  cases hbase : snapshot.identity.baseUrl with
  | none =>
    rw [hbase] at h
    exact absurd h (by simp)
  | some base =>
    simp only [hbase] at h
    split at h
    · exact absurd h (by simp)
    · rw [FeedCacheRow.new, dif_pos rfl] at h
      obtain rfl := Except.ok.inj h
      exact ⟨rfl, rfl, wholeSeconds_idem _⟩

/-- Renders the permalinks one to a line, and hashes by the sum of the bytes. -/
def plainLibrary : FeedLibrary where
  sha256 bytes := .replicate ⟨(bytes.map UInt8.toNat).sum % 7, by omega⟩
  join base path := .compose (base.value ++ path)
  renderedTitleVisibleText title := title
  summarizeRenderedHtml _ := none
  renderRss _ items := String.join (items.toList.map (fun item ↦ item.permalink.value ++ "\n"))
  renderAtom _ items :=
    some (String.join (items.toList.map (fun item ↦ item.permalink.value ++ "\n")))
  renderJson _ items := String.join (items.toList.map (fun item ↦ item.permalink.value ++ "\n"))

end Jaunder.Server.Regenerate
