import Jaunder.Common.Copyright
import Jaunder.Common.Render
import Jaunder.Foundation.Json

namespace Jaunder.Common.Seed

open Foundation.Json
open Jaunder.Common.Copyright Jaunder.Common.Render

/-- The validated text types of a presentation. -/
inductive TextType
  | username
  | displayName
  | postTitle
  | postSummary
  | postBody
  | slug
  | tag
  | tagLabel
  | siteTitle
  | siteTagline
  | baseUrl
  | rootRelativeUrl
  | themeRevisionDigest
  | utcInstant
deriving DecidableEq

/-- Their `FromStr`s, which keep what they have accepted. -/
structure TextTypes where
  fromStr : TextType → String → Option String
  accepted : ∀ {type s t}, fromStr type s = some t → fromStr type t = some t

variable (T : TextTypes)

structure Str (type : TextType) where
  value : String
  valid : T.fromStr type value = some value

inductive RegistrationPolicy
  | closed
  | operatorInvites
  | memberInvites
  | «open»
deriving DecidableEq

inductive TimelineOrder
  | newest
  | oldest
deriving DecidableEq

inductive Theme
  | terminal
  | studio
  | reader
deriving DecidableEq

structure TagSummary where
  slug : Str T .tag
  display : Str T .tagLabel

/-- A post in rendered form: its HTML and its rendered title travel as plain strings. -/
structure RenderedPost where
  postId : Int64
  username : Str T .username
  displayName : Option (Str T .displayName)
  contentLicense : Option ContentLicense
  renderedTitle : Option String
  summary : Option (Str T .postSummary)
  slug : Str T .slug
  renderedHtml : String
  createdAt : Str T .utcInstant
  publishedAt : Option (Str T .utcInstant)
  permalink : Option (Str T .rootRelativeUrl)
  isAuthor : Bool
  tags : List (TagSummary T)

structure TimelineCursor where
  publishedAt : Str T .utcInstant
  postId : Int64
  order : TimelineOrder

structure Page where
  posts : List (RenderedPost T)
  nextCursor : Option (TimelineCursor T)
  hasMore : Bool

/-- A post with the source it was authored from. -/
structure AuthoredPost where
  post : RenderedPost T
  title : Option (Str T .postTitle)
  body : Str T .postBody
  format : PostFormat
  permalinkDescription : Option (Str T .postSummary)

structure SiteIdentity where
  title : Str T .siteTitle
  tagline : Option (Str T .siteTagline)
  baseUrl : Option (Str T .baseUrl)

inductive FeedSurface
  | site
  | siteTag (tag : Str T .tag)
  | user (username : Str T .username)
  | userTag (username : Str T .username) (tag : Str T .tag)

inductive PageSeed
  | siteTimeline (identity : SiteIdentity T) (registrationPolicy : RegistrationPolicy)
    (order : TimelineOrder) (page : Page T)
  | profile (username : Str T .username) (order : TimelineOrder) (page : Page T)
  | siteTag (tag : Str T .tag) (order : TimelineOrder) (page : Page T)
  | userTag (username : Str T .username) (tag : Str T .tag) (order : TimelineOrder) (page : Page T)
  | permalink (post : AuthoredPost T)
  | feedDiscovery (surface : FeedSurface T)

inductive PublishedThemeIdentity
  | builtIn (theme : Theme)
  | custom (id : Int64)

structure PublishedThemePresentation where
  identity : PublishedThemeIdentity
  revision : Option (Str T .themeRevisionDigest)
  stylesheetUrl : Str T .rootRelativeUrl
  logoUrl : Option (Str T .rootRelativeUrl)
  headerUrl : Option (Str T .rootRelativeUrl)

structure PublicPresentation where
  theme : PublishedThemePresentation T
  page : PageSeed T

section Serialize

variable {T}

def Str.toJson {type : TextType} (s : Str T type) : Value := .str s.value

def optionToJson {α : Type} (toJson : α → Value) : Option α → Value
  | none => .null
  | some a => toJson a

def idToJson (id : Int64) : Value := .num id.toInt

def RegistrationPolicy.token : RegistrationPolicy → String
  | .closed => "closed"
  | .operatorInvites => "operator_invites"
  | .memberInvites => "member_invites"
  | .open => "open"

def TimelineOrder.token : TimelineOrder → String
  | .newest => "newest"
  | .oldest => "oldest"

def Theme.token : Theme → String
  | .terminal => "terminal"
  | .studio => "studio"
  | .reader => "reader"

def formatToken : PostFormat → String
  | .markdown => "markdown"
  | .org => "org"
  | .html => "html"

def TagSummary.toJson (t : TagSummary T) : Value :=
  .obj [("slug", t.slug.toJson), ("display", t.display.toJson)]

def RenderedPost.toJson (p : RenderedPost T) : Value :=
  .obj [("post_id", idToJson p.postId), ("username", p.username.toJson),
    ("display_name", optionToJson Str.toJson p.displayName),
    ("content_license", optionToJson (fun l ↦ .str l.token) p.contentLicense),
    ("rendered_title", optionToJson .str p.renderedTitle),
    ("summary", optionToJson Str.toJson p.summary), ("slug", p.slug.toJson),
    ("rendered_html", .str p.renderedHtml), ("created_at", p.createdAt.toJson),
    ("published_at", optionToJson Str.toJson p.publishedAt),
    ("permalink", optionToJson Str.toJson p.permalink), ("is_author", .bool p.isAuthor),
    ("tags", .arr (p.tags.map TagSummary.toJson))]

def TimelineCursor.toJson (c : TimelineCursor T) : Value :=
  .obj [("published_at", c.publishedAt.toJson), ("post_id", idToJson c.postId),
    ("order", .str c.order.token)]

def Page.toJson (p : Page T) : Value :=
  .obj [("posts", .arr (p.posts.map RenderedPost.toJson)),
    ("next_cursor", optionToJson TimelineCursor.toJson p.nextCursor), ("has_more", .bool p.hasMore)]

def AuthoredPost.toJson (p : AuthoredPost T) : Value :=
  .obj [("post", p.post.toJson), ("title", optionToJson Str.toJson p.title),
    ("body", p.body.toJson), ("format", .str (formatToken p.format)),
    ("permalink_description", optionToJson Str.toJson p.permalinkDescription)]

/-- An absent tagline is skipped. -/
def SiteIdentity.toJson (i : SiteIdentity T) : Value :=
  .obj (("title", i.title.toJson) :: (i.tagline.toList.map (fun t ↦ ("tagline", t.toJson)) ++
    [("base_url", optionToJson Str.toJson i.baseUrl)]))

def FeedSurface.toJson : FeedSurface T → Value
  | .site => .str "Site"
  | .siteTag tag => .obj [("SiteTag", .obj [("tag", tag.toJson)])]
  | .user username => .obj [("User", .obj [("username", username.toJson)])]
  | .userTag username tag =>
    .obj [("UserTag", .obj [("username", username.toJson), ("tag", tag.toJson)])]

def PageSeed.toJson : PageSeed T → Value
  | .siteTimeline identity registrationPolicy order page =>
    .obj [("SiteTimeline", .obj [("identity", identity.toJson),
      ("registration_policy", .str registrationPolicy.token), ("order", .str order.token),
      ("page", page.toJson)])]
  | .profile username order page =>
    .obj [("Profile", .obj [("username", username.toJson), ("order", .str order.token),
      ("page", page.toJson)])]
  | .siteTag tag order page =>
    .obj [("SiteTag", .obj [("tag", tag.toJson), ("order", .str order.token),
      ("page", page.toJson)])]
  | .userTag username tag order page =>
    .obj [("UserTag", .obj [("username", username.toJson), ("tag", tag.toJson),
      ("order", .str order.token), ("page", page.toJson)])]
  | .permalink post => .obj [("Permalink", post.toJson)]
  | .feedDiscovery surface => .obj [("FeedDiscovery", surface.toJson)]

def PublishedThemeIdentity.toJson : PublishedThemeIdentity → Value
  | .builtIn theme => .obj [("kind", .str "built_in"), ("value", .str theme.token)]
  | .custom id => .obj [("kind", .str "custom"), ("value", idToJson id)]

def PublishedThemePresentation.toJson (t : PublishedThemePresentation T) : Value :=
  .obj [("identity", t.identity.toJson), ("revision", optionToJson Str.toJson t.revision),
    ("stylesheet_url", t.stylesheetUrl.toJson), ("logo_url", optionToJson Str.toJson t.logoUrl),
    ("header_url", optionToJson Str.toJson t.headerUrl)]

def PublicPresentation.toJson (p : PublicPresentation T) : Value :=
  .obj [("theme", p.theme.toJson), ("page", p.page.toJson)]

end Serialize

section Texts

variable {T}

def optionTexts {type : TextType} (o : Option (Str T type)) : List String :=
  o.toList.map Str.value

/-- The texts that a post carries, in the order in which they are serialized. -/
def RenderedPost.texts (p : RenderedPost T) : List String :=
  p.username.value :: (optionTexts p.displayName ++ p.renderedTitle.toList ++
    optionTexts p.summary ++ p.slug.value :: p.renderedHtml :: p.createdAt.value ::
    (optionTexts p.publishedAt ++ optionTexts p.permalink ++
      p.tags.flatMap (fun t ↦ [t.slug.value, t.display.value])))

def Page.texts (p : Page T) : List String :=
  p.posts.flatMap RenderedPost.texts ++ p.nextCursor.toList.map (fun c ↦ c.publishedAt.value)

def AuthoredPost.texts (p : AuthoredPost T) : List String :=
  p.post.texts ++ (optionTexts p.title ++ p.body.value :: optionTexts p.permalinkDescription)

def SiteIdentity.texts (i : SiteIdentity T) : List String :=
  i.title.value :: (optionTexts i.tagline ++ optionTexts i.baseUrl)

def FeedSurface.texts : FeedSurface T → List String
  | .site => []
  | .siteTag tag => [tag.value]
  | .user username => [username.value]
  | .userTag username tag => [username.value, tag.value]

def PageSeed.texts : PageSeed T → List String
  | .siteTimeline identity _ _ page => identity.texts ++ page.texts
  | .profile username _ page => username.value :: page.texts
  | .siteTag tag _ page => tag.value :: page.texts
  | .userTag username tag _ page => username.value :: tag.value :: page.texts
  | .permalink post => post.texts
  | .feedDiscovery surface => surface.texts

def PublishedThemePresentation.texts (t : PublishedThemePresentation T) : List String :=
  optionTexts t.revision ++ t.stylesheetUrl.value :: (optionTexts t.logoUrl ++
    optionTexts t.headerUrl)

def PublicPresentation.texts (p : PublicPresentation T) : List String :=
  p.theme.texts ++ p.page.texts

end Texts

section Deserialize

variable {α : Type}

def lookup (name : String) : List (String × Value) → Option Value
  | [] => none
  | (key, v) :: fields => if key = name then some v else lookup name fields

def required (name : String) (fromJson : Value → Option α) (fields : List (String × Value)) :
    Option α := (lookup name fields).bind fromJson

def nullable (fromJson : Value → Option α) : Value → Option (Option α)
  | .null => some none
  | v => (fromJson v).map some

/-- A missing field of an optional type is absent. -/
def optional (name : String) (fromJson : Value → Option α) (fields : List (String × Value)) :
    Option (Option α) :=
  match lookup name fields with
  | none => some none
  | some v => nullable fromJson v

def listFromJson (fromJson : Value → Option α) : Value → Option (List α)
  | .arr elements => elements.mapM fromJson
  | _ => none

def stringFromJson : Value → Option String
  | .str s => some s
  | _ => none

def boolFromJson : Value → Option Bool
  | .bool b => some b
  | _ => none

def idFromJson : Value → Option Int64
  | .num n => if -2 ^ 63 ≤ n ∧ n < 2 ^ 63 then some (Int64.ofInt n) else none
  | _ => none

/-- The member of a closed enumeration that a token names. -/
def tokenFromJson (all : List α) (token : α → String) : Value → Option α
  | .str s => all.find? (fun a ↦ token a = s)
  | _ => none

def Str.fromJson {type : TextType} : Value → Option (Str T type)
  | .str s =>
    match h : T.fromStr type s with
    | some t => some ⟨t, T.accepted h⟩
    | none => none
  | _ => none

def licenseFromJson : Value → Option ContentLicense :=
  tokenFromJson [.allRightsReserved, .cc0_1_0, .ccBy4_0, .ccBySa4_0, .ccByNd4_0, .ccByNc4_0,
    .ccByNcSa4_0, .ccByNcNd4_0] ContentLicense.token

def RegistrationPolicy.fromJson : Value → Option RegistrationPolicy :=
  tokenFromJson [.closed, .operatorInvites, .memberInvites, .open] RegistrationPolicy.token

def TimelineOrder.fromJson : Value → Option TimelineOrder :=
  tokenFromJson [.newest, .oldest] TimelineOrder.token

def Theme.fromJson : Value → Option Theme :=
  tokenFromJson [.terminal, .studio, .reader] Theme.token

def formatFromJson : Value → Option PostFormat :=
  tokenFromJson [.markdown, .org, .html] formatToken

def TagSummary.fromJson : Value → Option (TagSummary T)
  | .obj fields => do
    return {
      slug := ← required "slug" (Str.fromJson T) fields
      display := ← required "display" (Str.fromJson T) fields }
  | _ => none

def RenderedPost.fromJson : Value → Option (RenderedPost T)
  | .obj fields => do
    return {
      postId := ← required "post_id" idFromJson fields
      username := ← required "username" (Str.fromJson T) fields
      displayName := ← optional "display_name" (Str.fromJson T) fields
      contentLicense := ← optional "content_license" licenseFromJson fields
      renderedTitle := ← required "rendered_title" (nullable stringFromJson) fields
      summary := ← optional "summary" (Str.fromJson T) fields
      slug := ← required "slug" (Str.fromJson T) fields
      renderedHtml := ← required "rendered_html" stringFromJson fields
      createdAt := ← required "created_at" (Str.fromJson T) fields
      publishedAt := ← optional "published_at" (Str.fromJson T) fields
      permalink := ← optional "permalink" (Str.fromJson T) fields
      isAuthor := ← required "is_author" boolFromJson fields
      tags := ← required "tags" (listFromJson (TagSummary.fromJson T)) fields }
  | _ => none

def TimelineCursor.fromJson : Value → Option (TimelineCursor T)
  | .obj fields => do
    return {
      publishedAt := ← required "published_at" (Str.fromJson T) fields
      postId := ← required "post_id" idFromJson fields
      order := ← required "order" TimelineOrder.fromJson fields }
  | _ => none

def Page.fromJson : Value → Option (Page T)
  | .obj fields => do
    return {
      posts := ← required "posts" (listFromJson (RenderedPost.fromJson T)) fields
      nextCursor := ← optional "next_cursor" (TimelineCursor.fromJson T) fields
      hasMore := ← required "has_more" boolFromJson fields }
  | _ => none

def AuthoredPost.fromJson : Value → Option (AuthoredPost T)
  | .obj fields => do
    return {
      post := ← required "post" (RenderedPost.fromJson T) fields
      title := ← optional "title" (Str.fromJson T) fields
      body := ← required "body" (Str.fromJson T) fields
      format := ← required "format" formatFromJson fields
      permalinkDescription := ← optional "permalink_description" (Str.fromJson T) fields }
  | _ => none

def SiteIdentity.fromJson : Value → Option (SiteIdentity T)
  | .obj fields => do
    return {
      title := ← required "title" (Str.fromJson T) fields
      tagline := ← optional "tagline" (Str.fromJson T) fields
      baseUrl := ← optional "base_url" (Str.fromJson T) fields }
  | _ => none

def FeedSurface.fromJson : Value → Option (FeedSurface T)
  | .str "Site" => some .site
  | .obj [("SiteTag", .obj fields)] => do
    return .siteTag (← required "tag" (Str.fromJson T) fields)
  | .obj [("User", .obj fields)] => do
    return .user (← required "username" (Str.fromJson T) fields)
  | .obj [("UserTag", .obj fields)] => do
    return .userTag (← required "username" (Str.fromJson T) fields)
      (← required "tag" (Str.fromJson T) fields)
  | _ => none

def PageSeed.siteTimelineFromJson : Value → Option (PageSeed T)
  | .obj fields => do
    return .siteTimeline (← required "identity" (SiteIdentity.fromJson T) fields)
      (← required "registration_policy" RegistrationPolicy.fromJson fields)
      (← required "order" TimelineOrder.fromJson fields)
      (← required "page" (Page.fromJson T) fields)
  | _ => none

def PageSeed.profileFromJson : Value → Option (PageSeed T)
  | .obj fields => do
    return .profile (← required "username" (Str.fromJson T) fields)
      (← required "order" TimelineOrder.fromJson fields)
      (← required "page" (Page.fromJson T) fields)
  | _ => none

def PageSeed.siteTagFromJson : Value → Option (PageSeed T)
  | .obj fields => do
    return .siteTag (← required "tag" (Str.fromJson T) fields)
      (← required "order" TimelineOrder.fromJson fields)
      (← required "page" (Page.fromJson T) fields)
  | _ => none

def PageSeed.userTagFromJson : Value → Option (PageSeed T)
  | .obj fields => do
    return .userTag (← required "username" (Str.fromJson T) fields)
      (← required "tag" (Str.fromJson T) fields)
      (← required "order" TimelineOrder.fromJson fields)
      (← required "page" (Page.fromJson T) fields)
  | _ => none

def PageSeed.fromJson : Value → Option (PageSeed T)
  | .obj [(variant, v)] =>
    if variant = "SiteTimeline" then siteTimelineFromJson T v
    else if variant = "Profile" then profileFromJson T v
    else if variant = "SiteTag" then siteTagFromJson T v
    else if variant = "UserTag" then userTagFromJson T v
    else if variant = "Permalink" then (AuthoredPost.fromJson T v).map .permalink
    else if variant = "FeedDiscovery" then (FeedSurface.fromJson T v).map .feedDiscovery
    else none
  | _ => none

def PublishedThemeIdentity.fromJson : Value → Option PublishedThemeIdentity
  | .obj fields => do
    let kind ← required "kind" stringFromJson fields
    if kind = "built_in" then return .builtIn (← required "value" Theme.fromJson fields)
    else if kind = "custom" then return .custom (← required "value" idFromJson fields)
    else none
  | _ => none

def PublishedThemePresentation.fromJson : Value → Option (PublishedThemePresentation T)
  | .obj fields => do
    return {
      identity := ← required "identity" PublishedThemeIdentity.fromJson fields
      revision := ← optional "revision" (Str.fromJson T) fields
      stylesheetUrl := ← required "stylesheet_url" (Str.fromJson T) fields
      logoUrl := ← optional "logo_url" (Str.fromJson T) fields
      headerUrl := ← optional "header_url" (Str.fromJson T) fields }
  | _ => none

def PublicPresentation.fromJson : Value → Option (PublicPresentation T)
  | .obj fields => do
    return {
      theme := ← required "theme" (PublishedThemePresentation.fromJson T) fields
      page := ← required "page" (PageSeed.fromJson T) fields }
  | _ => none

end Deserialize

section RoundTrip

variable {T} {α : Type}

@[simp] theorem Str.fromJson_toJson {type : TextType} (s : Str T type) :
    Str.fromJson T s.toJson = some s := by
  obtain ⟨value, valid⟩ := s
  simp only [Str.toJson, Str.fromJson]
  split
  · rename_i t h
    rw [valid] at h
    obtain rfl := Option.some.inj h
    rfl
  · rename_i h
    rw [valid] at h
    cases h

@[simp] theorem idFromJson_idToJson (id : Int64) : idFromJson (idToJson id) = some id := by
  have hlow := id.le_toInt
  have hhigh := id.toInt_lt
  rw [idToJson, idFromJson, if_pos ⟨by simpa using hlow, by simpa using hhigh⟩, Int64.ofInt_toInt]

theorem nullable_optionToJson {toJson : α → Value} {fromJson : Value → Option α}
    (hround : ∀ a, fromJson (toJson a) = some a) (hnull : ∀ a, toJson a ≠ .null) (o : Option α) :
    nullable fromJson (optionToJson toJson o) = some o := by
  cases o with
  | none => rfl
  | some a =>
    rw [optionToJson, nullable, hround]
    · rfl
    · exact hnull a

@[simp] theorem nullable_str {type : TextType} (o : Option (Str T type)) :
    nullable (Str.fromJson T) (optionToJson Str.toJson o) = some o :=
  nullable_optionToJson Str.fromJson_toJson nofun o

@[simp] theorem listFromJson_map {toJson : α → Value} {fromJson : Value → Option α}
    (hround : ∀ a, fromJson (toJson a) = some a) (l : List α) :
    listFromJson fromJson (.arr (l.map toJson)) = some l := by
  rw [listFromJson]
  induction l with
  | nil => rfl
  | cons a l ih => rw [List.map_cons, List.mapM_cons, hround, ih]; rfl

theorem TagSummary.fromJson_toJson (t : TagSummary T) : TagSummary.fromJson T t.toJson = some t := by
  simp [TagSummary.toJson, TagSummary.fromJson, required, lookup]

theorem licenseFromJson_token (l : ContentLicense) : licenseFromJson (.str l.token) = some l := by
  cases l <;> decide

theorem RenderedPost.fromJson_toJson (p : RenderedPost T) :
    RenderedPost.fromJson T p.toJson = some p := by
  have hlicense := @nullable_optionToJson _ (fun l ↦ .str l.token) licenseFromJson
    licenseFromJson_token nofun p.contentLicense
  have htitle := @nullable_optionToJson _ .str stringFromJson (fun _ ↦ rfl) nofun p.renderedTitle
  have htags := listFromJson_map TagSummary.fromJson_toJson p.tags
  simp [RenderedPost.toJson, RenderedPost.fromJson, required, optional, lookup, stringFromJson,
    boolFromJson, hlicense, htitle, htags]

theorem TimelineOrder.fromJson_token (o : TimelineOrder) : fromJson (.str o.token) = some o := by
  cases o <;> decide

theorem RegistrationPolicy.fromJson_token (p : RegistrationPolicy) :
    fromJson (.str p.token) = some p := by
  cases p <;> decide

theorem Theme.fromJson_token (t : Theme) : fromJson (.str t.token) = some t := by
  cases t <;> decide

theorem formatFromJson_token (f : PostFormat) : formatFromJson (.str (formatToken f)) = some f := by
  cases f <;> decide

theorem TimelineCursor.fromJson_toJson (c : TimelineCursor T) :
    TimelineCursor.fromJson T c.toJson = some c := by
  simp [TimelineCursor.toJson, TimelineCursor.fromJson, required, lookup,
    TimelineOrder.fromJson_token]

theorem Page.fromJson_toJson (p : Page T) : Page.fromJson T p.toJson = some p := by
  have hposts := listFromJson_map RenderedPost.fromJson_toJson p.posts
  have hcursor := nullable_optionToJson TimelineCursor.fromJson_toJson nofun p.nextCursor
  simp [Page.toJson, Page.fromJson, required, optional, lookup, boolFromJson, hposts, hcursor]

theorem AuthoredPost.fromJson_toJson (p : AuthoredPost T) :
    AuthoredPost.fromJson T p.toJson = some p := by
  simp [AuthoredPost.toJson, AuthoredPost.fromJson, required, optional, lookup,
    RenderedPost.fromJson_toJson, formatFromJson_token]

theorem SiteIdentity.fromJson_toJson (i : SiteIdentity T) :
    SiteIdentity.fromJson T i.toJson = some i := by
  obtain ⟨title, tagline, baseUrl⟩ := i
  cases tagline with
  | none => simp [SiteIdentity.toJson, SiteIdentity.fromJson, required, optional, lookup]
  | some tagline =>
    have htagline := nullable_str (some tagline)
    rw [optionToJson] at htagline
    simp [SiteIdentity.toJson, SiteIdentity.fromJson, required, optional, lookup, htagline]

theorem FeedSurface.fromJson_toJson (f : FeedSurface T) :
    FeedSurface.fromJson T f.toJson = some f := by
  cases f <;> simp [FeedSurface.toJson, FeedSurface.fromJson, required, lookup]

theorem lookup_self (name : String) (v : Value) (fields : List (String × Value)) :
    lookup name ((name, v) :: fields) = some v := if_pos rfl

theorem lookup_ne {key name : String} {v : Value} {fields : List (String × Value)}
    (h : key ≠ name) : lookup name ((key, v) :: fields) = lookup name fields := if_neg h

theorem PageSeed.siteTimeline_fromJson (identity : SiteIdentity T)
    (registrationPolicy : RegistrationPolicy) (order : TimelineOrder) (page : Page T) :
    PageSeed.fromJson T (PageSeed.siteTimeline identity registrationPolicy order page).toJson =
      some (.siteTimeline identity registrationPolicy order page) := by
  rw [PageSeed.toJson, PageSeed.fromJson, if_pos rfl, PageSeed.siteTimelineFromJson]
  generalize hfields : [("identity", identity.toJson),
    ("registration_policy", Value.str registrationPolicy.token), ("order", .str order.token),
    ("page", page.toJson)] = fields
  have hidentity : lookup "identity" fields = some identity.toJson := by
    rw [← hfields, lookup_self]
  have hpolicy : lookup "registration_policy" fields = some (.str registrationPolicy.token) := by
    rw [← hfields, lookup_ne (by decide), lookup_self]
  have horder : lookup "order" fields = some (.str order.token) := by
    rw [← hfields, lookup_ne (by decide), lookup_ne (by decide), lookup_self]
  have hpage : lookup "page" fields = some page.toJson := by
    rw [← hfields, lookup_ne (by decide), lookup_ne (by decide), lookup_ne (by decide),
      lookup_self]
  simp only [required, hidentity, hpolicy, horder, hpage, SiteIdentity.fromJson_toJson,
    RegistrationPolicy.fromJson_token, TimelineOrder.fromJson_token, Page.fromJson_toJson,
    Option.bind_eq_bind, Option.bind_some, Option.pure_def]

theorem PageSeed.profile_fromJson (username : Str T .username) (order : TimelineOrder)
    (page : Page T) : PageSeed.fromJson T (PageSeed.profile username order page).toJson =
      some (.profile username order page) := by
  simp [PageSeed.toJson, PageSeed.fromJson, PageSeed.profileFromJson, required, lookup,
    TimelineOrder.fromJson_token, Page.fromJson_toJson]

theorem PageSeed.siteTag_fromJson (tag : Str T .tag) (order : TimelineOrder) (page : Page T) :
    PageSeed.fromJson T (PageSeed.siteTag tag order page).toJson =
      some (.siteTag tag order page) := by
  simp [PageSeed.toJson, PageSeed.fromJson, PageSeed.siteTagFromJson, required, lookup,
    TimelineOrder.fromJson_token, Page.fromJson_toJson]

theorem PageSeed.userTag_fromJson (username : Str T .username) (tag : Str T .tag)
    (order : TimelineOrder) (page : Page T) :
    PageSeed.fromJson T (PageSeed.userTag username tag order page).toJson =
      some (.userTag username tag order page) := by
  rw [PageSeed.toJson, PageSeed.fromJson, if_neg (by decide), if_neg (by decide),
    if_neg (by decide), if_pos rfl]
  simp [PageSeed.userTagFromJson, required, lookup, TimelineOrder.fromJson_token,
    Page.fromJson_toJson]

theorem PageSeed.fromJson_toJson (p : PageSeed T) : PageSeed.fromJson T p.toJson = some p := by
  cases p with
  | siteTimeline identity registrationPolicy order page =>
    exact siteTimeline_fromJson identity registrationPolicy order page
  | profile username order page => exact profile_fromJson username order page
  | siteTag tag order page => exact siteTag_fromJson tag order page
  | userTag username tag order page => exact userTag_fromJson username tag order page
  | permalink post => simp [PageSeed.toJson, PageSeed.fromJson, AuthoredPost.fromJson_toJson]
  | feedDiscovery surface => simp [PageSeed.toJson, PageSeed.fromJson, FeedSurface.fromJson_toJson]

theorem PublishedThemeIdentity.fromJson_toJson (i : PublishedThemeIdentity) :
    PublishedThemeIdentity.fromJson i.toJson = some i := by
  cases i <;> simp [PublishedThemeIdentity.toJson, PublishedThemeIdentity.fromJson, required, lookup,
    stringFromJson, Theme.fromJson_token]

theorem PublishedThemePresentation.fromJson_toJson (t : PublishedThemePresentation T) :
    PublishedThemePresentation.fromJson T t.toJson = some t := by
  simp [PublishedThemePresentation.toJson, PublishedThemePresentation.fromJson, required, optional,
    lookup, PublishedThemeIdentity.fromJson_toJson]

/-- A presentation is read back from its JSON value. -/
theorem PublicPresentation.fromJson_toJson (p : PublicPresentation T) :
    PublicPresentation.fromJson T p.toJson = some p := by
  simp [PublicPresentation.toJson, PublicPresentation.fromJson, required, lookup,
    PublishedThemePresentation.fromJson_toJson, PageSeed.fromJson_toJson]

end RoundTrip

end Jaunder.Common.Seed
