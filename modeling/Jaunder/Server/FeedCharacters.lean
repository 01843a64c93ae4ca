import Jaunder.Host.FeedDocuments
import Jaunder.Host.Render
import Jaunder.Server.Regenerate

namespace Jaunder.Server.FeedCharacters

open Jaunder.Common.Copyright Jaunder.Common.Feed Jaunder.Common.Owned Jaunder.Common.PostText
open Jaunder.Common.Time Jaunder.Common.Xml
open Jaunder.Host.FeedDocuments Jaunder.Host.FeedPath Jaunder.Host.Metadata
open Jaunder.Server.Regenerate
open Jaunder.Storage.Dialect Jaunder.Storage.FeedCache Jaunder.Storage.Publisher
open Jaunder.Storage.Schema Jaunder.Storage.Syndication Jaunder.Storage.Visibility

/-- The library whose RSS and Atom serializers build their documents for the writers. -/
def feedLibrary (crates : Crates) (lib : FeedLibrary) : FeedLibrary :=
  { lib with renderRss := renderRss crates, renderAtom := renderAtom crates }

def surfaceTexts (snapshot : PublisherSnapshot) (surface : FeedSurface) : List Text :=
  titleForSurface snapshot.identity.title surface ::
    (descriptionFromSiteTagline snapshot.identity.tagline surface).toList

/-- The free texts of a post that the document of a format carries. -/
def recordTexts (lib : FeedLibrary) (format : FeedFormat) (record : SyndicationPostRecord) :
    List Text :=
  let p := record.post
  record.author.displayName.toList ++ p.renderedHtml ::
    match format with
    | .rss => (p.renderedTitle.map lib.renderedTitleVisibleText).toList
    | .atom => p.renderedTitle.toList ++ (p.summary.or (lib.summarizeRenderedHtml p.renderedHtml)).toList
    | .json => []

/-- What the write path promises of the stored names and labels, and the URL type of the hub. -/
structure Admitted (snapshot : PublisherSnapshot) (posts : Database) : Prop where
  usernames : ∀ u ∈ posts.users, ∃ s, username s = some u.username.value.toList
  tags : ∀ t ∈ posts.postTags, ∃ s, tagLabel s = some t.tagDisplay.value.toList
  hub : ∀ hub ∈ snapshot.feeds.websubHubUrl, XmlText hub.value

variable {crates : Crates} {lib : FeedLibrary} {b : Backend} {snapshot : PublisherSnapshot}
  {posts : Database} {surface : FeedSurface} {feedPath : FeedPath} {generatedAt : UtcInstant}
  {row : FeedCacheRow} {record : SyndicationPostRecord} {base : Text}

theorem tagsOf_display {p : Post} {t : Text × Text} (h : t ∈ tagsOf posts p) :
    ∃ pt ∈ posts.postTags, pt.tagDisplay = t.2 := by
  rw [tagsOf, List.mem_insertionSort, List.mem_flatMap] at h
  obtain ⟨pt, hpt, h⟩ := h
  obtain ⟨tag, -, rfl⟩ := List.mem_map.1 h
  exact ⟨pt, List.mem_of_mem_filter hpt, rfl⟩

theorem record_stored {now : UtcInstant} {cutoff : Option UtcInstant} {minItems : ℕ}
    {viewer : ViewerIdentity}
    (h : record ∈ listPublishedInWindowRows b posts surface now cutoff minItems viewer) :
    record.author ∈ posts.users ∧ record.tags = tagsOf posts record.post := by
  rw [listPublishedInWindowRows, newestFirst, List.mem_insertionSort, List.mem_flatMap] at h
  obtain ⟨r, -, h⟩ := h
  obtain ⟨p, -, h⟩ := List.mem_flatMap.1 h
  obtain ⟨u, hu, rfl⟩ := List.mem_map.1 h
  exact ⟨List.mem_of_mem_filter hu, rfl⟩

/-- The window lists no more rows than there are posts, so that collecting cuts none off. -/
theorem window_fits {window : Host.Window.HybridWindow} {viewer : ViewerIdentity} :
    (listPublishedInWindow b posts surface window generatedAt viewer).length < 2 ^ 63 := by
  have hposts := congrArg List.length (listPublishedInWindowRows_posts b posts surface generatedAt
    (window.cutoffDate generatedAt) window.minItems viewer)
  rw [List.length_map, List.length_map] at hposts
  have hkept := (Foundation.RankedPrefix.keepRanked_initial (n := window.minItems)
    (visiblePosts_pairwise b posts surface generatedAt viewer
      (window.cutoffDate generatedAt))).length_le
  have hvisible : (visiblePosts b posts surface generatedAt viewer).length ≤ posts.posts.length := by
    rw [visiblePosts, newestFirst, List.length_insertionSort]
    exact (List.length_filter_le _ _).trans (List.length_filterMap_le _ _)
  rw [listPublishedInWindow, hposts]
  exact (hkept.trans hvisible).trans_lt posts.posts_fit

theorem feedItem_addressed (hjoin : ∀ base path, XmlText (lib.join base path).value)
    (hadmitted : Admitted snapshot posts) (htags : record.tags = tagsOf posts record.post) :
    Addressed (buildFeedItem lib base record) where
  permalink := hjoin _ _
  tags := by
    intro t ht
    have hmem : t ∈ record.tags.map Prod.snd := List.mem_of_mem_take ht
    obtain ⟨pair, hpair, rfl⟩ := List.mem_map.1 hmem
    rw [htags] at hpair
    obtain ⟨pt, hpt, hdisplay⟩ := tagsOf_display hpair
    obtain ⟨s, hs⟩ := hadmitted.tags pt hpt
    rw [← hdisplay]
    exact tagLabel_xml hs

theorem feedMetadata_addressed (hjoin : ∀ base path, XmlText (lib.join base path).value)
    (hadmitted : Admitted snapshot posts) {modified : UtcInstant} :
    AddressedMetadata (feedMetadata lib snapshot base feedPath modified) where
  canonicalUrl := hjoin _ _
  selfUrl := hjoin _ _
  hubUrl := hadmitted.hub

theorem metadataClean_iff {modified : UtcInstant} :
    MetadataClean (feedMetadata lib snapshot base feedPath modified) ↔
      ∀ t ∈ surfaceTexts snapshot feedPath.surface, XmlText t.value := by
  rw [surfaceTexts, List.forall_mem_cons]
  simp only [Option.mem_toList]
  exact ⟨fun h ↦ ⟨h.title, h.description⟩, fun h ↦ ⟨h.1, h.2⟩⟩

theorem itemClean_iff (hadmitted : Admitted snapshot posts) (hauthor : record.author ∈ posts.users) :
    ItemClean (buildFeedItem lib base record) ↔
      (∀ name ∈ record.author.displayName, XmlText name.value) ∧
        XmlText record.post.renderedHtml.value := by
  have hname : XmlText (buildFeedItem lib base record).copyrightDeclaration.authorName.value ↔
      ∀ name ∈ record.author.displayName, XmlText name.value := by
    change XmlText (record.author.displayName.elim (CopyrightAuthor.username record.author.username)
      CopyrightAuthor.displayName).asStr.value ↔ _
    cases record.author.displayName with
    | none =>
      obtain ⟨s, hs⟩ := hadmitted.usernames _ hauthor
      exact ⟨fun _ ↦ nofun, fun _ ↦ username_xml hs⟩
    | some name => simp [CopyrightAuthor.asStr]
  rw [← hname]
  exact ⟨fun h ↦ ⟨h.author, h.content⟩, fun h ↦ ⟨h.1, h.2⟩⟩

theorem visibleTitle_xml : (∀ t ∈ (buildFeedItem lib base record).visibleTitle, XmlText t.value) ↔
    ∀ t ∈ record.post.renderedTitle.map lib.renderedTitleVisibleText, XmlText t.value := by
  change (∀ t ∈ (record.post.renderedTitle.map lib.renderedTitleVisibleText).filter
    (fun title ↦ !title.value.isEmpty), XmlText t.value) ↔ _
  cases record.post.renderedTitle.map lib.renderedTitleVisibleText with
  | none => rfl
  | some t =>
    rw [Option.filter_some]
    by_cases hempty : t.value = ""
    · simp [hempty, XmlText]
    · simp [hempty]

/-- The items of the posts in the window. -/
def windowItems (lib : FeedLibrary) (b : Backend) (snapshot : PublisherSnapshot) (posts : Database)
    (feedPath : FeedPath) (generatedAt : UtcInstant) (base : Text) : Vec FeedItem :=
  .collect ((listPublishedInWindow b posts feedPath.surface snapshot.feeds.window generatedAt
    .anonymous).map (buildFeedItem lib base))

theorem render_body (h : render lib b snapshot posts feedPath generatedAt = .ok row) :
    ∃ base, renderBody lib feedPath.format
      (feedMetadata lib snapshot base feedPath generatedAt.wholeSeconds)
      (windowItems lib b snapshot posts feedPath generatedAt base) =
        some row.representation.body := by
  rw [render] at h
  cases hbase : snapshot.identity.baseUrl with
  | none =>
    rw [hbase] at h
    cases h
  | some base =>
    refine ⟨base, ?_⟩
    simp only [hbase] at h
    unfold windowItems
    split at h
    · cases h
    · rename_i body hbody
      rw [FeedCacheRow.new, dif_pos rfl] at h
      obtain rfl := Except.ok.inj h
      exact hbody

theorem mem_windowItems {i : FeedItem} :
    i ∈ (windowItems lib b snapshot posts feedPath generatedAt base).toList ↔
      ∃ record ∈ listPublishedInWindow b posts feedPath.surface snapshot.feeds.window generatedAt
        .anonymous, buildFeedItem lib base record = i := by
  have hfits : (listPublishedInWindow b posts feedPath.surface snapshot.feeds.window generatedAt
      .anonymous).length < 2 ^ 63 := window_fits
  change i ∈ List.take _ _ ↔ _
  rw [List.take_of_length_le (by rw [List.length_map]; omega), List.mem_map]

/-- A rendered document is well formed just when the free texts that it carries are. -/
theorem render_xml_iff (hcrates : crates.Documented)
    (hjoin : ∀ base path, XmlText (lib.join base path).value)
    (hadmitted : Admitted snapshot posts) (hformat : feedPath.format ≠ .json)
    (h : render (feedLibrary crates lib) b snapshot posts feedPath generatedAt = .ok row) :
    XmlText row.representation.body ↔
      ∀ t ∈ surfaceTexts snapshot feedPath.surface ++
        (listPublishedInWindow b posts feedPath.surface snapshot.feeds.window generatedAt
          .anonymous).flatMap (recordTexts lib feedPath.format), XmlText t.value := by
  obtain ⟨base, hbody⟩ := render_body h
  have hstored : ∀ record ∈ listPublishedInWindow b posts feedPath.surface snapshot.feeds.window
      generatedAt .anonymous, record.author ∈ posts.users ∧
        record.tags = tagsOf posts record.post := fun record hrecord ↦ record_stored hrecord
  have hmetadata : AddressedMetadata (feedMetadata (feedLibrary crates lib) snapshot base feedPath
      generatedAt.wholeSeconds) := feedMetadata_addressed hjoin hadmitted
  have hitems : ∀ i ∈ (windowItems (feedLibrary crates lib) b snapshot posts feedPath generatedAt
      base).toList, Addressed i := by
    intro i hi
    obtain ⟨record, hrecord, rfl⟩ := mem_windowItems.1 hi
    exact feedItem_addressed hjoin hadmitted (hstored record hrecord).2
  have hrecord : ∀ record ∈ listPublishedInWindow b posts feedPath.surface snapshot.feeds.window
      generatedAt .anonymous, (ItemClean (buildFeedItem (feedLibrary crates lib) base record) ↔
        (∀ name ∈ record.author.displayName, XmlText name.value) ∧
          XmlText record.post.renderedHtml.value) :=
    fun record hrecord ↦ itemClean_iff hadmitted (hstored record hrecord).1
  have hall : ∀ {P : FeedItem → Prop},
      (∀ i ∈ (windowItems (feedLibrary crates lib) b snapshot posts feedPath generatedAt
        base).toList, P i) ↔ ∀ record ∈ listPublishedInWindow b posts feedPath.surface
          snapshot.feeds.window generatedAt .anonymous,
            P (buildFeedItem (feedLibrary crates lib) base record) := by
    intro P
    refine ⟨fun h record hmem ↦ h _ (mem_windowItems.2 ⟨record, hmem, rfl⟩), fun h i hi ↦ ?_⟩
    obtain ⟨record, hmem, rfl⟩ := mem_windowItems.1 hi
    exact h record hmem
  rw [List.forall_mem_append, List.forall_mem_flatMap]
  cases hf : feedPath.format with
  | json => exact absurd hf hformat
  | rss =>
    rw [hf] at hbody
    rw [← Option.some.inj hbody]
    refine (renderRss_xml hcrates hmetadata hitems).trans (and_congr metadataClean_iff ?_)
    refine hall.trans (forall₂_congr fun record hmem ↦ ?_)
    rw [hrecord record hmem, visibleTitle_xml, recordTexts, List.forall_mem_append,
      List.forall_mem_cons]
    simp only [Option.mem_toList]
    exact and_assoc
  | atom =>
    rw [hf] at hbody
    refine (renderAtom_xml hcrates hmetadata hitems hbody).trans (and_congr metadataClean_iff ?_)
    refine hall.trans (forall₂_congr fun record hmem ↦ ?_)
    rw [hrecord record hmem, recordTexts, List.forall_mem_append, List.forall_mem_cons,
      List.forall_mem_append]
    simp only [Option.mem_toList]
    exact and_assoc

theorem feed_characters_valid (hcrates : crates.Documented)
    (hjoin : ∀ base path, XmlText (lib.join base path).value)
    (hadmitted : Admitted snapshot posts) (hformat : feedPath.format ≠ .json)
    (h : render (feedLibrary crates lib) b snapshot posts feedPath generatedAt = .ok row) :
    XmlText row.representation.body ↔
      ∀ t ∈ surfaceTexts snapshot feedPath.surface ++
        (listPublishedInWindow b posts feedPath.surface snapshot.feeds.window generatedAt
          .anonymous).flatMap (recordTexts lib feedPath.format), XmlText t.value :=
  render_xml_iff hcrates hjoin hadmitted hformat h

section Samples

def escape (c : Char) : List Char :=
  if c = '<' then "&lt;".toList else if c = '>' then "&gt;".toList
  else if c = '&' then "&amp;".toList else if c = '"' then "&quot;".toList
  else if c = '\'' then "&apos;".toList else [c]

/-- A document of the escaped texts alone. -/
def writeTexts (texts : List String) : String :=
  String.ofList (texts.flatMap (fun t ↦ t.toList.flatMap escape))

theorem escape_of_not_markup {c : Char} (h : isMarkup c = false) : escape c = [c] := by
  have hmem : c ∉ ['<', '>', '&', '"', '\''] := of_decide_eq_false h
  simp only [List.mem_cons, List.not_mem_nil, or_false, not_or] at hmem
  obtain ⟨hlt, hgt, hamp, hquot, hapos⟩ := hmem
  rw [escape, if_neg hlt, if_neg hgt, if_neg hamp, if_neg hquot, if_neg hapos]

theorem escape_xml {c d : Char} (h : d ∈ escape c) (hd : isXmlChar d = false) : d = c := by
  by_cases hmarkup : isMarkup c = true
  · have hmem : c ∈ ['<', '>', '&', '"', '\''] := of_decide_eq_true hmarkup
    simp only [List.mem_cons, List.not_mem_nil, or_false] at hmem
    have hall : ['<', '>', '&', '"', '\''].all (fun c ↦ (escape c).all isXmlChar) = true := by decide
    rw [List.all_eq_true.1 (List.all_eq_true.1 hall c (by simpa using hmem)) d h] at hd
    cases hd
  · rw [escape_of_not_markup (eq_false_of_ne_true hmarkup)] at h
    exact List.mem_singleton.1 h

theorem writeTexts_copies {α : Type} (texts : α → List String) :
    Copies texts (fun a ↦ writeTexts (texts a)) where
  copied ht hc hmarkup := by
    rw [writeTexts, String.toList_ofList, List.mem_flatMap]
    refine ⟨_, ht, List.mem_flatMap.2 ⟨_, hc, ?_⟩⟩
    rw [escape_of_not_markup hmarkup]
    exact List.mem_singleton_self _
  written hc hd := by
    rw [writeTexts, String.toList_ofList, List.mem_flatMap] at hc
    obtain ⟨t, ht, hc⟩ := hc
    obtain ⟨c, hct, hc⟩ := List.mem_flatMap.1 hc
    obtain rfl := escape_xml hc hd
    exact ⟨t, ht, hct⟩

def sampleDate : String := "2026-01-01T00:00:00+00:00"

def sampleCrates : Crates where
  strftime _ _ := "Thu, 01 Jan 2026 00:00:00 +0000"
  display _ := "2026-01-01T00:00:00Z"
  writeRss channel := writeTexts channel.texts
  parseEntry _ := some ⟨sampleDate, some sampleDate, "", ⟨.plain, ""⟩, [], none, none, [], none⟩
  parseFeed _ := some ⟨sampleDate, ⟨.plain, ""⟩, "", none, [], []⟩
  writeAtom feed := writeTexts feed.texts

theorem sampleCrates_documented : sampleCrates.Documented where
  rss := writeTexts_copies _
  atom := writeTexts_copies _
  strftime_xml _ := (by decide : XmlText "Thu, 01 Jan 2026 00:00:00 +0000")
  display_xml _ := (by decide : XmlText "2026-01-01T00:00:00Z")
  entry_xml := by
    rintro source entry - hentry
    obtain rfl := Option.some.inj hentry
    decide
  feed_xml := by
    rintro source feed - hfeed
    obtain rfl := Option.some.inj hfeed
    decide

/-- Leaves out what a URL cannot hold. -/
def sampleLibrary : FeedLibrary :=
  { plainLibrary with
    join := fun base path ↦ .compose (String.ofList ((base.value ++ path).toList.filter isXmlChar)) }

theorem sample_join (base : Text) (path : String) : XmlText (sampleLibrary.join base path).value := by
  have hfilter : XmlText (String.ofList ((base.value ++ path).toList.filter isXmlChar)) := by
    intro c hc
    rw [String.toList_ofList] at hc
    exact (List.mem_filter.1 hc).2
  change XmlText (Text.compose _).value
  unfold Text.compose
  split
  · exact hfilter
  · decide

def sampleSnapshot : PublisherSnapshot where
  feeds := ⟨defaultMinItems, defaultMinDays, none⟩
  identity := ⟨defaultSiteTitle, none, some (.compose "https://example.com")⟩
  generation := 0
  malformedHub := none

def titledPost (title : Text) : Post :=
  ⟨10, 1, some title, .compose "hello", .compose "hello", newYear2026, newYear2026,
    some newYear2026, none, none⟩

/-- One public post. -/
def titledPosts (title : Text) : Database :=
  { adaSite with
    posts := [titledPost title]
    tags := [⟨1, ⟨"lean", by decide⟩⟩]
    postTags := [⟨10, 1, ⟨"Lean", by decide⟩⟩]
    postAudiences := [⟨10, 1, none⟩]
    posts_key := by simp
    posts_fit := by simp
    posts_user := by simp [titledPost, adaSite]
    tags_key := by decide
    tag_slug_unique := by decide
    post_tags_unique := by decide
    post_tags_fit := by decide
    post_audiences_kind := by decide
    post_audiences_audience := by decide }

theorem titledPosts_admitted (title : Text) : Admitted sampleSnapshot (titledPosts title) where
  usernames := by
    intro u hu
    obtain rfl := List.mem_singleton.1 hu
    exact ⟨"Ada".toList, by decide +kernel⟩
  tags := by
    intro t ht
    obtain rfl := List.mem_singleton.1 ht
    exact ⟨" Lean ".toList, by decide +kernel⟩
  hub := nofun

/-- The sanitizers keep a source without markup as it is. -/
def plainLibraries : Host.Render.Libraries where
  markdown body := .ok ⟨body, []⟩
  org _ body := .ok ⟨body, []⟩
  clean _ html := html
  markdownTitle title := title
  orgTitle title := title
  sanitizePostTitle title := title
  extractMediaRefs _ := []

def controlTitle : Text := ⟨"a\x01a", by decide⟩

def sampleRender (title : Text) (format : FeedFormat) : Except RegenerateError FeedCacheRow :=
  render (feedLibrary sampleCrates sampleLibrary) sqlite sampleSnapshot (titledPosts title)
    ⟨.site, format⟩ newYear2026

def greeting : Text := ⟨"Hello & goodbye", by decide⟩

theorem sampleRender_ok (title : Text) (format : FeedFormat)
    (h : (sampleRender title format).toOption.isSome) : ∃ row, sampleRender title format = .ok row := by
  cases hrow : sampleRender title format with
  | error e =>
    rw [hrow] at h
    cases h
  | ok row => exact ⟨row, rfl⟩

theorem greeting_feeds_valid :
    (∃ row, sampleRender greeting .rss = .ok row ∧ XmlText row.representation.body) ∧
      ∃ row, sampleRender greeting .atom = .ok row ∧ XmlText row.representation.body := by
  obtain ⟨rss, hrss⟩ := sampleRender_ok greeting .rss (by decide +kernel)
  obtain ⟨atom, hatom⟩ := sampleRender_ok greeting .atom (by decide +kernel)
  refine ⟨⟨rss, hrss, ?_⟩, ⟨atom, hatom, ?_⟩⟩
  · have hformat : (⟨.site, .rss⟩ : FeedPath).format ≠ .json := by decide
    exact (feed_characters_valid sampleCrates_documented sample_join
      (titledPosts_admitted greeting) hformat hrss).2 (by decide +kernel)
  · have hformat : (⟨.site, .atom⟩ : FeedPath).format ≠ .json := by decide
    exact (feed_characters_valid sampleCrates_documented sample_join
      (titledPosts_admitted greeting) hformat hatom).2 (by decide +kernel)

theorem sampleRender_invalid {format : FeedFormat} (hformat : format ≠ .json)
    (hok : (sampleRender controlTitle format).toOption.isSome)
    (htitle : ∃ t ∈ (listPublishedInWindow sqlite (titledPosts controlTitle) .site
      sampleSnapshot.feeds.window newYear2026 .anonymous).flatMap (recordTexts sampleLibrary format),
        ¬XmlText t.value) :
    (sampleRender controlTitle format).toOption.map
      (fun row ↦ decide (XmlText row.representation.body)) = some false := by
  obtain ⟨row, hrow⟩ := sampleRender_ok controlTitle format hok
  have hpath : (⟨.site, format⟩ : FeedPath).format ≠ .json := hformat
  have hiff := render_xml_iff sampleCrates_documented sample_join (titledPosts_admitted controlTitle)
    hpath hrow
  have hinvalid : ¬XmlText row.representation.body := by
    intro hbody
    obtain ⟨t, ht, hnot⟩ := htitle
    exact hnot (hiff.1 hbody t (List.mem_append_right _ ht))
  rw [hrow]
  exact congrArg some (decide_eq_false hinvalid)

/-- A title that the write path admits and renders leaves a character in both documents that XML
excludes. -/
theorem control_title_breaks_feeds :
    postTitle controlTitle.value.toList = some controlTitle.value.toList ∧
      (Host.Render.renderPost plainLibraries (some controlTitle.value) "hello" .html).toOption.map
        Host.Render.PostRenderOutput.renderedTitle = some (some controlTitle.value) ∧
      sampleCrates.Documented ∧ Admitted sampleSnapshot (titledPosts controlTitle) ∧
      (sampleRender controlTitle .rss).toOption.map
        (fun row ↦ decide (XmlText row.representation.body)) = some false ∧
      (sampleRender controlTitle .atom).toOption.map
        (fun row ↦ decide (XmlText row.representation.body)) = some false := by
  refine ⟨by decide +kernel, by decide +kernel, sampleCrates_documented, titledPosts_admitted _,
    sampleRender_invalid (by decide) (by decide +kernel) ?_,
    sampleRender_invalid (by decide) (by decide +kernel) ?_⟩
  · decide +kernel
  · decide +kernel

end Samples

end Jaunder.Server.FeedCharacters
