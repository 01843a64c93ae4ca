import Jaunder.Common.Xml
import Jaunder.Host.Metadata

namespace Jaunder.Host.FeedDocuments

open Jaunder.Common.Copyright Jaunder.Common.Owned Jaunder.Common.Time Jaunder.Common.Xml
open Jaunder.Host.Metadata

/-- The public label and the canonical URL of a license. -/
def descriptor : ContentLicense → String × Option String
  | .allRightsReserved => ("All Rights Reserved", none)
  | .cc0_1_0 => ("CC0 1.0", some "https://creativecommons.org/publicdomain/zero/1.0/")
  | .ccBy4_0 => ("CC BY 4.0", some "https://creativecommons.org/licenses/by/4.0/")
  | .ccBySa4_0 => ("CC BY-SA 4.0", some "https://creativecommons.org/licenses/by-sa/4.0/")
  | .ccByNd4_0 => ("CC BY-ND 4.0", some "https://creativecommons.org/licenses/by-nd/4.0/")
  | .ccByNc4_0 => ("CC BY-NC 4.0", some "https://creativecommons.org/licenses/by-nc/4.0/")
  | .ccByNcSa4_0 => ("CC BY-NC-SA 4.0", some "https://creativecommons.org/licenses/by-nc-sa/4.0/")
  | .ccByNcNd4_0 => ("CC BY-NC-ND 4.0", some "https://creativecommons.org/licenses/by-nc-nd/4.0/")

def label (license : ContentLicense) : String := (descriptor license).1

def canonicalUrl (license : ContentLicense) : Option String := (descriptor license).2

def copyright (d : CopyrightDeclaration) : String :=
  "© " ++ toString d.year.toInt ++ " " ++ d.authorName.value

/-- `CopyrightDeclaration::text`. -/
def rightsText (d : CopyrightDeclaration) : String := copyright d ++ " · " ++ label d.license

structure Link where
  href : String
  rel : String
  mimeType : Option String

def Link.texts (link : Link) : List String := link.href :: link.rel :: link.mimeType.toList

/-- An element that an extension module adds to an item. -/
structure Extension where
  space : String
  key : String
  name : String
  value : Option String

def Extension.texts (extension : Extension) : List String :=
  extension.name :: extension.value.toList

structure Item where
  title : Option String
  link : Option String
  description : Option String
  pubDate : Option String
  guid : Option String
  guidPermalink : Bool
  rights : List String
  extensions : List Extension

def Item.texts (item : Item) : List String :=
  item.title.toList ++ item.link.toList ++ item.description.toList ++ item.pubDate.toList ++
    item.guid.toList ++ item.rights ++ item.extensions.flatMap Extension.texts

structure Channel where
  title : String
  link : String
  description : String
  lastBuildDate : Option String
  atomLinks : List Link
  items : List Item
  namespaces : List (String × String)

def Channel.texts (channel : Channel) : List String :=
  channel.title :: channel.link :: channel.description :: channel.lastBuildDate.toList ++
    channel.atomLinks.flatMap Link.texts ++ channel.items.flatMap Item.texts ++
    channel.namespaces.flatMap (fun pair ↦ [pair.1, pair.2])

inductive TextType
  | plain
  | html

structure AtomText where
  type : TextType
  value : String

structure Content where
  contentType : Option String
  value : Option String

structure Entry where
  updated : String
  published : Option String
  id : String
  title : AtomText
  links : List Link
  rights : Option AtomText
  content : Option Content
  categories : List String
  summary : Option AtomText

def Entry.texts (entry : Entry) : List String :=
  entry.updated :: entry.published.toList ++ entry.id :: entry.title.value ::
    entry.links.flatMap Link.texts ++ entry.rights.toList.map AtomText.value ++
    entry.content.toList.flatMap (fun content ↦ content.contentType.toList ++ content.value.toList) ++
    entry.categories ++ entry.summary.toList.map AtomText.value

structure Feed where
  updated : String
  title : AtomText
  id : String
  subtitle : Option AtomText
  links : List Link
  entries : List Entry

def Feed.texts (feed : Feed) : List String :=
  feed.updated :: feed.title.value :: feed.id :: feed.subtitle.toList.map AtomText.value ++
    feed.links.flatMap Link.texts ++ feed.entries.flatMap Entry.texts

/-- The date formatter, the Atom parser and the two writers. -/
structure Crates where
  strftime : String → UtcInstant → String
  display : UtcInstant → String
  writeRss : Channel → String
  parseEntry : String → Option Entry
  parseFeed : String → Option Feed
  writeAtom : Feed → String

variable (crates : Crates)

def creativeCommonsNamespace : String := "http://backend.userland.com/creativeCommonsRssModule"

def rssDate (instant : UtcInstant) : String := crates.strftime "%a, %d %b %Y %H:%M:%S %z" instant

def rssItem (i : FeedItem) : Item where
  title := i.visibleTitle.map Text.value
  link := some i.permalink.value
  description := some i.contentHtml.value
  pubDate := some (rssDate crates i.publishedAt)
  guid := some i.permalink.value
  guidPermalink := true
  rights := [rightsText i.copyrightDeclaration]
  extensions := (canonicalUrl i.copyrightDeclaration.license).toList.map (fun url ↦
    ⟨creativeCommonsNamespace, "license", "creativeCommons:license", some url⟩)

def rssChannel (metadata : FeedMetadata) (items : Vec FeedItem) : Channel where
  title := metadata.title.value
  link := metadata.canonicalUrl.value
  description := (metadata.description.map Text.value).getD ""
  lastBuildDate := some (rssDate crates metadata.representationModifiedAt)
  atomLinks := ⟨metadata.selfUrl.value, "self", some "application/rss+xml"⟩ ::
    metadata.hubUrl.toList.map (fun hub ↦ ⟨hub.value, "hub", none⟩)
  items := items.toList.map (rssItem crates)
  namespaces :=
    if items.toList.any (fun i ↦ (canonicalUrl i.copyrightDeclaration.license).isSome) then
      [("creativeCommons", creativeCommonsNamespace)]
    else []

def renderRss (metadata : FeedMetadata) (items : Vec FeedItem) : String :=
  crates.writeRss (rssChannel crates metadata items)

def atomEntry (i : FeedItem) : Option Entry := do
  let entry ← crates.parseEntry ("<entry xmlns=\"http://www.w3.org/2005/Atom\"><updated>" ++
    crates.display i.updatedAt ++ "</updated><published>" ++ crates.display i.publishedAt ++
    "</published></entry>")
  return { entry with
    id := i.permalink.value
    title := ⟨.html, (i.renderedTitle.map Text.value).getD ""⟩
    links := ⟨i.permalink.value, "alternate", none⟩ ::
      (canonicalUrl i.copyrightDeclaration.license).toList.map
        (fun url ↦ ⟨url, "license", some "text/html"⟩)
    rights := some ⟨.plain, rightsText i.copyrightDeclaration⟩
    content := some ⟨some "html", some i.contentHtml.value⟩
    categories := i.tags.toList.map Text.value
    summary := i.summary.elim entry.summary (fun s ↦ some ⟨.plain, s.value⟩) }

def atomLinks (metadata : FeedMetadata) : List Link :=
  ⟨metadata.canonicalUrl.value, "alternate", none⟩ :: ⟨metadata.selfUrl.value, "self", none⟩ ::
    metadata.hubUrl.toList.map (fun hub ↦ ⟨hub.value, "hub", none⟩)

def renderAtom (metadata : FeedMetadata) (items : Vec FeedItem) : Option String := do
  let entries ← items.toList.mapM (atomEntry crates)
  let feed ← crates.parseFeed ("<feed xmlns=\"http://www.w3.org/2005/Atom\"><updated>" ++
    crates.display metadata.representationModifiedAt ++ "</updated></feed>")
  return crates.writeAtom { feed with
    title := ⟨.plain, metadata.title.value⟩
    id := metadata.selfUrl.value
    subtitle := metadata.description.map (fun description ↦ ⟨.plain, description.value⟩)
    links := atomLinks metadata
    entries }

section Characters

def AllXml (texts : List String) : Prop := ∀ t ∈ texts, XmlText t

instance (texts : List String) : Decidable (AllXml texts) :=
  inferInstanceAs (Decidable (∀ t ∈ texts, XmlText t))

@[simp] theorem allXml_nil : AllXml [] := fun _ h ↦ absurd h List.not_mem_nil

@[simp] theorem allXml_cons {t : String} {texts : List String} :
    AllXml (t :: texts) ↔ XmlText t ∧ AllXml texts := List.forall_mem_cons

@[simp] theorem allXml_append {texts more : List String} :
    AllXml (texts ++ more) ↔ AllXml texts ∧ AllXml more := List.forall_mem_append

@[simp] theorem allXml_flatMap {α : Type} {f : α → List String} {l : List α} :
    AllXml (l.flatMap f) ↔ ∀ a ∈ l, AllXml (f a) := by
  simp only [AllXml, List.mem_flatMap]
  exact ⟨fun h a ha t ht ↦ h t ⟨a, ha, ht⟩, fun h t ⟨a, ha, ht⟩ ↦ h a ha t ht⟩

@[simp] theorem allXml_map {α : Type} {f : α → String} {l : List α} :
    AllXml (l.map f) ↔ ∀ a ∈ l, XmlText (f a) := List.forall_mem_map

/-- The writer escapes only markup characters, copies every other one, and adds nothing that XML
excludes. -/
structure Copies {α : Type} (texts : α → List String) (write : α → String) : Prop where
  copied : ∀ {a t c}, t ∈ texts a → c ∈ t.toList → isMarkup c = false → c ∈ (write a).toList
  written : ∀ {a c}, c ∈ (write a).toList → isXmlChar c = false → ∃ t ∈ texts a, c ∈ t.toList

theorem Copies.xmlText_iff {α : Type} {texts : α → List String} {write : α → String}
    (h : Copies texts write) (a : α) : XmlText (write a) ↔ AllXml (texts a) := by
  constructor
  · intro hwrite t ht c hc
    by_contra hbad
    have hfalse := eq_false_of_ne_true hbad
    rw [hwrite c (h.copied ht hc (isMarkup_of_not_xml hfalse))] at hfalse
    cases hfalse
  · intro htexts c hc
    by_contra hbad
    obtain ⟨t, ht, hct⟩ := h.written hc (eq_false_of_ne_true hbad)
    exact hbad (htexts t ht c hct)

structure Crates.Documented : Prop where
  rss : Copies Channel.texts crates.writeRss
  atom : Copies Feed.texts crates.writeAtom
  strftime_xml : ∀ {format instant}, XmlText format → XmlText (crates.strftime format instant)
  display_xml : ∀ instant, XmlText (crates.display instant)
  entry_xml : ∀ {source entry}, XmlText source → crates.parseEntry source = some entry →
    AllXml entry.texts
  feed_xml : ∀ {source feed}, XmlText source → crates.parseFeed source = some feed →
    AllXml feed.texts

/-- What the URL and tag types promise of an item. -/
structure Addressed (i : FeedItem) : Prop where
  permalink : XmlText i.permalink.value
  tags : ∀ t ∈ i.tags.toList, XmlText t.value

structure AddressedMetadata (metadata : FeedMetadata) : Prop where
  canonicalUrl : XmlText metadata.canonicalUrl.value
  selfUrl : XmlText metadata.selfUrl.value
  hubUrl : ∀ hub ∈ metadata.hubUrl, XmlText hub.value

/-- The characters of an item's texts that both formats write. -/
structure ItemClean (i : FeedItem) : Prop where
  author : XmlText i.copyrightDeclaration.authorName.value
  content : XmlText i.contentHtml.value

structure MetadataClean (metadata : FeedMetadata) : Prop where
  title : XmlText metadata.title.value
  description : ∀ d ∈ metadata.description, XmlText d.value

theorem xmlText_rightsText (d : CopyrightDeclaration) :
    XmlText (rightsText d) ↔ XmlText d.authorName.value := by
  have hlabel : XmlText (label d.license) := by cases d.license <;> decide
  rw [rightsText, copyright, xmlText_append, xmlText_append, xmlText_append, xmlText_append,
    xmlText_append]
  exact ⟨fun h ↦ h.1.1.2, fun h ↦ ⟨⟨⟨⟨⟨by decide, xmlText_toString _⟩, by decide⟩, h⟩, by decide⟩,
    hlabel⟩⟩

theorem xmlText_canonicalUrl {license : ContentLicense} {url : String}
    (h : url ∈ canonicalUrl license) : XmlText url := by
  cases license
  case allRightsReserved => cases h
  all_goals
    obtain rfl := Option.mem_some_iff.1 h
    decide

variable {crates} {i : FeedItem} {metadata : FeedMetadata} {items : Vec FeedItem}

theorem Crates.Documented.rssDate_xml (h : crates.Documented) (instant : UtcInstant) :
    XmlText (rssDate crates instant) := h.strftime_xml (by decide)

theorem rssItem_xml (h : crates.Documented) (hi : Addressed i) :
    AllXml (rssItem crates i).texts ↔
      ItemClean i ∧ ∀ t ∈ i.visibleTitle, XmlText t.value := by
  have hdate := h.rssDate_xml i.publishedAt
  have hurl : ∀ url ∈ canonicalUrl i.copyrightDeclaration.license, XmlText url :=
    fun url hurl ↦ xmlText_canonicalUrl hurl
  have hname : XmlText "creativeCommons:license" := by decide
  constructor
  · intro hall
    simp only [Item.texts, rssItem, allXml_append, allXml_cons, Option.toList_some] at hall
    obtain ⟨⟨⟨⟨⟨⟨htitle, -⟩, hcontent, -⟩, -⟩, -⟩, hrights, -⟩, -⟩ := hall
    refine ⟨⟨(xmlText_rightsText _).1 hrights, hcontent⟩, fun t ht ↦ ?_⟩
    exact htitle t.value (Option.mem_toList.2 (Option.mem_map_of_mem _ ht))
  · rintro ⟨hclean, htitle⟩
    simp only [Item.texts, rssItem, allXml_append, allXml_cons, Option.toList_some]
    refine ⟨⟨⟨⟨⟨⟨?_, hi.permalink, allXml_nil⟩, hclean.content, allXml_nil⟩, hdate, allXml_nil⟩,
      hi.permalink, allXml_nil⟩, (xmlText_rightsText _).2 hclean.author, allXml_nil⟩, ?_⟩
    · intro title ht
      obtain ⟨t, htext, rfl⟩ := Option.mem_map.1 (Option.mem_toList.1 ht)
      exact htitle t htext
    · rw [allXml_flatMap]
      intro extension hextension
      obtain ⟨url, hmem, rfl⟩ := List.mem_map.1 hextension
      exact allXml_cons.2 ⟨hname, allXml_cons.2 ⟨hurl url (Option.mem_toList.1 hmem), allXml_nil⟩⟩

theorem hubLinks_xml (hm : AddressedMetadata metadata) :
    AllXml ((metadata.hubUrl.toList.map (fun hub ↦ (⟨hub.value, "hub", none⟩ : Link))).flatMap
      Link.texts) := by
  rw [allXml_flatMap]
  intro link hlink
  obtain ⟨hub, hmem, rfl⟩ := List.mem_map.1 hlink
  have hrel : XmlText "hub" := by decide
  exact allXml_cons.2 ⟨hm.hubUrl hub (Option.mem_toList.1 hmem), allXml_cons.2 ⟨hrel, allXml_nil⟩⟩

theorem xmlText_description (description : Option Text) :
    XmlText ((description.map Text.value).getD "") ↔ ∀ d ∈ description, XmlText d.value := by
  cases description with
  | none => exact ⟨fun _ ↦ nofun, fun _ ↦ by decide⟩
  | some d =>
    refine ⟨fun h e he ↦ ?_, fun h ↦ h d rfl⟩
    obtain rfl := Option.mem_some_iff.1 he
    exact h

theorem renderRss_xml (h : crates.Documented) (hm : AddressedMetadata metadata)
    (hitems : ∀ i ∈ items.toList, Addressed i) :
    XmlText (renderRss crates metadata items) ↔
      MetadataClean metadata ∧
        ∀ i ∈ items.toList, ItemClean i ∧ ∀ t ∈ i.visibleTitle, XmlText t.value := by
  rw [renderRss, h.rss.xmlText_iff]
  have hdate := h.rssDate_xml metadata.representationModifiedAt
  have hnamespaces : AllXml ((rssChannel crates metadata items).namespaces.flatMap
      (fun pair ↦ [pair.1, pair.2])) := by
    dsimp only [rssChannel]
    split
    · rw [List.flatMap_singleton]
      exact allXml_cons.2 ⟨by decide, allXml_cons.2 ⟨by decide, allXml_nil⟩⟩
    · exact allXml_nil
  have hchannel : AllXml ((rssChannel crates metadata items).items.flatMap Item.texts) ↔
      ∀ i ∈ items.toList, ItemClean i ∧ ∀ t ∈ i.visibleTitle, XmlText t.value := by
    rw [allXml_flatMap]
    refine List.forall_mem_map.trans ?_
    exact forall₂_congr fun i hi ↦ rssItem_xml h (hitems i hi)
  rw [Channel.texts, allXml_append, allXml_append, hchannel]
  simp only [rssChannel, allXml_append, allXml_cons, Option.toList_some, List.flatMap_cons,
    Link.texts]
  constructor
  · rintro ⟨⟨⟨⟨htitle, -, hdescription, -⟩, -⟩, hclean⟩, -⟩
    exact ⟨⟨htitle, (xmlText_description _).1 hdescription⟩, hclean⟩
  · rintro ⟨hmetadata, hclean⟩
    exact ⟨⟨⟨⟨hmetadata.title, hm.canonicalUrl, (xmlText_description _).2 hmetadata.description,
      hdate, allXml_nil⟩, ⟨hm.selfUrl, by decide, by decide, allXml_nil⟩, hubLinks_xml hm⟩,
      hclean⟩, hnamespaces⟩

theorem atomEntry_xml (h : crates.Documented) (hi : Addressed i) {entry : Entry}
    (hentry : atomEntry crates i = some entry) :
    AllXml entry.texts ↔
      ItemClean i ∧ (∀ t ∈ i.renderedTitle, XmlText t.value) ∧ ∀ s ∈ i.summary, XmlText s.value := by
  obtain ⟨parsed, hparsed, hentry⟩ := Option.bind_eq_some_iff.1 hentry
  obtain rfl := Option.some.inj hentry
  have hsource := h.entry_xml (by
    simp only [xmlText_append]
    exact ⟨⟨⟨⟨by decide, h.display_xml _⟩, by decide⟩, h.display_xml _⟩, by decide⟩) hparsed
  simp only [Entry.texts, allXml_append, allXml_cons] at hsource
  obtain ⟨⟨⟨⟨⟨⟨hupdated, hpublished⟩, -⟩, -⟩, -⟩, -⟩, hsummary⟩ := hsource
  have hlinks : AllXml ((⟨i.permalink.value, "alternate", none⟩ ::
      (canonicalUrl i.copyrightDeclaration.license).toList.map
        (fun url ↦ (⟨url, "license", some "text/html"⟩ : Link))).flatMap Link.texts) := by
    rw [allXml_flatMap]
    intro link hlink
    rcases List.mem_cons.1 hlink with rfl | hlink
    · have hrel : AllXml ["alternate"] := by decide
      exact allXml_cons.2 ⟨hi.permalink, hrel⟩
    · obtain ⟨url, hmem, rfl⟩ := List.mem_map.1 hlink
      have hrel : AllXml ["license", "text/html"] := by decide
      exact allXml_cons.2 ⟨xmlText_canonicalUrl (Option.mem_toList.1 hmem), hrel⟩
  have htags : AllXml (i.tags.toList.map Text.value) := allXml_map.2 hi.tags
  have hsummary : AllXml ((i.summary.elim parsed.summary
      (fun s ↦ some ⟨.plain, s.value⟩)).toList.map AtomText.value) ↔
        ∀ s ∈ i.summary, XmlText s.value := by
    cases i.summary with
    | none => exact ⟨fun _ s hs ↦ absurd hs (Option.not_mem_none s), fun _ ↦ hsummary⟩
    | some s => simp
  have hrights := xmlText_rightsText i.copyrightDeclaration
  simp only [Entry.texts, allXml_append, allXml_cons]
  constructor
  · rintro ⟨⟨⟨⟨⟨-, -, htitle, -⟩, hauthor⟩, hcontent⟩, -⟩, hsummarised⟩
    exact ⟨⟨hrights.1 (hauthor _ List.mem_cons_self),
      hcontent _ (List.mem_cons_of_mem _ List.mem_cons_self)⟩,
      (xmlText_description _).1 htitle, hsummary.1 hsummarised⟩
  · rintro ⟨hclean, htitle, hsummarised⟩
    have hcontent : AllXml ["html", i.contentHtml.value] :=
      allXml_cons.2 ⟨by decide, allXml_cons.2 ⟨hclean.content, allXml_nil⟩⟩
    exact ⟨⟨⟨⟨⟨⟨hupdated, hpublished⟩, hi.permalink, (xmlText_description _).2 htitle, hlinks⟩,
      allXml_cons.2 ⟨hrights.2 hclean.author, allXml_nil⟩⟩, hcontent⟩, htags⟩,
      hsummary.2 hsummarised⟩

theorem atomEntries_xml (h : crates.Documented) {list : List FeedItem}
    (hitems : ∀ i ∈ list, Addressed i) {entries : List Entry}
    (hentries : list.mapM (atomEntry crates) = some entries) :
    AllXml (entries.flatMap Entry.texts) ↔ ∀ i ∈ list, ItemClean i ∧
      (∀ t ∈ i.renderedTitle, XmlText t.value) ∧ ∀ s ∈ i.summary, XmlText s.value := by
  induction list generalizing entries with
  | nil =>
    obtain rfl := Option.some.inj hentries
    exact ⟨fun _ i hi ↦ absurd hi List.not_mem_nil, fun _ ↦ allXml_nil⟩
  | cons i list ih =>
    rw [List.mapM_cons] at hentries
    obtain ⟨entry, hentry, hentries⟩ := Option.bind_eq_some_iff.1 hentries
    obtain ⟨rest, hrest, hentries⟩ := Option.bind_eq_some_iff.1 hentries
    obtain rfl := Option.some.inj hentries
    rw [List.flatMap_cons, allXml_append, List.forall_mem_cons,
      atomEntry_xml h (hitems i List.mem_cons_self) hentry,
      ih (fun j hj ↦ hitems j (List.mem_cons_of_mem _ hj)) hrest]

theorem renderAtom_xml (h : crates.Documented) (hm : AddressedMetadata metadata)
    (hitems : ∀ i ∈ items.toList, Addressed i) {document : String}
    (hdocument : renderAtom crates metadata items = some document) :
    XmlText document ↔
      MetadataClean metadata ∧ ∀ i ∈ items.toList, ItemClean i ∧
        (∀ t ∈ i.renderedTitle, XmlText t.value) ∧ ∀ s ∈ i.summary, XmlText s.value := by
  obtain ⟨entries, hentries, hdocument⟩ := Option.bind_eq_some_iff.1 hdocument
  obtain ⟨parsed, hparsed, hdocument⟩ := Option.bind_eq_some_iff.1 hdocument
  obtain rfl := Option.some.inj hdocument
  have hsource := h.feed_xml (by
    simp only [xmlText_append]
    exact ⟨⟨by decide, h.display_xml _⟩, by decide⟩) hparsed
  have hupdated : XmlText parsed.updated := hsource _ (by simp [Feed.texts])
  have hlinks : AllXml ((atomLinks metadata).flatMap Link.texts) := by
    have halternate : AllXml ["alternate"] := by decide
    have hself : AllXml ["self"] := by decide
    rw [atomLinks, List.flatMap_cons, List.flatMap_cons, allXml_append, allXml_append]
    exact ⟨allXml_cons.2 ⟨hm.canonicalUrl, halternate⟩, allXml_cons.2 ⟨hm.selfUrl, hself⟩,
      hubLinks_xml hm⟩
  have hsubtitle : AllXml ((metadata.description.map
      (fun description ↦ (⟨.plain, description.value⟩ : AtomText))).toList.map AtomText.value) ↔
        ∀ d ∈ metadata.description, XmlText d.value := by
    cases metadata.description <;> simp
  rw [h.atom.xmlText_iff]
  simp only [Feed.texts, allXml_append, allXml_cons, atomEntries_xml h hitems hentries, hsubtitle]
  constructor
  · rintro ⟨⟨⟨-, htitle, -, hdescription⟩, -⟩, hclean⟩
    exact ⟨⟨htitle, hdescription⟩, hclean⟩
  · rintro ⟨hmetadata, hclean⟩
    exact ⟨⟨⟨hupdated, hmetadata.title, hm.selfUrl, hmetadata.description⟩, hlinks⟩, hclean⟩

end Characters

end Jaunder.Host.FeedDocuments
