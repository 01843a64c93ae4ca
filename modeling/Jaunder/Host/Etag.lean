import Jaunder.Common.Hash
import Jaunder.Foundation.SelfDelimiting
import Jaunder.Host.Metadata

namespace Jaunder.Host.Etag

open Foundation.SelfDelimiting
open Jaunder.Common.Copyright Jaunder.Common.Feed Jaunder.Common.Hash Jaunder.Common.Owned
open Jaunder.Common.Time
open Jaunder.Host.Metadata

def writeBytes (value : List UInt8) : List UInt8 := lengthPrefixed 8 value

def writeStr (value : String) : List UInt8 := writeBytes value.toUTF8.data.toList

def writeString (value : Text) : List UInt8 := writeBytes value.bytes

def writeOptionalString (value : Option Text) : List UInt8 :=
  value.elim [0] (fun value ↦ 1 :: writeString value)

/-- The seconds and the subsecond nanoseconds as `i64` and `i32` in big-endian byte order. -/
def writeTimestamp (value : UtcInstant) : List UInt8 :=
  beBytes 8 (Int64.ofInt value.asSecond).toBitVec.toNat ++
    beBytes 4 (Int32.ofInt value.subsecNanosecond).toBitVec.toNat

def writeDeclarationIdentity (declaration : CopyrightDeclaration) : List UInt8 :=
  writeBytes (beBytes 2 declaration.year.toBitVec.toNat) ++
    writeString declaration.authorName ++ writeStr declaration.license.token

def writeCount (n : ℕ) : List UInt8 := writeBytes (beBytes 8 n)

def writeTags (tags : Vec Text) : List UInt8 :=
  writeCount tags.toList.length ++ tags.toList.flatMap writeString

def writeItem (item : FeedItem) : List UInt8 :=
  writeBytes (beBytes 8 item.id.toBitVec.toNat) ++
    writeDeclarationIdentity item.copyrightDeclaration ++
    writeOptionalString item.renderedTitle ++
    writeOptionalString item.visibleTitle ++
    writeString item.permalink ++
    writeOptionalString item.summary ++
    writeString item.contentHtml ++
    writeTimestamp item.publishedAt ++
    writeTimestamp item.updatedAt ++
    writeTags item.tags

/-- The bytes that `semantic_fingerprint_with_revision` feeds to its hasher. -/
def semanticPreimage (format : FeedFormat) (revision : UInt16) (metadata : FeedMetadata)
    (items : Vec FeedItem) : List UInt8 :=
  writeStr "jaunder.feed.semantic-identity.v1" ++
    writeStr format.ext ++
    writeBytes (beBytes 2 revision.toBitVec.toNat) ++
    writeString metadata.title ++
    writeOptionalString metadata.description ++
    writeString metadata.canonicalUrl ++
    writeString metadata.selfUrl ++
    writeOptionalString metadata.hubUrl ++
    (writeCount items.toList.length ++ items.toList.flatMap writeItem)

/-- Every serializer is at the same revision. -/
def serializerRevision : FeedFormat → UInt16
  | .rss => 3
  | .atom => 3
  | .json => 3

abbrev FeedSemanticFingerprint := ContentHash

section Digest

variable (sha256 : List UInt8 → ContentHash)

def feedSemanticFingerprint (format : FeedFormat) (metadata : FeedMetadata) (items : Vec FeedItem) :
    FeedSemanticFingerprint :=
  sha256 (semanticPreimage format (serializerRevision format) metadata items)

def fromContentHash (hash : ContentHash) : String := "\"sha256-" ++ hash.value ++ "\""

def feedEtag (fingerprint : FeedSemanticFingerprint) (representationModifiedAt : UtcInstant) :
    String :=
  fromContentHash (sha256 (writeStr "jaunder.feed.etag.v1" ++ writeStr fingerprint.value ++
    writeTimestamp representationModifiedAt))

end Digest

structure DeclarationIdentity where
  year : Int16
  authorName : Text
  license : ContentLicense

structure ItemIdentity where
  id : Int64
  declaration : DeclarationIdentity
  renderedTitle : Option Text
  visibleTitle : Option Text
  permalink : Text
  summary : Option Text
  contentHtml : Text
  publishedAt : UtcInstant
  updatedAt : UtcInstant
  tags : List Text

/-- The meaning of a feed: everything its serializers read, without the representation time. -/
structure SemanticIdentity where
  format : FeedFormat
  revision : UInt16
  title : Text
  description : Option Text
  canonicalUrl : Text
  selfUrl : Text
  hubUrl : Option Text
  items : List ItemIdentity

def declarationIdentity (d : CopyrightDeclaration) : DeclarationIdentity :=
  ⟨d.year, d.authorName, d.license⟩

def itemIdentity (i : FeedItem) : ItemIdentity :=
  ⟨i.id, declarationIdentity i.copyrightDeclaration, i.renderedTitle, i.visibleTitle, i.permalink,
    i.summary, i.contentHtml, i.publishedAt, i.updatedAt, i.tags.toList⟩

def semanticIdentity (format : FeedFormat) (revision : UInt16) (metadata : FeedMetadata)
    (items : Vec FeedItem) : SemanticIdentity :=
  ⟨format, revision, metadata.title, metadata.description, metadata.canonicalUrl,
    metadata.selfUrl, metadata.hubUrl, items.toList.map itemIdentity⟩

theorem delimits_writeBytes {α : Type} {enc : α → List UInt8}
    (h : ∀ x, (enc x).length < 2 ^ 64) : Delimits (fun x ↦ writeBytes (enc x)) enc :=
  delimits_lengthPrefixed (fun x ↦ (h x).trans_le (by norm_num))

theorem delimits_writeString : Delimits writeString id :=
  (delimits_writeBytes (fun t ↦ t.bytes_length_lt.trans (by norm_num))).of_key
    (fun _ _ h ↦ Text.bytes_inj h)

theorem delimits_writeOptionalString : Delimits writeOptionalString id :=
  (delimits_writeString.optional (by decide)).of_key (fun _ _ h ↦ by simpa using h)

theorem delimits_writeFixed {α : Type} {w : ℕ} (hw : w < 2 ^ 64) {number : α → ℕ}
    (hlt : ∀ x, number x < 256 ^ w) : Delimits (fun x ↦ writeBytes (beBytes w (number x))) number :=
  (delimits_writeBytes (fun x ↦ by simpa using hw)).of_key
    (fun x y h ↦ beBytes_inj (hlt x) (hlt y) h)

theorem delimits_token {α : Type} {token : α → String}
    (h : ∀ x, (token x).toUTF8.data.toList.length < 2 ^ 64) {key : α → α}
    (hinj : ∀ x y, (token x).toUTF8.data.toList = (token y).toUTF8.data.toList → key x = key y) :
    Delimits (fun x ↦ writeStr (token x)) key :=
  (delimits_writeBytes h).of_key hinj

theorem int64_ofInt_inj {m n : ℤ} (hm : -2 ^ 63 ≤ m ∧ m < 2 ^ 63) (hn : -2 ^ 63 ≤ n ∧ n < 2 ^ 63)
    (h : (Int64.ofInt m).toBitVec.toNat = (Int64.ofInt n).toBitVec.toNat) : m = n := by
  have hof : Int64.ofInt m = Int64.ofInt n := Int64.toBitVec_inj.mp (BitVec.eq_of_toNat_eq h)
  rw [← Int64.toInt_ofInt_of_le hm.1 hm.2, hof, Int64.toInt_ofInt_of_le hn.1 hn.2]

theorem int32_ofInt_inj {m n : ℤ} (hm : -2 ^ 31 ≤ m ∧ m < 2 ^ 31) (hn : -2 ^ 31 ≤ n ∧ n < 2 ^ 31)
    (h : (Int32.ofInt m).toBitVec.toNat = (Int32.ofInt n).toBitVec.toNat) : m = n := by
  have hof : Int32.ofInt m = Int32.ofInt n := Int32.toBitVec_inj.mp (BitVec.eq_of_toNat_eq h)
  rw [← Int32.toInt_ofInt_of_le hm.1 hm.2, hof, Int32.toInt_ofInt_of_le hn.1 hn.2]

theorem asSecond_i64 (t : UtcInstant) : -2 ^ 63 ≤ t.asSecond ∧ t.asSecond < 2 ^ 63 := by
  have h := t.asSecond_bounds
  omega

theorem subsecNanosecond_i32 (t : UtcInstant) :
    -2 ^ 31 ≤ t.subsecNanosecond ∧ t.subsecNanosecond < 2 ^ 31 := by
  have h := t.subsecNanosecond_bounds
  simp only [nanosPerSecond] at h
  omega

theorem writeTimestamp_inj {a b : UtcInstant} (h : writeTimestamp a = writeTimestamp b) :
    a = b := by
  obtain ⟨hs, hn⟩ := List.append_inj h (by simp)
  refine UtcInstant.eq_of_parts ?_ ?_
  · exact int64_ofInt_inj (asSecond_i64 a) (asSecond_i64 b)
      (beBytes_inj (BitVec.isLt _) (BitVec.isLt _) hs)
  · exact int32_ofInt_inj (subsecNanosecond_i32 a) (subsecNanosecond_i32 b)
      (beBytes_inj (BitVec.isLt _) (BitVec.isLt _) hn)

theorem delimits_writeTimestamp : Delimits writeTimestamp id :=
  (delimits_of_length (n := 12) (fun t ↦ by simp [writeTimestamp])).of_key
    (fun _ _ h ↦ writeTimestamp_inj h)

theorem ContentLicense.token_inj (a b : ContentLicense)
    (h : a.token.toUTF8.data.toList = b.token.toUTF8.data.toList) : a = b := by
  cases a <;> cases b <;> first | rfl | exact absurd h (by decide)

theorem FeedFormat.ext_inj (a b : FeedFormat)
    (h : a.ext.toUTF8.data.toList = b.ext.toUTF8.data.toList) : a = b := by
  cases a <;> cases b <;> first | rfl | exact absurd h (by decide)

theorem delimits_license : Delimits (fun l : ContentLicense ↦ writeStr l.token) id :=
  delimits_token (fun l ↦ by cases l <;> decide) ContentLicense.token_inj

theorem delimits_format : Delimits (fun f : FeedFormat ↦ writeStr f.ext) id :=
  delimits_token (fun f ↦ by cases f <;> decide) FeedFormat.ext_inj

theorem delimits_writeDeclarationIdentity :
    Delimits writeDeclarationIdentity declarationIdentity := by
  have hyear : Delimits (fun d : CopyrightDeclaration ↦
      writeBytes (beBytes 2 d.year.toBitVec.toNat)) (fun d ↦ d.year.toBitVec.toNat) :=
    delimits_writeFixed (by norm_num) (fun d ↦ d.year.toBitVec.isLt)
  have h := (hyear.append (delimits_writeString.comp CopyrightDeclaration.authorName)).append
    (delimits_license.comp CopyrightDeclaration.license)
  refine h.of_key (fun a b hk ↦ ?_)
  simp only [Prod.mk.injEq, id_eq] at hk
  obtain ⟨⟨hy, hname⟩, hlicense⟩ := hk
  simp only [declarationIdentity, DeclarationIdentity.mk.injEq]
  exact ⟨Int16.toBitVec_inj.mp (BitVec.eq_of_toNat_eq hy), hname, hlicense⟩

theorem writeCount_append_inj {m n : ℕ} {u v : List UInt8} (hm : m < 2 ^ 63) (hn : n < 2 ^ 63)
    (h : writeCount m ++ u = writeCount n ++ v) : m = n ∧ u = v := by
  have hword : Delimits (fun n ↦ lengthPrefixed 8 (beBytes 8 n)) (beBytes 8) :=
    delimits_lengthPrefixed (fun n ↦ by simp)
  obtain ⟨hbytes, huv⟩ := hword h
  exact ⟨beBytes_inj (hm.trans (by norm_num)) (hn.trans (by norm_num)) hbytes, huv⟩

theorem delimits_counted {α κ : Type} {enc : α → List UInt8} {key : α → κ}
    (h : Delimits enc key) :
    Delimits (fun xs : Vec α ↦ writeCount xs.toList.length ++ xs.toList.flatMap enc)
      (fun xs ↦ xs.toList.map key) :=
  fun xs ys _ _ he ↦ h.counted writeCount_append_inj xs.fits ys.fits he

theorem delimits_writeTags : Delimits writeTags Vec.toList :=
  (delimits_counted delimits_writeString).of_key (fun _ _ h ↦ by simpa using h)

theorem delimits_writeItem : Delimits writeItem itemIdentity := by
  have hid : Delimits (fun i : FeedItem ↦ writeBytes (beBytes 8 i.id.toBitVec.toNat))
      (fun i ↦ i.id.toBitVec.toNat) :=
    delimits_writeFixed (by norm_num) (fun i ↦ i.id.toBitVec.isLt)
  have h := hid.append (delimits_writeDeclarationIdentity.comp FeedItem.copyrightDeclaration)
    |>.append (delimits_writeOptionalString.comp FeedItem.renderedTitle)
    |>.append (delimits_writeOptionalString.comp FeedItem.visibleTitle)
    |>.append (delimits_writeString.comp FeedItem.permalink)
    |>.append (delimits_writeOptionalString.comp FeedItem.summary)
    |>.append (delimits_writeString.comp FeedItem.contentHtml)
    |>.append (delimits_writeTimestamp.comp FeedItem.publishedAt)
    |>.append (delimits_writeTimestamp.comp FeedItem.updatedAt)
    |>.append (delimits_writeTags.comp FeedItem.tags)
  refine h.of_key (fun a b hk ↦ ?_)
  simp only [Prod.mk.injEq, id_eq] at hk
  obtain ⟨⟨⟨⟨⟨⟨⟨⟨⟨hid, hdecl⟩, htitle⟩, hvisible⟩, hlink⟩, hsummary⟩, hhtml⟩, hpub⟩, hupd⟩, htags⟩ := hk
  simp only [itemIdentity, ItemIdentity.mk.injEq]
  exact ⟨Int64.toBitVec_inj.mp (BitVec.eq_of_toNat_eq hid), hdecl, htitle, hvisible, hlink,
    hsummary, hhtml, hpub, hupd, htags⟩

theorem writeItem_eq_of_identity (a b : FeedItem) (h : itemIdentity a = itemIdentity b) :
    writeItem a = writeItem b := by
  simp only [itemIdentity, declarationIdentity, ItemIdentity.mk.injEq,
    DeclarationIdentity.mk.injEq] at h
  obtain ⟨hid, ⟨hyear, hname, hlicense⟩, htitle, hvisible, hlink, hsummary, hhtml, hpub, hupd,
    htags⟩ := h
  simp only [writeItem, writeDeclarationIdentity, writeTags, hid, hyear, hname, hlicense, htitle,
    hvisible, hlink, hsummary, hhtml, hpub, hupd, htags]

structure FingerprintInput where
  format : FeedFormat
  revision : UInt16
  metadata : FeedMetadata
  items : Vec FeedItem

namespace FingerprintInput

def preimage (x : FingerprintInput) : List UInt8 :=
  semanticPreimage x.format x.revision x.metadata x.items

def identity (x : FingerprintInput) : SemanticIdentity :=
  semanticIdentity x.format x.revision x.metadata x.items

theorem delimits_preimage : Delimits preimage identity := by
  have hrev : Delimits (fun x : FingerprintInput ↦
      writeBytes (beBytes 2 x.revision.toBitVec.toNat)) (fun x ↦ x.revision.toBitVec.toNat) :=
    delimits_writeFixed (by norm_num) (fun x ↦ x.revision.toBitVec.isLt)
  have h := (delimits_const (writeStr "jaunder.feed.semantic-identity.v1")).append
      (delimits_format.comp FingerprintInput.format)
    |>.append hrev
    |>.append (delimits_writeString.comp (fun x ↦ x.metadata.title))
    |>.append (delimits_writeOptionalString.comp (fun x ↦ x.metadata.description))
    |>.append (delimits_writeString.comp (fun x ↦ x.metadata.canonicalUrl))
    |>.append (delimits_writeString.comp (fun x ↦ x.metadata.selfUrl))
    |>.append (delimits_writeOptionalString.comp (fun x ↦ x.metadata.hubUrl))
    |>.append ((delimits_counted delimits_writeItem).comp FingerprintInput.items)
  refine h.of_key (fun a b hk ↦ ?_)
  simp only [Prod.mk.injEq, id_eq] at hk
  obtain ⟨⟨⟨⟨⟨⟨⟨⟨-, hformat⟩, hrev⟩, htitle⟩, hdesc⟩, hcanonical⟩, hself⟩, hhub⟩, hitems⟩ := hk
  simp only [identity, semanticIdentity, SemanticIdentity.mk.injEq]
  exact ⟨hformat, UInt16.toBitVec_inj.mp (BitVec.eq_of_toNat_eq hrev), htitle, hdesc, hcanonical,
    hself, hhub, hitems⟩

theorem preimage_eq_of_identity {x y : FingerprintInput} (h : x.identity = y.identity) :
    x.preimage = y.preimage := by
  simp only [identity, semanticIdentity, SemanticIdentity.mk.injEq] at h
  obtain ⟨hformat, hrev, htitle, hdesc, hcanonical, hself, hhub, hitems⟩ := h
  have hlen : x.items.toList.length = y.items.toList.length := by
    simpa using congrArg List.length hitems
  simp only [preimage, semanticPreimage, hformat, hrev, htitle, hdesc, hcanonical, hself, hhub,
    hlen, flatMap_eq_of_map_key_eq writeItem_eq_of_identity hitems]

end FingerprintInput

/-- Two feeds are hashed from the same bytes exactly when they mean the same. -/
theorem semanticPreimage_eq_iff (f₁ f₂ : FeedFormat) (r₁ r₂ : UInt16) (m₁ m₂ : FeedMetadata)
    (i₁ i₂ : Vec FeedItem) :
    semanticPreimage f₁ r₁ m₁ i₁ = semanticPreimage f₂ r₂ m₂ i₂ ↔
      semanticIdentity f₁ r₁ m₁ i₁ = semanticIdentity f₂ r₂ m₂ i₂ :=
  ⟨fun h ↦ FingerprintInput.delimits_preimage.key_eq
      (x := ⟨f₁, r₁, m₁, i₁⟩) (y := ⟨f₂, r₂, m₂, i₂⟩) h,
    fun h ↦ FingerprintInput.preimage_eq_of_identity
      (x := ⟨f₁, r₁, m₁, i₁⟩) (y := ⟨f₂, r₂, m₂, i₂⟩) h⟩

def adaText : Text := ⟨"ada", by decide⟩

def adaMetadata : FeedMetadata := ⟨adaText, none, adaText, adaText, none, .epoch⟩

def adaItem (author : CopyrightAuthor) : FeedItem :=
  ⟨1, ⟨2026, author, .ccBy4_0⟩, none, none, adaText, none, adaText,
    .epoch, .epoch, ⟨[], by decide⟩⟩

def adaFeed (author : CopyrightAuthor) : Vec FeedItem := ⟨[adaItem author], by simp⟩

theorem author_variant_not_hashed :
    semanticPreimage .rss 3 adaMetadata (adaFeed (.displayName adaText)) =
        semanticPreimage .rss 3 adaMetadata (adaFeed (.username adaText)) ∧
      (adaItem (.displayName adaText)).copyrightDeclaration ≠
        (adaItem (.username adaText)).copyrightDeclaration :=
  ⟨FingerprintInput.preimage_eq_of_identity (x := ⟨.rss, 3, adaMetadata, adaFeed _⟩)
    (y := ⟨.rss, 3, adaMetadata, adaFeed _⟩) rfl, by decide⟩

end Jaunder.Host.Etag
