import Jaunder.Common.PostText
import Jaunder.Foundation.CanonicalJson
import Jaunder.Foundation.FiniteMap
import Jaunder.Foundation.Octets
import Jaunder.Foundation.Outcome
import Jaunder.Host.ThemePackage
import Jaunder.Server.Document
import Mathlib.Data.String.Basic

namespace Jaunder.Host.ThemeValidation

open Foundation.CanonicalJson Foundation.FiniteMap Foundation.Json Foundation.Octets
open Foundation.Outcome
open Jaunder.Common.Hash Jaunder.Common.Owned Jaunder.Common.PostText
open Jaunder.Host.ThemePackage

instance : LinearOrder Text := .lift' Text.value fun _ _ ↦ Text.ext

structure ThemePackageLimits where
  maxArchiveBytes : ℕ
  maxCompressedBytes : ℕ
  maxExpandedBytes : ℕ
  maxFiles : ℕ
  maxFileBytes : ℕ
  maxImageWidth : ℕ
  maxImageHeight : ℕ
  maxImageFrames : ℕ
  maxImagePixels : ℕ
  maxFontBytes : ℕ

/-- The texts of `json` errors are those of `serde_json`; no process survives `outOfMemory`. -/
inductive ThemePackageError
  | limitExceeded (limit : String)
  | member (name : String)
  | manifest (message : String)
  | json
  | mime (path declared : String)
  | undeclaredAsset (path : String)
  | outOfMemory
deriving DecidableEq

section Archive

/-- A member of the archive as the ZIP reader gives it, with the bytes that it is charged for. -/
structure ArchiveMember where
  path : Text
  regular : Bool
  compressed : ℕ
  size : ℕ
  bytes : Vec UInt8

structure Archive where
  size : ℕ
  members : List ArchiveMember

/-- `path.get(1..2) == Some(":")` -/
def hasDrive (path : String) : Bool :=
  match path.toList with
  | c :: ':' :: _ => c.toNat < 128
  | _ => false

def validateMemberName (path : String) : Except ThemePackageError Unit := do
  require (¬(path = "" ∨ Char.ofNat 0 ∈ path.toList ∨ '\\' ∈ path.toList ∨
    path.toList.head? = some '/' ∨ hasDrive path ∨
    (path.toList.splitOn '/').any (fun p ↦ p = [] ∨ p = ['.'] ∨ p = ['.', '.']))) (.member path)
  require (path = "theme.json" ∨ path = "style.css" ∨ "assets/".toList.isPrefixOf path.toList)
    (.member path)

/-- `validate_central_directory_names` -/
def validateNames : List Text → List ArchiveMember → Except ThemePackageError Unit
  | _, [] => .ok ()
  | names, m :: members => do
    validateMemberName m.path.value
    require (m.path ∉ names) (.member m.path.value)
    validateNames (m.path :: names) members

abbrev Entries := OrderedMap Text (Vec UInt8)

structure Reading where
  compressed : ℕ
  expanded : ℕ
  entries : Entries

variable (limits : ThemePackageLimits)

def readMember (r : Reading) (m : ArchiveMember) : Except ThemePackageError Reading := do
  validateMemberName m.path.value
  require m.regular (.member m.path.value)
  let compressed := r.compressed + m.compressed
  require (compressed < 2 ^ 64) (.limitExceeded "compressed bytes")
  require (compressed ≤ limits.maxCompressedBytes ∧ m.size ≤ limits.maxFileBytes)
    (.limitExceeded "compressed or per-file bytes")
  require (m.bytes.toList.length ≤ limits.maxFileBytes) (.limitExceeded "per-file bytes")
  let expanded := r.expanded + m.bytes.toList.length
  require (expanded < 2 ^ 64 ∧ expanded ≤ limits.maxExpandedBytes)
    (.limitExceeded "expanded bytes")
  return ⟨compressed, expanded, r.entries.insert m.path m.bytes⟩

def readArchiveEntries (members : List ArchiveMember) : Except ThemePackageError Entries := do
  validateNames [] members
  require (members.length ≤ limits.maxFiles) (.limitExceeded "file count")
  let r ← members.foldlM (readMember limits) ⟨0, 0, .empty⟩
  return r.entries

def themeJson : Text := .compose "theme.json"

def styleCss : Text := .compose "style.css"

def takeRequiredEntries (entries : Entries) :
    Except ThemePackageError (Vec UInt8 × Vec UInt8 × Entries) := do
  let manifest ← orError (entries.get? themeJson) (.member "missing theme.json")
  let entries := entries.erase themeJson
  let css ← orError (entries.get? styleCss) (.member "missing style.css")
  return (manifest, css, entries.erase styleCss)

end Archive

section Manifest

structure Defaults where
  logo : Option Text
  header : Option (List Text)

structure Manifest where
  schema : ℕ
  name : Text
  styleContract : ℕ
  assets : OrderedMap Text Text
  defaults : Defaults

def ownedText (s : String) : Option Text :=
  if h : s.toUTF8.data.toList.length < 2 ^ 63 then some ⟨s, h⟩ else none

def asU8 : Value → Option ℕ
  | .num n => if 0 ≤ n ∧ n < 256 then some n.toNat else none
  | _ => none

def asText : Value → Option Text
  | .str s => ownedText s
  | _ => none

def asTexts : Value → Option (List Text)
  | .arr elements => elements.mapM asText
  | _ => none

def asOption {α : Type} (f : Value → Option α) (v : Value) : Option (Option α) :=
  match v with
  | .null => some none
  | v => (f v).map some

/-- The members of an object, none of them unknown and none of them twice. -/
def members (known : List String) : Value → Option (List (String × Value))
  | .obj fields =>
    if (fields.map Prod.fst).Nodup ∧ ∀ key ∈ fields.map Prod.fst, key ∈ known then some fields
    else none
  | _ => none

def absentOr {α : Type} (f : Value → Option α) (v : Option Value) : Option (Option α) :=
  v.elim (some none) (asOption f)

/-- The reader of a structure also takes an array of its members. -/
def asDefaults : Value → Option Defaults
  | .arr elements =>
    match elements with
    | [logo, header] => do return ⟨← asOption asText logo, ← asOption asTexts header⟩
    | _ => none
  | v => do
    let fields ← members ["logo", "header"] v
    return ⟨← absentOr asText (fields.lookup "logo"), ← absentOr asTexts (fields.lookup "header")⟩

def asAsset (field : String × Value) : Option (Text × Text) := do
  return (← ownedText field.1, ← asText field.2)

def asAssets : Value → Option (OrderedMap Text Text)
  | .obj fields =>
    if (fields.map Prod.fst).Nodup then (fields.mapM asAsset).map .ofList else none
  | _ => none

/-- `ManifestAssetsUnique` and then `Manifest` -/
def decodeManifest (v : Value) : Option Manifest := do
  let fields ← members ["schema", "name", "style_contract", "assets", "defaults"] v
  return {
    schema := ← (fields.lookup "schema").bind asU8
    name := ← (fields.lookup "name").bind asText
    styleContract := ← (fields.lookup "style_contract").bind asU8
    assets := ← (fields.lookup "assets").bind asAssets
    defaults := ← (fields.lookup "defaults").bind asDefaults }

def utf16Units (c : Char) : List ℕ :=
  if c.toNat < 0x10000 then [c.toNat]
  else [0xD800 + (c.toNat - 0x10000) / 0x400, 0xDC00 + (c.toNat - 0x10000) % 0x400]

/-- The order of the members in canonical JSON. -/
def memberLe (a b : String) : Prop := a.toList.flatMap utf16Units ≤ b.toList.flatMap utf16Units

instance : DecidableRel memberLe := fun _ _ ↦ inferInstanceAs (Decidable (_ ≤ _))

instance : Std.Total memberLe := ⟨fun _ _ ↦ le_total _ _⟩

instance : IsTrans String memberLe := ⟨fun _ _ _ ↦ le_trans⟩

/-- How canonical JSON spells the inside of a string, and how `serde_json` reads a text: the members
of its objects in the order of the text. -/
structure JsonLibrary where
  quote : List Char → List Char
  fromSlice : List UInt8 → Option Value

variable (L : JsonLibrary)

/-- `serde_jcs::to_vec` -/
def JsonLibrary.toVec (v : Value) : List UInt8 :=
  utf8 (print L.quote (canonical memberLe v))

def styleContractVersion : ℕ := 1

def parseManifest (raw : List UInt8) : Except ThemePackageError (Manifest × Vec UInt8) := do
  let value ← orError (L.fromSlice raw) .json
  let manifest ← orError (decodeManifest value) .json
  require (manifest.schema = 1 ∧ manifest.styleContract = styleContractVersion ∧
    ¬manifest.name.value.toList.all isWhitespace)
    (.manifest "schema, style_contract, and name must be version 1 and non-empty")
  if h : (L.toVec value).length < 2 ^ 63 then return (manifest, ⟨L.toVec value, h⟩)
  else .error .outOfMemory

end Manifest

section Assets

structure AvifTrack where
  video : Bool
  sampleCounts : Option (List ℕ)

structure AvifContext where
  sequence : Option (List AvifTrack)
  unsupported : Bool

/-- The decoders: how long a font is, how wide and high an image is, how a film is laid out. -/
structure Decoders where
  decompressWoff2 : List UInt8 → Option ℕ
  decodeImage : AssetMime → List UInt8 → Option (ℕ × ℕ)
  readAvif : List UInt8 → Option AvifContext

def avifMimeError : ThemePackageError := .mime "image" "image/avif"

def AssetMime.parse (value : String) : Option AssetMime :=
  [.woff2, .png, .jpeg, .webp, .avif].find? (fun mime ↦ mime.asStr = value)

def u32At (bytes : List UInt8) (offset : ℕ) : ℕ :=
  ((bytes.drop offset).take 4).foldl (fun n b ↦ 256 * n + b.toNat) 0

/-- The chunks from an offset on. -/
def pngFrames (bytes : List UInt8) (offset : ℕ) : ℕ :=
  if offset + 12 ≤ bytes.length then
    if (bytes.drop (offset + 4)).take 4 = "acTL".toUTF8.data.toList then u32At bytes (offset + 8)
    else pngFrames bytes (offset + 12 + u32At bytes offset)
  else 1
termination_by bytes.length - offset

def avifSequenceFrames (tracks : List AvifTrack) : Except ThemePackageError ℕ := do
  let frames ← (tracks.filter AvifTrack.video).foldlM (fun frames track ↦ do
    let samples ← orError track.sampleCounts avifMimeError
    require (samples.sum < 2 ^ 64 ∧ samples.sum ≠ 0 ∧ frames = none) avifMimeError
    return some samples.sum) none
  orError frames avifMimeError

variable (D : Decoders) (limits : ThemePackageLimits)

def animationFrames (mime : AssetMime) (bytes : List UInt8) : Except ThemePackageError ℕ :=
  match mime with
  | .png => .ok (pngFrames bytes 8)
  | .webp => .ok (max (bytes.tails.countP (fun t ↦ t.take 4 = "ANMF".toUTF8.data.toList)) 1)
  | .avif => do
    let context ← orError (D.readAvif bytes) avifMimeError
    require (context.sequence = none ∨ ¬context.unsupported) avifMimeError
    match context.sequence with
    | none => return 1
    | some tracks => avifSequenceFrames tracks
  | .jpeg | .woff2 => .ok 1

def validateAsset (path : Text) (mime : AssetMime) (bytes : List UInt8) :
    Except ThemePackageError Unit :=
  if mime = .woff2 then do
    require (bytes.length ≤ limits.maxFontBytes) (.limitExceeded "font bytes")
    let decoded ← orError (D.decompressWoff2 bytes) (.mime path.value mime.asStr)
    require (decoded ≤ limits.maxFontBytes) (.limitExceeded "font decoded bytes")
  else do
    let frames ← animationFrames D mime bytes
    require (frames ≤ limits.maxImageFrames) (.limitExceeded "image frames")
    let (width, height) ← orError (D.decodeImage mime bytes) (.mime path.value mime.asStr)
    require (width ≤ limits.maxImageWidth ∧ height ≤ limits.maxImageHeight)
      (.limitExceeded "image dimensions")
    require (width * height < 2 ^ 64 ∧ width * height * frames < 2 ^ 64 ∧
      width * height * frames ≤ limits.maxImagePixels) (.limitExceeded "image pixels")

def validateAssetPath (path : String) : Except ThemePackageError Unit := do
  validateMemberName path
  require ("assets/".toList.isPrefixOf path.toList) (.manifest "asset path must be below assets/")

abbrev Assets := OrderedMap Text ThemeAsset

def validateDeclaredAsset (st : Entries × Assets) (declared : Text × Text) :
    Except ThemePackageError (Entries × Assets) := do
  validateAssetPath declared.1.value
  let mime ← orError (AssetMime.parse declared.2.value)
    (.manifest ("unsupported MIME type `" ++ declared.2.value ++ "`"))
  let bytes ← orError (st.1.get? declared.1) (.undeclaredAsset declared.1.value)
  validateAsset D limits declared.1 mime bytes.toList
  return (st.1.erase declared.1, st.2.insert declared.1 ⟨mime, bytes⟩)

def validateDeclaredAssets (manifest : Manifest) (entries : Entries) :
    Except ThemePackageError (Entries × Assets) :=
  manifest.assets.entries.foldlM (validateDeclaredAsset D limits) (entries, .empty)

def requireImageDefault (assets : Assets) (path : Text) : Except ThemePackageError Unit :=
  require ((assets.get? path).any (fun asset ↦ asset.mime ≠ .woff2))
    (.manifest ("default `" ++ path.value ++ "` is not a declared image"))

def validateHeader (assets : Assets) : List Text → List Text → Except ThemePackageError Unit
  | _, [] => .ok ()
  | distinct, path :: paths => do
    require (path ∉ distinct) (.manifest "default header contains a duplicate")
    requireImageDefault assets path
    validateHeader assets (path :: distinct) paths

def validateDefaults (defaults : Defaults) (assets : Assets) : Except ThemePackageError Unit := do
  (defaults.logo.elim (.ok ()) (requireImageDefault assets) : Except ThemePackageError Unit)
  match defaults.header with
  | none => return ()
  | some paths =>
    require (paths ≠ []) (.manifest "default header must not be empty")
    validateHeader assets [] paths

end Assets

section Validation

variable (L : JsonLibrary) (D : Decoders) (limits : ThemePackageLimits)

/-- What follows once the members are read. -/
def validateEntries (entries : Entries) : Except ThemePackageError ValidatedThemePackage := do
  let (raw, css, entries) ← takeRequiredEntries entries
  let (manifest, canonical) ← parseManifest L raw.toList
  let (entries, assets) ← validateDeclaredAssets D limits manifest entries
  validateDefaults manifest.defaults assets
  (entries.entries.head?.elim (.ok ()) (fun e ↦ .error (.undeclaredAsset e.1.value)) :
    Except ThemePackageError Unit)
  if h : assets.entries.length < 2 ^ 63 then
    return ⟨canonical, css, ⟨assets.entries, h⟩, assets.ordered⟩
  else .error .outOfMemory

def validateThemePackage (archive : Archive) :
    Except ThemePackageError ValidatedThemePackage := do
  require (archive.size ≤ limits.maxArchiveBytes) (.limitExceeded "archive bytes")
  let entries ← readArchiveEntries limits archive.members
  validateEntries L D limits entries

end Validation

section Reading

variable {limits : ThemePackageLimits} {ms : List ArchiveMember} {r r' : Reading}

theorem validateNames_ok {names : List Text} (h : validateNames names ms = .ok ()) :
    (ms.map ArchiveMember.path).Nodup ∧ ∀ m ∈ ms, m.path ∉ names := by
  induction ms generalizing names with
  | nil => exact ⟨List.nodup_nil, fun m hm ↦ absurd hm List.not_mem_nil⟩
  | cons m ms ih =>
    obtain ⟨_, -, h⟩ := bind_eq_ok.mp h
    obtain ⟨_, hfresh, h⟩ := bind_eq_ok.mp h
    obtain ⟨hnodup, hnames⟩ := ih h
    have hm : m.path ∉ ms.map ArchiveMember.path := by
      intro hmem
      obtain ⟨m', hm', hpath⟩ := List.mem_map.mp hmem
      exact hnames m' hm' (hpath ▸ List.mem_cons_self)
    refine ⟨List.nodup_cons.mpr ⟨hm, hnodup⟩, List.forall_mem_cons.mpr
      ⟨require_eq_ok.mp hfresh, fun m' hm' hmem ↦ ?_⟩⟩
    exact hnames m' hm' (List.mem_cons_of_mem _ hmem)

theorem readMember_ok {m : ArchiveMember} (h : readMember limits r m = .ok r') :
    r'.entries = r.entries.insert m.path m.bytes := by
  obtain ⟨_, -, h⟩ := bind_eq_ok.mp h
  obtain ⟨_, -, h⟩ := bind_eq_ok.mp h
  obtain ⟨_, -, h⟩ := bind_eq_ok.mp h
  obtain ⟨_, -, h⟩ := bind_eq_ok.mp h
  obtain ⟨_, -, h⟩ := bind_eq_ok.mp h
  obtain ⟨_, -, h⟩ := bind_eq_ok.mp h
  exact congrArg Reading.entries (pure_eq_ok.mp h).symm

theorem readMembers_ok (h : ms.foldlM (readMember limits) r = .ok r') : r'.entries =
    (ms.map (fun m ↦ (m.path, m.bytes))).foldl (fun m e ↦ m.insert e.1 e.2) r.entries := by
  induction ms generalizing r with
  | nil => exact congrArg Reading.entries (pure_eq_ok.mp h).symm
  | cons m ms ih =>
    rw [List.foldlM_cons] at h
    obtain ⟨next, hnext, h⟩ := bind_eq_ok.mp h
    rw [ih h, readMember_ok hnext, List.map_cons, List.foldl_cons]

/-- The members under distinct names, whatever their order. -/
theorem readArchiveEntries_ok {entries : Entries} (h : readArchiveEntries limits ms = .ok entries) :
    ((ms.map (fun m ↦ (m.path, m.bytes))).map Prod.fst).Nodup ∧
      entries = .ofList (ms.map (fun m ↦ (m.path, m.bytes))) := by
  obtain ⟨_, hnames, h⟩ := bind_eq_ok.mp h
  obtain ⟨_, -, h⟩ := bind_eq_ok.mp h
  obtain ⟨r, hr, h⟩ := bind_eq_ok.mp h
  refine ⟨?_, (pure_eq_ok.mp h).symm.trans (readMembers_ok hr)⟩
  rw [List.map_map]
  exact (validateNames_ok hnames).1

end Reading

section Canonical

variable {α β : Type} {v : Value}

theorem mapM_perm {f : α → Option β} {as bs : List α} (h : as.Perm bs) :
    (∃ xs ys, as.mapM f = some xs ∧ bs.mapM f = some ys ∧ xs.Perm ys) ∨
      as.mapM f = none ∧ bs.mapM f = none := by
  induction h with
  | nil => exact .inl ⟨[], [], rfl, rfl, .nil⟩
  | @cons a as bs _ ih =>
    simp only [List.mapM_cons, Option.bind_eq_bind, Option.pure_def]
    cases f a with
    | none => exact .inr ⟨rfl, rfl⟩
    | some x =>
      rcases ih with ⟨xs, ys, hxs, hys, hperm⟩ | ⟨has, hbs⟩
      · rw [hxs, hys]
        exact .inl ⟨x :: xs, x :: ys, rfl, rfl, hperm.cons x⟩
      · rw [has, hbs]
        exact .inr ⟨rfl, rfl⟩
  | swap a b as =>
    simp only [List.mapM_cons, Option.bind_eq_bind, Option.pure_def]
    cases f a with
    | none => cases f b <;> exact .inr ⟨rfl, rfl⟩
    | some x =>
      cases f b with
      | none => exact .inr ⟨rfl, rfl⟩
      | some y =>
        cases as.mapM f with
        | none => exact .inr ⟨rfl, rfl⟩
        | some xs => exact .inl ⟨y :: x :: xs, x :: y :: xs, rfl, rfl, .swap x y xs⟩
  | trans _ _ ih ih' =>
    rcases ih with ⟨xs, ys, hxs, hys, hperm⟩ | ⟨has, hbs⟩
    · rcases ih' with ⟨ys', zs, hys', hzs, hperm'⟩ | ⟨hbs, -⟩
      · obtain rfl := Option.some.inj (hys.symm.trans hys')
        exact .inl ⟨xs, zs, hxs, hzs, hperm.trans hperm'⟩
      · rw [hys] at hbs
        cases hbs
    · rcases ih' with ⟨ys, zs, hys, -, -⟩ | ⟨-, hcs⟩
      · rw [hbs] at hys
        cases hys
      · exact .inr ⟨has, hcs⟩

theorem asU8_canonical (v : Value) : asU8 (canonical memberLe v) = asU8 v := by cases v <;> rfl

theorem asText_canonical (v : Value) : asText (canonical memberLe v) = asText v := by
  cases v <;> rfl

theorem asTexts_canonical (v : Value) : asTexts (canonical memberLe v) = asTexts v := by
  cases v with
  | arr elements =>
    have helements : (canonicalElements memberLe elements).mapM asText = elements.mapM asText := by
      rw [canonicalElements_eq_map, List.mapM_map]
      exact congrArg (fun f ↦ elements.mapM f) (funext asText_canonical)
    exact helements
  | _ => rfl

theorem asOption_canonical {f : Value → Option α} (hf : ∀ v, f (canonical memberLe v) = f v)
    (v : Value) : asOption f (canonical memberLe v) = asOption f v := by
  cases v with
  | null => rfl
  | _ => exact congrArg (Option.map some) (hf _)

theorem absentOr_canonical {f : Value → Option α} (hf : ∀ v, f (canonical memberLe v) = f v)
    (v : Option Value) : absentOr f (v.map (canonical memberLe)) = absentOr f v := by
  cases v with
  | none => rfl
  | some v => exact asOption_canonical hf v

theorem keys_perm (fields : List (String × Value)) :
    ((sortFields memberLe (canonicalFields memberLe fields)).map Prod.fst).Perm
      (fields.map Prod.fst) := by
  have hkeys : (canonicalFields memberLe fields).map Prod.fst = fields.map Prod.fst :=
    keys_canonicalFields fields
  rw [← hkeys]
  exact (sortFields_perm _).map Prod.fst

theorem members_canonical (known : List String) (v : Value) :
    members known (canonical memberLe v) =
      (members known v).map (fun fields ↦ sortFields memberLe (canonicalFields memberLe fields)) := by
  cases v with
  | obj fields =>
    have hkeys := keys_perm fields
    have hiff : (((sortFields memberLe (canonicalFields memberLe fields)).map Prod.fst).Nodup ∧
        ∀ key ∈ (sortFields memberLe (canonicalFields memberLe fields)).map Prod.fst, key ∈ known) ↔
          (fields.map Prod.fst).Nodup ∧ ∀ key ∈ fields.map Prod.fst, key ∈ known :=
      and_congr hkeys.nodup_iff (forall_congr' fun key ↦ imp_congr_left hkeys.mem_iff)
    rw [canonical, members, members]
    by_cases h : (fields.map Prod.fst).Nodup ∧ ∀ key ∈ fields.map Prod.fst, key ∈ known
    · rw [if_pos h, if_pos (hiff.mpr h), Option.map_some]
    · rw [if_neg h, if_neg fun h' ↦ h (hiff.mp h'), Option.map_none]
  | _ => rfl

theorem members_nodup {known : List String} {fields : List (String × Value)}
    (h : members known v = some fields) : (fields.map Prod.fst).Nodup := by
  cases v with
  | obj found =>
    rw [members] at h
    split_ifs at h with hknown
    obtain rfl := Option.some.inj h
    exact hknown.1
  | _ => cases h

theorem asDefaults_canonical (v : Value) : asDefaults (canonical memberLe v) = asDefaults v := by
  have hmembers (v : Value) : (do
      let fields ← members ["logo", "header"] (canonical memberLe v)
      return (⟨← absentOr asText (fields.lookup "logo"),
        ← absentOr asTexts (fields.lookup "header")⟩ : Defaults)) = (do
      let fields ← members ["logo", "header"] v
      return (⟨← absentOr asText (fields.lookup "logo"),
        ← absentOr asTexts (fields.lookup "header")⟩ : Defaults)) := by
    rw [members_canonical]
    cases h : members ["logo", "header"] v with
    | none => rfl
    | some fields =>
      have hnodup := members_nodup h
      simp only [Option.map_some, Option.bind_eq_bind, Option.bind_some]
      rw [lookup_sortFields hnodup, lookup_sortFields hnodup, absentOr_canonical asText_canonical,
        absentOr_canonical asTexts_canonical]
  cases v with
  | arr elements =>
    rw [canonical, canonicalElements_eq_map]
    match elements with
    | [logo, header] =>
      simp only [List.map_cons, List.map_nil, asDefaults, asOption_canonical asText_canonical,
        asOption_canonical asTexts_canonical]
    | [] => rfl
    | [_] => rfl
    | _ :: _ :: _ :: _ => rfl
  | obj fields => exact hmembers (.obj fields)
  | _ => rfl

theorem ownedText_value {s : String} {t : Text} (h : ownedText s = some t) : t.value = s := by
  unfold ownedText at h
  split_ifs at h with hfits
  obtain rfl := Option.some.inj h
  rfl

theorem keys_mapM_asAsset {fields : List (String × Value)} {assets : List (Text × Text)}
    (h : fields.mapM asAsset = some assets) :
    (assets.map Prod.fst).map Text.value = fields.map Prod.fst := by
  induction fields generalizing assets with
  | nil =>
    rw [← Option.some.inj h]
    rfl
  | cons field fields ih =>
    rw [List.mapM_cons] at h
    obtain ⟨asset, hasset, h⟩ := Option.bind_eq_some_iff.mp h
    obtain ⟨rest, hrest, h⟩ := Option.bind_eq_some_iff.mp h
    obtain ⟨path, hpath, hasset⟩ := Option.bind_eq_some_iff.mp hasset
    obtain ⟨mime, -, hasset⟩ := Option.bind_eq_some_iff.mp hasset
    rw [← Option.some.inj h, List.map_cons, List.map_cons, List.map_cons, ih hrest,
      ← Option.some.inj hasset, ownedText_value hpath]

theorem mapM_asAsset_canonicalFields (fields : List (String × Value)) :
    (canonicalFields memberLe fields).mapM asAsset = fields.mapM asAsset := by
  rw [canonicalFields_eq_map, List.mapM_map]
  refine congrArg (fun f ↦ fields.mapM f) (funext fun field ↦ ?_)
  simp only [asAsset, Function.comp_apply, asText_canonical]

theorem asAssets_canonical (v : Value) : asAssets (canonical memberLe v) = asAssets v := by
  cases v with
  | obj fields =>
    rw [canonical, asAssets, asAssets]
    by_cases h : (fields.map Prod.fst).Nodup
    · rw [if_pos h, if_pos ((keys_perm fields).nodup_iff.mpr h)]
      have hsorted : (sortFields memberLe (canonicalFields memberLe fields)).Perm
          (canonicalFields memberLe fields) := sortFields_perm _
      rcases mapM_perm (f := asAsset) hsorted with ⟨xs, ys, hxs, hys, hperm⟩ | ⟨hxs, hys⟩
      · rw [mapM_asAsset_canonicalFields] at hys
        have hnodup : (ys.map Prod.fst).Nodup := by
          refine List.Nodup.of_map Text.value ?_
          rw [keys_mapM_asAsset hys]
          exact h
        rw [hxs, hys, Option.map_some, Option.map_some,
          OrderedMap.ofList_perm hperm ((hperm.map Prod.fst).nodup_iff.mpr hnodup)]
      · rw [mapM_asAsset_canonicalFields] at hys
        rw [hxs, hys]
    · rw [if_neg h, if_neg fun h' ↦ h ((keys_perm fields).nodup_iff.mp h')]
  | _ => rfl

theorem bind_lookup {f : Value → Option α} (hf : ∀ v, f (canonical memberLe v) = f v)
    (o : Option Value) : (o.map (canonical memberLe)).bind f = o.bind f := by
  cases o with
  | none => rfl
  | some v => exact hf v

/-- The manifest does not depend on the order of its members. -/
theorem decodeManifest_canonical (v : Value) :
    decodeManifest (canonical memberLe v) = decodeManifest v := by
  unfold decodeManifest
  rw [members_canonical]
  cases h : members ["schema", "name", "style_contract", "assets", "defaults"] v with
  | none => rfl
  | some fields =>
    have hnodup := members_nodup h
    simp only [Option.map_some, Option.bind_eq_bind, Option.bind_some]
    simp only [lookup_sortFields hnodup, bind_lookup asU8_canonical, bind_lookup asText_canonical,
      bind_lookup asAssets_canonical, bind_lookup asDefaults_canonical]

variable {L : JsonLibrary}

theorem toVec_canonical (v : Value) : L.toVec (canonical memberLe v) = L.toVec v := by
  rw [JsonLibrary.toVec, JsonLibrary.toVec, canonical_canonical]

/-- `serde_json` reads the compact text of a manifest. -/
def JsonLibrary.Reads (L : JsonLibrary) : Prop := ∀ v m, decodeManifest v = some m →
  L.fromSlice (utf8 (print L.quote v)) = some v

theorem parseManifest_canonical (hreads : L.Reads) {raw : List UInt8} {manifest : Manifest}
    {canonical : Vec UInt8} (h : parseManifest L raw = .ok (manifest, canonical)) :
    parseManifest L canonical.toList = .ok (manifest, canonical) := by
  obtain ⟨value, hvalue, h⟩ := bind_eq_ok.mp h
  obtain ⟨m, hm, h⟩ := bind_eq_ok.mp h
  obtain ⟨_, hversion, h⟩ := bind_eq_ok.mp h
  split_ifs at h with hfits
  obtain ⟨rfl, rfl⟩ := Prod.mk.inj (pure_eq_ok.mp h)
  have hm' := orError_eq_ok.mp hm
  have hcanonical := (decodeManifest_canonical value).trans hm'
  have hread : L.fromSlice (L.toVec value) = some (Foundation.CanonicalJson.canonical memberLe value) :=
    hreads _ _ hcanonical
  unfold parseManifest
  simp only [hread, orError_some, ok_bind, hcanonical, hversion, toVec_canonical, dif_pos hfits]
  rfl

end Canonical

section Identity

variable {L : JsonLibrary} {D : Decoders} {limits : ThemePackageLimits}

theorem validateThemePackage_ok {archive : Archive} {p : ValidatedThemePackage}
    (h : validateThemePackage L D limits archive = .ok p) : ∃ entries,
      readArchiveEntries limits archive.members = .ok entries ∧
        validateEntries L D limits entries = .ok p := by
  obtain ⟨_, -, h⟩ := bind_eq_ok.mp h
  exact bind_eq_ok.mp h

/-- The order of the members of an archive does not reach the package. -/
theorem validateThemePackage_perm {a b : Archive} {p q : ValidatedThemePackage}
    (hp : validateThemePackage L D limits a = .ok p)
    (hq : validateThemePackage L D limits b = .ok q)
    (hperm : (a.members.map (fun m ↦ (m.path, m.bytes))).Perm
      (b.members.map (fun m ↦ (m.path, m.bytes)))) : p = q := by
  obtain ⟨entries, hentries, hp⟩ := validateThemePackage_ok hp
  obtain ⟨entries', hentries', hq⟩ := validateThemePackage_ok hq
  obtain ⟨hnodup, rfl⟩ := readArchiveEntries_ok hentries
  obtain ⟨-, rfl⟩ := readArchiveEntries_ok hentries'
  rw [OrderedMap.ofList_perm hperm hnodup] at hp
  exact Except.ok.inj (hp.symm.trans hq)

/-- What is hashed for a theme is the theme: its canonical manifest, its stylesheet and its assets,
whatever the order of the archive; and the canonical manifest is a fixed point. -/
theorem digests_identify_themes (hreads : L.Reads) (D : Decoders) (limits : ThemePackageLimits)
    (sha256 : List UInt8 → ContentHash) :
    (∀ a b p q, validateThemePackage L D limits a = .ok p →
      validateThemePackage L D limits b = .ok q →
        (sourcePreimage p = sourcePreimage q ↔
          p.manifest = q.manifest ∧ p.css = q.css ∧ p.assets = q.assets) ∧
        (∀ css css' : Vec UInt8,
          (revisionPreimage sha256 ⟨p, css⟩ = revisionPreimage sha256 ⟨q, css'⟩ ↔
            p.manifest = q.manifest ∧ sha256 css.toList = sha256 css'.toList ∧
              p.assets.toList.map (assetIdentity sha256) =
                q.assets.toList.map (assetIdentity sha256)) ∧
          ((∀ x ∈ p.assets.toList, ∀ y ∈ q.assets.toList,
              sha256 x.2.bytes.toList = sha256 y.2.bytes.toList → x.2.bytes = y.2.bytes) →
            (revisionPreimage sha256 ⟨p, css⟩ = revisionPreimage sha256 ⟨q, css'⟩ ↔
              p.manifest = q.manifest ∧ sha256 css.toList = sha256 css'.toList ∧
                p.assets = q.assets))) ∧
        ((a.members.map (fun m ↦ (m.path, m.bytes))).Perm
          (b.members.map (fun m ↦ (m.path, m.bytes))) → p = q)) ∧
      ∀ raw manifest canonical, parseManifest L raw = .ok (manifest, canonical) →
        parseManifest L canonical.toList = .ok (manifest, canonical) := by
  refine ⟨fun a b p q hp hq ↦ ⟨sourcePreimage_inj, fun css css' ↦ ⟨revisionPreimage_inj, ?_⟩,
    validateThemePackage_perm hp hq⟩, fun raw manifest canonical ↦ parseManifest_canonical hreads⟩
  intro hcollisions
  have hassets : p.assets.toList.map (assetIdentity sha256) =
      q.assets.toList.map (assetIdentity sha256) ↔ p.assets = q.assets :=
    @map_assetIdentity_inj sha256 ⟨p, css⟩ ⟨q, css'⟩ hcollisions
  rw [revisionPreimage_inj, ← hassets]
  rfl

end Identity

section Concrete

open Jaunder.Server.Document

/-- Any reader of JSON will do for a text without surrogates and fractions. -/
def plainJson : JsonLibrary := ⟨escape, fun bytes ↦ parse (decodeLossy bytes)⟩

theorem plainJson_reads : plainJson.Reads := by
  intro v m _
  show parse (decodeLossy (utf8 (print escape v))) = some v
  rw [decodeLossy_utf8]
  exact parse_print parseString_escape v

def plainManifest : List Char :=
  ("\x7b\"schema\":1,\"style_contract\":1,\"name\":\"Plain\",\"defaults\":\x7b\x7d," ++
    "\"assets\":\x7b\x7d\x7d").toList

def plainLimits : ThemePackageLimits := ⟨1000, 1000, 1000, 10, 1000, 10, 10, 1, 100, 10⟩

def noDecoders : Decoders := ⟨fun _ ↦ none, fun _ _ ↦ none, fun _ ↦ none⟩

def plainMembers : List ArchiveMember :=
  [⟨themeJson, true, 10, 10, .collect (utf8 plainManifest)⟩, ⟨styleCss, true, 10, 10, .collect []⟩]

theorem plain_theme_identified :
    ∃ p, validateThemePackage plainJson noDecoders plainLimits ⟨100, plainMembers⟩ = .ok p ∧
      validateThemePackage plainJson noDecoders plainLimits ⟨100, plainMembers.reverse⟩ = .ok p := by
  have hvalid (members : List ArchiveMember)
      (h : (validateThemePackage plainJson noDecoders plainLimits ⟨100, members⟩).toOption.isSome =
        true) :
      ∃ p, validateThemePackage plainJson noDecoders plainLimits ⟨100, members⟩ = .ok p := by
    cases hp : validateThemePackage plainJson noDecoders plainLimits ⟨100, members⟩ with
    | ok p => exact ⟨p, rfl⟩
    | error e =>
      rw [hp] at h
      cases h
  obtain ⟨p, hp⟩ := hvalid plainMembers (by decide +kernel)
  obtain ⟨q, hq⟩ := hvalid plainMembers.reverse (by decide +kernel)
  have hperm := (List.reverse_perm plainMembers).symm.map (fun m ↦ (m.path, m.bytes))
  have heq := ((digests_identify_themes plainJson_reads noDecoders plainLimits
    (fun _ ↦ .replicate 0)).1 _ _ _ _ hp hq).2.2 hperm
  exact ⟨p, hp, heq ▸ hq⟩

end Concrete

end Jaunder.Host.ThemeValidation
