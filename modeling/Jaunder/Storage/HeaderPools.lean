import Jaunder.Common.ThemePool
import Jaunder.Storage.Media
import Jaunder.Storage.Themes

namespace Jaunder.Storage.HeaderPools

open Foundation.Ledger Foundation.Outcome Foundation.SelfDelimiting
open Jaunder.Common.Hash Jaunder.Common.Media Jaunder.Common.Owned Jaunder.Common.References
open Jaunder.Common.ThemePool
open Jaunder.Host.ThemePackage
open Jaunder.Storage.Media Jaunder.Storage.Themes

structure ThemeHeaderPoolEntry where
  ordinal : ℤ
  packagePath : Option Text
  mediaUserId : Option ℤ
  mediaSource : Option Text
  mediaDigest : Option ContentHash
  mediaFilename : Option Text
deriving DecidableEq

inductive ThemeImageRole
  | logo
  | header
deriving DecidableEq

/-- What a role of a theme is bound to. -/
inductive ThemeRoleBinding
  | packagedDefault
  | explicitAbsent
  | packageAsset (packagePath : Text)
  | media (userId : ℤ) (media : MediaRef)
  | headerPool (poolRevision : ContentHash) (shuffleSeed : List UInt8)
deriving DecidableEq

/-- The catalog with the media and the rows of `theme_header_pool` and `theme_role_bindings`, of which
`catalog.boundPaths` has the package paths. -/
structure ImageTables where
  catalog : ThemeTables
  media : List MediaRecord
  headerPool : List (ℤ × ThemeHeaderPoolEntry)
  roleBindings : Keyed (ℤ × ThemeImageRole) ThemeRoleBinding

section Encoding

def radixDigit (c : Char) : Option ℕ :=
  if '0' ≤ c ∧ c ≤ '9' then some (c.toNat - 48)
  else if 'a' ≤ c ∧ c ≤ 'f' then some (c.toNat - 87)
  else if 'A' ≤ c ∧ c ≤ 'F' then some (c.toNat - 55)
  else none

/-- `u8::from_str_radix` of two characters, the first of which may be a sign. -/
def fromStrRadix (a b : Char) : Option UInt8 :=
  if a = '+' then (radixDigit b).map UInt8.ofNat
  else do return UInt8.ofNat (16 * (← radixDigit a) + (← radixDigit b))

def radixPairs : List Char → Option (List UInt8)
  | a :: b :: rest => do return (← fromStrRadix a b) :: (← radixPairs rest)
  | _ => some []

def themeDigestBytes (digest : ContentHash) : Except ThemeError (List UInt8) := do
  require (digest.value.toList.length = 64) .rowNotFound
  orError (radixPairs digest.value.toList) .rowNotFound

def pushThemePoolField (value : List UInt8) : List UInt8 := beBytes 8 value.length ++ value

/-- `header_pool_entry_encoding` of the storage crate -/
def headerPoolEntryEncoding (entry : ThemeHeaderPoolEntry) : Except ThemeError (List UInt8) :=
  match entry.packagePath, entry.mediaSource, entry.mediaDigest, entry.mediaFilename with
  | some path, none, none, none =>
    if entry.mediaUserId.isNone then .ok (0 :: pushThemePoolField path.bytes)
    else .error .rowNotFound
  | none, some source, some digest, some filename =>
    if entry.mediaUserId.isSome then do
      let raw ← themeDigestBytes digest
      return 1 :: (pushThemePoolField source.bytes ++ raw ++ pushThemePoolField filename.bytes)
    else .error .rowNotFound
  | _, _, _, _ => .error .rowNotFound

/-- The entry of the common crate that a row stands for. -/
def poolEntry (entry : ThemeHeaderPoolEntry) : Option ThemePoolEntry :=
  match entry.packagePath, entry.mediaUserId, entry.mediaSource, entry.mediaDigest,
    entry.mediaFilename with
  | some path, none, none, none, none => some (.package path)
  | none, some _, some source, some digest, some filename => some (.media source digest filename)
  | _, _, _, _, _ => none

/-- `header_entry_encoding` of the manager -/
def headerEntryEncoding (entry : ThemeHeaderPoolEntry) : List UInt8 :=
  (poolEntry entry).elim [] ThemePoolEntry.canonicalEncoding

end Encoding

section Storage

variable (t : ImageTables) (owner : ThemeOwner) (themeId : ℤ)

def authorUserId : ThemeOwner → Option ℤ
  | .site => none
  | .author userId => some userId

/-- `SELECT EXISTS (SELECT 1 FROM theme_draft_assets … AND mime LIKE 'image/%')` -/
def draftImageExists (path : Text) : Bool :=
  (t.catalog.drafts.lookup themeId).any (fun draft ↦ draft.assets.any (fun asset ↦
    asset.path = path ∧ "image/".toList.isPrefixOf asset.mime.toList))

def mediaExists (userId : ℤ) (source : String) (digest : ContentHash) (filename : String) : Bool :=
  t.media.any (fun r ↦ r.userId = userId ∧ r.source.asRef = source ∧ r.sha256 = digest ∧
    r.filename.value = filename)

def entryExists (entry : ThemeHeaderPoolEntry) : Except ThemeError Bool :=
  match entry.packagePath, entry.mediaUserId, entry.mediaSource, entry.mediaDigest,
    entry.mediaFilename with
  | some path, none, none, none, none => .ok (draftImageExists t themeId path)
  | none, some userId, some source, some digest, some filename =>
    .ok (mediaExists t userId source.value digest filename.value)
  | _, _, _, _, _ => .error .rowNotFound

/-- The loop over the entries with the encodings seen so far. -/
def checkEntries (encodings : List (List UInt8)) : List ThemeHeaderPoolEntry →
    Except ThemeError (List (List UInt8 × ThemeHeaderPoolEntry))
  | [] => .ok []
  | entry :: entries => do
    let encoding ← headerPoolEntryEncoding entry
    require (encoding ∉ encodings) .rowNotFound
    let valid ← entryExists t themeId entry
    require (valid = true) .rowNotFound
    let canonical ← checkEntries (encoding :: encodings) entries
    return (encoding, entry) :: canonical

def ThemeRoleBinding.packagePath : ThemeRoleBinding → Option Text
  | .packageAsset path => some path
  | _ => none

/-- The package paths in the rows of a theme. -/
def boundPaths : List Text :=
  (t.headerPool.filter (fun row ↦ row.1 = themeId)).filterMap (fun row ↦ row.2.packagePath) ++
    [ThemeImageRole.logo, .header].filterMap (fun role ↦
      (t.roleBindings.lookup (themeId, role)).bind ThemeRoleBinding.packagePath)

/-- The catalog follows the rows of a theme. -/
def ImageTables.rebind : ImageTables :=
  { t with catalog := { t.catalog with
    boundPaths := t.catalog.boundPaths.filter (fun b ↦ b.themeId ≠ themeId) ++
      (boundPaths t themeId).map (fun path ↦ ⟨themeId, path⟩) } }

def withOrdinals (entries : List ThemeHeaderPoolEntry) : List ThemeHeaderPoolEntry :=
  entries.zipIdx.map (fun (entry, ordinal) ↦ { entry with ordinal := ordinal })

def replaceHeaderPool (entries : List ThemeHeaderPoolEntry) : Except ThemeError ImageTables := do
  require (¬(entries = [] ∨ (authorUserId owner).isSome ∧ entries.any (fun entry ↦
    entry.mediaUserId ≠ authorUserId owner ∧ entry.mediaUserId.isSome))) .rowNotFound
  require (t.catalog.owns owner themeId = true) .rowNotFound
  let canonical ← checkEntries t themeId [] entries
  let sorted := canonical.insertionSort (fun a b ↦ bytesLe a.1 b.1)
  let t : ImageTables := { t with
    headerPool := t.headerPool.filter (fun row ↦ row.1 ≠ themeId) ++
      (withOrdinals (sorted.map Prod.snd)).map (fun entry ↦ (themeId, entry)) }
  return t.rebind themeId

/-- `SELECT … ORDER BY p.entry_ordinal` -/
def headerPool : List ThemeHeaderPoolEntry :=
  if t.catalog.owns owner themeId then
    ((t.headerPool.filter (fun row ↦ row.1 = themeId)).map Prod.snd).insertionSort
      (fun a b ↦ a.ordinal ≤ b.ordinal)
  else []

def bindingOwned (owner : ThemeOwner) : ThemeRoleBinding → Bool
  | .media userId _ => (authorUserId owner).all (· = userId)
  | _ => true

def bindingExists : ThemeRoleBinding → Bool
  | .packageAsset path => draftImageExists t themeId path
  | .media userId media =>
    mediaExists t userId media.source.asRef media.sha256 media.filename.value
  | _ => true

def ThemeRoleBinding.isHeaderPool : ThemeRoleBinding → Bool
  | .headerPool _ _ => true
  | _ => false

def replaceRoleBinding (role : ThemeImageRole) (binding : ThemeRoleBinding) :
    Except ThemeError ImageTables := do
  require (bindingOwned owner binding = true) .rowNotFound
  require (t.catalog.owns owner themeId = true) .rowNotFound
  require (bindingExists t themeId binding = true) .rowNotFound
  let t : ImageTables := { t with
    headerPool := if role = .header ∧ binding.isHeaderPool = false then
      t.headerPool.filter (fun row ↦ row.1 ≠ themeId) else t.headerPool
    roleBindings := t.roleBindings.insert (themeId, role) binding }
  return t.rebind themeId

def roleBinding (role : ThemeImageRole) : Option ThemeRoleBinding :=
  if t.catalog.owns owner themeId then t.roleBindings.lookup (themeId, role) else none

end Storage

section Manager

inductive ThemePoolInput
  | packageAsset (path : Text)
  | media (reference : MediaRef)
deriving DecidableEq

inductive ThemeRoleInput
  | packagedDefault
  | explicitAbsent
  | packageAsset (path : Text)
  | media (reference : MediaRef)
deriving DecidableEq

inductive ManagerError
  | notTheAuthor
  | pool (error : InvalidThemeHeaderPool)
  | storage (error : ThemeError)
deriving DecidableEq

def ThemePoolInput.canonical : ThemePoolInput → ThemePoolEntry
  | .packageAsset path => .package path
  | .media reference => .media (.compose reference.source.asRef) reference.sha256
    (.compose reference.filename.value)

def ThemePoolInput.entry (actor : ℤ) : ThemePoolInput → ThemeHeaderPoolEntry
  | .packageAsset path => ⟨0, some path, none, none, none, none⟩
  | .media reference => ⟨0, none, some actor, some (.compose reference.source.asRef),
    some reference.sha256, some (.compose reference.filename.value)⟩

variable (sha256 : List UInt8 → ContentHash) (t : ImageTables) (actor : ℤ) (owner : ThemeOwner)
  (themeId : ℤ)

def requireAuthorActor : Except ManagerError Unit :=
  require ((authorUserId owner).all (· = actor)) .notTheAuthor

def pool (inputs : List ThemePoolInput) :
    Except InvalidThemeHeaderPool (ThemeHeaderPool × List ThemeHeaderPoolEntry) := do
  let pool ← ThemeHeaderPool.new sha256 (inputs.map ThemePoolInput.canonical)
  let entries := (inputs.map (ThemePoolInput.entry actor)).insertionSort
    (fun a b ↦ bytesLe (headerEntryEncoding a) (headerEntryEncoding b))
  return (pool, withOrdinals entries)

/-- `ThemeManager::replace_header_pool` once it holds its locks. -/
def replacePool (inputs : List ThemePoolInput) (shuffleSeed : List UInt8) :
    Except ManagerError ImageTables := do
  requireAuthorActor actor owner
  let (pool, entries) ← (pool sha256 actor inputs).mapError .pool
  let t ← (replaceHeaderPool t owner themeId entries).mapError .storage
  (replaceRoleBinding t owner themeId .header (.headerPool pool.revision shuffleSeed)).mapError
    .storage

def ThemeRoleInput.binding (actor : ℤ) : ThemeRoleInput → ThemeRoleBinding
  | .packagedDefault => .packagedDefault
  | .explicitAbsent => .explicitAbsent
  | .packageAsset path => .packageAsset path
  | .media reference => .media actor reference

/-- `ThemeManager::replace_binding` of a role to an image, once it holds its locks. -/
def replaceBinding (role : ThemeImageRole) (input : ThemeRoleInput) :
    Except ManagerError ImageTables := do
  requireAuthorActor actor owner
  (replaceRoleBinding t owner themeId role (input.binding actor)).mapError .storage

end Manager

section Public

def contentUrl (digest : ContentHash) : String := "/theme/" ++ digest.value

def mediaUrl (source : MediaSource) (digest : ContentHash) (filename : Filename) : String :=
  "/media/" ++ source.asRef ++ "/" ++ String.ofList (digest.value.toList.take 2) ++ "/" ++
    String.ofList ((digest.value.toList.drop 2).take 2) ++ "/" ++ digest.value ++ "/" ++
      filename.value

def packageUrl (assets : List ThemePackageAsset) (path : Text) : Option String :=
  (assets.find? (fun asset ↦ asset.path = path)).map (fun asset ↦ contentUrl asset.digest)

def mediaUrlParts (source : String) (digest : ContentHash) (filename : String) : Option String := do
  return mediaUrl (← MediaSource.fromStr source) digest (← (Filename.fromStr filename).toOption)

def resolvePoolEntry (assets : List ThemePackageAsset) : ThemePoolEntry → Option String
  | .package path => packageUrl assets path
  | .media source digest filename => mediaUrlParts source.value digest filename.value

variable (sha256 : List UInt8 → ContentHash) (assets : List ThemePackageAsset)
  (revision : ContentHash) (route : Text)

/-- `resolve_role` with the packaged defaults of the role. -/
def resolveRole (role : ThemeImageRole) (binding : Option ThemeRoleBinding)
    (poolEntries : Option (List ThemeHeaderPoolEntry)) (packagedDefaults : Option (List Text)) :
    Option String :=
  match binding with
  | none | some .packagedDefault =>
    match role with
    | .logo => (packagedDefaults.bind List.head?).bind (packageUrl assets)
    | .header => (selectPackagedHeaderDefault sha256 packagedDefaults revision route).bind
      (packageUrl assets)
  | some .explicitAbsent => none
  | some (.packageAsset path) => packageUrl assets path
  | some (.media _ media) => some (mediaUrl media.source media.sha256 media.filename)
  | some (.headerPool poolRevision shuffleSeed) => do
    let entries ← (← poolEntries).mapM poolEntry
    let pool ← (ThemeHeaderPool.new sha256 entries).toOption
    if poolRevision ≠ pool.revision then none
    else resolvePoolEntry assets (pool.select sha256 route revision shuffleSeed)

/-- `role_is_invalid`: such a role makes the page fall back to another theme. -/
def roleIsInvalid (binding : Option ThemeRoleBinding) (url : Option String) : Bool :=
  binding.any (fun binding ↦ binding ≠ .explicitAbsent ∧ binding ≠ .packagedDefault ∧ url.isNone)

/-- What the public page with a revision of those assets shows in a role. -/
def roleUrl (t : ImageTables) (owner : ThemeOwner) (themeId : ℤ) (role : ThemeImageRole)
    (packagedDefaults : Option (List Text)) : Option String :=
  resolveRole sha256 assets revision route role (roleBinding t owner themeId role)
    (some (headerPool t owner themeId)) packagedDefaults

def rejects (t : ImageTables) (owner : ThemeOwner) (themeId : ℤ) (role : ThemeImageRole)
    (packagedDefaults : Option (List Text)) : Bool :=
  roleIsInvalid (roleBinding t owner themeId role)
    (roleUrl sha256 assets revision route t owner themeId role packagedDefaults)

end Public

end Jaunder.Storage.HeaderPools
