import Jaunder.Foundation.Ledger
import Jaunder.Foundation.Outcome
import Jaunder.Host.ThemePackage

namespace Jaunder.Storage.Themes

open Foundation.Ledger Foundation.Outcome
open Jaunder.Common.Hash Jaunder.Common.Owned
open Jaunder.Host.ThemePackage

/-- The catalog that owns a custom theme. -/
inductive ThemeOwner
  | site
  | author (userId : ℤ)
deriving DecidableEq

inductive Theme
  | terminal
  | studio
  | reader
deriving DecidableEq

def Theme.token : Theme → String
  | .terminal => "terminal"
  | .studio => "studio"
  | .reader => "reader"

inductive PublicThemeSelection
  | builtIn (theme : Theme)
  | custom (themeId : ℤ)
deriving DecidableEq

structure ThemeDraftAsset where
  path : Text
  mime : String
  bytes : Vec UInt8
  digest : ContentHash

/-- The mutable draft of a theme. -/
structure ThemeDraft where
  themeId : ℤ
  manifest : Vec UInt8
  stylesheet : Vec UInt8
  sourceDigest : ContentHash
  assets : List ThemeDraftAsset

structure ThemePackageAsset where
  path : Text
  digest : ContentHash
  mime : String

structure ThemeRevision where
  themeId : ℤ
  digest : ContentHash
  stylesheetDigest : ContentHash
  manifest : Vec UInt8

structure ThemeQuotaLimits where
  activeThemes : ℤ
  retainedRevisions : ℤ
  logicalBytes : ℤ
  siteRetainedRevisions : ℤ
  sitePhysicalBytes : ℤ

structure ThemeContentCharge where
  digest : ContentHash
  logicalBytes : ℤ
  physicalBytes : ℤ

structure ThemeContentEligibility where
  digest : ContentHash
  mime : String
  retainedUntil : ℤ

structure ThemePublicationAdmission where
  owner : ThemeOwner
  limits : ThemeQuotaLimits
  revision : ThemeRevision
  assets : List ThemePackageAsset
  eligibilities : List ThemeContentEligibility
  charges : List ThemeContentCharge

structure SiteQuota where
  retainedRevisions : ℤ
  physicalBytes : ℤ

structure OwnerQuota where
  activeThemes : ℤ
  retainedRevisions : ℤ
  logicalBytes : ℤ

structure ThemeRow where
  owner : ThemeOwner
  name : String
  nameKey : String
  currentRevision : Option ContentHash

structure DraftCharge where
  sourceDigest : ContentHash
  logicalBytes : ℤ
  physicalBytes : ℤ

structure DraftContentCharge where
  physicalBytes : ℤ
  liveReferences : ℤ

/-- A row of `theme_revisions` with its rows of `theme_revision_assets`. -/
structure RetainedRevision where
  revision : ThemeRevision
  assets : List ThemePackageAsset

structure EligibilityRow where
  mime : String
  retainedUntil : ℤ
  liveReferences : ℤ

structure RetainedCharge where
  logicalBytes : ℤ
  physicalBytes : ℤ
  liveReferences : ℤ

/-- The package path of a row of `theme_role_bindings` in the mode `package_asset` or of
`theme_header_pool`. -/
structure BoundPath where
  themeId : ℤ
  path : Text

structure SystemReference where
  liveReferences : ℤ
  retainedUntil : ℤ

structure SystemRevisionRow where
  theme : Theme
  digest : ContentHash
  sourceDigest : ContentHash
  stylesheetDigest : ContentHash
  manifest : Vec UInt8
  assets : List ThemePackageAsset

structure ThemeTables where
  site : SiteQuota
  owners : Keyed ThemeOwner OwnerQuota
  themes : Keyed ℤ ThemeRow
  drafts : Keyed ℤ ThemeDraft
  draftCharges : Keyed ℤ DraftCharge
  draftContents : Keyed ContentHash DraftContentCharge
  revisions : List RetainedRevision
  eligibility : Keyed ContentHash EligibilityRow
  charges : Keyed (ThemeOwner × ContentHash) RetainedCharge
  boundPaths : List BoundPath
  selections : Keyed ThemeOwner PublicThemeSelection
  systemReferences : Keyed ContentHash SystemReference
  systemRevisions : List SystemRevisionRow
  systemCurrent : Keyed Theme ContentHash
  systemApplication : Option (ContentHash × String)

/-- The tables that the migrations leave. -/
def ThemeTables.empty : ThemeTables :=
  ⟨⟨0, 0⟩, ∅, ∅, ∅, ∅, ∅, [], ∅, ∅, [], ∅, ∅, [], ∅, none⟩

inductive ThemeError
  | rowNotFound
  | protocol (message : String)
  | constraint
deriving DecidableEq

inductive ReplaceDraftError
  | ownerNotFound
  | quotaExceeded
  | storage (error : ThemeError)
deriving DecidableEq

/-- What catalog names use of the Unicode library. -/
structure NameText where
  trim : String → String
  toLowercase : Char → List Char

def nameMaxLength : ℕ := 100

def validateThemeCatalogName (text : NameText) (name : String) : Except ThemeError String :=
  let name := text.trim name
  if name = "" then .error (.protocol "theme name must not be empty")
  else if nameMaxLength < name.toList.length then
    .error (.protocol "theme name must not exceed 100 characters")
  else if ["terminal", "studio", "reader"].any
      (fun reserved ↦ name.toList.map Char.toLower = reserved.toList) then
    .error (.protocol "theme name conflicts with a built-in theme")
  else .ok name

def canonicalThemeNameKey (text : NameText) (name : String) : String :=
  String.ofList (name.toList.flatMap text.toLowercase)

def draftStorageBytes (draft : ThemeDraft) : Except ThemeError ℤ :=
  let total := draft.manifest.toList.length + draft.stylesheet.toList.length +
    (draft.assets.map (fun a ↦ a.bytes.toList.length)).sum
  if total < 2 ^ 63 then .ok total else .error .rowNotFound

namespace ThemeTables

variable (t : ThemeTables)

def ownerQuota (owner : ThemeOwner) : OwnerQuota := (t.owners.lookup owner).getD ⟨0, 0, 0⟩

def owns (owner : ThemeOwner) (themeId : ℤ) : Bool :=
  (t.themes.lookup themeId).any (fun row ↦ row.owner = owner)

def addPhysical (bytes : ℤ) : ThemeTables :=
  { t with site := { t.site with physicalBytes := t.site.physicalBytes + bytes } }

def setLogical (owner : ThemeOwner) (bytes : ℤ) : ThemeTables :=
  { t with owners := t.owners.insert owner { t.ownerQuota owner with logicalBytes := bytes } }

/-- One reference more to the source of a draft. -/
def attachDraftContent (source : ContentHash) (bytes : ℤ) : ThemeTables :=
  { t with
    draftContents := t.draftContents.insert source
      (match t.draftContents.lookup source with
      | none => ⟨bytes, 1⟩
      | some row => { row with liveReferences := row.liveReferences + 1 }) }

/-- One reference less to the source of a draft. -/
def detachDraftContent (source : ContentHash) (row : DraftContentCharge) : ThemeTables :=
  { t with draftContents :=
      if row.liveReferences = 1 then t.draftContents.erase source
      else if row.liveReferences > 1 then
        t.draftContents.insert source { row with liveReferences := row.liveReferences - 1 }
      else t.draftContents }

end ThemeTables

/-- `create_theme`, whose new row gets the id. -/
def createTheme (text : NameText) (t : ThemeTables) (owner : ThemeOwner) (name : String)
    (draft : ThemeDraft) (limits : ThemeQuotaLimits) (id : ℤ) : Except ThemeError ThemeTables := do
  let name ← validateThemeCatalogName text name
  let bytes ← draftStorageBytes draft
  let quota := t.ownerQuota owner
  let source := t.draftContents.lookup draft.sourceDigest
  require (¬(quota.activeThemes ≥ limits.activeThemes ∨
    quota.logicalBytes > limits.logicalBytes - bytes ∨
    (source.isNone ∧ t.site.physicalBytes > limits.sitePhysicalBytes - bytes))) .rowNotFound
  let nameKey := canonicalThemeNameKey text name
  require (nameKey ∉ ["terminal", "studio", "reader"] ∧ id ∉ t.themes.keys ∧
    ∀ other ∈ t.themes.keys, ¬(t.themes.lookup other).any
      (fun row ↦ row.owner = owner ∧ row.nameKey = nameKey)) .constraint
  require ((draft.assets.map ThemeDraftAsset.path).Nodup) .constraint
  let t := if source.isNone then t.addPhysical bytes else t
  let t := { t with owners := t.owners.insert owner { quota with
    activeThemes := quota.activeThemes + 1, logicalBytes := quota.logicalBytes + bytes } }
  let t := t.attachDraftContent draft.sourceDigest bytes
  .ok { t with
    themes := t.themes.insert id ⟨owner, name, nameKey, none⟩
    drafts := t.drafts.insert id { draft with themeId := id }
    draftCharges := t.draftCharges.insert id ⟨draft.sourceDigest, bytes, bytes⟩ }

def replaceDraft (t : ThemeTables) (owner : ThemeOwner) (draft : ThemeDraft)
    (limits : ThemeQuotaLimits) : Except ReplaceDraftError ThemeTables := do
  let newBytes ← (draftStorageBytes draft).mapError .storage
  require (t.owns owner draft.themeId) .ownerNotFound
  let old ← orError (t.draftCharges.lookup draft.themeId) .ownerNotFound
  let quota ← orError (t.owners.lookup owner) (.storage .rowNotFound)
  let oldRow ← orError (t.draftContents.lookup old.sourceDigest) (.storage .rowNotFound)
  let newRow := t.draftContents.lookup draft.sourceDigest
  let moves := old.sourceDigest ≠ draft.sourceDigest
  let logicalAfter := quota.logicalBytes - old.logicalBytes + newBytes
  let physicalAfter := t.site.physicalBytes -
    (if moves ∧ oldRow.liveReferences = 1 then old.logicalBytes else 0) +
    (if moves ∧ newRow.isNone then newBytes else 0)
  require (¬(logicalAfter > limits.logicalBytes ∨ physicalAfter > limits.sitePhysicalBytes))
    .quotaExceeded
  require (draft.themeId ∈ t.drafts.keys) .ownerNotFound
  require ((draft.assets.map ThemeDraftAsset.path).Nodup) (.storage .constraint)
  let t := t.setLogical owner logicalAfter
  let t := { t with site := { t.site with physicalBytes := physicalAfter } }
  let t := if moves then
    (t.detachDraftContent old.sourceDigest oldRow).attachDraftContent draft.sourceDigest newBytes
    else t
  .ok { t with
    drafts := t.drafts.insert draft.themeId draft
    draftCharges := t.draftCharges.insert draft.themeId ⟨draft.sourceDigest, newBytes, newBytes⟩ }

def upsertContentEligibility (t : ThemeTables) (e : ThemeContentEligibility) : ThemeTables :=
  { t with
    eligibility := t.eligibility.insert e.digest
      (match t.eligibility.lookup e.digest with
      | none => ⟨e.mime, e.retainedUntil, 0⟩
      | some row => { row with
          mime := e.mime
          retainedUntil :=
            if e.retainedUntil > row.retainedUntil then e.retainedUntil else row.retainedUntil }) }

/-- Are the digests of the charges strictly ascending? -/
def chargesAscend (charges : List ThemeContentCharge) : Bool :=
  charges.Pairwise (fun a b ↦ a.digest.value < b.digest.value)

/-- The owner pays for a digest once, and so does the site. -/
def chargeBytes (t : ThemeTables) (owner : ThemeOwner) (limits : ThemeQuotaLimits)
    (charge : ThemeContentCharge) : Except ThemeError ThemeTables :=
  if (t.charges.lookup (owner, charge.digest)).isSome then .ok t
  else do
    let quota ← orError (t.owners.lookup owner) .rowNotFound
    require (quota.logicalBytes ≤ limits.logicalBytes - charge.logicalBytes) .rowNotFound
    let paid := t.setLogical owner (quota.logicalBytes + charge.logicalBytes)
    if ∃ key ∈ t.charges.keys, key.2 = charge.digest then .ok paid
    else do
      require (t.site.physicalBytes ≤ limits.sitePhysicalBytes - charge.physicalBytes) .rowNotFound
      .ok (paid.addPhysical charge.physicalBytes)

/-- The row of a charge with one reference more. -/
def oneMore (charge : ThemeContentCharge) : Option RetainedCharge → RetainedCharge
  | none => ⟨charge.logicalBytes, charge.physicalBytes, 1⟩
  | some old => { old with liveReferences := old.liveReferences + 1 }

def attachContent (owner : ThemeOwner) (limits : ThemeQuotaLimits) (t : ThemeTables)
    (charge : ThemeContentCharge) : Except ThemeError ThemeTables := do
  let row ← orError (t.eligibility.lookup charge.digest) .rowNotFound
  let t' ← chargeBytes t owner limits charge
  .ok { t' with
    charges := t.charges.insert (owner, charge.digest)
      (oneMore charge (t.charges.lookup (owner, charge.digest)))
    eligibility := t.eligibility.insert charge.digest
      { row with liveReferences := row.liveReferences + 1 } }

/-- One revision more, under the limits of the site and of the owner. -/
def retainRevision (t : ThemeTables) (owner : ThemeOwner) (limits : ThemeQuotaLimits) :
    Except ThemeError ThemeTables := do
  require (t.site.retainedRevisions < limits.siteRetainedRevisions) .rowNotFound
  let quota ← orError (t.owners.lookup owner) .rowNotFound
  require (quota.retainedRevisions < limits.retainedRevisions) .rowNotFound
  .ok { t with
    site := { t.site with retainedRevisions := t.site.retainedRevisions + 1 }
    owners := t.owners.insert owner
      { quota with retainedRevisions := quota.retainedRevisions + 1 } }

def attachRevisionContent (t : ThemeTables) (owner : ThemeOwner) (limits : ThemeQuotaLimits)
    (charges : List ThemeContentCharge) : Except ThemeError ThemeTables := do
  require (chargesAscend charges = true) .rowNotFound
  let t ← retainRevision t owner limits
  charges.foldlM (attachContent owner limits) t

def recordRevision (t : ThemeTables) (owner : ThemeOwner) (revision : ThemeRevision)
    (assets : List ThemePackageAsset) : Except ThemeError ThemeTables := do
  let row ← orError (t.themes.lookup revision.themeId) .rowNotFound
  require (row.owner = owner) .rowNotFound
  require (¬t.revisions.any (fun r ↦ r.revision.themeId = revision.themeId ∧
    r.revision.digest = revision.digest)) .constraint
  require ((assets.map ThemePackageAsset.path).Nodup) .constraint
  .ok { t with
    revisions := t.revisions ++ [⟨revision, assets⟩]
    themes := t.themes.insert revision.themeId { row with currentRevision := some revision.digest } }

def admitPublication (t : ThemeTables) (admission : ThemePublicationAdmission) :
    Except ThemeError ThemeTables := do
  let ⟨owner, limits, revision, assets, eligibilities, charges⟩ := admission
  require (chargesAscend charges = true) .rowNotFound
  let row ← orError (t.themes.lookup revision.themeId) .rowNotFound
  require (row.owner = owner) .rowNotFound
  if row.currentRevision = some revision.digest then .ok t
  else do
    require ((t.boundPaths.filter (fun b ↦ b.themeId = revision.themeId)).all
      (fun b ↦ assets.any (fun a ↦ a.path = b.path))) .rowNotFound
    let t := eligibilities.foldl upsertContentEligibility t
    let t ← attachRevisionContent t owner limits charges
    recordRevision t owner revision assets

/-- `n` references less to a digest of the owner, whose content stays until the deadline. -/
def detachContent (owner : ThemeOwner) (retainedUntil : ℤ) (t : ThemeTables)
    (charge : ContentHash × ℤ) : Except ThemeError ThemeTables := do
  let charged ← orError (t.charges.lookup (owner, charge.1)) .rowNotFound
  let row ← orError (t.eligibility.lookup charge.1) .rowNotFound
  require (charged.liveReferences ≥ charge.2 ∧ row.liveReferences ≥ charge.2) .rowNotFound
  .ok { t with
    charges := t.charges.insert (owner, charge.1)
      { charged with liveReferences := charged.liveReferences - charge.2 }
    eligibility := t.eligibility.insert charge.1 { row with
      liveReferences := row.liveReferences - charge.2
      retainedUntil :=
        if row.retainedUntil > retainedUntil then row.retainedUntil else retainedUntil } }

/-- `n` revisions less. -/
def releaseRevisions (t : ThemeTables) (owner : ThemeOwner) (n : ℤ) :
    Except ThemeError ThemeTables := do
  require (t.site.retainedRevisions ≥ n) .rowNotFound
  let quota ← orError (t.owners.lookup owner) .rowNotFound
  require (quota.retainedRevisions ≥ n) .rowNotFound
  .ok { t with
    site := { t.site with retainedRevisions := t.site.retainedRevisions - n }
    owners := t.owners.insert owner
      { quota with retainedRevisions := quota.retainedRevisions - n } }

/-- The counters stay where a theme has no revision. -/
def releaseAnyRevisions (t : ThemeTables) (owner : ThemeOwner) (n : ℤ) :
    Except ThemeError ThemeTables :=
  if n > 0 then releaseRevisions t owner n else .ok t

def detachRevisionContent (t : ThemeTables) (owner : ThemeOwner)
    (charges : List ThemeContentCharge) (retainedUntil : ℤ) : Except ThemeError ThemeTables := do
  require (chargesAscend charges = true) .rowNotFound
  let t ← releaseRevisions t owner 1
  (charges.map (fun c ↦ (c.digest, (1 : ℤ)))).foldlM (detachContent owner retainedUntil) t

def revisionsOf (t : ThemeTables) (themeId : ℤ) : List RetainedRevision :=
  t.revisions.filter (fun r ↦ r.revision.themeId = themeId)

/-- The stylesheet and the asset rows of a revision. -/
def RetainedRevision.digests (r : RetainedRevision) : List ContentHash :=
  r.revision.stylesheetDigest :: r.assets.map ThemePackageAsset.digest

/-- The `UNION ALL` of the stylesheets and of the asset rows, grouped by digest. -/
def removalCharges (t : ThemeTables) (themeId : ℤ) : List (ContentHash × ℤ) :=
  let revisions := revisionsOf t themeId
  grouped (fun a b ↦ a.value ≤ b.value) (revisions.map (fun r ↦ r.revision.stylesheetDigest) ++
    revisions.flatMap (fun r ↦ r.assets.map ThemePackageAsset.digest))

/-- What the removal of a theme gives back of its draft. -/
def releaseDraft (t : ThemeTables) (owner : ThemeOwner) (themeId : ℤ) :
    Except ThemeError ThemeTables := do
  let draft ← orError (t.draftCharges.lookup themeId) .rowNotFound
  let row ← orError (t.draftContents.lookup draft.sourceDigest) .rowNotFound
  let quota ← orError (t.owners.lookup owner) .rowNotFound
  require (¬(quota.logicalBytes < draft.logicalBytes)) .rowNotFound
  let t := t.setLogical owner (quota.logicalBytes - draft.logicalBytes)
  if row.liveReferences = 1 then do
    require (¬(t.site.physicalBytes < draft.logicalBytes)) .rowNotFound
    .ok ((t.addPhysical (-draft.logicalBytes)).detachDraftContent draft.sourceDigest row)
  else .ok (t.detachDraftContent draft.sourceDigest row)

/-- The selections after the removal of a theme: the site falls back to the studio theme. -/
def detachSelection (t : ThemeTables) (owner : ThemeOwner) (themeId : ℤ) : ThemeTables :=
  if t.selections.lookup owner = some (.custom themeId) then
    { t with selections := if owner = .site then t.selections.insert owner (.builtIn .studio)
      else t.selections.erase owner }
  else t

/-- The row of a theme goes with everything that cascades from it. -/
def deleteThemeRow (t : ThemeTables) (themeId : ℤ) : ThemeTables :=
  { t with
    themes := t.themes.erase themeId
    drafts := t.drafts.erase themeId
    draftCharges := t.draftCharges.erase themeId
    revisions := t.revisions.filter (fun r ↦ r.revision.themeId ≠ themeId)
    boundPaths := t.boundPaths.filter (fun b ↦ b.themeId ≠ themeId) }

def removeTheme (t : ThemeTables) (owner : ThemeOwner) (themeId retainedUntil : ℤ) :
    Except ThemeError ThemeTables := do
  require (t.owns owner themeId) .rowNotFound
  let t ← releaseDraft t owner themeId
  let t ← releaseAnyRevisions t owner (revisionsOf t themeId).length
  let t ← (removalCharges t themeId).foldlM (detachContent owner retainedUntil) t
  let t := deleteThemeRow (detachSelection t owner themeId) themeId
  let quota ← orError (t.owners.lookup owner) .rowNotFound
  require (quota.activeThemes > 0) .rowNotFound
  .ok { t with
    owners := t.owners.insert owner { quota with activeThemes := quota.activeThemes - 1 } }

/-- `DELETE` from the eligibility table, which charges and system references restrict. -/
def deleteEligibility (t : ThemeTables) (digest : ContentHash) (now : ℤ) :
    Except ThemeError ThemeTables := do
  if (t.eligibility.lookup digest).any
      (fun row ↦ row.liveReferences = 0 ∧ row.retainedUntil ≤ now) then do
    require (digest ∉ t.systemReferences.keys ∧ ¬∃ key ∈ t.charges.keys, key.2 = digest) .constraint
    .ok { t with eligibility := t.eligibility.erase digest }
  else .ok t

/-- The guarded refund of an owner. -/
def refundOwner (t : ThemeTables) (owner : ThemeOwner) (bytes : ℤ) : ThemeTables :=
  if (t.owners.lookup owner).any (fun quota ↦ quota.logicalBytes ≥ bytes) then
    t.setLogical owner ((t.ownerQuota owner).logicalBytes - bytes)
  else t

/-- The guarded refund of the site. -/
def refundSite (t : ThemeTables) (bytes : ℤ) : ThemeTables :=
  if t.site.physicalBytes ≥ bytes then t.addPhysical (-bytes) else t

/-- The system reference of a digest, unless it is live or retained. -/
def deleteSystemReference (t : ThemeTables) (digest : ContentHash) (now : ℤ) : ThemeTables :=
  if (t.systemReferences.lookup digest).any
      (fun reference ↦ reference.liveReferences = 0 ∧ reference.retainedUntil ≤ now) then
    { t with systemReferences := t.systemReferences.erase digest }
  else t

def collectRetainedContent (t : ThemeTables) (owner : ThemeOwner) (digest : ContentHash)
    (now : ℤ) : Except ThemeError ThemeTables := do
  let charge ← orError (t.charges.lookup (owner, digest)) .rowNotFound
  let row ← orError (t.eligibility.lookup digest) .rowNotFound
  require (charge.liveReferences = 0 ∧ row.liveReferences = 0 ∧ row.retainedUntil ≤ now) .rowNotFound
  let t := refundOwner { t with charges := t.charges.erase (owner, digest) } owner charge.logicalBytes
  if ∃ key ∈ t.charges.keys, key.2 = digest then .ok t
  else do
    let t ← deleteEligibility (deleteSystemReference t digest now) digest now
    .ok (refundSite t charge.physicalBytes)

end Jaunder.Storage.Themes
