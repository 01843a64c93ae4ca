import Mathlib.Data.Prod.Lex
import Mathlib.Data.String.Basic
import Jaunder.Foundation.Locks
import Jaunder.Storage.ThemeAccounting
import Jaunder.Storage.SystemThemes

namespace Jaunder.Storage.ThemeContentRuns

open Foundation.Ledger Foundation.Locks Foundation.Outcome
open Jaunder.Common.Hash Jaunder.Common.Owned
open Jaunder.Host.ThemePackage
open Jaunder.Storage.SystemThemes Jaunder.Storage.ThemeAssetManager Jaunder.Storage.Themes
open Jaunder.Storage.WriteScope

deriving instance DecidableEq for Vec, ThemeRow, ThemeDraftAsset, ThemeDraft, BoundPath

/-- The saved context of an editor. -/
structure ThemeCopySnapshot where
  entry : ThemeRow
  draft : ThemeDraft
  boundPaths : List BoundPath
deriving DecidableEq

structure ThemeEditorChange where
  themeId : ℤ
  name : String
  expected : ThemeCopySnapshot
  draft : ThemeDraft
  boundPaths : List BoundPath

/-- What a publication installs and then admits: a revision, the save of an editor or a release. -/
inductive Publication
  | revision (owner : ThemeOwner) (limits : ThemeQuotaLimits) (themeId : ℤ)
      (compiled : CompiledThemeRevision) (now : ℤ)
  | editor (owner : ThemeOwner) (limits : ThemeQuotaLimits) (change : ThemeEditorChange)
      (compiled : CompiledThemeRevision) (now : ℤ)
  | release (inventory : SystemArtifactInventory) (now : ℤ)

def Publication.contents : Publication → List CompiledThemeContent
  | .revision _ _ _ compiled _ => compiled.contents
  | .editor _ _ _ compiled _ => compiled.contents
  | .release inventory _ => inventory.contents

/-- Where a publication is: `held` are the locks that it has taken. -/
inductive PublicationStage
  | requested
  | serialized
  | locking (held pending : List ContentHash)
  | installing (held : List ContentHash) (pending : List Blob) (installed : List ContentHash)
  | cleaning (held pending : List ContentHash)
  | unlinking (held : List ContentHash) (digest : ContentHash) (pending : List ContentHash)

inductive CollectStage
  | requested
  | locked
  | detached
  | unlinking

/-- Where a reconciliation is. -/
inductive Phase
  | requested
  | custom (pending : List (ThemeOwner × ContentHash))
  | system (pending : List ContentHash)
  | verifying (pending : List ContentHash)
  | known (known : List ContentHash)
  | reclaiming (pending : List ContentHash)
  | locked (digest : ContentHash) (pending : List ContentHash)
  | unlinking (digest : ContentHash) (pending : List ContentHash)

/-- What one operation in flight is doing; a collection may be part of a reconciliation. -/
inductive Activity
  | idle
  | publication (p : Publication) (stage : PublicationStage)
  | collect (owner : Option ThemeOwner) (digest : ContentHash) (now : ℤ) (stage : CollectStage)
      (rest : Option Phase)
  | reconcile (now : ℤ) (phase : Phase)
  | finished
  | reconciled

/-- The database, the content directory, the locks and the operations in flight. -/
structure World where
  tables : ThemeTables
  files : Keyed ContentHash (Vec UInt8)
  contentLocks : Holders ContentHash ℕ
  inventoryLock : Option ℕ
  activities : ℕ → Activity
  started : ℕ

/-- How the installation of a missing file ends: a failure may come after the rename. -/
inductive Placement
  | placed
  | failed (renamed : Bool)
deriving DecidableEq

/-- One step of an operation; `abort` is an error or a crash before the next effect. -/
inductive Move
  | plan
  | acquire
  | install (placement : Placement)
  | commit (commit : Commit)
  | check (answers : Bool)
  | unlink (succeeds : Bool)
  | abort
deriving DecidableEq

inductive Event
  | publish (p : Publication)
  | collect (owner : Option ThemeOwner) (digest : ContentHash) (now : ℤ)
  | reconcile (now : ℤ)
  | mutate (operation : ThemeAccounting.Operation) (commit : Commit)
  | advance (operation : ℕ) (move : Move)

namespace World

variable (w : World) (operation : ℕ) (a : Activity)

def setActivity : World := { w with activities := Function.update w.activities operation a }

/-- The operation drops its locks. -/
def unlock : World where
  tables := w.tables
  files := w.files
  contentLocks := release w.contentLocks operation
  inventoryLock := if w.inventoryLock = some operation then none else w.inventoryLock
  activities := Function.update w.activities operation a
  started := w.started

def finish : World := w.unlock operation .finished

def acquire (digest : ContentHash) : Option World :=
  (Foundation.Locks.acquire w.contentLocks operation digest).map (fun locks ↦
    { w.setActivity operation a with contentLocks := locks })

def start : World := { w.setActivity w.started a with started := w.started + 1 }

end World

/-- `acquire_locks` takes the locks in the order of their paths. -/
def lockOrder (digests : List ContentHash) : List ContentHash :=
  digests.dedup.insertionSort (fun a b ↦ a.value ≤ b.value)

def sortedKeys (keys : Finset ContentHash) : List ContentHash :=
  ascending (fun a b : ContentHash ↦ a.value ≤ b.value) keys

def copySnapshot (t : ThemeTables) (owner : ThemeOwner) (themeId : ℤ) :
    Except ThemeError ThemeCopySnapshot := do
  let entry ← orError (t.themes.lookup themeId) .rowNotFound
  require (entry.owner = owner) .rowNotFound
  let draft ← orError (t.drafts.lookup themeId) .rowNotFound
  .ok ⟨entry, draft, t.boundPaths.filter (fun b ↦ b.themeId = themeId)⟩

section Operations

variable (sha256 : List UInt8 → ContentHash) (text : NameText)

def renameTheme (t : ThemeTables) (owner : ThemeOwner) (themeId : ℤ) (name : String) :
    Except ThemeError ThemeTables := do
  let name ← validateThemeCatalogName text name
  let row ← orError (t.themes.lookup themeId) .rowNotFound
  require (row.owner = owner) .rowNotFound
  let nameKey := canonicalThemeNameKey text name
  require (nameKey ∉ ["terminal", "studio", "reader"] ∧
    ∀ other ∈ t.themes.keys, other ≠ themeId → ¬(t.themes.lookup other).any
      (fun row ↦ row.owner = owner ∧ row.nameKey = nameKey)) .constraint
  .ok { t with themes := t.themes.insert themeId { row with name := name, nameKey := nameKey } }

/-- The transaction of an editor: only a theme that is selected is published, and the flag tells
whether a new revision was applied. -/
def persist (t : ThemeTables) (owner : ThemeOwner) (limits : ThemeQuotaLimits)
    (change : ThemeEditorChange) (candidate : ThemePublicationAdmission) :
    Except ThemeError (ThemeTables × Bool) := do
  let current ← copySnapshot t owner change.themeId
  require (current = change.expected) (.protocol "theme source changed while acquiring locks")
  let active := t.selections.lookup owner = some (.custom change.themeId)
  let t ← (replaceDraft t owner change.draft limits).mapError
    (fun _ ↦ .protocol "theme draft replacement failed")
  let t ← renameTheme text t owner change.themeId change.name
  let t := { t with boundPaths :=
    t.boundPaths.filter (fun b ↦ b.themeId ≠ change.themeId) ++ change.boundPaths }
  if active then do
    let t ← admitPublication t candidate
    .ok (t, current.entry.currentRevision ≠ some candidate.revision.digest)
  else .ok (t, false)

/-- The bytes that a publication installs, one blob for each digest. -/
def Publication.blobs (p : Publication) : List Blob :=
  dedupBlobs (sortBlobs (p.contents.map (blobOf sha256)))

def Publication.digests (p : Publication) : List ContentHash := (p.blobs sha256).map Blob.digest

/-- The transaction of a publication. -/
def Publication.transact (t : ThemeTables) : Publication → Except ThemeError (ThemeTables × Bool)
  | .revision owner limits themeId compiled now =>
    (admitPublication t (admission sha256 owner limits themeId compiled now)).map (fun t ↦ (t, true))
  | .editor owner limits change compiled now =>
    persist text t owner limits change
      (admission sha256 owner limits change.themeId compiled now)
  | .release inventory now => do
    let admission ← fromInventory sha256 inventory now
    let t ← admitSystemInventory t admission
    .ok (t, true)

/-- A release first takes the inventory lock, everything else plans its content locks. -/
def planPublication (w : World) (operation : ℕ) (p : Publication) : Option World :=
  match p with
  | .release inventory now =>
    if (fromInventory sha256 inventory now).toOption.isNone then some (w.finish operation)
    else if w.inventoryLock.isSome then none
    else
      some { w.setActivity operation (.publication p .serialized) with
        inventoryLock := some operation }
  | _ =>
    some (w.setActivity operation (.publication p (.locking [] (lockOrder (p.digests sha256)))))

/-- An existing file is verified, a missing one is written and renamed into its place. -/
def installBlob (w : World) (operation : ℕ) (p : Publication) (held : List ContentHash) (blob : Blob)
    (pending : List Blob) (installed : List ContentHash) (placement : Placement) : World :=
  let next := Activity.publication p (.installing held pending installed)
  let cleaning := Activity.publication p (.cleaning held installed)
  let placed := w.files.insert blob.digest blob.bytes
  match w.files.lookup blob.digest, placement with
  | some bytes, .placed =>
    w.setActivity operation (if sha256 bytes.toList = blob.digest then next else cleaning)
  | some _, .failed _ => w.setActivity operation cleaning
  | none, .placed =>
    { w.setActivity operation
        (.publication p (.installing held pending (installed ++ [blob.digest]))) with
      files := placed }
  | none, .failed renamed =>
    { w.setActivity operation cleaning with files := if renamed then placed else w.files }

/-- The write scope of a publication: only a known rollback, or a save that applied nothing, takes
the new files back. -/
def commitPublication (w : World) (operation : ℕ) (p : Publication) (held installed : List ContentHash)
    (commit : Commit) : World :=
  let cleaning := Activity.publication p (.cleaning held installed)
  match p.transact sha256 text w.tables, commit with
  | .error _, _ => w.setActivity operation cleaning
  | .ok _, .failed => w.setActivity operation cleaning
  | .ok (t, applied), .confirmed =>
    if applied then { w.finish operation with tables := t }
    else { w.setActivity operation cleaning with tables := t }
  | .ok (t, _), .indeterminate applies =>
    { w.finish operation with tables := if applies then t else w.tables }

/-- `cleanup_newly_installed` leaves a digest alone that has a row, and goes on after every error. -/
def cleanUp (w : World) (operation : ℕ) (p : Publication) (held : List ContentHash)
    (digest : ContentHash) (pending : List ContentHash) (answers : Bool) : World :=
  w.setActivity operation (.publication p
    (if answers ∧ digest ∉ w.tables.eligibility then .unlinking held digest pending
    else .cleaning held pending))

def advancePublication (w : World) (operation : ℕ) (p : Publication) :
    PublicationStage → Move → Option World
  | .requested, .plan => planPublication sha256 w operation p
  | .serialized, .plan =>
    some (w.setActivity operation (.publication p (.locking []
      (lockOrder (p.digests sha256 ++ sortedKeys (liveSystemReferences w.tables))))))
  | .locking held (digest :: pending), .acquire =>
    w.acquire operation (.publication p (.locking (digest :: held) pending)) digest
  | .locking held [], .plan =>
    some (w.setActivity operation (.publication p (.installing held (p.blobs sha256) [])))
  | .installing held (blob :: pending) installed, .install placement =>
    some (installBlob sha256 w operation p held blob pending installed placement)
  | .installing held [] installed, .commit commit =>
    some (commitPublication sha256 text w operation p held installed commit)
  | .cleaning held (digest :: pending), .check answers =>
    some (cleanUp w operation p held digest pending answers)
  | .cleaning _ [], .plan => some (w.finish operation)
  | .unlinking held digest pending, .unlink succeeds =>
    some { w.setActivity operation (.publication p (.cleaning held pending)) with
      files := if succeeds then w.files.erase digest else w.files }
  | _, .abort => some (w.finish operation)
  | _, _ => none

/-- A collection returns to its caller, or to the reconciliation that it is a part of. -/
def resume (now : ℤ) (rest : Option Phase) : Activity :=
  rest.elim .finished (Activity.reconcile now)

/-- The transaction of a collection, for an owner or for the system. -/
def collectContent (t : ThemeTables) (owner : Option ThemeOwner) (digest : ContentHash) (now : ℤ) :
    Except ThemeError ThemeTables :=
  match owner with
  | some owner => collectRetainedContent t owner digest now
  | none => collectSystemContent t digest now

/-- Only a confirmed collection goes on to the file. -/
def commitCollect (w : World) (operation : ℕ) (owner : Option ThemeOwner) (digest : ContentHash)
    (now : ℤ) (rest : Option Phase) (commit : Commit) : World :=
  match collectContent w.tables owner digest now, commit with
  | .error _, _ => w.finish operation
  | .ok _, .failed => w.finish operation
  | .ok t, .confirmed =>
    { w.setActivity operation (.collect owner digest now .detached rest) with tables := t }
  | .ok t, .indeterminate applies =>
    { w.unlock operation (resume now rest) with tables := if applies then t else w.tables }

def advanceCollect (w : World) (operation : ℕ) (owner : Option ThemeOwner) (digest : ContentHash)
    (now : ℤ) (rest : Option Phase) : CollectStage → Move → Option World
  | .requested, .acquire =>
    w.acquire operation (.collect owner digest now .locked rest) digest
  | .locked, .commit commit => some (commitCollect w operation owner digest now rest commit)
  | .detached, .check true =>
    some (if digest ∈ w.tables.eligibility then w.unlock operation (resume now rest)
      else w.setActivity operation (.collect owner digest now .unlinking rest))
  | .unlinking, .unlink succeeds =>
    some { w.unlock operation (resume now rest) with
      files := if succeeds then w.files.erase digest else w.files }
  | _, .abort => some (w.finish operation)
  | _, _ => none

end Operations

def catalogOwnerKey : ThemeOwner → String
  | .site => "site"
  | .author userId => "user:" ++ toString userId

/-- The sort key of an expired charge; the user id only breaks ties that no two owners have. -/
def chargeOrder (charge : ThemeOwner × ContentHash) : String ×ₗ ℤ ×ₗ String :=
  toLex (catalogOwnerKey charge.1, toLex (match charge.1 with
    | .site => 0
    | .author userId => userId, charge.2.value))

theorem siteKey_ne (userId : ℤ) : catalogOwnerKey .site ≠ catalogOwnerKey (.author userId) := by
  intro h
  have hlist := congrArg String.toList h
  unfold catalogOwnerKey at hlist
  rw [String.toList_append] at hlist
  cases hlist

theorem chargeOrder_injective : Function.Injective chargeOrder := by
  rintro ⟨owner, a⟩ ⟨owner', b⟩ h
  obtain ⟨hkey, hrest⟩ := Prod.mk.inj (toLex_inj.mp h)
  obtain ⟨hid, hvalue⟩ := Prod.mk.inj (toLex_inj.mp hrest)
  obtain ⟨value, _⟩ := a
  obtain ⟨value', _⟩ := b
  obtain rfl : value = value' := hvalue
  cases owner with
  | site =>
    cases owner' with
    | site => rfl
    | author userId => exact absurd hkey (siteKey_ne userId)
  | author userId =>
    cases owner' with
    | site => exact absurd hkey.symm (siteKey_ne userId)
    | author userId' =>
      obtain rfl : userId = userId' := hid
      rfl

instance : Std.Total (fun a b ↦ chargeOrder a ≤ chargeOrder b) :=
  ⟨fun a b ↦ le_total (chargeOrder a) (chargeOrder b)⟩

instance : IsTrans (ThemeOwner × ContentHash) (fun a b ↦ chargeOrder a ≤ chargeOrder b) :=
  ⟨fun _ _ _ ↦ le_trans⟩

instance : Std.Antisymm (fun a b ↦ chargeOrder a ≤ chargeOrder b) :=
  ⟨fun _ _ hab hba ↦ chargeOrder_injective (le_antisymm hab hba)⟩

/-- Is the content neither referred to nor retained? -/
def isExpired (t : ThemeTables) (digest : ContentHash) (now : ℤ) : Bool :=
  (t.eligibility.lookup digest).any (fun row ↦ row.liveReferences = 0 ∧ row.retainedUntil ≤ now)

def expiredRetainedContent (t : ThemeTables) (now : ℤ) : List (ThemeOwner × ContentHash) :=
  ascending (fun a b ↦ chargeOrder a ≤ chargeOrder b) (t.charges.keys.filter (fun key ↦
    (t.charges.lookup key).any (fun row ↦ row.liveReferences = 0) ∧ isExpired t key.2 now))

def expiredSystemContent (t : ThemeTables) (now : ℤ) : List ContentHash :=
  sortedKeys (t.systemReferences.keys.filter (fun digest ↦
    (t.systemReferences.lookup digest).any
      (fun row ↦ row.liveReferences = 0 ∧ row.retainedUntil ≤ now) ∧ isExpired t digest now))

section Steps

variable (sha256 : List UInt8 → ContentHash) (text : NameText)

/-- Is the complete content at its path? -/
def isIntact (files : Keyed ContentHash (Vec UInt8)) (digest : ContentHash) : Bool :=
  (files.lookup digest).any (fun bytes ↦ sha256 bytes.toList = digest)

def advanceReconcile (w : World) (operation : ℕ) (now : ℤ) : Phase → Move → Option World
  | .requested, .plan =>
    some (w.setActivity operation (.reconcile now (.custom (expiredRetainedContent w.tables now))))
  | .custom ((owner, digest) :: pending), .plan =>
    some (w.setActivity operation
      (.collect (some owner) digest now .requested (some (.custom pending))))
  | .custom [], .plan =>
    some (w.setActivity operation (.reconcile now (.system (expiredSystemContent w.tables now))))
  | .system (digest :: pending), .plan =>
    some (w.setActivity operation (.collect none digest now .requested (some (.system pending))))
  | .system [], .plan =>
    some (w.setActivity operation
      (.reconcile now (.verifying (sortedKeys w.tables.eligibility.keys))))
  | .verifying (digest :: pending), .plan =>
    some (if isIntact sha256 w.files digest then
      w.setActivity operation (.reconcile now (.verifying pending)) else w.finish operation)
  | .verifying [], .plan =>
    some (w.setActivity operation (.reconcile now (.known (sortedKeys w.tables.eligibility.keys))))
  | .known known, .plan =>
    some (w.setActivity operation (.reconcile now
      (.reclaiming ((sortedKeys w.files.keys).filter (fun digest ↦ digest ∉ known)))))
  | .reclaiming (digest :: pending), .acquire =>
    w.acquire operation (.reconcile now (.locked digest pending)) digest
  | .reclaiming [], .plan => some (w.unlock operation .reconciled)
  | .locked digest pending, .check true =>
    some (if digest ∈ w.tables.eligibility then
      w.unlock operation (.reconcile now (.reclaiming pending))
    else w.setActivity operation (.reconcile now (.unlinking digest pending)))
  | .unlinking digest pending, .unlink succeeds =>
    some { w.unlock operation (.reconcile now (.reclaiming pending)) with
      files := if succeeds then w.files.erase digest else w.files }
  | _, .abort => some (w.finish operation)
  | _, _ => none

def advance (w : World) (operation : ℕ) (move : Move) : Option World :=
  match w.activities operation with
  | .publication p stage => advancePublication sha256 text w operation p stage move
  | .collect owner digest now stage rest =>
    advanceCollect w operation owner digest now rest stage move
  | .reconcile now phase => advanceReconcile sha256 w operation now phase move
  | _ => none

/-- The mutations of the catalogs that neither publish nor collect. -/
def mutate (w : World) (operation : ThemeAccounting.Operation) (commit : Commit) : Option World :=
  match operation with
  | .publish .. => none
  | .collect .. => none
  | operation =>
    some { w with tables := ThemeAccounting.step sha256 text w.tables (operation, commit) }

def next (w : World) : Event → Option World
  | .publish p => some (w.start (.publication p .requested))
  | .collect owner digest now => some (w.start (.collect owner digest now .requested none))
  | .reconcile now => some (w.start (.reconcile now .requested))
  | .mutate operation commit => mutate sha256 text w operation commit
  | .advance operation move => advance sha256 text w operation move

/-- A step that is not enabled waits. -/
def step (w : World) (e : Event) : World := (next sha256 text w e).getD w

end Steps

end Jaunder.Storage.ThemeContentRuns
