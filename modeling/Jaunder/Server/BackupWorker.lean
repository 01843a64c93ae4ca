import Jaunder.Common.SqliteTime
import Jaunder.Foundation.Octets
import Jaunder.Foundation.Run
import Mathlib.Data.List.AList
import Mathlib.Data.List.Lex

namespace Jaunder.Server.BackupWorker

open Foundation.Calendar Foundation.Decimal
open Foundation.Octets (utf8)
open Jaunder.Common.SqliteTime Jaunder.Common.Time

/-- The octets of a file name. -/
abbrev OsString := List (Fin 256)

def ofText (s : List Char) : OsString := (utf8 s).map UInt8.toFin

/-- `OsStr::to_str` gives a text. -/
def isText (name : OsString) : Bool := (name.map UInt8.ofFin).toByteArray.validateUTF8

inductive BackupMode
  | directory
  | archive
deriving DecidableEq

/-- What is below a directory: its `manifest.json`, when that is a file, and everything else. -/
structure Tree where
  manifest : Option (List UInt8)
  others : List (OsString × List UInt8)
deriving DecidableEq

inductive Artifact
  | file (bytes : List UInt8)
  | directory (tree : Tree)
deriving DecidableEq

/-- The entries of the destination root. -/
abbrev Directory := AList fun _ : OsString ↦ Artifact

/-- A backup that is complete, with the instant that names it. -/
inductive Backup
  | directory (instant : UtcInstant) (manifest : List UInt8) (others : List (OsString × List UInt8))
  | archive (instant : UtcInstant) (bytes : List UInt8)
deriving DecidableEq

/-- `backup-%Y%m%dT%H%M%SZ`. -/
def timestampedBackupName (t : UtcInstant) : List Char :=
  "backup-".toList ++ (if 0 ≤ year t then [] else ['-']) ++ digits 4 (year t).natAbs ++
    digits 2 (civilMonth (epochDay t)).toNat ++ digits 2 (civilDay (epochDay t)).toNat ++ 'T' ::
      (digits 2 (secondOfDay t / 3600) ++ digits 2 (secondOfDay t / 60 % 60) ++
        digits 2 (secondOfDay t % 60) ++ ['Z'])

def archiveSuffix : List Char := ".tar.gz".toList

def backupPathForMode (t : UtcInstant) : BackupMode → OsString
  | .directory => ofText (timestampedBackupName t)
  | .archive => ofText (timestampedBackupName t ++ archiveSuffix)

def stagingName (fileName : OsString) (t : UtcInstant) : OsString :=
  ofText ['.'] ++ fileName ++ ofText ('.' :: (toString t.nanos).toList ++ ".tmp".toList)

/-- One run: its clock readings, and how far each of its effects gets. -/
structure Attempt where
  mode : BackupMode
  now : UtcInstant
  stagedAt : UtcInstant
  /-- The root is there and the database is locked. -/
  ready : Bool
  staged : Bool
  /-- The manifest is written last; a failure may leave a part of the tree. -/
  exported : Except (Option Tree) (List UInt8 × List (OsString × List UInt8))
  /-- A failure may leave the first bytes of the archive. -/
  archived : Except (Option (List UInt8)) (List UInt8)
  /-- What the removal of the staging directory leaves of it. -/
  stagingLeft : Option Tree
  listed : Bool
  /-- What a removal that fails leaves under a name. -/
  removalLeft : OsString → Option Artifact

/-- The tree that `export_directory_backup` writes into an empty directory. -/
def writeTree (root : Directory) (name : OsString) (a : Attempt) :
    Directory × Option (List UInt8 × List (OsString × List UInt8)) :=
  match a.exported with
  | .error none => (root, none)
  | .error (some tree) => (root.insert name (.directory tree), none)
  | .ok (manifest, others) =>
    (root.insert name (.directory ⟨some manifest, others⟩), some (manifest, others))

/-- `ensure_empty_or_absent`. -/
def emptyOrAbsent (root : Directory) (name : OsString) : Bool :=
  match root.lookup name with
  | none => true
  | some (.file _) => false
  | some (.directory tree) => tree.manifest = none ∧ tree.others = []

def exportDirectoryBackup (root : Directory) (a : Attempt) : Directory × Option Backup :=
  let name := backupPathForMode a.now .directory
  if emptyOrAbsent root name then
    let (root, written) := writeTree root name a
    (root, written.map fun tree ↦ .directory a.now tree.1 tree.2)
  else (root, none)

def writeTarGz (root : Directory) (name : OsString) (a : Attempt) : Directory × Option Backup :=
  match a.archived with
  | .error none => (root, none)
  | .error (some bytes) => (root.insert name (.file bytes), none)
  | .ok bytes => (root.insert name (.file bytes), some (.archive a.now bytes))

/-- `TemporaryBackupDirectory::drop`. -/
def dropStaging (root : Directory) (staging : OsString) (a : Attempt) : Directory :=
  match a.stagingLeft with
  | none => root.erase staging
  | some tree => root.insert staging (.directory tree)

def exportArchiveBackup (root : Directory) (a : Attempt) : Directory × Option Backup :=
  let name := backupPathForMode a.now .archive
  let staging := stagingName name a.stagedAt
  if name ∈ root ∨ staging ∈ root ∨ ¬a.staged then (root, none)
  else
    let (staged, tree) := writeTree (root.insert staging (.directory ⟨none, []⟩)) staging a
    let (root, written) :=
      match tree with
      | none => (staged, none)
      | some _ => writeTarGz staged name a
    (dropStaging root staging a, written)

def exportBackup (root : Directory) (a : Attempt) : Directory × Option Backup :=
  match a.mode with
  | .directory => exportDirectoryBackup root a
  | .archive => exportArchiveBackup root a

def Artifact.hasManifest : Artifact → Bool
  | .file _ => false
  | .directory tree => tree.manifest.isSome

def isCandidate (name : OsString) (artifact : Artifact) : Bool :=
  artifact.hasManifest || (isText name && (ofText archiveSuffix).isSuffixOf name)

def candidates (root : Directory) : List OsString :=
  (root.entries.filter fun e ↦ isCandidate e.1 e.2).map Sigma.fst

/-- The removals, up to the first one that fails. -/
def removeAll (a : Attempt) : Directory → List OsString → Directory × Bool
  | root, [] => (root, true)
  | root, name :: names =>
    match a.removalLeft name with
    | none => removeAll a (root.erase name) names
    | some artifact => (root.insert name artifact, false)

/-- The names that are to be pruned. -/
def excess (root : Directory) (retentionCount : ℕ) : List OsString :=
  let backups := (candidates root).mergeSort fun a b ↦ a ≤ b
  backups.take (backups.length - retentionCount)

def pruneBackups (root : Directory) (retentionCount : ℕ) (a : Attempt) : Directory × Bool :=
  if a.listed then removeAll a root (excess root retentionCount) else (root, false)

/-- The path of the backup, when the run reports success. -/
def runScheduledBackup (root : Directory) (retentionCount : ℕ) (a : Attempt) :
    Directory × Option OsString :=
  if a.ready then
    match exportBackup root a with
    | (root, none) => (root, none)
    | (root, some _) =>
      let (root, pruned) := pruneBackups root retentionCount a
      (root, if pruned then some (backupPathForMode a.now a.mode) else none)
  else (root, none)

end Jaunder.Server.BackupWorker
