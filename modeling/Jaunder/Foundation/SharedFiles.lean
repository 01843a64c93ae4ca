import Jaunder.Foundation.Procedures
import Mathlib.Data.List.TakeWhile

namespace Foundation.SharedFiles

open Foundation.Procedures

abbrev Bytes : Type := List UInt8

/-- An absolute file name by its components. -/
abbrev Path : Type := List (List Char)

inductive Object
  | regular (content : Bytes)
  | directory
  | other
deriving DecidableEq

/-- What stands under a name: whether it is a symbolic link, and what it leads to. -/
structure Entry where
  symlink : Bool
  object : Option Object
deriving DecidableEq

def Entry.file (content : Bytes) : Entry := ⟨false, some (.regular content)⟩

/-- A file system as its operations show it, with symbolic links followed. -/
structure FileSystem where
  entry : Path → Option Entry
  writable : Path → Bool
  readable : Path → Bool
  inDirectory : Path → Path → Bool

def FileSystem.object (fs : FileSystem) (path : Path) : Option Object :=
  (fs.entry path).bind Entry.object

inductive Fact
  | attributes (answer : Bool)
  | symlink (answer : Bool)
  | present (answer : Bool)
  | regular (answer : Bool)
  | directory (answer : Bool)
  | writable (answer : Bool)
  | readable (answer : Bool)
  | inDirectory (directory : Path) (answer : Bool)
  | content (bytes : Bytes)
deriving DecidableEq

/-- What a process makes a name for. -/
inductive Role
  | temporary
  | copy
  | directory
deriving DecidableEq

inductive Event
  | saw (path : Path) (fact : Fact)
  | put (role : Role) (path : Path) (before after : Option Entry)
deriving DecidableEq

def Event.isSaw : Event → Bool
  | .saw _ _ => true
  | .put _ _ _ _ => false

/-- The files around a process, the names of its temporaries, and what it has seen and done, the last
first. -/
structure World where
  fs : FileSystem
  clock : ℕ
  names : List Path
  log : List Event

/-- The other processes, which change the files in front of each operation, and the failures of the
operations themselves. -/
structure Others where
  between : ℕ → List Path → FileSystem → FileSystem
  fails : ℕ → Bool
  deleteFails : ℕ → Bool
  suffix : ℕ → List Char
  torn : ℕ → Bytes

inductive Signal
  | fileAlreadyExists
  | fileError
  | error (message : String)
deriving DecidableEq

section Operations

variable (others : Others)

def World.settle (w : World) : World :=
  { w with fs := others.between w.clock w.names w.fs, clock := w.clock + 1 }

def World.note (w : World) (path : Path) (fact : Fact) : World :=
  { w with log := .saw path fact :: w.log }

def World.put (w : World) (role : Role) (path : Path) (after : Option Entry) : World :=
  { w with
    fs := { w.fs with entry := Function.update w.fs.entry path after }
    log := .put role path (w.fs.entry path) after :: w.log }

def ask (test : FileSystem → Bool) (path : Path) (fact : Bool → Fact) :
    Procedure World Signal Bool := fun w ↦
  let w := w.settle others
  (.ok (test w.fs), w.note path (fact (test w.fs)))

def fileAttributes (path : Path) : Procedure World Signal Bool :=
  ask others (fun fs ↦ (fs.entry path).isSome) path .attributes

def fileSymlinkP (path : Path) : Procedure World Signal Bool :=
  ask others (fun fs ↦ (fs.entry path).any Entry.symlink) path .symlink

def fileExistsP (path : Path) : Procedure World Signal Bool :=
  ask others (fun fs ↦ (fs.object path).isSome) path .present

def fileRegularP (path : Path) : Procedure World Signal Bool :=
  ask others (fun fs ↦ (fs.object path).any (fun object ↦ object matches .regular _)) path .regular

def fileDirectoryP (path : Path) : Procedure World Signal Bool :=
  ask others (fun fs ↦ fs.object path = some .directory) path .directory

def fileWritableP (path : Path) : Procedure World Signal Bool :=
  ask others (fun fs ↦ fs.writable path) path .writable

def fileReadableP (path : Path) : Procedure World Signal Bool :=
  ask others (fun fs ↦ fs.readable path) path .readable

def fileInDirectoryP (path directory : Path) : Procedure World Signal Bool :=
  ask others (fun fs ↦ fs.inDirectory path directory) path (.inDirectory directory)

def insertFileContentsLiterally (path : Path) : Procedure World Signal Bytes := fun w ↦
  let failing := others.fails w.clock
  let w := w.settle others
  match failing, w.fs.object path with
  | false, some (.regular content) => (.ok content, w.note path (.content content))
  | _, _ => (.error .fileError, w)

def makeDirectory (path : Path) : Procedure World Signal Unit := fun w ↦
  let failing := others.fails w.clock
  let w := w.settle others
  match failing, w.fs.entry path with
  | true, _ => (.error .fileError, w)
  | false, some _ => (.error .fileAlreadyExists, w)
  | false, none => (.ok (), w.put .directory path (some ⟨false, some .directory⟩))

/-- The name of the temporary is fresh. -/
def makeTempFile (directory : Path) (start : List Char) : Procedure World Signal Path := fun w ↦
  let path := directory ++ [start ++ others.suffix w.clock]
  let failing := others.fails w.clock
  let w := w.settle others
  match failing, w.fs.entry path with
  | false, none => (.ok path, { w.put .temporary path (some (.file [])) with names := path :: w.names })
  | _, _ => (.error .fileError, w)

/-- A write follows symbolic links and creates what is not there. One that fails may leave anything in
the file. -/
def writeRegion (bytes : Bytes) (path : Path) : Procedure World Signal Unit := fun w ↦
  let failing := others.fails w.clock
  let content := if failing then others.torn w.clock else bytes
  let w := w.settle others
  let written := match w.fs.entry path with
    | none => some (.file content)
    | some ⟨symlink, some (.regular _)⟩ => some ⟨symlink, some (.regular content)⟩
    | some ⟨true, none⟩ => some ⟨true, some (.regular content)⟩
    | some _ => none
  match written with
  | none => (.error .fileError, w)
  | some entry =>
    (if failing then .error .fileError else .ok (), w.put .temporary path (some entry))

/-- A rename that does not overwrite. -/
def renameFile (source target : Path) : Procedure World Signal Unit := fun w ↦
  let failing := others.fails w.clock
  let w := w.settle others
  match failing, w.fs.entry source, w.fs.entry target with
  | false, some entry, none =>
    (.ok (), (w.put .copy target (some entry)).put .temporary source none)
  | false, some _, some _ => (.error .fileAlreadyExists, w)
  | _, _, _ => (.error .fileError, w)

def deleteFile (path : Path) : Procedure World Signal Unit := fun w ↦
  let failing := others.deleteFails w.clock
  let w := w.settle others
  match failing, w.fs.entry path with
  | false, some entry =>
    if entry = ⟨false, some .directory⟩ then (.error .fileError, w)
    else (.ok (), w.put .temporary path none)
  | _, _ => (.error .fileError, w)

end Operations

end Foundation.SharedFiles
