import Jaunder.Server.RuntimeFile

namespace Jaunder.Server.RuntimeProcesses

open Jaunder.Server.RuntimeFile

section Serve

inductive ShutdownSignal
  | sigint
  | sigterm
deriving DecidableEq

inductive ShutdownState
  | awaitingSignal
  | draining
deriving DecidableEq

inductive ShutdownTransition
  | beginGracefulDrain
  | continueGracefulDrain
  | forceExitAndRemoveRuntimeIdentity
deriving DecidableEq

def shutdownTransition : ShutdownState → ShutdownSignal → ShutdownTransition
  | .awaitingSignal, _ => .beginGracefulDrain
  | .draining, .sigterm => .continueGracefulDrain
  | .draining, .sigint => .forceExitAndRemoveRuntimeIdentity

/-- How far a serve command has come since its signal handlers are there. -/
inductive Phase
  | starting
  | locked
  | checked
  | reserving
  | preparing
  | updating
  | serving
  | dropping
  | unlocking
  | returning
deriving DecidableEq

def Phase.holdsLock : Phase → Bool
  | .starting | .returning => false
  | _ => true

/-- The identity is published and its guard is alive. -/
def Phase.published : Phase → Bool
  | .preparing | .updating | .serving => true
  | _ => false

/-- The runtime file may still name the process. -/
def Phase.mayBeNamed : Phase → Bool
  | .dropping => true
  | phase => phase.published

structure Serve where
  bind : SocketAddr
  bound : Option SocketAddr
  phase : Phase
  supervisor : Option ShutdownState
  forced : Bool

/-- The address of the reservation, before the listener is bound. -/
def reservation (bind : SocketAddr) : SocketAddr := { bind with port := 0 }

/-- The address that waits in the temporary file for its rename. -/
def Serve.pending (s : Serve) : Option SocketAddr :=
  match s.phase with
  | .reserving => some (reservation s.bind)
  | .updating => s.bound
  | _ => none

/-- The lock and the files of a storage directory. -/
structure Files where
  lock : Option UInt32
  runtime : Option (List Char)
  tmp : Option (List Char)

def Files.read (f : Files) (readable : Bool) : FileRead :=
  match f.runtime with
  | none => .notFound
  | some contents => if readable then .text contents else .unreadable

/-- `remove_runtime_file`, which only reports an error. -/
def Files.removeRuntimeFile (f : Files) (removed : Bool) : Files :=
  { f with runtime := if removed then none else f.runtime }

def Files.writeTmp (f : Files) (addr : SocketAddr) (process : RuntimeProcessIdentity) : Files :=
  { f with tmp := some (body addr process) }

def Files.rename (f : Files) : Files := { f with runtime := f.tmp, tmp := none }

inductive Action
  | acquire
  | check (readable : Bool)
  | fail
  | writeReservation
  | publish
  | writeAddress (addr : SocketAddr)
  | publishAddress
  | keepReservation
  | stop
  | removeIdentity (removed : Bool)
  | unlock
  | signal (signal : ShutdownSignal) (removed : Bool)

/-- An error of `prepare_server` drops what the command holds. -/
def Phase.afterFailure : Phase → Option Phase
  | .starting => some .returning
  | .locked | .checked | .reserving => some .unlocking
  | .preparing => some .dropping
  | _ => none

variable (startTimeOf : UInt32 → Option UInt64) (process : RuntimeProcessIdentity) (f : Files) (s : Serve)

def handleSignal (signal : ShutdownSignal) (removed : Bool) : Option (Files × Serve) :=
  match s.supervisor with
  | none => none
  | some state =>
    match shutdownTransition state signal with
    | .beginGracefulDrain | .continueGracefulDrain =>
      some (f, { s with supervisor := some .draining })
    | .forceExitAndRemoveRuntimeIdentity =>
      some (f.removeRuntimeFile removed, { s with supervisor := none, forced := true })

/-- One step of a serve command; `process::exit` is a step of the process. -/
def act : Action → Option (Files × Serve)
  | .acquire =>
    if s.phase = .starting then
      if f.lock = none then some ({ f with lock := some process.pid }, { s with phase := .locked })
      else some (f, { s with phase := .returning })
    else none
  | .check readable =>
    if s.phase = .locked then
      match checkStartupMutex startTimeOf (f.read readable) with
      | .refuse _ => some (f, { s with phase := .unlocking })
      | .stale => some (f, { s with phase := .checked })
      | .proceed => some (f, { s with phase := .checked })
    else none
  | .fail => s.phase.afterFailure.map (fun phase ↦ (f, { s with phase := phase }))
  | .writeReservation =>
    if s.phase = .checked then
      some (f.writeTmp (reservation s.bind) process, { s with phase := .reserving })
    else none
  | .publish =>
    if s.phase = .reserving then some (f.rename, { s with phase := .preparing }) else none
  | .writeAddress addr =>
    if s.phase = .preparing then
      some (f.writeTmp addr process, { s with phase := .updating, bound := some addr })
    else none
  | .publishAddress =>
    match s.bound with
    | none => none
    | some _ => if s.phase = .updating then some (f.rename, { s with phase := .serving }) else none
  | .keepReservation =>
    if s.phase = .preparing ∨ s.phase = .updating then
      some (f, { s with phase := .serving, bound := none })
    else none
  | .stop =>
    if s.phase = .serving then some (f, { s with phase := .dropping, supervisor := none }) else none
  | .removeIdentity removed =>
    if s.phase = .dropping then some (f.removeRuntimeFile removed, { s with phase := .unlocking })
    else none
  | .unlock =>
    if s.phase = .unlocking then some ({ f with lock := none }, { s with phase := .returning })
    else none
  | .signal signal removed => handleSignal f s signal removed

end Serve

section Worlds

structure Process where
  identity : RuntimeProcessIdentity
  serve : Option Serve

/-- The process table of the machine and the storage directory; `past` and `servers` are the
identities that there have been. -/
structure World where
  table : UInt32 → Option Process
  files : Files
  past : List RuntimeProcessIdentity
  servers : List RuntimeProcessIdentity

inductive Event
  | spawn (process : RuntimeProcessIdentity) (bind : Option SocketAddr)
  | exit (pid : UInt32)
  | act (pid : UInt32) (action : Action)

variable (w : World)

/-- `process_start_time`. -/
def startTimeOf (pid : UInt32) : Option UInt64 := (w.table pid).map (fun p ↦ p.identity.startTime)

def newServe (bind : SocketAddr) : Serve := ⟨bind, none, .starting, some .awaitingSignal, false⟩

/-- The kernel lets go of the lock of a process that ends. -/
def Files.release (f : Files) (pid : UInt32) : Files :=
  { f with lock := if f.lock = some pid then none else f.lock }

def step : Event → Option World
  | .spawn process bind =>
    if process.pid ≠ 0 ∧ (w.table process.pid).isNone ∧ process ∉ w.past then
      some { w with
        table := Function.update w.table process.pid (some ⟨process, bind.map newServe⟩)
        past := process :: w.past
        servers := if bind.isSome then process :: w.servers else w.servers }
    else none
  | .exit pid => (w.table pid).map (fun _ ↦
      { w with table := Function.update w.table pid none, files := w.files.release pid })
  | .act pid action => do
    let p ← w.table pid
    let s ← p.serve
    let (files, s) ← RuntimeProcesses.act (startTimeOf w) p.identity w.files s action
    return { w with
      table := Function.update w.table pid (some { p with serve := some s })
      files := files }

def next (e : Event) : World := (step w e).getD w

def run (events : List Event) : World := events.foldl next w

/-- The process is in the table. -/
def Alive (process : RuntimeProcessIdentity) : Prop :=
  ∃ p, w.table process.pid = some p ∧ p.identity = process

end Worlds

section ShutDown

inductive ShutDownError
  | missing
  | starting
  | malformed
  | deadProcess
  | startTimeMismatch
  | noHandle
  | notDelivered
  | notWaited
  | timeout
  | stillOwned
deriving DecidableEq

/-- What the operations of one `shut_down` find, one after the other. -/
structure Moments where
  read : World
  verify : World
  «open» : World
  reverify : World
  signal : World
  wait : World
  reread : World
  readable : Bool
  opened : Bool
  delivered : Bool
  polled : Bool
  rereadable : Bool

structure Outcome where
  result : Except ShutDownError Unit
  signalled : Option RuntimeProcessIdentity

def readRuntimeRecord (f : Files) (readable : Bool) : Except ShutDownError (Option RuntimeRecord) :=
  match f.read readable with
  | .notFound => .ok none
  | .unreadable => .error .malformed
  | .text contents =>
    match decodeRuntimeRecord contents with
    | .error _ => .error .malformed
    | .ok record => .ok (some record)

def verifyProcessIdentity (w : World) (identity : RuntimeProcessIdentity) : Except ShutDownError Unit :=
  match startTimeOf w identity.pid with
  | none => .error .deadProcess
  | some startTime => if startTime ≠ identity.startTime then .error .startTimeMismatch else .ok ()

/-- `pidfd_open`: the handle stays with the process that has the number now. -/
def openHandle (w : World) (opened : Bool) (pid : UInt32) : Except ShutDownError RuntimeProcessIdentity :=
  match w.table pid with
  | none => .error .deadProcess
  | some p => if opened then .ok p.identity else .error .noHandle

/-- The identity of the record and the handle, under checks before and after the handle is taken. -/
def acquireHandle (m : Moments) : Except ShutDownError (RuntimeProcessIdentity × RuntimeProcessIdentity) :=
  match readRuntimeRecord m.read.files m.readable with
  | .error e => .error e
  | .ok none => .error .missing
  | .ok (some record) =>
    if record.port = 0 then .error .starting
    else do
      verifyProcessIdentity m.verify record.process
      let handle ← openHandle m.open m.opened record.process.pid
      verifyProcessIdentity m.reverify record.process
      return (record.process, handle)

def isAlive (w : World) (process : RuntimeProcessIdentity) : Bool :=
  (w.table process.pid).any (fun p ↦ p.identity = process)

/-- `wait_for_exit` and the second look at the runtime file. -/
def awaitExit (m : Moments) (identity handle : RuntimeProcessIdentity) : Except ShutDownError Unit :=
  if m.polled = false then .error .notWaited
  else if isAlive m.wait handle then .error .timeout
  else
    match readRuntimeRecord m.reread.files m.rereadable with
    | .error e => .error e
    | .ok none => .ok ()
    | .ok (some current) => if current.process ≠ identity then .ok () else .error .stillOwned

def cmdShutDownWith (m : Moments) : Outcome :=
  match acquireHandle m with
  | .error e => ⟨.error e, none⟩
  | .ok (identity, handle) =>
    if m.delivered = false then ⟨.error .notDelivered, none⟩
    else ⟨awaitExit m identity handle, if isAlive m.signal handle then some handle else none⟩

end ShutDown

end Jaunder.Server.RuntimeProcesses
