import Mathlib.Data.List.Basic
import Mathlib.Logic.Relation
import Mathlib.Tactic

namespace Jaunder.Host.UploadPreparer

/-- Where a caller is in `admit`, `prepare` and `finish`. -/
inductive Caller
  /-- In `admit`, with a permit. -/
  | permitted
  /-- In `admit`, with the lock on the owners. -/
  | locked
  /-- `ensure_accepting` has passed. -/
  | accepted
  | spooled
  | spawned
  /-- `admit` is leaving with an error. -/
  | failing
  | unlocked
  | refused
  | receiving
  /-- In `prepare`, at the result channel. -/
  | preparing
  | prepared (ok : Bool)
  /-- `prepare` has ended without the owner's result. -/
  | unprepared
  /-- In `finish`, at the done channel. -/
  | finishing
  | finished
  | dropped
deriving DecidableEq

/-- Where the owner is in its task, `process` included. -/
inductive Owner
  | unspawned
  /-- At the first `select!`. -/
  | selecting
  /-- Shutdown was seen there; the lease is awaited. -/
  | refusing
  /-- In `process`, before the check of the shutdown watch. -/
  | starting
  | spawning
  /-- At the `select!` over the worker's response. -/
  | working
  /-- In `stop_and_wait`. -/
  | reaping
  /-- The result was sent; the lease is awaited. -/
  | holding
  /-- In `cleanup_spool`. -/
  | cleaning
  | releasing
  | reporting
  | gone
deriving DecidableEq

/-- The worker process; `exited` is a process that has not been waited for. -/
inductive Worker
  | none
  | running
  | exited
  | reaped
deriving DecidableEq

structure Attempt where
  caller : Caller
  owner : Owner
  worker : Worker
  permit : Bool
  spool : Bool
  /-- A job is in the start channel. -/
  start : Bool
  /-- The lease sender is alive. -/
  lease : Bool
  /-- The result that was sent, by `is_ok`. -/
  result : Option Bool
  done : Bool
  /-- The shutdown that took the owner out of the set. -/
  joined : Option ℕ
deriving DecidableEq

def Attempt.admitted : Attempt where
  caller := .permitted
  owner := .unspawned
  worker := .none
  permit := true
  spool := false
  start := false
  lease := false
  result := none
  done := false
  joined := none

/-- The phases that own the attempt and may call `finish`. -/
def Caller.mayFinish : Caller → Bool
  | .receiving | .prepared _ | .unprepared => true
  | _ => false

def Caller.mayDrop : Caller → Bool
  | .receiving | .preparing | .prepared _ | .unprepared | .finishing => true
  | _ => false

/-- The steps of `admit` after its permit; a step that fails drops the spool it has made. -/
inductive AdmitStep (closed : Bool) : Attempt → Attempt → Prop
  | accept {a} (hc : a.caller = .locked) (hopen : closed = false) :
    AdmitStep closed a { a with caller := .accepted }
  | reject {a} (hc : a.caller = .locked ∨ a.caller = .accepted ∨ a.caller = .spooled) :
    AdmitStep closed a { a with caller := .failing, spool := false }
  | createSpool {a} (hc : a.caller = .accepted) :
    AdmitStep closed a { a with caller := .spooled, spool := true }
  | spawnOwner {a} (hc : a.caller = .spooled) :
    AdmitStep closed a { a with caller := .spawned, owner := .selecting, lease := true }

inductive CallerStep : Attempt → Attempt → Prop
  /-- `write`, or a `prepare` that cannot flush the input. -/
  | write {a} (hc : a.caller = .receiving) : CallerStep a a
  | prepare {a} (hc : a.caller = .receiving) (ho : a.owner = .selecting) :
    CallerStep a { a with caller := .preparing, start := true }
  /-- The start receiver is gone. -/
  | prepareStopped {a} (hc : a.caller = .receiving) (ho : a.owner ≠ .selecting) :
    CallerStep a { a with caller := .unprepared }
  | result {a ok} (hc : a.caller = .preparing) (hr : a.result = some ok) :
    CallerStep a { a with caller := .prepared ok }
  /-- The future of `prepare` is dropped, or the result sender is gone. -/
  | cancel {a} (hc : a.caller = .preparing) : CallerStep a { a with caller := .unprepared }
  | finish {a} (hc : a.caller.mayFinish = true) :
    CallerStep a { a with caller := .finishing, lease := false }
  | done {a} (hc : a.caller = .finishing) (hd : a.done = true) :
    CallerStep a { a with caller := .finished }
  | drop {a} (hc : a.caller.mayDrop = true) :
    CallerStep a { a with caller := .dropped, lease := false }

/-- The steps of an owner and its worker. The polls of one `select!` are not one step, so a later
branch may be taken although an earlier one has just become ready. -/
inductive OwnerStep (stopping : Bool) : Attempt → Attempt → Prop
  | refuse {a} (ho : a.owner = .selecting) (hs : stopping = true) :
    OwnerStep stopping a { a with owner := .refusing, result := some false }
  | leave {a} (ho : a.owner = .selecting) (hl : a.lease = false) :
    OwnerStep stopping a { a with owner := .cleaning }
  | take {a} (ho : a.owner = .selecting) (hj : a.start = true) :
    OwnerStep stopping a { a with owner := .starting, start := false }
  | refused {a} (ho : a.owner = .refusing) (hl : a.lease = false) :
    OwnerStep stopping a { a with owner := .cleaning }
  | check {a} (ho : a.owner = .starting) (hs : stopping = false) :
    OwnerStep stopping a { a with owner := .spawning }
  | checkFails {a} (ho : a.owner = .starting) (hs : stopping = true) :
    OwnerStep stopping a { a with owner := .cleaning, result := some false }
  | spawn {a} (ho : a.owner = .spawning) :
    OwnerStep stopping a { a with owner := .working, worker := .running }
  | spawnFails {a} (ho : a.owner = .spawning) :
    OwnerStep stopping a { a with owner := .cleaning, result := some false }
  | exit {a} (hw : a.worker = .running) : OwnerStep stopping a { a with worker := .exited }
  /-- Shutdown, the lease, the deadline, or a response that cannot be read. -/
  | interrupt {a} (ho : a.owner = .working) : OwnerStep stopping a { a with owner := .reaping }
  | respond {a} (ho : a.owner = .working) (hw : a.worker = .exited) :
    OwnerStep stopping a { a with owner := .holding, worker := .reaped, result := some true }
  /-- The response of the worker that was waited for is an error. -/
  | respondFails {a} (ho : a.owner = .working) (hw : a.worker = .exited) :
    OwnerStep stopping a { a with owner := .reaping, worker := .reaped }
  | reap {a} (ho : a.owner = .reaping) (hw : a.worker = .exited) :
    OwnerStep stopping a { a with worker := .reaped }
  | fail {a} (ho : a.owner = .reaping) (hw : a.worker = .reaped) :
    OwnerStep stopping a { a with owner := .cleaning, result := some false }
  | hold {a} (ho : a.owner = .holding) (hl : a.lease = false) :
    OwnerStep stopping a { a with owner := .cleaning }
  | remove {a} (ho : a.owner = .cleaning) :
    OwnerStep stopping a { a with owner := .releasing, spool := false }
  | report {a} (ho : a.owner = .reporting) :
    OwnerStep stopping a { a with owner := .gone, done := true }

/-- A call of `shutdown`, after its `stop`. -/
inductive Shutdown
  | waiting
  | joining
  | returned
deriving DecidableEq

structure State where
  /-- `slots.close()`. -/
  closed : Bool
  /-- The shutdown watch. -/
  stopping : Bool
  slots : ℕ
  /-- The caller that holds the lock on the owners. -/
  lock : Option ℕ
  attempts : List Attempt
  shutdowns : List Shutdown

def State.new : State := ⟨false, false, 2, none, [], []⟩

/-- `std::mem::take` of the owners. -/
def Attempt.joinBy (j : ℕ) (a : Attempt) : Attempt :=
  if a.owner ≠ .unspawned ∧ a.joined = none then { a with joined := some j } else a

inductive Step : State → State → Prop
  /-- `try_acquire_owned`. -/
  | tryAcquire {s} (hopen : s.closed = false) (hslot : 0 < s.slots) :
    Step s { s with slots := s.slots - 1, attempts := s.attempts ++ [.admitted] }
  | acquire {s i a} (ha : s.attempts[i]? = some a) (hc : a.caller = .permitted)
    (hlock : s.lock = none) :
    Step s { s with lock := some i, attempts := s.attempts.set i { a with caller := .locked } }
  | admission {s i a a'} (ha : s.attempts[i]? = some a) (h : AdmitStep s.closed a a') :
    Step s { s with attempts := s.attempts.set i a' }
  | unlock {s i a} (ha : s.attempts[i]? = some a) (hc : a.caller = .spawned) :
    Step s { s with lock := none, attempts := s.attempts.set i { a with caller := .receiving } }
  | unlockFailing {s i a} (ha : s.attempts[i]? = some a) (hc : a.caller = .failing) :
    Step s { s with lock := none, attempts := s.attempts.set i { a with caller := .unlocked } }
  | returnPermit {s i a} (ha : s.attempts[i]? = some a) (hc : a.caller = .unlocked) :
    Step s { s with
      slots := s.slots + 1
      attempts := s.attempts.set i { a with caller := .refused, permit := false } }
  | caller {s i a a'} (ha : s.attempts[i]? = some a) (h : CallerStep a a') :
    Step s { s with attempts := s.attempts.set i a' }
  | owner {s i a a'} (ha : s.attempts[i]? = some a) (h : OwnerStep s.stopping a a') :
    Step s { s with attempts := s.attempts.set i a' }
  /-- `drop(permit)`. -/
  | release {s i a} (ha : s.attempts[i]? = some a) (ho : a.owner = .releasing) :
    Step s { s with
      slots := s.slots + 1
      attempts := s.attempts.set i { a with owner := .reporting, permit := false } }
  | close {s} : Step s { s with closed := true }
  | signal {s} (h : s.closed = true) : Step s { s with stopping := true }
  | shutdown {s} (h : s.stopping = true) : Step s { s with shutdowns := s.shutdowns ++ [.waiting] }
  | takeOwners {s j} (hj : s.shutdowns[j]? = some .waiting) (hlock : s.lock = none) :
    Step s { s with
      shutdowns := s.shutdowns.set j .joining
      attempts := s.attempts.map (Attempt.joinBy j) }
  | join {s j} (hj : s.shutdowns[j]? = some .joining)
    (hgone : ∀ a ∈ s.attempts, a.joined = some j → a.owner = .gone) :
    Step s { s with shutdowns := s.shutdowns.set j .returned }

abbrev Steps : State → State → Prop := Relation.ReflTransGen Step

def Reachable (s : State) : Prop := Steps .new s

end Jaunder.Host.UploadPreparer
