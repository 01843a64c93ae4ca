import Jaunder.Elisp.PostWrites

namespace Jaunder.Elisp.BatchOutcomes

open Jaunder.Elisp.PostWrites

/-- `partly` is the outcome `partial` of the source. -/
inductive Outcome
  | success
  | noOp
  | blocked
  | failed
  | unknown
  | partly
deriving DecidableEq

inductive Reason
  | unchanged
  | pushIneligible
  | pullIneligible
  | localFileMissing
  | preflight
  | createIdentityUnresolved
  | responseIdentityInvalid
  | localWriteBackFailed
  | remoteOutcomeUnknown
  | operationFailed
  | etagStale
  | publishHttpError
  | publishPreparationFailed
  | localChangedAfterCommit
  | deleteHttpError
  | deleteTransportError
  | localPreserved
  | pullDestinationOccupied
  | pullRenameFailed
  | pullFailed
  | stagedIdentityChanged
deriving DecidableEq

structure RowValue where
  outcome : Outcome
  reason : Option Reason
  httpStatus : Option ℤ
deriving DecidableEq

inductive RowState
  | localDraft
  | localAhead
  | unchanged
  | serverAhead
  | serverOnly
  | conflict
  | orphan
deriving DecidableEq

def blocked (reason : Reason) : RowValue := ⟨.blocked, some reason, none⟩

/-- `jaunder--operation-write-failure` -/
def writeFailure (r : WriteReceipt) : RowValue :=
  match r.phase with
  | .confirmed => ⟨.partly, some (if r.checkpointCondition then .responseIdentityInvalid
      else .localWriteBackFailed), r.status⟩
  | .unknown => ⟨.unknown, some .remoteOutcomeUnknown, r.status⟩
  | .notSent => ⟨.failed, some .operationFailed, r.status⟩
  | .rejected => ⟨.failed, some .operationFailed, r.status⟩

/-- What a push meets: the safety check of the file, whatever fails before the first request, the
requests, and the write-back with the rename. -/
structure PushEnv where
  state : RowState
  fileExists : Bool
  identity : Except Signal (Option Reason)
  creating : Bool
  prepare : Except Signal Unit
  attempts : ℕ → Attempt
  complete : Except Signal Unit

/-- The local removal after a 204. -/
inductive Removal
  | removed
  | removedBufferRetained
  | unchanged
  | preserved
deriving DecidableEq

structure DeleteEnv where
  reviewed : Option Reason
  preflight : Except Signal (Option Reason)
  attempt : Attempt
  removal : Except Signal Removal

structure KeepLocalEnv where
  initial : Except Signal (Option Reason)
  prepare : Except Signal Unit
  final : Except Signal (Option Reason)
  strongEtag : Bool
  attempt : Attempt
  drift : Except Signal (Option Reason)
  checkpoint : Except Signal Unit

/-- What the installation of a staged Member comes to. -/
inductive Installed
  | installed
  | refused (reason : Reason)
  | renameFailed
deriving DecidableEq

structure PullEnv where
  state : RowState
  pulled : Except Signal Bool
  install : Except Signal Installed

structure KeepRemoteEnv where
  initial : Except Signal (Option Reason)
  install : Except Signal Installed

abbrev Result := Except Signal RowValue × WriteReceipt

section Operations

def publishStatus (status : Option ℤ) : Bool := status = some 200 ∨ status = some 201

/-- `jaunder-publish`, as far as its requests go. -/
def publish (env : PushEnv) (r : WriteReceipt) : Except Signal (Option ℤ) × WriteReceipt :=
  match env.prepare with
  | .error condition => (.error condition, r)
  | .ok () =>
    match if env.creating then createWithRetry env.attempts 1 2 r
      else sendPostWrite .put (env.attempts 1) r with
    | (.error condition, r) => (.error condition, r)
    | (.ok status, r) =>
      if publishStatus status then (env.complete.map (fun _ ↦ status), r)
      else (.error (.error false), r)

def pushPublish (env : PushEnv) (r : WriteReceipt) : Result :=
  match publish env r with
  | (.error condition, r) => (.error condition, r)
  | (.ok status, r) =>
    if r.createIdentityUnresolved then (.ok ⟨.partly, some .createIdentityUnresolved, status⟩, r)
    else (.ok ⟨.success, none, status⟩, r)

def pushLocal (env : PushEnv) (r : WriteReceipt) : Result :=
  match env.identity with
  | .error condition => (.error condition, r)
  | .ok reason =>
    if ¬env.fileExists then (.ok (blocked .localFileMissing), r)
    else match reason with
      | some reason => (.ok (blocked reason), r)
      | none => pushPublish env r

def pushRow (env : PushEnv) (r : WriteReceipt) : Result :=
  match env.state with
  | .unchanged => (.ok ⟨.noOp, some .unchanged, none⟩, r)
  | .localDraft | .localAhead => pushLocal env r
  | _ => (.ok (blocked .pushIneligible), r)

/-- The handler around a DELETE. -/
def deleteFailure (r : WriteReceipt) : Signal → Result
  | .quit => (.error .quit, r)
  | .error _ =>
    if r.phase = .confirmed ∨ r.phase = .unknown then (.ok (writeFailure r), r)
    else (.ok ⟨.failed, some .deleteTransportError, none⟩, r)

def deleteSend (env : DeleteEnv) (r : WriteReceipt) : Result :=
  match sendPostWrite .delete env.attempt r with
  | (.error condition, r) => deleteFailure r condition
  | (.ok status, r) =>
    if status = some 204 then
      match env.removal with
      | .error condition => deleteFailure r condition
      | .ok removal =>
        if r.phase = .confirmed ∧ removal = .preserved then
          (.ok ⟨.partly, some .localPreserved, status⟩, r)
        else (.ok ⟨.success, none, status⟩, r)
    else match r.phase with
      | .unknown => (.ok ⟨.unknown, some .remoteOutcomeUnknown, status⟩, r)
      | .confirmed =>
        (.ok ⟨.partly, some (if status = some 412 then .etagStale else .deleteHttpError), status⟩, r)
      | _ =>
        (.ok ⟨.failed, some (if status = some 412 then .etagStale else .deleteHttpError), status⟩, r)

def deleteRow (env : DeleteEnv) (r : WriteReceipt) : Result :=
  match env.reviewed with
  | some reason => (.ok (blocked reason), r)
  | none =>
    match env.preflight with
    | .error condition => (.error condition, r)
    | .ok (some reason) => (.ok (blocked reason), r)
    | .ok none => deleteSend env r

/-- What follows a PUT that has been answered with 200 or 201. -/
def keepLocalCheckpoint (env : KeepLocalEnv) (status : Option ℤ) (r : WriteReceipt) : Result :=
  match env.drift with
  | .error condition => (.error condition, r)
  | .ok (some _) => (.ok ⟨.partly, some .localChangedAfterCommit, status⟩, r)
  | .ok none =>
    match env.checkpoint with
    | .ok () => (.ok ⟨.success, none, status⟩, r)
    | .error (.error _) => (.ok ⟨.partly, some .localWriteBackFailed, status⟩, r)
    | .error .quit => (.error .quit, r)

/-- `jaunder--reconcile-keep-local-send` -/
def keepLocalSend (env : KeepLocalEnv) (r : WriteReceipt) : Result :=
  match if env.strongEtag then sendPostWrite .put env.attempt r else (.error (.error false), r) with
  | (.error .quit, r) => (.error .quit, r)
  | (.error (.error _), r) =>
    if r.phase = .confirmed then (.ok (writeFailure r), r)
    else (.ok ⟨.unknown, some .remoteOutcomeUnknown, none⟩, r)
  | (.ok status, r) =>
    if status = some 412 then (.ok ⟨.blocked, some .etagStale, status⟩, r)
    else if r.phase = .unknown then (.ok ⟨.unknown, some .remoteOutcomeUnknown, status⟩, r)
    else if ¬publishStatus status then (.ok ⟨.failed, some .publishHttpError, status⟩, r)
    else keepLocalCheckpoint env status r

/-- A keep-local row; a finished merge goes through the same steps. -/
def keepLocalRow (env : KeepLocalEnv) (r : WriteReceipt) : Result :=
  match env.initial with
  | .error condition => (.error condition, r)
  | .ok (some reason) => (.ok (blocked reason), r)
  | .ok none =>
    match env.prepare with
    | .error .quit => (.error .quit, r)
    | .error (.error _) => (.ok ⟨.failed, some .publishPreparationFailed, none⟩, r)
    | .ok () =>
      match env.final with
      | .error condition => (.error condition, r)
      | .ok (some reason) => (.ok (blocked reason), r)
      | .ok none => keepLocalSend env r

def pullRow (env : PullEnv) : Except Signal RowValue :=
  match env.state with
  | .unchanged => .ok ⟨.noOp, some .unchanged, none⟩
  | .serverOnly =>
    match env.pulled with
    | .ok true => .ok ⟨.success, none, none⟩
    | .ok false => .ok (blocked .pullDestinationOccupied)
    | .error (.error _) => .ok ⟨.failed, some .pullFailed, none⟩
    | .error .quit => .error .quit
  | .serverAhead =>
    match env.install with
    | .ok .installed => .ok ⟨.success, none, none⟩
    | .ok (.refused reason) => .ok (blocked reason)
    | .ok .renameFailed => .ok ⟨.failed, some .pullRenameFailed, none⟩
    | .error (.error _) => .ok ⟨.failed, some .pullFailed, none⟩
    | .error .quit => .error .quit
  | _ => .ok (blocked .pullIneligible)

def keepRemoteRow (env : KeepRemoteEnv) : Except Signal RowValue :=
  match env.initial with
  | .error condition => .error condition
  | .ok (some reason) => .ok (blocked reason)
  | .ok none =>
    match env.install with
    | .ok .installed => .ok ⟨.success, none, none⟩
    | .ok (.refused reason) => .ok (blocked reason)
    | .ok .renameFailed => .ok ⟨.partly, some .pullRenameFailed, none⟩
    | .error (.error _) => .ok ⟨.failed, some .pullFailed, none⟩
    | .error .quit => .error .quit

inductive RowOperation
  | push (env : PushEnv)
  | delete (env : DeleteEnv)
  | keepLocal (env : KeepLocalEnv)
  | pull (env : PullEnv)
  | keepRemote (env : KeepRemoteEnv)

def operate : RowOperation → WriteReceipt → Result
  | .push env, r => pushRow env r
  | .delete env, r => deleteRow env r
  | .keepLocal env, r => keepLocalRow env r
  | .pull env, r => (pullRow env, r)
  | .keepRemote env, r => (keepRemoteRow env, r)

/-- The terminal value of a row, if it has one, the request to stop, and the writes of the row. -/
structure RowRun where
  value : Option RowValue
  quitRequested : Bool
  receipt : WriteReceipt

def writeMayBeApplied (r : WriteReceipt) : Bool := r.phase = .unknown ∨ r.phase = .confirmed

/-- One row of a batch, under a receipt of its own. -/
def runRow (operation : RowOperation) : RowRun :=
  match operate operation .fresh with
  | (.ok value, r) => ⟨some value, false, r⟩
  | (.error (.error _), r) => ⟨some (writeFailure r), false, r⟩
  | (.error .quit, r) =>
    if writeMayBeApplied r then ⟨some (writeFailure r), true, r⟩ else ⟨none, true, r⟩

/-- A finished merge has no handler around it. -/
def mergeFinish (env : KeepLocalEnv) : RowRun :=
  match keepLocalRow env .fresh with
  | (.ok value, r) => ⟨some value, false, r⟩
  | (.error _, r) => ⟨none, false, r⟩

end Operations

section Batches

/-- A selected row, with what the user asks for before and after it. -/
structure BatchRow where
  key : ℕ
  operation : RowOperation
  cancelledBefore : Bool
  cancelledAfter : Bool

structure RowResult where
  key : ℕ
  value : RowValue
  receipt : WriteReceipt

/-- The loop over the rows; `false` when it is cancelled or a quit ends it. -/
def executeRows : List BatchRow → List RowResult × Bool
  | [] => ([], true)
  | row :: rows =>
    if row.cancelledBefore then ([], false)
    else
      let run := runRow row.operation
      match run.value with
      | none => ([], false)
      | some value =>
        if run.quitRequested ∨ row.cancelledAfter then ([⟨row.key, value, run.receipt⟩], false)
        else
          let rest := executeRows rows
          (⟨row.key, value, run.receipt⟩ :: rest.1, rest.2)

/-- The selected rows in the order in which they are displayed. -/
def executeBatch (displayed : List BatchRow) (selected : List ℕ) : List RowResult × Bool :=
  executeRows (displayed.filter (fun row ↦ row.key ∈ selected))

end Batches

section Honesty

/-- Whether the local half of the row went through. -/
def completed : RowOperation → Bool
  | .push env =>
    match env.complete with
    | .ok () => true
    | .error _ => false
  | .delete env =>
    match env.removal with
    | .ok removal => removal ≠ .preserved
    | .error _ => false
  | .keepLocal env =>
    match env.drift, env.checkpoint with
    | .ok none, .ok () => true
    | _, _ => false
  | .pull _ => true
  | .keepRemote _ => true

/-- What a reported outcome says about the Post writes of the row. -/
structure Honest (done : Bool) (value : RowValue) (sent : List Attempt) : Prop where
  unapplied : value.outcome = .failed ∨ value.outcome = .blocked → ∀ a ∈ sent, a.applied = false
  applied : value.outcome = .success → ∀ a ∈ sent.getLast?, a.applied = true
  uncertain : Uncertain sent → value.outcome = .unknown
  incomplete : Confirmed sent → done = false → value.outcome = .partly

/-- A keep-local whose PUT is answered with a 2xx other than 200 and 201. -/
def KeepLocalEnv.Misread (env : KeepLocalEnv) : Prop :=
  env.initial = .ok none ∧ env.prepare = .ok () ∧ env.final = .ok none ∧ env.strongEtag = true ∧
    env.attempt.before = none ∧ env.attempt.identity = true ∧ env.attempt.scopeKept = true ∧
    ∃ status, env.attempt.reply = .response status ∧ env.attempt.reply.confirmed = true ∧
      publishStatus status = false

def Misread : RowOperation → Prop
  | .keepLocal env => env.Misread
  | _ => False

/-- What a phase allows the outcome to be. -/
def Fits (done : Bool) (outcome : Outcome) : Phase → Prop
  | .notSent => True
  | .rejected => outcome ≠ .success
  | .unknown => outcome = .unknown
  | .confirmed => outcome = .partly ∨ outcome = .success ∧ done = true

variable {done : Bool} {value : RowValue} {r r' : WriteReceipt} {status : Option ℤ}
  {operation : RowOperation} {condition : Signal}

theorem honest_of_unsent (value : RowValue) : Honest done value [] where
  unapplied := fun _ a ha ↦ absurd ha List.not_mem_nil
  applied := fun _ a ha ↦ absurd ha (by simp)
  uncertain := by
    rintro ⟨⟨a, ha, -⟩, -⟩
    exact absurd ha List.not_mem_nil
  incomplete := by
    rintro ⟨a, ha, -⟩
    exact absurd ha (by simp)

theorem honest_of_fits (hr : Tracked r) (h : Fits done value.outcome r.phase) :
    Honest done value r.sent := by
  unfold Tracked at hr
  cases hphase : r.phase with
  | notSent =>
    rw [hphase] at hr
    rw [tracks_notSent hr]
    exact honest_of_unsent value
  | rejected =>
    rw [hphase] at hr h
    have hrejected := tracks_rejected hr
    refine ⟨fun _ a ha ↦ a.rejected_unapplied (hrejected a ha), fun hsuccess ↦ absurd hsuccess h, ?_, ?_⟩
    · rintro ⟨⟨a, ha, hfalse⟩, -⟩
      rw [hrejected a ha] at hfalse
      cases hfalse
    · rintro ⟨a, ha, hconfirmed⟩ -
      rw [not_confirmed_of_rejected (hrejected a (List.mem_of_mem_getLast? ha))] at hconfirmed
      cases hconfirmed
  | unknown =>
    rw [hphase] at hr h
    have huncertain := tracks_unknown hr
    have hunknown : value.outcome = .unknown := h
    refine ⟨?_, ?_, fun _ ↦ hunknown, fun hconfirmed ↦ absurd hconfirmed huncertain.not_confirmed⟩
    · rw [hunknown]
      exact nofun
    · rw [hunknown]
      exact nofun
  | confirmed =>
    rw [hphase] at hr h
    have hconfirmed := tracks_confirmed hr
    refine ⟨?_, fun _ a ha ↦ ?_, fun huncertain ↦ absurd hconfirmed huncertain.not_confirmed, ?_⟩
    · rcases h with hpartly | ⟨hsuccess, -⟩
      · rw [hpartly]
        exact nofun
      · rw [hsuccess]
        exact nofun
    · obtain ⟨b, hb, hbconfirmed⟩ := hconfirmed
      obtain rfl := Option.some.inj ((Option.mem_def.mp ha).symm.trans (Option.mem_def.mp hb))
      exact a.confirmed_applied hbconfirmed
    · rintro - hdone
      rcases h with hpartly | ⟨-, hdone'⟩
      · exact hpartly
      · rw [hdone] at hdone'
        cases hdone'

theorem fits_writeFailure (done : Bool) (r : WriteReceipt) :
    Fits done (writeFailure r).outcome r.phase := by
  unfold writeFailure
  cases r.phase with
  | notSent => trivial
  | rejected => exact nofun
  | unknown => rfl
  | confirmed => exact .inl rfl

theorem tracked_fresh : Tracked .fresh := .notSent

theorem fresh_unconfirmed : WriteReceipt.fresh.phase ≠ .confirmed := nofun

theorem publish_tracked {env : PushEnv} {result : Except Signal (Option ℤ)}
    (h : publish env .fresh = (result, r)) : Tracked r := by
  unfold publish at h
  cases hprepare : env.prepare with
  | error condition =>
    rw [hprepare] at h
    obtain ⟨-, rfl⟩ := Prod.mk.inj h
    exact tracked_fresh
  | ok _ =>
    rw [hprepare] at h
    dsimp only at h
    have hsend : ∃ result₁ r₁, (if env.creating then createWithRetry env.attempts 1 2 .fresh
        else sendPostWrite .put (env.attempts 1) .fresh) = (result₁, r₁) := ⟨_, _, rfl⟩
    obtain ⟨result₁, r₁, hsend⟩ := hsend
    rw [hsend] at h
    have hr₁ : Tracked r₁ := by
      split_ifs at hsend with hcreating
      · exact createWithRetry_tracked tracked_fresh fresh_unconfirmed hsend
      · exact sendPostWrite_tracked tracked_fresh fresh_unconfirmed hsend
    cases result₁ with
    | error condition =>
      obtain ⟨-, rfl⟩ := Prod.mk.inj h
      exact hr₁
    | ok status =>
      dsimp only at h
      split_ifs at h with hstatus
      · obtain ⟨-, rfl⟩ := Prod.mk.inj h
        exact hr₁
      · obtain ⟨-, rfl⟩ := Prod.mk.inj h
        exact hr₁

theorem confirmed_of_publishStatus (h : publishStatus status = true) :
    (Reply.response status).confirmed = true := by
  rcases of_decide_eq_true h with rfl | rfl
  · rfl
  · rfl

theorem answered_confirmed (h : Answered status r) (hstatus : publishStatus status = true) :
    r.phase = .confirmed := by
  obtain ⟨a, -, hreply, hphase⟩ := h
  rw [hreply] at hphase
  exact hphase (confirmed_of_publishStatus hstatus)

theorem publish_ok {env : PushEnv} (h : publish env .fresh = (.ok status, r)) :
    r.phase = .confirmed ∧ env.complete = .ok () := by
  unfold publish at h
  cases hprepare : env.prepare with
  | error condition =>
    rw [hprepare] at h
    cases h
  | ok _ =>
    rw [hprepare] at h
    dsimp only at h
    have hsend : ∃ result₁ r₁, (if env.creating then createWithRetry env.attempts 1 2 .fresh
        else sendPostWrite .put (env.attempts 1) .fresh) = (result₁, r₁) := ⟨_, _, rfl⟩
    obtain ⟨result₁, r₁, hsend⟩ := hsend
    rw [hsend] at h
    cases result₁ with
    | error condition => cases h
    | ok status₁ =>
      dsimp only at h
      split_ifs at h with hstatus
      · obtain ⟨hcomplete, rfl⟩ := Prod.mk.inj h
        have hanswered : Answered status₁ r₁ := by
          split_ifs at hsend with hcreating
          · exact createWithRetry_answered hsend
          · exact sendPostWrite_answered hsend
        refine ⟨answered_confirmed hanswered hstatus, ?_⟩
        cases hdone : env.complete with
        | error condition =>
          rw [hdone] at hcomplete
          cases hcomplete
        | ok _ => rfl
      · cases h

/-- What a row leaves: a receipt that tracks its requests, and an outcome that fits the phase. -/
structure Settled (done : Bool) (result : Except Signal RowValue) (r : WriteReceipt) : Prop where
  tracked : Tracked r
  fits : ∀ value, result = .ok value → Fits done value.outcome r.phase

theorem settled_unsent (result : Except Signal RowValue) : Settled done result .fresh :=
  ⟨tracked_fresh, fun _ _ ↦ trivial⟩

theorem settled_error (hr : Tracked r) : Settled done (.error condition) r := ⟨hr, nofun⟩

theorem settled_ok (hr : Tracked r) (h : Fits done value.outcome r.phase) :
    Settled done (.ok value) r :=
  ⟨hr, fun value' hvalue ↦ by rw [← Except.ok.inj hvalue]; exact h⟩

theorem pushPublish_settled (env : PushEnv) :
    Settled (completed (.push env)) (pushPublish env .fresh).1 (pushPublish env .fresh).2 := by
  unfold pushPublish
  have hpublish : ∃ result r, publish env .fresh = (result, r) := ⟨_, _, rfl⟩
  obtain ⟨result, r, hpublish⟩ := hpublish
  have hr := publish_tracked hpublish
  rw [hpublish]
  cases result with
  | error condition => exact settled_error hr
  | ok status =>
    obtain ⟨hphase, hcomplete⟩ := publish_ok hpublish
    dsimp only
    split_ifs
    · refine settled_ok hr ?_
      rw [hphase]
      exact .inl rfl
    · refine settled_ok hr ?_
      rw [hphase]
      refine .inr ⟨rfl, ?_⟩
      simp only [completed, hcomplete]

theorem pushLocal_settled (env : PushEnv) :
    Settled (completed (.push env)) (pushLocal env .fresh).1 (pushLocal env .fresh).2 := by
  unfold pushLocal
  cases env.identity with
  | error condition => exact settled_unsent _
  | ok reason =>
    dsimp only
    by_cases hfile : env.fileExists = true
    · rw [if_neg (not_not.mpr hfile)]
      cases reason with
      | some reason => exact settled_unsent _
      | none => exact pushPublish_settled env
    · rw [if_pos hfile]
      exact settled_unsent _

theorem pushRow_settled (env : PushEnv) :
    Settled (completed (.push env)) (pushRow env .fresh).1 (pushRow env .fresh).2 := by
  unfold pushRow
  cases env.state with
  | unchanged => exact settled_unsent _
  | localDraft => exact pushLocal_settled env
  | localAhead => exact pushLocal_settled env
  | serverAhead => exact settled_unsent _
  | serverOnly => exact settled_unsent _
  | conflict => exact settled_unsent _
  | orphan => exact settled_unsent _

theorem deleteFailure_settled (hr : Tracked r) :
    Settled done (deleteFailure r condition).1 (deleteFailure r condition).2 := by
  unfold deleteFailure
  cases condition with
  | quit => exact settled_error hr
  | error transport =>
    dsimp only
    split_ifs with hphase
    · exact settled_ok hr (fits_writeFailure done r)
    · refine settled_ok hr ?_
      rw [not_or] at hphase
      cases hr' : r.phase with
      | notSent => trivial
      | rejected => exact nofun
      | unknown => exact absurd hr' hphase.2
      | confirmed => exact absurd hr' hphase.1

theorem deleteSend_settled (env : DeleteEnv) :
    Settled (completed (.delete env)) (deleteSend env .fresh).1 (deleteSend env .fresh).2 := by
  unfold deleteSend
  have hsend : ∃ result r, sendPostWrite .delete env.attempt .fresh = (result, r) := ⟨_, _, rfl⟩
  obtain ⟨result, r, hsend⟩ := hsend
  have hr := sendPostWrite_tracked tracked_fresh fresh_unconfirmed hsend
  rw [hsend]
  cases result with
  | error condition => exact deleteFailure_settled hr
  | ok status =>
    dsimp only
    by_cases hstatus : status = some 204
    · rw [if_pos hstatus]
      obtain ⟨a, -, hreply, hphase⟩ := sendPostWrite_answered hsend
      have hconfirmed : r.phase = .confirmed := by
        rw [hreply, hstatus] at hphase
        exact hphase rfl
      cases hremoval : env.removal with
      | error condition => exact deleteFailure_settled hr
      | ok removal =>
        dsimp only
        split_ifs with hpreserved
        · refine settled_ok hr ?_
          rw [hconfirmed]
          exact .inl rfl
        · refine settled_ok hr ?_
          rw [hconfirmed]
          refine .inr ⟨rfl, ?_⟩
          simp only [completed, hremoval]
          exact decide_eq_true (fun h ↦ hpreserved ⟨hconfirmed, h⟩)
    · rw [if_neg hstatus]
      cases hphase : r.phase with
      | unknown =>
        refine settled_ok hr ?_
        rw [hphase]
        rfl
      | confirmed =>
        refine settled_ok hr ?_
        rw [hphase]
        exact .inl rfl
      | notSent =>
        refine settled_ok hr ?_
        rw [hphase]
        trivial
      | rejected =>
        refine settled_ok hr ?_
        rw [hphase]
        exact nofun

theorem deleteRow_settled (env : DeleteEnv) :
    Settled (completed (.delete env)) (deleteRow env .fresh).1 (deleteRow env .fresh).2 := by
  unfold deleteRow
  cases env.reviewed with
  | some reason => exact settled_unsent _
  | none =>
    cases env.preflight with
    | error condition => exact settled_unsent _
    | ok reason =>
      cases reason with
      | some reason => exact settled_unsent _
      | none => exact deleteSend_settled env

theorem keepLocalCheckpoint_settled {env : KeepLocalEnv} (hr : Tracked r)
    (hphase : r.phase = .confirmed) :
    Settled (completed (.keepLocal env)) (keepLocalCheckpoint env status r).1
      (keepLocalCheckpoint env status r).2 := by
  have hpartly : ∀ value : RowValue, value.outcome = .partly →
      Settled (completed (.keepLocal env)) (.ok value) r := by
    intro value hvalue
    refine settled_ok hr ?_
    rw [hphase]
    exact .inl hvalue
  unfold keepLocalCheckpoint
  cases hdrift : env.drift with
  | error condition => exact settled_error hr
  | ok drift =>
    cases drift with
    | some reason => exact hpartly _ rfl
    | none =>
      cases hcheckpoint : env.checkpoint with
      | error condition =>
        cases condition with
        | error transport => exact hpartly _ rfl
        | quit => exact settled_error hr
      | ok _ =>
        refine settled_ok hr ?_
        rw [hphase]
        refine .inr ⟨rfl, ?_⟩
        simp only [completed, hdrift, hcheckpoint]

theorem keepLocalSend_settled {env : KeepLocalEnv} (hstrong : env.strongEtag = true)
    (hread : ∀ status r, sendPostWrite .put env.attempt .fresh = (.ok status, r) →
      (Reply.response status).confirmed = true → publishStatus status = true) :
    Settled (completed (.keepLocal env)) (keepLocalSend env .fresh).1
      (keepLocalSend env .fresh).2 := by
  unfold keepLocalSend
  rw [if_pos hstrong]
  have hsend : ∃ result r, sendPostWrite .put env.attempt .fresh = (result, r) := ⟨_, _, rfl⟩
  obtain ⟨result, r, hsend⟩ := hsend
  have hr := sendPostWrite_tracked tracked_fresh fresh_unconfirmed hsend
  rw [hsend]
  match result, hsend with
  | .error .quit, _ => exact settled_error hr
  | .error (.error transport), hsend =>
    dsimp only
    by_cases hphase : r.phase = .confirmed
    · rw [if_pos hphase]
      exact settled_ok hr (fits_writeFailure _ r)
    · rw [if_neg hphase]
      refine settled_ok hr ?_
      cases hr' : r.phase with
      | notSent => trivial
      | rejected => exact nofun
      | unknown => rfl
      | confirmed => exact absurd hr' hphase
  | .ok status, hsend =>
    have hanswered := sendPostWrite_answered hsend
    have hread := hread status r hsend
    dsimp only
    by_cases hstale : status = some 412
    · rw [if_pos hstale]
      refine settled_ok hr ?_
      have hphase : r.phase = .rejected := by
        rcases sendPostWrite_cases hsend with ⟨-, condition, herror⟩ |
          ⟨-, hphase, ⟨status', hstatus, hreply, -⟩ | ⟨condition, herror⟩⟩
        · cases herror
        · obtain rfl := Except.ok.inj hstatus
          rw [hphase, hreply, hstale]
          rfl
        · cases herror
      rw [hphase]
      exact nofun
    · rw [if_neg hstale]
      by_cases hunknown : r.phase = .unknown
      · rw [if_pos hunknown]
        refine settled_ok hr ?_
        rw [hunknown]
        rfl
      · rw [if_neg hunknown]
        by_cases hpublish : publishStatus status = true
        · rw [if_neg (not_not.mpr hpublish)]
          exact keepLocalCheckpoint_settled hr (answered_confirmed hanswered hpublish)
        · rw [if_pos hpublish]
          refine settled_ok hr ?_
          cases hphase : r.phase with
          | notSent => trivial
          | rejected => exact nofun
          | unknown => exact absurd hphase hunknown
          | confirmed =>
            obtain ⟨a, ha, hconfirmed⟩ := tracks_confirmed (by rw [Tracked, hphase] at hr; exact hr)
            obtain ⟨b, hb, hreply, -⟩ := hanswered
            rw [Option.mem_def, hb] at ha
            obtain rfl := Option.some.inj ha
            rw [hreply] at hconfirmed
            exact absurd (hread hconfirmed) hpublish

theorem sendPostWrite_ok_before {method : Method} {a : Attempt}
    (h : sendPostWrite method a r = (.ok status, r')) : a.before = none := by
  cases hbefore : a.before with
  | none => rfl
  | some condition =>
    unfold sendPostWrite at h
    rw [hbefore] at h
    cases h

theorem keepLocalRow_settled {env : KeepLocalEnv} (hread : ¬env.Misread) :
    Settled (completed (.keepLocal env)) (keepLocalRow env .fresh).1 (keepLocalRow env .fresh).2 := by
  unfold keepLocalRow
  cases hinitial : env.initial with
  | error condition => exact settled_unsent _
  | ok initial =>
    cases initial with
    | some reason => exact settled_unsent _
    | none =>
      cases hprepare : env.prepare with
      | error condition =>
        cases condition with
        | error transport => exact settled_unsent _
        | quit => exact settled_unsent _
      | ok _ =>
        cases hfinal : env.final with
        | error condition => exact settled_unsent _
        | ok final =>
          cases final with
          | some reason => exact settled_unsent _
          | none =>
            dsimp only
            by_cases hstrong : env.strongEtag = true
            · refine keepLocalSend_settled hstrong (fun status r hsend hconfirmed ↦ ?_)
              by_contra hpublish
              rcases sendPostWrite_cases hsend with ⟨-, condition, herror⟩ |
                ⟨-, -, ⟨status', hstatus, hreply, -, hidentity, -, hscope⟩ | ⟨condition, herror⟩⟩
              · cases herror
              · obtain rfl := Except.ok.inj hstatus
                rw [hreply] at hidentity
                refine hread ⟨hinitial, hprepare, hfinal, hstrong, sendPostWrite_ok_before hsend,
                  hidentity rfl hconfirmed, hscope, status, hreply, ?_, Bool.not_eq_true _ ▸ hpublish⟩
                rw [hreply]
                exact hconfirmed
              · cases herror
            · unfold keepLocalSend
              rw [if_neg hstrong]
              exact settled_unsent _

/-- Such a row is reported failed although its PUT has been applied. -/
theorem keepLocalRow_misread {env : KeepLocalEnv} (h : env.Misread) :
    ∃ r status, keepLocalRow env .fresh =
        (.ok ⟨.failed, some .publishHttpError, status⟩, r) ∧ r.sent = [env.attempt] ∧
      env.attempt.applied = true := by
  obtain ⟨hinitial, hprepare, hfinal, hstrong, hbefore, hidentity, hscope, status, hreply,
    hconfirmed, hpublish⟩ := h
  have hsend : ∃ r, sendPostWrite .put env.attempt .fresh = (.ok status, r) ∧
      r.phase = .confirmed ∧ r.sent = [env.attempt] := by
    unfold sendPostWrite
    rw [hbefore, hreply]
    dsimp only
    rw [← hreply, hidentity, hscope, if_neg (by simp), if_pos rfl]
    refine ⟨_, rfl, ?_, rfl⟩
    rw [nextPhase, if_pos hconfirmed]
  obtain ⟨r, hsend, hphase, hsent⟩ := hsend
  have hstale : status ≠ some 412 := by
    rintro rfl
    rw [hreply] at hconfirmed
    cases hconfirmed
  refine ⟨r, status, ?_, hsent, env.attempt.confirmed_applied hconfirmed⟩
  unfold keepLocalRow
  rw [hinitial, hprepare, hfinal]
  dsimp only
  unfold keepLocalSend
  rw [if_pos hstrong, hsend]
  dsimp only
  have hnot : Phase.confirmed ≠ .unknown := by decide
  rw [if_neg hstale, hphase, if_neg hnot, hpublish, if_pos Bool.false_ne_true]

theorem misread_dishonest {env : KeepLocalEnv} (h : env.Misread) {done : Bool} {value : RowValue}
    (hvalue : (keepLocalRow env .fresh).1 = .ok value) :
    ¬Honest done value (keepLocalRow env .fresh).2.sent := by
  obtain ⟨r, status, hrow, hsent, happlied⟩ := keepLocalRow_misread h
  rw [hrow] at hvalue ⊢
  obtain rfl := Except.ok.inj hvalue
  intro hhonest
  have hfalse := hhonest.unapplied (.inl rfl) env.attempt (by rw [hsent]; exact List.mem_cons_self)
  rw [happlied] at hfalse
  cases hfalse

theorem operate_settled (h : ¬Misread operation) :
    Settled (completed operation) (operate operation .fresh).1 (operate operation .fresh).2 := by
  cases operation with
  | push env => exact pushRow_settled env
  | delete env => exact deleteRow_settled env
  | keepLocal env => exact keepLocalRow_settled h
  | pull env => exact settled_unsent _
  | keepRemote env => exact settled_unsent _

theorem runRow_value (h : (runRow operation).value = some value) :
    (operate operation .fresh).1 = .ok value ∧
        (runRow operation).receipt = (operate operation .fresh).2 ∨
      value = writeFailure (operate operation .fresh).2 ∧
        (runRow operation).receipt = (operate operation .fresh).2 ∧
        ∃ condition, (operate operation .fresh).1 = .error condition := by
  have hrun : ∃ result r, operate operation .fresh = (result, r) := ⟨_, _, rfl⟩
  obtain ⟨result, r, hrun⟩ := hrun
  unfold runRow at h ⊢
  rw [hrun] at h ⊢
  match result with
  | .ok value' => exact .inl ⟨congrArg Except.ok (Option.some.inj h), rfl⟩
  | .error (.error transport) => exact .inr ⟨(Option.some.inj h).symm, rfl, _, rfl⟩
  | .error .quit =>
    dsimp only at h ⊢
    split_ifs at h ⊢ with happlied
    exact .inr ⟨(Option.some.inj h).symm, rfl, _, rfl⟩

theorem runRow_honest_iff (h : (runRow operation).value = some value) :
    Honest (completed operation) value (runRow operation).receipt.sent ↔ ¬Misread operation := by
  rcases runRow_value h with ⟨hvalue, hreceipt⟩ | ⟨rfl, hreceipt, condition, herror⟩
  · rw [hreceipt]
    constructor
    · intro hhonest hmisread
      cases operation with
      | keepLocal env => exact misread_dishonest hmisread hvalue hhonest
      | push env => exact hmisread
      | delete env => exact hmisread
      | pull env => exact hmisread
      | keepRemote env => exact hmisread
    · intro hread
      have hsettled := operate_settled hread
      exact honest_of_fits hsettled.tracked (hsettled.fits value hvalue)
  · have hread : ¬Misread operation := by
      intro hmisread
      cases operation with
      | keepLocal env =>
        obtain ⟨r, status, hrow, -⟩ := keepLocalRow_misread hmisread
        rw [operate, hrow] at herror
        cases herror
      | push env => exact hmisread
      | delete env => exact hmisread
      | pull env => exact hmisread
      | keepRemote env => exact hmisread
    rw [hreceipt]
    exact iff_of_true (honest_of_fits (operate_settled hread).tracked (fits_writeFailure _ _)) hread

theorem mergeFinish_honest_iff {env : KeepLocalEnv} (h : (mergeFinish env).value = some value) :
    Honest (completed (.keepLocal env)) value (mergeFinish env).receipt.sent ↔ ¬env.Misread := by
  have hrun : ∃ result r, keepLocalRow env .fresh = (result, r) := ⟨_, _, rfl⟩
  obtain ⟨result, r, hrun⟩ := hrun
  have hreceipt : (mergeFinish env).receipt = (keepLocalRow env .fresh).2 := by
    unfold mergeFinish
    rw [hrun]
    cases result with
    | ok value' => rfl
    | error condition => rfl
  have hvalue : (keepLocalRow env .fresh).1 = .ok value := by
    unfold mergeFinish at h
    rw [hrun] at h ⊢
    cases result with
    | ok value' => exact congrArg Except.ok (Option.some.inj h)
    | error condition => cases h
  rw [hreceipt]
  constructor
  · exact fun hhonest hmisread ↦ misread_dishonest hmisread hvalue hhonest
  · intro hread
    have hsettled := keepLocalRow_settled hread
    exact honest_of_fits hsettled.tracked (hsettled.fits value hvalue)

end Honesty

section Runs

/-- What ends a batch before its last row. -/
def Stops (row : BatchRow) : Prop :=
  row.cancelledBefore = true ∨ (runRow row.operation).quitRequested = true ∨
    row.cancelledAfter = true

/-- The result of a row is that of its own run. -/
def Reports (row : BatchRow) (result : RowResult) : Prop :=
  result.key = row.key ∧ (runRow row.operation).value = some result.value ∧
    (runRow row.operation).receipt = result.receipt

theorem quitRequested_of_none {operation : RowOperation} (h : (runRow operation).value = none) :
    (runRow operation).quitRequested = true := by
  have hrun : ∃ result r, operate operation .fresh = (result, r) := ⟨_, _, rfl⟩
  obtain ⟨result, r, hrun⟩ := hrun
  unfold runRow at h ⊢
  rw [hrun] at h ⊢
  match result with
  | .ok value => cases h
  | .error (.error transport) => cases h
  | .error .quit =>
    dsimp only
    split_ifs
    · rfl
    · rfl

/-- The processed rows are the first ones, and only a cancellation leaves others. -/
theorem executeRows_spec (rows : List BatchRow) : ∃ processed rest, rows = processed ++ rest ∧
    List.Forall₂ Reports processed (executeRows rows).1 ∧
    ((executeRows rows).2 = true → rest = []) ∧
    ((executeRows rows).2 = false → ∃ row ∈ rows, Stops row) := by
  induction rows with
  | nil => exact ⟨[], [], rfl, .nil, fun _ ↦ rfl, nofun⟩
  | cons row rows ih =>
    rw [executeRows]
    by_cases hbefore : row.cancelledBefore = true
    · rw [if_pos hbefore]
      exact ⟨[], row :: rows, rfl, .nil, nofun, fun _ ↦ ⟨row, List.mem_cons_self, .inl hbefore⟩⟩
    · rw [if_neg hbefore]
      dsimp only
      cases hvalue : (runRow row.operation).value with
      | none =>
        exact ⟨[], row :: rows, rfl, .nil, nofun,
          fun _ ↦ ⟨row, List.mem_cons_self, .inr (.inl (quitRequested_of_none hvalue))⟩⟩
      | some value =>
        dsimp only
        by_cases hstop : (runRow row.operation).quitRequested = true ∨ row.cancelledAfter = true
        · rw [if_pos hstop]
          exact ⟨[row], rows, rfl, .cons ⟨rfl, hvalue, rfl⟩ .nil, nofun,
            fun _ ↦ ⟨row, List.mem_cons_self, .inr hstop⟩⟩
        · rw [if_neg hstop]
          obtain ⟨processed, rest, hrows, hreports, hall, hstopped⟩ := ih
          refine ⟨row :: processed, rest, by rw [hrows, List.cons_append],
            .cons ⟨rfl, hvalue, rfl⟩ hreports, hall, fun hfalse ↦ ?_⟩
          obtain ⟨stopped, hmem, hstops⟩ := hstopped hfalse
          exact ⟨stopped, List.mem_cons_of_mem _ hmem, hstops⟩

end Runs

theorem batch_outcomes_honest (displayed : List BatchRow) (selected : List ℕ) :
    (∃ processed rest, displayed.filter (fun row ↦ row.key ∈ selected) = processed ++ rest ∧
      List.Forall₂ (fun row result ↦ Reports row result ∧
        (Honest (completed row.operation) result.value result.receipt.sent ↔
          ¬Misread row.operation)) processed (executeBatch displayed selected).1 ∧
      ((executeBatch displayed selected).2 = true → rest = []) ∧
      ((executeBatch displayed selected).2 = false →
        ∃ row ∈ displayed.filter (fun row ↦ row.key ∈ selected), Stops row)) ∧
    ∀ env value, (mergeFinish env).value = some value →
      (Honest (completed (.keepLocal env)) value (mergeFinish env).receipt.sent ↔ ¬env.Misread) := by
  refine ⟨?_, fun env value h ↦ mergeFinish_honest_iff h⟩
  obtain ⟨processed, rest, hrows, hreports, hall, hstopped⟩ :=
    executeRows_spec (displayed.filter (fun row ↦ row.key ∈ selected))
  refine ⟨processed, rest, hrows, hreports.imp (fun row result hreport ↦ ⟨hreport, ?_⟩), hall, hstopped⟩
  rw [← hreport.2.2]
  exact runRow_honest_iff hreport.2.1

section Samples

def noContentPut : KeepLocalEnv where
  initial := .ok none
  prepare := .ok ()
  final := .ok none
  strongEtag := true
  attempt := {
    before := none
    reply := .response (some 204)
    applied := true
    identity := true
    scopeKept := true
    confirmed_applied := fun _ ↦ rfl
    rejected_unapplied := nofun }
  drift := .ok none
  checkpoint := .ok ()

/-- A PUT that is answered with 204 is reported failed, although the server applied it. -/
theorem applied_put_reported_failed :
    (runRow (.keepLocal noContentPut)).value = some ⟨.failed, some .publishHttpError, some 204⟩ ∧
      (runRow (.keepLocal noContentPut)).receipt.sent.map Attempt.applied = [true] ∧
      ¬Honest true ⟨.failed, some .publishHttpError, some 204⟩
        (runRow (.keepLocal noContentPut)).receipt.sent := by
  have hsent : (runRow (.keepLocal noContentPut)).receipt.sent.map Attempt.applied = [true] := by
    decide
  refine ⟨by decide, hsent, fun h ↦ ?_⟩
  have happlied : true ∈ (runRow (.keepLocal noContentPut)).receipt.sent.map Attempt.applied := by
    rw [hsent]
    exact List.mem_singleton_self true
  obtain ⟨a, ha, htrue⟩ := List.mem_map.1 happlied
  have hfalse := h.unapplied (.inl rfl) a ha
  rw [htrue] at hfalse
  cases hfalse

end Samples

end Jaunder.Elisp.BatchOutcomes
