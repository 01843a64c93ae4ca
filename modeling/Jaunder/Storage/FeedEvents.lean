import Jaunder.Foundation.Rows
import Jaunder.Foundation.Run
import Jaunder.Host.FeedPath
import Jaunder.Storage.Dialect
import Mathlib.Data.List.Sort
import Mathlib.Order.WithBot

namespace Jaunder.Storage.FeedEvents

open Foundation.Rows Foundation.Run
open Jaunder.Common.Time
open Jaunder.Host.FeedPath
open Jaunder.Storage.Dialect

inductive FeedEventStatus
  | pending
  | claimed
  | done
  | failed
deriving DecidableEq

inductive FeedEventPhase
  | regeneration
  | publication
deriving DecidableEq

/-- A stored feed URL, which decodes to a feed path or does not. -/
inductive StoredFeedUrl
  | path (feedPath : FeedPath)
  | corrupt (text : String)
deriving DecidableEq

def StoredFeedUrl.intoFeedPath : StoredFeedUrl → Option FeedPath
  | .path feedPath => some feedPath
  | .corrupt _ => none

/-- A `next_attempt_at`: the column default at the insertion, or a bound instant. -/
inductive DueTime
  | inserted (t : UtcInstant)
  | bound (t : UtcInstant)
deriving DecidableEq

def DueTime.stored (b : Backend) : DueTime → b.Stored
  | .inserted t => b.defaulted t
  | .bound t => b.stored t

def diagnosticLimit : ℕ := 1024

/-- `StoredFeedDiagnostic::bounded`. -/
def bounded (value : String) : String :=
  if value.length ≤ diagnosticLimit then value
  else String.ofList (value.toList.take (diagnosticLimit - 1)) ++ "…"

/-- The columns of a row of `feed_events` other than its id. -/
structure FeedEvent where
  feedUrl : StoredFeedUrl
  status : FeedEventStatus
  phase : FeedEventPhase
  regenerationAttempts : ℕ
  publicationAttempts : ℕ
  regenerationDiagnostic : Option String
  publicationDiagnostic : Option String
  nextAttemptAt : DueTime
  claimedAt : Option UtcInstant
  terminalAt : Option UtcInstant
  createdAt : UtcInstant
  regeneratedAt : Option UtcInstant
  pingedAt : Option UtcInstant
deriving DecidableEq

abbrev FeedEventTable := IdTable FeedEvent

structure FeedEventRecord where
  id : ℕ
  feedPath : FeedPath
  event : FeedEvent
deriving DecidableEq

/-- The row that `INSERT INTO feed_events (feed_url)` leaves to the column defaults. -/
def inserted (now : UtcInstant) (path : FeedPath) : FeedEvent where
  feedUrl := .path path
  status := .pending
  phase := .regeneration
  regenerationAttempts := 0
  publicationAttempts := 0
  regenerationDiagnostic := none
  publicationDiagnostic := none
  nextAttemptAt := .inserted now
  claimedAt := none
  terminalAt := none
  createdAt := now.wholeSeconds
  regeneratedAt := none
  pingedAt := none

def enqueue (now : UtcInstant) (path : FeedPath) (t : FeedEventTable) : FeedEventTable :=
  t.insert (inserted now path)

def enqueueMany (now : UtcInstant) (paths : List FeedPath) (t : FeedEventTable) : FeedEventTable :=
  t.insertAll (paths.map (inserted now))

section Claim

variable (b : Backend)

/-- `(status = 'pending' AND next_attempt_at <= now) OR (status = 'claimed' AND claimed_at < cutoff)`. -/
def claimable (now leaseCutoff : UtcInstant) (e : FeedEvent) : Bool :=
  (e.status = .pending ∧ e.nextAttemptAt.stored b ≤ b.stored now) ∨
    (e.status = .claimed ∧ e.claimedAt.any (fun at_ ↦ b.stored at_ < b.stored leaseCutoff))

def claimBatch (now leaseCutoff : UtcInstant) (limit : ℕ) (t : FeedEventTable) :
    List (ℕ × FeedEvent) :=
  ((t.rows.filter (fun r ↦ claimable b now leaseCutoff r.2)).insertionSort (fun r s ↦
    r.2.nextAttemptAt.stored b ≤ s.2.nextAttemptAt.stored b)).take limit

def claimed (now : UtcInstant) (e : FeedEvent) : FeedEvent :=
  { e with status := .claimed, claimedAt := some now }

/-- `claim_pending_batch`: the rows whose feed URL does not decode are deleted, unless the deletion
itself fails, and the other claimed rows are handed out. -/
def claimPendingBatch (now leaseCutoff : UtcInstant) (limit : ℕ) (purge : Bool)
    (t : FeedEventTable) : FeedEventTable × List FeedEventRecord :=
  let batch := claimBatch b now leaseCutoff limit t
  let stamped := t.update (batch.map Prod.fst) (claimed now)
  let corrupt := batch.filter (fun r ↦ r.2.feedUrl.intoFeedPath = none)
  let records := batch.filterMap (fun r ↦
    r.2.feedUrl.intoFeedPath.map (fun path ↦ ⟨r.1, path, claimed now r.2⟩))
  (if purge then stamped.delete (corrupt.map Prod.fst) else stamped, records)

end Claim

def markRegenerated (now : UtcInstant) (e : FeedEvent) : FeedEvent :=
  { e with regeneratedAt := some now, phase := .publication }

def markPinged (now : UtcInstant) (e : FeedEvent) : FeedEvent :=
  { e with status := .done, pingedAt := some now, terminalAt := some now }

/-- Charges a failure to one phase. -/
def charge (phase : FeedEventPhase) (error : String) (e : FeedEvent) : FeedEvent :=
  match phase with
  | .regeneration => { e with
      regenerationAttempts := e.regenerationAttempts + 1
      regenerationDiagnostic := some (bounded error) }
  | .publication => { e with
      publicationAttempts := e.publicationAttempts + 1
      publicationDiagnostic := some (bounded error) }

def retry (phase : FeedEventPhase) (error : String) (nextAttemptAt : UtcInstant) (e : FeedEvent) :
    FeedEvent :=
  { charge phase error e with
    status := .pending
    phase := phase
    terminalAt := none
    claimedAt := none
    nextAttemptAt := .bound nextAttemptAt }

def deadLetter (phase : FeedEventPhase) (error : String) (now : UtcInstant) (e : FeedEvent) :
    FeedEvent :=
  { charge phase error e with
    status := .failed
    phase := phase
    terminalAt := some now
    claimedAt := none }

def retryRegeneration := retry .regeneration

def deadLetterRegeneration := deadLetter .regeneration

def retryPublication := retry .publication

def deadLetterPublication := deadLetter .publication

def restartRegeneration (now : UtcInstant) (e : FeedEvent) : FeedEvent :=
  { e with
    status := .pending
    phase := .regeneration
    regenerationAttempts := 0
    regenerationDiagnostic := none
    terminalAt := none
    claimedAt := none
    nextAttemptAt := .bound now }

/-- The same statement as `restart_regeneration`. -/
def resetRegeneration := restartRegeneration

def failedEventRetention : ℕ := 168 * 3600

def failedEventCutoff (now : UtcInstant) : UtcInstant :=
  (now.checkedSub failedEventRetention).getD .timestampMin

def redriven (now : UtcInstant) (e : FeedEvent) : FeedEvent :=
  { e with
    status := .pending
    regenerationAttempts := if e.phase = .regeneration then 0 else e.regenerationAttempts
    publicationAttempts := if e.phase = .publication then 0 else e.publicationAttempts
    regenerationDiagnostic := if e.phase = .regeneration then none else e.regenerationDiagnostic
    publicationDiagnostic := if e.phase = .publication then none else e.publicationDiagnostic
    terminalAt := none
    claimedAt := none
    nextAttemptAt := .bound now }

section Terminal

variable (b : Backend)

def redrivable (failedCutoff : UtcInstant) (e : FeedEvent) : Bool :=
  e.status = .failed ∧ e.terminalAt.any (fun at_ ↦ b.stored failedCutoff < b.stored at_)

/-- `redrive_dead_letters`; `none` is a rejected selection, which is rolled back. -/
def redriveDeadLetters (ids : List ℕ) (now : UtcInstant) (t : FeedEventTable) :
    Option FeedEventTable :=
  let failedCutoff := failedEventCutoff now
  let eligible := t.rows.filter (fun r ↦ redrivable b failedCutoff r.2 ∧ r.1 ∈ ids)
  let affected := t.rows.filter (fun r ↦ r.1 ∈ ids)
  if ids.isEmpty then none
  else if eligible.length ≠ ids.length then none
  else if affected.length ≠ ids.length then none
  else some (t.update ids (redriven now))

def terminalPruneLimit : ℕ := 200

def prunable (now failedCutoff : UtcInstant) (e : FeedEvent) : Bool :=
  (e.status = .done ∧ e.terminalAt.any (fun at_ ↦ b.stored at_ ≤ b.stored now)) ∨
    (e.status = .failed ∧ e.terminalAt.any (fun at_ ↦ b.stored at_ ≤ b.stored failedCutoff))

def terminalKey (e : FeedEvent) : WithBot b.Stored := e.terminalAt.map b.stored

/-- One statement of the loop of `prune_terminal_events`, which other transactions may interleave. -/
def pruneBatch (now failedCutoff : UtcInstant) (t : FeedEventTable) : FeedEventTable :=
  t.delete ((((t.rows.filter (fun r ↦ prunable b now failedCutoff r.2)).insertionSort (fun r s ↦
    terminalKey b r.2 ≤ terminalKey b s.2)).take terminalPruneLimit).map Prod.fst)

end Terminal

/-- What the worker writes to the rows of a claimed group. -/
inductive Transition
  | markRegenerated (now : UtcInstant)
  | markPinged (now : UtcInstant)
  | retryRegeneration (error : String) (nextAttemptAt : UtcInstant)
  | deadLetterRegeneration (error : String) (now : UtcInstant)
  | retryPublication (error : String) (nextAttemptAt : UtcInstant)
  | deadLetterPublication (error : String) (now : UtcInstant)
  | restartRegeneration (now : UtcInstant)
  | resetRegeneration (now : UtcInstant)

def Transition.apply : Transition → FeedEvent → FeedEvent
  | .markRegenerated now => FeedEvents.markRegenerated now
  | .markPinged now => FeedEvents.markPinged now
  | .retryRegeneration error at_ => FeedEvents.retryRegeneration error at_
  | .deadLetterRegeneration error now => FeedEvents.deadLetterRegeneration error now
  | .retryPublication error at_ => FeedEvents.retryPublication error at_
  | .deadLetterPublication error now => FeedEvents.deadLetterPublication error now
  | .restartRegeneration now => FeedEvents.restartRegeneration now
  | .resetRegeneration now => FeedEvents.resetRegeneration now

inductive Operation
  | enqueue (now : UtcInstant) (path : FeedPath)
  | enqueueMany (now : UtcInstant) (paths : List FeedPath)
  | claim (now leaseCutoff : UtcInstant) (limit : ℕ) (purge : Bool)
  | transition (ids : List ℕ) (write : Transition)
  | redrive (ids : List ℕ) (now : UtcInstant)
  | prune (now : UtcInstant)

def step (b : Backend) (t : FeedEventTable) : Operation → FeedEventTable
  | .enqueue now path => enqueue now path t
  | .enqueueMany now paths => enqueueMany now paths t
  | .claim now leaseCutoff limit purge => (claimPendingBatch b now leaseCutoff limit purge t).1
  | .transition ids write => t.update ids write.apply
  | .redrive ids now => (redriveDeadLetters b ids now t).getD t
  | .prune now => pruneBatch b now (failedEventCutoff now) t

/-- The table that the migrations create. -/
def created : FeedEventTable := IdTable.empty 1

/-- What one operation can make of the row with a given id. -/
inductive Moves (b : Backend) : Operation → ℕ → FeedEvent → FeedEvent → Prop
  | kept (op : Operation) (id : ℕ) (e : FeedEvent) : Moves b op id e e
  | claimed {now leaseCutoff : UtcInstant} {limit : ℕ} {purge : Bool} {id : ℕ} {e : FeedEvent}
      (h : claimable b now leaseCutoff e = true) :
      Moves b (.claim now leaseCutoff limit purge) id e (claimed now e)
  | written {ids : List ℕ} {id : ℕ} (write : Transition) (e : FeedEvent) (h : id ∈ ids) :
      Moves b (.transition ids write) id e (write.apply e)
  | redriven {ids : List ℕ} {id : ℕ} {e : FeedEvent} (now : UtcInstant) (h : id ∈ ids)
      (hfailed : e.status = .failed) : Moves b (.redrive ids now) id e (redriven now e)

section Steps

variable {b : Backend} {t t' : FeedEventTable} {op : Operation} {id : ℕ} {e e' : FeedEvent}

theorem claimable_of_mem_batch {now leaseCutoff : UtcInstant} {limit : ℕ}
    (h : id ∈ (claimBatch b now leaseCutoff limit t).map Prod.fst) (he : t.get? id = some e) :
    claimable b now leaseCutoff e = true := by
  obtain ⟨r, hr, rfl⟩ := List.mem_map.mp h
  have hrow := List.mem_filter.mp ((List.mem_insertionSort _).mp (List.mem_of_mem_take hr))
  have hget := IdTable.get?_eq_some.mpr (show (r.1, r.2) ∈ t.rows from hrow.1)
  obtain rfl : r.2 = e := Option.some_inj.mp (hget.symm.trans he)
  exact hrow.2

/-- An accepted redrive names only dead letters inside their retention. -/
theorem redriveDeadLetters_eq_some {ids : List ℕ} {now : UtcInstant}
    (h : redriveDeadLetters b ids now t = some t') :
    t' = t.update ids (redriven now) ∧ ∀ id ∈ ids, ∃ e, t.get? id = some e ∧
      redrivable b (failedEventCutoff now) e = true := by
  simp only [redriveDeadLetters] at h
  split at h
  · cases h
  · split at h
    · cases h
    · rename_i hcount
      split at h
      · cases h
      · refine ⟨(Option.some_inj.mp h).symm, fun id hid ↦ ?_⟩
        exact IdTable.exists_of_count (Decidable.not_not.mp hcount) hid

theorem step_get?_of_some (he : t.get? id = some e) (he' : (step b t op).get? id = some e') :
    Moves b op id e e' := by
  have hinserted : ∀ as : List FeedEvent, (t.insertAll as).get? id = some e' → e = e' := by
    intro as h
    exact Option.some_inj.mp ((IdTable.get?_insertAll_of_some he).symm.trans h)
  cases op with
  | enqueue now path =>
    obtain rfl := hinserted [inserted now path] he'
    exact .kept _ _ _
  | enqueueMany now paths =>
    obtain rfl := hinserted (paths.map (inserted now)) he'
    exact .kept _ _ _
  | claim now leaseCutoff limit purge =>
    have hstamped : (t.update ((claimBatch b now leaseCutoff limit t).map Prod.fst)
        (claimed now)).get? id = some e' := by
      simp only [step, claimPendingBatch] at he'
      cases purge with
      | false => exact he'
      | true =>
        rw [if_pos rfl, IdTable.get?_delete] at he'
        split at he'
        · cases he'
        · exact he'
    rw [IdTable.get?_update, he] at hstamped
    by_cases hid : id ∈ (claimBatch b now leaseCutoff limit t).map Prod.fst
    · rw [if_pos hid] at hstamped
      obtain rfl : claimed now e = e' := Option.some_inj.mp hstamped
      exact .claimed (claimable_of_mem_batch hid he)
    · rw [if_neg hid] at hstamped
      obtain rfl : e = e' := Option.some_inj.mp hstamped
      exact .kept _ _ _
  | transition ids write =>
    rw [step, IdTable.get?_update, he] at he'
    by_cases hid : id ∈ ids
    · rw [if_pos hid] at he'
      obtain rfl : write.apply e = e' := Option.some_inj.mp he'
      exact .written write e hid
    · rw [if_neg hid] at he'
      obtain rfl : e = e' := Option.some_inj.mp he'
      exact .kept _ _ _
  | redrive ids now =>
    rw [step] at he'
    cases hredrive : redriveDeadLetters b ids now t with
    | none =>
      rw [hredrive, Option.getD_none, he] at he'
      obtain rfl : e = e' := Option.some_inj.mp he'
      exact .kept _ _ _
    | some t' =>
      obtain ⟨rfl, hfailed⟩ := redriveDeadLetters_eq_some hredrive
      rw [hredrive, Option.getD_some, IdTable.get?_update, he] at he'
      by_cases hid : id ∈ ids
      · rw [if_pos hid] at he'
        obtain rfl : redriven now e = e' := Option.some_inj.mp he'
        obtain ⟨e'', he'', hredrivable⟩ := hfailed id hid
        obtain rfl : e = e'' := Option.some_inj.mp (he.symm.trans he'')
        exact .redriven now hid (of_decide_eq_true hredrivable).1
      · rw [if_neg hid] at he'
        obtain rfl : e = e' := Option.some_inj.mp he'
        exact .kept _ _ _
  | prune now =>
    rw [step, pruneBatch, IdTable.get?_delete] at he'
    split at he'
    · cases he'
    · obtain rfl : e = e' := Option.some_inj.mp (he.symm.trans he')
      exact .kept _ _ _

/-- An absent row appears by insertion, under an id that was never used. -/
theorem step_get?_of_none (he : t.get? id = none) (he' : (step b t op).get? id = some e') :
    t.next ≤ id ∧ ∃ now path, e' = inserted now path := by
  have hupdate : ∀ (ids : List ℕ) (f : FeedEvent → FeedEvent), (t.update ids f).get? id = none := by
    intro ids f
    rw [IdTable.get?_update, he]
    split <;> rfl
  have hdelete : ∀ (u : FeedEventTable) (ids : List ℕ), u.get? id = none →
      (u.delete ids).get? id = none := by
    intro u ids hu
    rw [IdTable.get?_delete, hu]
    split <;> rfl
  cases op with
  | enqueue now path =>
    rw [step, enqueue, IdTable.get?_insert] at he'
    by_cases hid : id = t.next
    · rw [if_pos hid] at he'
      exact ⟨hid.ge, now, path, (Option.some_inj.mp he').symm⟩
    · rw [if_neg hid, he] at he'
      cases he'
  | enqueueMany now paths =>
    rcases IdTable.get?_insertAll he' with hold | ⟨hnew, hmem⟩
    · rw [he] at hold
      cases hold
    · obtain ⟨path, -, rfl⟩ := List.mem_map.mp hmem
      exact ⟨hnew, now, path, rfl⟩
  | claim now leaseCutoff limit purge =>
    simp only [step, claimPendingBatch] at he'
    cases purge with
    | false => exact absurd ((hupdate _ _).symm.trans he') (by simp)
    | true => exact absurd ((hdelete _ _ (hupdate _ _)).symm.trans he') (by simp)
  | transition ids write => exact absurd ((hupdate ids write.apply).symm.trans he') (by simp)
  | redrive ids now =>
    rw [step] at he'
    cases hredrive : redriveDeadLetters b ids now t with
    | none =>
      rw [hredrive, Option.getD_none, he] at he'
      cases he'
    | some t' =>
      obtain ⟨rfl, -⟩ := redriveDeadLetters_eq_some hredrive
      rw [hredrive, Option.getD_some, hupdate] at he'
      cases he'
  | prune now => exact absurd ((hdelete t _ he).symm.trans he') (by simp)

end Steps

/-- How the columns of a row fit its status. A finished row may keep its last claim time. -/
structure Lifecycle (e : FeedEvent) : Prop where
  terminal_iff : e.terminalAt.isSome = true ↔ e.status = .done ∨ e.status = .failed
  claimed_at : e.status = .claimed → e.claimedAt.isSome = true
  claim_kept : e.claimedAt.isSome = true → e.status = .claimed ∨ e.status = .done

/-- No write of a worker reaches the row unless the row is claimed at that moment. -/
def Fenced (id : ℕ) (t : FeedEventTable) : Operation → Prop
  | .transition ids _ => id ∈ ids → ∀ e ∈ t.get? id, e.status = .claimed
  | _ => True

section Runs

variable {b : Backend} {op : Operation} {id : ℕ} {e e' : FeedEvent}

theorem Lifecycle.inserted (now : UtcInstant) (path : FeedPath) : Lifecycle (inserted now path) :=
  ⟨by simp [FeedEvents.inserted], by simp [FeedEvents.inserted], by simp [FeedEvents.inserted]⟩

theorem Lifecycle.retry (phase : FeedEventPhase) (error : String) (at_ : UtcInstant)
    (e : FeedEvent) : Lifecycle (retry phase error at_ e) := by
  constructor <;> simp [FeedEvents.retry]

theorem Lifecycle.deadLetter (phase : FeedEventPhase) (error : String) (now : UtcInstant)
    (e : FeedEvent) : Lifecycle (deadLetter phase error now e) := by
  constructor <;> simp [FeedEvents.deadLetter]

theorem Lifecycle.restarted (now : UtcInstant) (e : FeedEvent) :
    Lifecycle (restartRegeneration now e) := by
  constructor <;> simp [restartRegeneration]

theorem Lifecycle.apply (write : Transition) (h : Lifecycle e) : Lifecycle (write.apply e) := by
  cases write with
  | markRegenerated now => exact ⟨h.terminal_iff, h.claimed_at, h.claim_kept⟩
  | markPinged now =>
    exact ⟨by simp [Transition.apply, markPinged], by simp [Transition.apply, markPinged],
      fun _ ↦ Or.inr rfl⟩
  | retryRegeneration error at_ => exact .retry .regeneration error at_ e
  | deadLetterRegeneration error now => exact .deadLetter .regeneration error now e
  | retryPublication error at_ => exact .retry .publication error at_ e
  | deadLetterPublication error now => exact .deadLetter .publication error now e
  | restartRegeneration now => exact .restarted now e
  | resetRegeneration now => exact .restarted now e

theorem Lifecycle.moves (hmove : Moves b op id e e') (h : Lifecycle e) : Lifecycle e' := by
  cases hmove with
  | kept op id e => exact h
  | claimed hclaimable =>
    refine ⟨?_, fun _ ↦ rfl, fun _ ↦ Or.inl rfl⟩
    have hopen : ¬(e.status = .done ∨ e.status = .failed) := by
      rcases of_decide_eq_true hclaimable with ⟨hpending, -⟩ | ⟨hclaimed, -⟩
      · simp [hpending]
      · simp [hclaimed]
    have hterminal : ¬e.terminalAt.isSome = true := fun hsome ↦ hopen (h.terminal_iff.mp hsome)
    exact iff_of_false hterminal (by simp [claimed])
  | written write e hid => exact h.apply write
  | redriven now hid hfailed => constructor <;> simp [FeedEvents.redriven]

end Runs

end Jaunder.Storage.FeedEvents
