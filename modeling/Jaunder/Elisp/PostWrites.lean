import Mathlib.Data.List.Basic
import Mathlib.Tactic

namespace Jaunder.Elisp.PostWrites

/-- A signalled condition; `transport` marks the errors of the HTTP library. -/
inductive Signal
  | error (transport : Bool)
  | quit
deriving DecidableEq

/-- What a request comes back with; a status need not be an integer. -/
inductive Reply
  | response (status : Option ℤ)
  | signal (condition : Signal)
deriving DecidableEq

def Reply.confirmed : Reply → Bool
  | .response (some status) => 200 ≤ status ∧ status ≤ 299
  | _ => false

def Reply.rejected : Reply → Bool
  | .response (some status) => 400 ≤ status ∧ status ≤ 499
  | _ => false

/-- One Post write with what happens around it: a check that fails before the request, whether the
server applied it, whether the identity in the response agrees with the request (for a create:
whether it is found at all), and whether the scope is still the captured one afterwards. -/
structure Attempt where
  before : Option Signal
  reply : Reply
  applied : Bool
  identity : Bool
  scopeKept : Bool
  confirmed_applied : reply.confirmed = true → applied = true
  rejected_unapplied : reply.rejected = true → applied = false

inductive Method
  | post
  | put
  | delete
deriving DecidableEq

inductive Phase
  | notSent
  | unknown
  | confirmed
  | rejected
deriving DecidableEq

/-- `jaunder--operation-write-receipt`, with the requests that were sent. -/
structure WriteReceipt where
  phase : Phase
  checkpointCondition : Bool
  createIdentityUnresolved : Bool
  status : Option ℤ
  sent : List Attempt

def WriteReceipt.fresh : WriteReceipt where
  phase := .notSent
  checkpointCondition := false
  createIdentityUnresolved := false
  status := none
  sent := []

/-- The phase after a response. -/
def nextPhase (prior : Phase) (reply : Reply) : Phase :=
  if reply.confirmed then .confirmed
  else if reply.rejected ∧ prior ≠ .unknown then .rejected
  else .unknown

/-- `jaunder--operation-send-post-write` -/
def sendPostWrite (method : Method) (a : Attempt) (r : WriteReceipt) :
    Except Signal (Option ℤ) × WriteReceipt :=
  match a.before with
  | some condition => (.error condition, r)
  | none =>
    match a.reply with
    | .signal condition => (.error condition, { r with phase := .unknown, sent := r.sent ++ [a] })
    | .response status =>
      let confirmed := a.reply.confirmed
      let contradicted : Bool := confirmed ∧ method = .put ∧ ¬a.identity
      let receipt := { r with
        phase := nextPhase r.phase a.reply
        checkpointCondition := contradicted
        createIdentityUnresolved := method = .post ∧ confirmed ∧ ¬a.identity
        status
        sent := r.sent ++ [a] }
      if contradicted then (.error (.error false), receipt)
      else if a.scopeKept then (.ok status, receipt)
      else (.error (.error false), receipt)

def serverError : Option ℤ → Bool
  | some status => 500 ≤ status ∧ status ≤ 599
  | none => false

/-- `jaunder--create-with-retry` with so many attempts left after this one. -/
def createWithRetry (attempts : ℕ → Attempt) : ℕ → ℕ → WriteReceipt →
    Except Signal (Option ℤ) × WriteReceipt
  | attempt, 0, r => sendPostWrite .post (attempts attempt) r
  | attempt, left + 1, r =>
    match sendPostWrite .post (attempts attempt) r with
    | (.error (.error true), r) => createWithRetry attempts (attempt + 1) left r
    | (.error condition, r) => (.error condition, r)
    | (.ok status, r) =>
      if serverError status then createWithRetry attempts (attempt + 1) left r else (.ok status, r)

section Receipts

variable {a : Attempt} {method : Method} {prior : Phase} {reply : Reply} {r r' : WriteReceipt}
  {result : Except Signal (Option ℤ)} {status : Option ℤ} {attempts : ℕ → Attempt}
  {attempt left : ℕ}

/-- No request was answered by a 2xx, and one was not answered by a 4xx either. -/
def Uncertain (sent : List Attempt) : Prop :=
  (∃ a ∈ sent, a.reply.rejected = false) ∧ ∀ a ∈ sent, a.reply.confirmed = false

def Confirmed (sent : List Attempt) : Prop := ∃ a ∈ sent.getLast?, a.reply.confirmed = true

/-- The phase says what the requests of the row amount to. -/
inductive Tracks : Phase → List Attempt → Prop
  | notSent : Tracks .notSent []
  | rejected {sent} (h : ∀ a ∈ sent, a.reply.rejected = true) : Tracks .rejected sent
  | unknown {sent} (h : Uncertain sent) : Tracks .unknown sent
  | confirmed {sent} (h : Confirmed sent) : Tracks .confirmed sent

theorem not_confirmed_of_rejected (h : reply.rejected = true) : reply.confirmed = false := by
  match reply with
  | .response (some status) =>
    simp only [Reply.rejected, Reply.confirmed, decide_eq_true_eq, decide_eq_false_iff_not] at h ⊢
    omega
  | .response none => rfl
  | .signal condition => rfl

theorem Tracks.send {sent : List Attempt} (h : Tracks prior sent) (hprior : prior ≠ .confirmed) :
    Tracks (nextPhase prior a.reply) (sent ++ [a]) := by
  have hunconfirmed : ∀ b ∈ sent, b.reply.confirmed = false := by
    cases h with
    | notSent => exact nofun
    | rejected h => exact fun b hb ↦ not_confirmed_of_rejected (h b hb)
    | unknown h => exact h.2
    | confirmed h => exact absurd rfl hprior
  unfold nextPhase
  split_ifs with hconfirmed hrejected
  · refine .confirmed ⟨a, ?_, hconfirmed⟩
    rw [List.getLast?_concat]
    rfl
  · refine .rejected (fun b hb ↦ ?_)
    rcases List.mem_append.mp hb with hb | hb
    · cases h with
      | notSent => exact absurd hb List.not_mem_nil
      | rejected h => exact h b hb
      | unknown h => exact absurd rfl hrejected.2
      | confirmed h => exact absurd rfl hprior
    · rw [List.mem_singleton.mp hb]
      exact hrejected.1
  · refine .unknown ⟨?_, fun b hb ↦ ?_⟩
    · by_cases hunknown : prior = .unknown
      · subst hunknown
        cases h with
        | unknown h =>
          obtain ⟨b, hb, hrejected⟩ := h.1
          exact ⟨b, List.mem_append_left _ hb, hrejected⟩
      · refine ⟨a, List.mem_append_right _ List.mem_cons_self, ?_⟩
        rw [Bool.eq_false_iff]
        exact fun hrejectedReply ↦ hrejected ⟨hrejectedReply, hunknown⟩
    · rcases List.mem_append.mp hb with hb | hb
      · exact hunconfirmed b hb
      · rw [List.mem_singleton.mp hb]
        exact Bool.eq_false_iff.mpr hconfirmed

/-- What one send does: nothing at all, or one request that is recorded before anything else. -/
theorem sendPostWrite_cases (h : sendPostWrite method a r = (result, r')) :
    (r' = r ∧ ∃ condition, result = .error condition) ∨
      (r'.sent = r.sent ++ [a] ∧ r'.phase = nextPhase r.phase a.reply ∧
        ((∃ status, result = .ok status ∧ a.reply = .response status ∧ r'.status = status ∧
            (method = .put → a.reply.confirmed = true → a.identity = true) ∧
            (method ≠ .post → r'.createIdentityUnresolved = false) ∧ a.scopeKept = true) ∨
          ∃ condition, result = .error condition)) := by
  unfold sendPostWrite at h
  cases hbefore : a.before with
  | some condition =>
    rw [hbefore] at h
    obtain ⟨rfl, rfl⟩ := Prod.mk.inj h
    exact .inl ⟨rfl, condition, rfl⟩
  | none =>
    rw [hbefore] at h
    refine .inr ?_
    match hreply : a.reply with
    | .signal condition =>
      rw [hreply] at h
      obtain ⟨rfl, rfl⟩ := Prod.mk.inj h
      refine ⟨rfl, ?_, .inr ⟨condition, rfl⟩⟩
      simp [nextPhase, Reply.confirmed, Reply.rejected]
    | .response status =>
      rw [hreply] at h
      dsimp only at h
      split_ifs at h with hcontradicted hscope
      · obtain ⟨rfl, rfl⟩ := Prod.mk.inj h
        exact ⟨rfl, rfl, .inr ⟨_, rfl⟩⟩
      · obtain ⟨rfl, rfl⟩ := Prod.mk.inj h
        refine ⟨rfl, rfl, .inl ⟨status, rfl, rfl, rfl, ?_, ?_, hscope⟩⟩
        · intro hput hconfirmed
          by_contra hidentity
          exact hcontradicted (decide_eq_true ⟨hconfirmed, hput, hidentity⟩)
        · intro hpost
          exact decide_eq_false (fun h ↦ hpost h.1)
      · obtain ⟨rfl, rfl⟩ := Prod.mk.inj h
        exact ⟨rfl, rfl, .inr ⟨_, rfl⟩⟩

/-- The receipt of a row whose requests have all been recorded. -/
def Tracked (r : WriteReceipt) : Prop := Tracks r.phase r.sent

theorem sendPostWrite_tracked (hr : Tracked r) (hprior : r.phase ≠ .confirmed)
    (h : sendPostWrite method a r = (result, r')) : Tracked r' := by
  rcases sendPostWrite_cases h with ⟨rfl, -⟩ | ⟨hsent, hphase, -⟩
  · exact hr
  · rw [Tracked, hsent, hphase]
    exact hr.send hprior

/-- A send that does not return a 2xx status but asks for a retry has not been confirmed. -/
theorem retry_unconfirmed (hprior : r.phase ≠ .confirmed)
    (h : sendPostWrite .post a r = (result, r'))
    (hretry : result = .error (.error true) ∨ ∃ status, result = .ok status ∧ serverError status = true) :
    r'.phase ≠ .confirmed := by
  unfold sendPostWrite at h
  cases hbefore : a.before with
  | some condition =>
    rw [hbefore] at h
    obtain ⟨-, rfl⟩ := Prod.mk.inj h
    exact hprior
  | none =>
    rw [hbefore] at h
    match hreply : a.reply with
    | .signal condition =>
      rw [hreply] at h
      obtain ⟨-, rfl⟩ := Prod.mk.inj h
      exact nofun
    | .response status =>
      rw [hreply] at h
      dsimp only at h
      rw [if_neg (by simp)] at h
      split_ifs at h with hscope
      · obtain ⟨rfl, rfl⟩ := Prod.mk.inj h
        obtain ⟨status', hstatus, hserver⟩ := hretry.resolve_left nofun
        obtain rfl := Except.ok.inj hstatus
        have hunconfirmed : (Reply.response status).confirmed = false := by
          match status with
          | some status =>
            simp only [serverError, Reply.confirmed, decide_eq_true_eq,
              decide_eq_false_iff_not] at hserver ⊢
            omega
          | none => rfl
        rw [nextPhase, hunconfirmed, if_neg Bool.false_ne_true]
        split_ifs
        · exact nofun
        · exact nofun
      · obtain ⟨rfl, rfl⟩ := Prod.mk.inj h
        rcases hretry with hretry | ⟨status', hstatus, -⟩
        · cases hretry
        · cases hstatus

theorem createWithRetry_tracked (hr : Tracked r) (hprior : r.phase ≠ .confirmed)
    (h : createWithRetry attempts attempt left r = (result, r')) : Tracked r' := by
  induction left generalizing attempt r with
  | zero => exact sendPostWrite_tracked hr hprior h
  | succ left ih =>
    rw [createWithRetry] at h
    have hsend : ∃ result₁ r₁, sendPostWrite .post (attempts attempt) r = (result₁, r₁) := ⟨_, _, rfl⟩
    obtain ⟨result₁, r₁, hsend⟩ := hsend
    have hr₁ := sendPostWrite_tracked hr hprior hsend
    rw [hsend] at h
    match result₁, hsend with
    | .error (.error true), hsend =>
      exact ih hr₁ (retry_unconfirmed hprior hsend (.inl rfl)) h
    | .error (.error false), _ =>
      obtain ⟨-, rfl⟩ := Prod.mk.inj h
      exact hr₁
    | .error .quit, _ =>
      obtain ⟨-, rfl⟩ := Prod.mk.inj h
      exact hr₁
    | .ok status, hsend =>
      dsimp only at h
      split_ifs at h with hserver
      · exact ih hr₁ (retry_unconfirmed hprior hsend (.inr ⟨status, rfl, hserver⟩)) h
      · obtain ⟨-, rfl⟩ := Prod.mk.inj h
        exact hr₁

/-- The last request was answered with this status, and the phase shows a 2xx. -/
def Answered (status : Option ℤ) (r : WriteReceipt) : Prop :=
  ∃ a, r.sent.getLast? = some a ∧ a.reply = .response status ∧
    (a.reply.confirmed = true → r.phase = .confirmed)

theorem sendPostWrite_answered (h : sendPostWrite method a r = (.ok status, r')) :
    Answered status r' := by
  rcases sendPostWrite_cases h with ⟨-, condition, herror⟩ | ⟨hsent, hphase, hok | ⟨condition, herror⟩⟩
  · cases herror
  · obtain ⟨status', hstatus, hreply, -⟩ := hok
    obtain rfl := Except.ok.inj hstatus
    refine ⟨a, by rw [hsent, List.getLast?_concat], hreply, fun hconfirmed ↦ ?_⟩
    rw [hphase, nextPhase, if_pos hconfirmed]
  · cases herror

theorem createWithRetry_answered (h : createWithRetry attempts attempt left r = (.ok status, r')) :
    Answered status r' := by
  induction left generalizing attempt r with
  | zero => exact sendPostWrite_answered h
  | succ left ih =>
    rw [createWithRetry] at h
    have hsend : ∃ result₁ r₁, sendPostWrite .post (attempts attempt) r = (result₁, r₁) := ⟨_, _, rfl⟩
    obtain ⟨result₁, r₁, hsend⟩ := hsend
    rw [hsend] at h
    match result₁, hsend with
    | .error (.error true), _ => exact ih h
    | .error (.error false), _ => cases h
    | .error .quit, _ => cases h
    | .ok status', hsend =>
      dsimp only at h
      split_ifs at h with hserver
      · exact ih h
      · obtain ⟨hstatus, rfl⟩ := Prod.mk.inj h
        obtain rfl := Except.ok.inj hstatus
        exact sendPostWrite_answered hsend

theorem tracks_notSent {sent : List Attempt} (h : Tracks .notSent sent) : sent = [] := by
  cases h
  rfl

theorem tracks_rejected {sent : List Attempt} (h : Tracks .rejected sent) :
    ∀ a ∈ sent, a.reply.rejected = true := by
  cases h
  assumption

theorem tracks_unknown {sent : List Attempt} (h : Tracks .unknown sent) : Uncertain sent := by
  cases h
  assumption

theorem tracks_confirmed {sent : List Attempt} (h : Tracks .confirmed sent) : Confirmed sent := by
  cases h
  assumption

theorem Uncertain.not_confirmed {sent : List Attempt} (h : Uncertain sent) : ¬Confirmed sent := by
  rintro ⟨a, ha, hconfirmed⟩
  rw [h.2 a (List.mem_of_mem_getLast? ha)] at hconfirmed
  cases hconfirmed

end Receipts

end Jaunder.Elisp.PostWrites
