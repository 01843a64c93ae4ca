import Jaunder.Foundation.Run
import Jaunder.Storage.Accounts
import Jaunder.Storage.WriteScope
import Mathlib.Logic.Function.Basic

namespace Jaunder.Storage.OneTimeSecrets

open Foundation.OneTime Foundation.Outcome Foundation.Run
open Jaunder.Common.Time
open Jaunder.Storage.Accounts Jaunder.Storage.Dialect Jaunder.Storage.WriteScope

inductive Kind
  | invites
  | emailVerifications
  | passwordResets
deriving DecidableEq

inductive Event
  | createInvite (code : String) (expiresAt now : UtcInstant) (commit : Commit)
  | precheck (i : ℕ) (code : String) (now : UtcInstant)
  | register (i : ℕ) (username passwordHash : String) (now : UtcInstant) (commit : Commit)
  | requestEmail (claim : EmailClaim) (tokenHash : String) (expiresAt now : UtcInstant)
      (unseen : List String) (commit : Commit)
  | verifyEmail (tokenHash : String) (now : UtcInstant) (commit : Commit)
  | requestReset (userId : ℤ) (tokenHash : String) (expiresAt now : UtcInstant) (commit : Commit)
  | confirmReset (tokenHash passwordHash : String) (now : UtcInstant) (commit : Commit)
  | createSession (tokenHash : String) (userId : ℤ) (commit : Commit)
  | prune (kind : Kind) (now : UtcInstant)

def Event.commit : Event → Commit
  | .createInvite _ _ _ commit | .register _ _ _ _ commit | .requestEmail _ _ _ _ _ commit
  | .verifyEmail _ _ commit | .requestReset _ _ _ _ commit | .confirmReset _ _ _ commit
  | .createSession _ _ commit => commit
  | .precheck _ _ _ | .prune _ _ => .confirmed

/-- The instant that the event reads from the clock; the batches of a prune share an earlier one. -/
def Event.reading : Event → Option UtcInstant
  | .createInvite _ _ now _ | .precheck _ _ now | .register _ _ _ now _
  | .requestEmail _ _ _ now _ _ | .verifyEmail _ now _ | .requestReset _ _ _ now _
  | .confirmReset _ _ now _ => some now
  | .createSession _ _ _ | .prune _ _ => none

def Event.instant : Event → Option UtcInstant
  | .prune _ now => some now
  | e => e.reading

variable (b : Backend)

/-- The rows with the last clock reading, what the prechecks of the registrations have found, and
the last email token that each user has asked for. -/
structure World where
  accounts : AccountTables b
  clock : UtcInstant
  prechecks : ℕ → Except AccountError String
  latest : ℤ → Option ℕ

variable {b}

def prune (s : AccountTables b) (now : UtcInstant) : Kind → AccountTables b
  | .invites => { s with invites := pruneBatch now s.invites }
  | .emailVerifications => { s with emailVerifications := pruneBatch now s.emailVerifications }
  | .passwordResets => { s with passwordResets := pruneBatch now s.passwordResets }

/-- The transaction of an event. -/
def outcome (w : World b) : Event → Except AccountError (AccountTables b)
  | .createInvite code expiresAt now _ => createInvite w.accounts code expiresAt now
  | .precheck _ _ _ => .ok w.accounts
  | .register i username passwordHash now _ => do
    let code ← w.prechecks i
    let (_, s) ← registerWithInvite w.accounts username passwordHash code now
    return s
  | .requestEmail claim tokenHash expiresAt now unseen _ =>
    createEmailVerification w.accounts claim tokenHash expiresAt now unseen
  | .verifyEmail tokenHash now _ => (verifyEmail w.accounts tokenHash now).map Prod.snd
  | .requestReset userId tokenHash expiresAt now _ =>
    createPasswordReset w.accounts userId tokenHash expiresAt now
  | .confirmReset tokenHash passwordHash now _ =>
    (confirmPasswordReset w.accounts tokenHash passwordHash now).map Prod.snd
  | .createSession tokenHash userId _ => createSession w.accounts tokenHash userId
  | .prune kind now => .ok (prune w.accounts now kind)

def prechecksAfter (w : World b) : Event → ℕ → Except AccountError String
  | .precheck i code now =>
    Function.update w.prechecks i ((precheckInvite w.accounts code now).map (fun _ ↦ code))
  | _ => w.prechecks

def latestAfter (w : World b) : Event → ℤ → Option ℕ
  | .requestEmail claim _ _ _ _ _ =>
    Function.update w.latest claim.userId (some w.accounts.emailVerifications.issued)
  | _ => w.latest

/-- The transaction commits, or nothing of it is left. -/
def step (w : World b) (e : Event) : World b :=
  let w' : World b := { w with
    clock := max w.clock (e.instant.getD w.clock), prechecks := prechecksAfter w e }
  match outcome w e with
  | .error _ => w'
  | .ok accounts => if e.commit.applies then { w' with accounts, latest := latestAfter w e } else w'

/-- The timestamp columns do not turn the instant and another one around. -/
def Orders (b : Backend) (t : UtcInstant) : Prop :=
  ∀ u, (u ≤ t → b.stored u ≤ b.stored t) ∧ (t ≤ u → b.stored t ≤ b.stored u)

theorem orders_of_keeps {t : UtcInstant} (h : b.Keeps t) : Orders b t := by
  refine fun u ↦ ⟨fun hu ↦ ?_, (h u).mpr⟩
  by_contra hlt
  obtain rfl := le_antisymm hu ((h u).mp (not_le.mp hlt).le)
  exact hlt le_rfl

/-- The clock does not go back. -/
def Clocked (w : World b) (e : Event) : Prop :=
  (∀ now ∈ e.reading, w.clock ≤ now) ∧ ∀ now ∈ e.instant, Orders b now

section Tables

variable {α : Type} {t t' : Secrets b α} {s : Secret String α b.Stored} {key : String}
  {now : UtcInstant}

/-- Every secret is consumed once at most, before its expiry by the clock. -/
structure Secure (t : Secrets b α) : Prop where
  sound : t.Sound
  clocked : ∀ c ∈ t.consumed, ∃ now, Orders b now ∧ c.usedAt = b.stored now

theorem Secure.insert {subject : α} {createdAt expiresAt : b.Stored} (h : Secure t)
    (hinsert : t.insert key subject createdAt expiresAt = some t') : Secure t' := by
  refine ⟨h.sound.insert hinsert, ?_⟩
  obtain ⟨-, rfl⟩ := Table.insert_eq_some hinsert
  exact h.clocked

theorem Secure.claim {f : α → α} (h : Secure t) (hnow : Orders b now)
    (hclaim : t.claim key (b.stored now) f = some (s, t')) : Secure t' := by
  refine ⟨h.sound.claim hclaim, fun c hc ↦ ?_⟩
  obtain ⟨-, -, -, rfl⟩ := Table.claim_eq_some hclaim
  rcases List.mem_append.mp hc with hc | hc
  · exact h.clocked c hc
  · rw [List.mem_singleton.mp hc]
    exact ⟨now, hnow, rfl⟩

theorem Secure.expire (h : Secure t) (p : Secret String α b.Stored → Bool) : Secure (t.expire p) :=
  ⟨h.sound.expire p, h.clocked⟩

theorem Secure.pruneBatch (h : Secure t) : Secure (pruneBatch now t) :=
  ⟨h.sound.delete _, h.clocked⟩

theorem Secure.inTime (h : Secure t) {c : Consumption b.Stored} (hc : c ∈ t.consumed) :
    ∃ now, c.usedAt = b.stored now ∧ ∀ expiry, c.expiresAt = b.stored expiry → now < expiry := by
  obtain ⟨now, horders, hused⟩ := h.clocked c hc
  refine ⟨now, hused, fun expiry hexpiry ↦ ?_⟩
  have hlt := h.sound.inTime c hc
  rw [hused, hexpiry] at hlt
  by_contra hle
  exact absurd hlt (not_lt.mpr ((horders expiry).1 (not_lt.mp hle)))

end Tables

section Invariants

variable {w : World b} {e : Event}

structure Secured (w : World b) : Prop where
  invites : Secure w.accounts.invites
  emailVerifications : Secure w.accounts.emailVerifications
  passwordResets : Secure w.accounts.passwordResets
  created : ∀ s ∈ w.accounts.emailVerifications.rows, ∃ t ≤ w.clock, s.createdAt = b.stored t

/-- A token can be claimed, now or later. -/
def Pending {α : Type} (w : World b) (s : Secret String α b.Stored) : Prop :=
  ∃ now, w.clock ≤ now ∧ Orders b now ∧ s.claimable (b.stored now) = true

/-- Only the newest token of a user is pending. -/
def Newest (w : World b) : Prop :=
  ∀ s ∈ w.accounts.emailVerifications.rows, Pending w s →
    w.latest s.subject.userId = some s.serial

/-- The email requests of a user do not overlap. -/
def Serialized (_ : World b) : Event → Prop
  | .requestEmail _ _ _ _ unseen _ => unseen = []
  | _ => True

theorem clock_le_step : w.clock ≤ (step w e).clock := by
  unfold step
  cases outcome w e with
  | error error => exact le_max_left _ _
  | ok accounts =>
    dsimp only
    split_ifs <;> exact le_max_left _ _

theorem instant_le_step {now : UtcInstant} (h : e.instant = some now) : now ≤ (step w e).clock := by
  unfold step
  rw [h]
  cases outcome w e with
  | error error => exact le_max_right _ _
  | ok accounts =>
    dsimp only
    split_ifs <;> exact le_max_right _ _

/-- Either nothing of the event is left, or its transaction is applied. -/
theorem step_cases (w : World b) (e : Event) :
    (step w e).accounts = w.accounts ∧ (step w e).latest = w.latest ∨
      ∃ accounts, outcome w e = .ok accounts ∧ e.commit.applies = true ∧
        (step w e).accounts = accounts ∧ (step w e).latest = latestAfter w e := by
  unfold step
  cases outcome w e with
  | error error => exact .inl ⟨rfl, rfl⟩
  | ok accounts =>
    dsimp only
    split_ifs with happlies
    · exact .inr ⟨accounts, rfl, happlies, rfl, rfl⟩
    · exact .inl ⟨rfl, rfl⟩

theorem created_mono (h : Secured w) {s : Secret String EmailClaim b.Stored}
    (hs : s ∈ w.accounts.emailVerifications.rows) :
    ∃ t ≤ (step w e).clock, s.createdAt = b.stored t := by
  obtain ⟨t, ht, hcreated⟩ := h.created s hs
  exact ⟨t, ht.trans clock_le_step, hcreated⟩

/-- The tokens of an event: the ones from before, expired or used, and new ones. -/
theorem secured_of_accounts {accounts : AccountTables b} (h : Secured w)
    (haccounts : (step w e).accounts = accounts) (hinvites : Secure accounts.invites)
    (hemails : Secure accounts.emailVerifications) (hresets : Secure accounts.passwordResets)
    (hcreated : ∀ s ∈ accounts.emailVerifications.rows,
      (∃ s₀ ∈ w.accounts.emailVerifications.rows, s.createdAt = s₀.createdAt) ∨
      ∃ now, e.instant = some now ∧ s.createdAt = b.stored now) : Secured (step w e) := by
  subst haccounts
  refine ⟨hinvites, hemails, hresets, fun s hs ↦ ?_⟩
  rcases hcreated s hs with ⟨s₀, hs₀, heq⟩ | ⟨now, hnow, heq⟩
  · rw [heq]
    exact created_mono h hs₀
  · exact ⟨now, instant_le_step hnow, heq⟩

theorem Secured.step (h : Secured w) (hclocked : Clocked w e) : Secured (step w e) := by
  rcases step_cases w e with ⟨haccounts, -⟩ | ⟨accounts, houtcome, -, haccounts, -⟩
  · exact secured_of_accounts h haccounts h.invites h.emailVerifications h.passwordResets
      (fun s hs ↦ .inl ⟨s, hs, rfl⟩)
  · have hold : ∀ s ∈ w.accounts.emailVerifications.rows,
        (∃ s₀ ∈ w.accounts.emailVerifications.rows, s.createdAt = s₀.createdAt) ∨
        ∃ now, e.instant = some now ∧ s.createdAt = b.stored now := fun s hs ↦ .inl ⟨s, hs, rfl⟩
    cases e with
    | createInvite code expiresAt now commit =>
      obtain ⟨invites, hinsert, rfl⟩ := createInvite_ok houtcome
      exact secured_of_accounts h haccounts (h.invites.insert hinsert) h.emailVerifications
        h.passwordResets hold
    | precheck i code now =>
      obtain rfl := Except.ok.inj houtcome
      exact secured_of_accounts h haccounts h.invites h.emailVerifications h.passwordResets hold
    | register i username passwordHash now commit =>
      obtain ⟨code, -, houtcome⟩ := bind_eq_ok.mp houtcome
      obtain ⟨⟨userId, s⟩, hregister, houtcome⟩ := bind_eq_ok.mp houtcome
      obtain rfl := pure_eq_ok.mp houtcome
      obtain ⟨-, t, invites, hclaim, rfl⟩ := registerWithInvite_ok hregister
      exact secured_of_accounts h haccounts (h.invites.claim (hclocked.2 now rfl) hclaim)
        h.emailVerifications h.passwordResets hold
    | requestEmail claim tokenHash expiresAt now unseen commit =>
      obtain ⟨emailVerifications, hinsert, rfl⟩ := createEmailVerification_ok houtcome
      refine secured_of_accounts h haccounts h.invites ((h.emailVerifications.expire _).insert hinsert)
        h.passwordResets (fun s hs ↦ ?_)
      obtain ⟨-, rfl⟩ := Table.insert_eq_some hinsert
      rcases List.mem_append.mp hs with hs | hs
      · obtain ⟨s₀, hs₀, rfl⟩ := List.mem_map.mp hs
        refine .inl ⟨s₀, hs₀, ?_⟩
        split_ifs <;> rfl
      · rw [List.mem_singleton.mp hs]
        exact .inr ⟨now, rfl, rfl⟩
    | verifyEmail tokenHash now commit =>
      obtain ⟨⟨userId, s⟩, hverify, rfl⟩ := map_eq_ok.mp houtcome
      obtain ⟨t, emailVerifications, hclaim, rfl⟩ := verifyEmail_ok hverify
      refine secured_of_accounts h haccounts h.invites
        (h.emailVerifications.claim (hclocked.2 now rfl) hclaim) h.passwordResets (fun s hs ↦ ?_)
      obtain ⟨-, -, -, rfl⟩ := Table.claim_eq_some hclaim
      obtain ⟨s₀, hs₀, rfl⟩ := List.mem_map.mp hs
      refine .inl ⟨s₀, hs₀, ?_⟩
      split_ifs <;> rfl
    | requestReset userId tokenHash expiresAt now commit =>
      obtain ⟨passwordResets, hinsert, rfl⟩ := createPasswordReset_ok houtcome
      exact secured_of_accounts h haccounts h.invites h.emailVerifications
        (h.passwordResets.insert hinsert) hold
    | confirmReset tokenHash passwordHash now commit =>
      obtain ⟨⟨userId, s⟩, hconfirm, rfl⟩ := map_eq_ok.mp houtcome
      obtain ⟨t, passwordResets, hclaim, -, rfl⟩ := confirmPasswordReset_ok hconfirm
      exact secured_of_accounts h haccounts h.invites h.emailVerifications
        (h.passwordResets.claim (hclocked.2 now rfl) hclaim) hold
    | createSession tokenHash userId commit =>
      obtain rfl := createSession_ok houtcome
      exact secured_of_accounts h haccounts h.invites h.emailVerifications h.passwordResets hold
    | prune kind now =>
      obtain rfl := Except.ok.inj houtcome
      cases kind with
      | invites =>
        exact secured_of_accounts h haccounts h.invites.pruneBatch h.emailVerifications
          h.passwordResets hold
      | emailVerifications =>
        exact secured_of_accounts h haccounts h.invites h.emailVerifications.pruneBatch
          h.passwordResets (fun s hs ↦ .inl ⟨s, List.mem_of_mem_filter hs, rfl⟩)
      | passwordResets =>
        exact secured_of_accounts h haccounts h.invites h.emailVerifications
          h.passwordResets.pruneBatch hold

theorem Pending.anti {α : Type} {s : Secret String α b.Stored} (h : Pending (step w e) s) :
    Pending w s := by
  obtain ⟨now, hclock, horders, hclaimable⟩ := h
  exact ⟨now, clock_le_step.trans hclock, horders, hclaimable⟩

/-- What was not claimable at one instant is not pending from then on. -/
theorem not_pending {α : Type} {s : Secret String α b.Stored} {now : UtcInstant}
    (hnow : now ≤ w.clock) (hclaimable : s.usedAt = none → s.expiresAt ≤ b.stored now) :
    ¬Pending w s := by
  rintro ⟨later, hclock, horders, hlater⟩
  obtain ⟨hunused, hexpiry⟩ := claimable_iff.mp hlater
  have hle := (horders now).1 (hnow.trans hclock)
  exact absurd hexpiry (not_lt.mpr ((hclaimable hunused).trans hle))

/-- Rows that were there before keep the invariant, while the newest tokens stay the same. -/
theorem newest_of_old (h : Newest w) (hlatest : (step w e).latest = w.latest)
    (hold : ∀ s ∈ (step w e).accounts.emailVerifications.rows, Pending (step w e) s →
      s ∈ w.accounts.emailVerifications.rows) : Newest (step w e) := by
  intro s hs hpending
  rw [hlatest]
  exact h s (hold s hs hpending) hpending.anti

theorem Newest.step (h : Newest w) (hsecured : Secured w) (hserialized : Serialized w e) :
    Newest (step w e) := by
  rcases step_cases w e with ⟨haccounts, hlatest⟩ | ⟨accounts, houtcome, -, haccounts, hlatest⟩
  · exact newest_of_old h hlatest (fun s hs _ ↦ haccounts ▸ hs)
  · have hsame : accounts.emailVerifications = w.accounts.emailVerifications →
        ∀ s ∈ (OneTimeSecrets.step w e).accounts.emailVerifications.rows,
          Pending (OneTimeSecrets.step w e) s → s ∈ w.accounts.emailVerifications.rows := by
      intro hemails s hs _
      rw [haccounts, hemails] at hs
      exact hs
    cases e with
    | createInvite code expiresAt now commit =>
      obtain ⟨invites, hinsert, rfl⟩ := createInvite_ok houtcome
      exact newest_of_old h hlatest (hsame rfl)
    | precheck i code now =>
      obtain rfl := Except.ok.inj houtcome
      exact newest_of_old h hlatest (hsame rfl)
    | register i username passwordHash now commit =>
      obtain ⟨code, -, houtcome⟩ := bind_eq_ok.mp houtcome
      obtain ⟨⟨userId, s⟩, hregister, houtcome⟩ := bind_eq_ok.mp houtcome
      obtain rfl := pure_eq_ok.mp houtcome
      obtain ⟨-, t, invites, hclaim, rfl⟩ := registerWithInvite_ok hregister
      exact newest_of_old h hlatest (hsame rfl)
    | requestEmail claim tokenHash expiresAt now unseen commit =>
      obtain rfl : unseen = [] := hserialized
      obtain ⟨emailVerifications, hinsert, rfl⟩ := createEmailVerification_ok houtcome
      obtain ⟨-, rfl⟩ := Table.insert_eq_some hinsert
      intro s hs hpending
      rw [haccounts] at hs
      rw [hlatest, latestAfter]
      rcases List.mem_append.mp hs with hs | hs
      · obtain ⟨s₀, hs₀, rfl⟩ := List.mem_map.mp hs
        by_cases huser : s₀.subject.userId = claim.userId
        · exfalso
          have hclock : now ≤ (OneTimeSecrets.step w
              (.requestEmail claim tokenHash expiresAt now [] commit)).clock := instant_le_step rfl
          by_cases hclaimable : s₀.claimable (b.stored now) = true
          · -- the request has superseded it
            obtain ⟨t, ht, hcreated⟩ := created_mono hsecured hs₀
            rw [if_pos (by simp [huser, hclaimable])] at hpending
            exact not_pending ht (fun _ ↦ hcreated.le) hpending
          · rw [if_neg (by simp [hclaimable])] at hpending
            refine not_pending hclock (fun hunused ↦ ?_) hpending
            by_contra hexpiry
            exact hclaimable (claimable_iff.mpr ⟨hunused, not_le.mp hexpiry⟩)
        · rw [if_neg (by simp [huser])] at hpending ⊢
          rw [Function.update_of_ne huser]
          exact h s₀ hs₀ hpending.anti
      · rw [List.mem_singleton.mp hs, Function.update_self]
        rfl
    | verifyEmail tokenHash now commit =>
      obtain ⟨⟨userId, s⟩, hverify, rfl⟩ := map_eq_ok.mp houtcome
      obtain ⟨t, emailVerifications, hclaim, rfl⟩ := verifyEmail_ok hverify
      refine newest_of_old h hlatest (fun s hs hpending ↦ ?_)
      obtain ⟨now, -, -, hclaimable⟩ := hpending
      rw [haccounts] at hs
      exact Table.mem_of_claimable hclaim hs hclaimable
    | requestReset userId tokenHash expiresAt now commit =>
      obtain ⟨passwordResets, hinsert, rfl⟩ := createPasswordReset_ok houtcome
      exact newest_of_old h hlatest (hsame rfl)
    | confirmReset tokenHash passwordHash now commit =>
      obtain ⟨⟨userId, s⟩, hconfirm, rfl⟩ := map_eq_ok.mp houtcome
      obtain ⟨t, passwordResets, hclaim, -, rfl⟩ := confirmPasswordReset_ok hconfirm
      exact newest_of_old h hlatest (hsame rfl)
    | createSession tokenHash userId commit =>
      obtain rfl := createSession_ok houtcome
      exact newest_of_old h hlatest (hsame rfl)
    | prune kind now =>
      obtain rfl := Except.ok.inj houtcome
      refine newest_of_old h hlatest (fun s hs _ ↦ ?_)
      rw [haccounts] at hs
      cases kind with
      | invites => exact hs
      | passwordResets => exact hs
      | emailVerifications => exact List.mem_of_mem_filter hs

end Invariants

section Effects

variable {w : World b} {e : Event}

theorem unusedCutoff_le (now : UtcInstant) : unusedCutoff now ≤ now := by
  unfold unusedCutoff
  cases h : now.checkedSub 86400 with
  | none => exact now.lower
  | some cutoff =>
    have hcutoff := UtcInstant.checkedSub_eq_some.mp h
    rw [Option.getD_some, UtcInstant.le_iff, hcutoff]
    unfold nanosPerSecond
    omega

/-- A row that a prune has deleted could be deleted. -/
theorem prunable_of_pruned {α : Type} {t : Secrets b α} {s : Secret String α b.Stored}
    {now : UtcInstant} (h : (t.rows.map Secret.key).Nodup) (hs : s ∈ t.rows)
    (hpruned : s ∉ (pruneBatch now t).rows) : prunable now s = true := by
  have hbatch : s.key ∈ (((t.rows.filter (prunable now)).map Secret.key).insertionSort (· ≤ ·)).take
      pruneBatchSize := by
    by_contra hkey
    exact hpruned (List.mem_filter.mpr ⟨hs, by simp [hkey]⟩)
  have hmem := List.mem_of_mem_take hbatch
  rw [List.mem_insertionSort] at hmem
  obtain ⟨s', hs', hkey⟩ := List.mem_map.mp hmem
  obtain ⟨hrow, hprunable⟩ := List.mem_filter.mp hs'
  rwa [← List.inj_on_of_nodup_map h hrow hs hkey]

theorem not_pending_of_prunable {α : Type} {s : Secret String α b.Stored} {now : UtcInstant}
    (hnow : now ≤ w.clock) (horders : Orders b now) (hprunable : prunable now s = true) :
    ¬Pending w s := by
  refine not_pending hnow (fun hunused ↦ ?_)
  rcases of_decide_eq_true hprunable with hused | hexpired
  · rw [hunused] at hused
    cases hused
  · exact hexpired.trans ((horders _).1 (unusedCutoff_le now))

/-- The row of a prune that is gone can not be claimed any more. -/
def PruneSafe (w w' : World b) : Prop :=
  (∀ s ∈ w.accounts.invites.rows, s ∉ w'.accounts.invites.rows → ¬Pending w' s) ∧
  (∀ s ∈ w.accounts.emailVerifications.rows, s ∉ w'.accounts.emailVerifications.rows →
    ¬Pending w' s) ∧
  ∀ s ∈ w.accounts.passwordResets.rows, s ∉ w'.accounts.passwordResets.rows → ¬Pending w' s

theorem pruneSafe_step {kind : Kind} {now : UtcInstant} (h : Secured w)
    (hclocked : Clocked w (.prune kind now)) : PruneSafe w (step w (.prune kind now)) := by
  have hnow : now ≤ (step w (.prune kind now)).clock := instant_le_step rfl
  have horders : Orders b now := hclocked.2 now rfl
  have haccounts : (step w (.prune kind now)).accounts = prune w.accounts now kind := rfl
  unfold PruneSafe
  rw [haccounts]
  cases kind with
  | invites =>
    refine ⟨fun s hs hpruned ↦ ?_, fun s hs hpruned ↦ absurd hs hpruned,
      fun s hs hpruned ↦ absurd hs hpruned⟩
    exact not_pending_of_prunable hnow horders
      (prunable_of_pruned h.invites.sound.keys hs hpruned)
  | emailVerifications =>
    refine ⟨fun s hs hpruned ↦ absurd hs hpruned, fun s hs hpruned ↦ ?_,
      fun s hs hpruned ↦ absurd hs hpruned⟩
    exact not_pending_of_prunable hnow horders
      (prunable_of_pruned h.emailVerifications.sound.keys hs hpruned)
  | passwordResets =>
    refine ⟨fun s hs hpruned ↦ absurd hs hpruned, fun s hs hpruned ↦ absurd hs hpruned,
      fun s hs hpruned ↦ ?_⟩
    exact not_pending_of_prunable hnow horders
      (prunable_of_pruned h.passwordResets.sound.keys hs hpruned)

/-- A registration adds one user, whose invite it consumes. -/
def RegistrationEffect (w w' : World b) (i : ℕ) (username passwordHash : String)
    (now : UtcInstant) : Prop :=
  ∃ code userId t invites, w.prechecks i = .ok code ∧
    w.accounts.invites.claim code (b.stored now) (fun _ ↦ some userId) = some (t, invites) ∧
    username ∉ w.accounts.users.map User.username ∧
    w'.accounts = { w.accounts with
      users := w.accounts.users ++ [⟨userId, username, passwordHash, none, false⟩]
      lastUserId := userId
      invites }

/-- A confirmed reset consumes its token, sets the password of the user of the token and of nobody
else, leaves this user no session, and leaves the other tokens as they are. -/
structure ResetEffect (s s' : AccountTables b) (tokenHash passwordHash : String) (now : UtcInstant)
    (t : Secret String ℤ b.Stored) : Prop where
  claimed : t ∈ s.passwordResets.rows ∧ t.key = tokenHash ∧ t.claimable (b.stored now) = true
  users : s'.users =
    s.users.map (fun u ↦ if u.userId = t.subject then { u with passwordHash } else u)
  sessions : ∀ session, session ∈ s'.sessions ↔ session ∈ s.sessions ∧ session.userId ≠ t.subject
  tokens : ∀ r, r.key ≠ tokenHash → (r ∈ s'.passwordResets.rows ↔ r ∈ s.passwordResets.rows)

theorem resetEffect {s s' : AccountTables b} {tokenHash passwordHash : String} {now : UtcInstant}
    {userId : ℤ} (h : confirmPasswordReset s tokenHash passwordHash now = .ok (userId, s')) :
    ∃ t, ResetEffect s s' tokenHash passwordHash now t := by
  obtain ⟨t, passwordResets, hclaim, rfl, rfl⟩ := confirmPasswordReset_ok h
  obtain ⟨hrow, hkey, hclaimable, rfl⟩ := Table.claim_eq_some hclaim
  refine ⟨t, ⟨hrow, hkey, hclaimable⟩, rfl, fun session ↦ ?_, fun r hr ↦ ?_⟩
  · simp [revokeAllForUser]
  · constructor
    · intro hmem
      obtain ⟨r₀, hr₀, rfl⟩ := List.mem_map.mp hmem
      split_ifs at hr ⊢ with hmatch
      · exact absurd hmatch.1 hr
      · exact hr₀
    · intro hmem
      refine List.mem_map.mpr ⟨r, hmem, ?_⟩
      rw [if_neg (fun hmatch ↦ hr hmatch.1)]

/-- What is left of one event. -/
structure Effects (w w' : World b) (e : Event) : Prop where
  failed : (∃ error, outcome w e = .error error) ∨ e.commit = .failed → w'.accounts = w.accounts
  registered : ∀ i username passwordHash now commit,
    e = .register i username passwordHash now commit → w'.accounts = w.accounts ∨
      RegistrationEffect w w' i username passwordHash now
  reset : ∀ tokenHash passwordHash now commit, e = .confirmReset tokenHash passwordHash now commit →
    w'.accounts = w.accounts ∨ ∃ t, ResetEffect w.accounts w'.accounts tokenHash passwordHash now t
  pruned : ∀ kind now, e = .prune kind now → PruneSafe w w'

theorem effects_step (h : Secured w) (hclocked : Clocked w e) : Effects w (step w e) e := by
  refine ⟨fun hfailed ↦ ?_, ?_, ?_, ?_⟩
  · rcases step_cases w e with ⟨haccounts, -⟩ | ⟨accounts, houtcome, happlies, -, -⟩
    · exact haccounts
    · rcases hfailed with ⟨error, herror⟩ | hcommit
      · rw [herror] at houtcome
        cases houtcome
      · rw [hcommit] at happlies
        cases happlies
  · rintro i username passwordHash now commit rfl
    refine (step_cases w _).imp And.left ?_
    rintro ⟨accounts, houtcome, -, haccounts, -⟩
    obtain ⟨code, hcode, houtcome⟩ := bind_eq_ok.mp houtcome
    obtain ⟨⟨userId, s⟩, hregister, houtcome⟩ := bind_eq_ok.mp houtcome
    obtain rfl := pure_eq_ok.mp houtcome
    obtain ⟨hfree, t, invites, hclaim, hs⟩ := registerWithInvite_ok hregister
    exact ⟨code, userId, t, invites, hcode, hclaim, hfree, haccounts.trans hs⟩
  · rintro tokenHash passwordHash now commit rfl
    refine (step_cases w _).imp And.left ?_
    rintro ⟨accounts, houtcome, -, haccounts, -⟩
    obtain ⟨⟨userId, s⟩, hconfirm, rfl⟩ := map_eq_ok.mp houtcome
    rw [haccounts]
    exact resetEffect hconfirm
  · rintro kind now rfl
    exact pruneSafe_step h hclocked

/-- No secret has been consumed twice or at its expiry or later. -/
structure ConsumedInTime {α : Type} (t : Secrets b α) : Prop where
  once : (t.consumed.map Consumption.serial).Nodup
  inTime : ∀ c ∈ t.consumed, ∃ now, c.usedAt = b.stored now ∧
    ∀ expiry, c.expiresAt = b.stored expiry → now < expiry

theorem secured_run {events : List Event} (h : Secured w) (hclock : Along step Clocked w events) :
    Secured (run step w events) :=
  run_preserves (fun _ _ hw hclocked ↦ hw.step hclocked) h hclock

/-- Secrets are used once and in time in every run with a clock that does not go back. -/
theorem secrets_used_once (hsecured : Secured w) (hnewest : Newest w) {events : List Event}
    (hclock : Along step Clocked w events) :
    ConsumedInTime (run step w events).accounts.invites ∧
    ConsumedInTime (run step w events).accounts.emailVerifications ∧
    ConsumedInTime (run step w events).accounts.passwordResets ∧
    (Along step Serialized w events → Newest (run step w events)) ∧
    ∀ before e after, events = before ++ e :: after →
      Effects (run step w before) (step (run step w before) e) e := by
  have hend := secured_run hsecured hclock
  refine ⟨⟨hend.invites.sound.once, fun c hc ↦ hend.invites.inTime hc⟩,
    ⟨hend.emailVerifications.sound.once, fun c hc ↦ hend.emailVerifications.inTime hc⟩,
    ⟨hend.passwordResets.sound.once, fun c hc ↦ hend.passwordResets.inTime hc⟩,
    fun hserialized ↦ ?_, fun before e after hevents ↦ ?_⟩
  · have hstep : ∀ (w : World b) e, Secured w ∧ Newest w → Clocked w e ∧ Serialized w e →
        Secured (step w e) ∧ Newest (step w e) :=
      fun w e hw hC ↦ ⟨hw.1.step hC.1, hw.2.step hw.1 hC.2⟩
    exact (run_preserves hstep ⟨hsecured, hnewest⟩ (hclock.and hserialized)).2
  · rw [hevents, along_append] at hclock
    exact effects_step (secured_run hsecured hclock.1) hclock.2.1

/-- The accounts of Alice before her first request. -/
def aliceWorld : World sqlite where
  accounts := ⟨[⟨1, "alice", "first", none, false⟩], 1, [⟨"laptop", 1⟩], .empty, .empty, .empty⟩
  clock := .epoch
  prechecks _ := .error (.claim .missing)
  latest _ := none

def hour (n : ℕ) (h : n < 48) : UtcInstant :=
  ⟨n * 3600000000000, by omega, by omega⟩

/-- Two requests for a reset and the confirmation of the first one. -/
def aliceResets : List Event :=
  [.requestReset 1 "a" (hour 2 (by decide)) (hour 1 (by decide)) .confirmed,
    .requestReset 1 "b" (hour 2 (by decide)) (hour 1 (by decide)) .confirmed,
    .confirmReset "a" "second" (hour 1 (by decide)) .confirmed]

theorem secured_aliceWorld : Secured aliceWorld :=
  ⟨⟨Table.sound_empty, nofun⟩, ⟨Table.sound_empty, nofun⟩, ⟨Table.sound_empty, nofun⟩, nofun⟩

theorem along_aliceResets : Along step Clocked aliceWorld aliceResets := by
  have horders : ∀ now ∈ some (hour 1 (by decide)), Orders sqlite now := by
    intro now hnow
    obtain rfl := Option.some.inj hnow
    exact orders_of_keeps (sqlite_keeps (by decide))
  have hclock : ∀ w : World sqlite, w.clock ≤ hour 1 (by decide) →
      ∀ now ∈ some (hour 1 (by decide)), w.clock ≤ now := by
    intro w hw now hnow
    obtain rfl := Option.some.inj hnow
    exact hw
  exact ⟨⟨hclock _ (by decide +kernel), horders⟩, ⟨hclock _ (by decide +kernel), horders⟩,
    ⟨hclock _ (by decide +kernel), horders⟩, trivial⟩

theorem alice_resets_used_once :
    ConsumedInTime (run step aliceWorld aliceResets).accounts.passwordResets :=
  (secrets_used_once secured_aliceWorld nofun along_aliceResets).2.2.1

/-- Two overlapping requests, of which the second does not see the token of the first. -/
def aliceRequests : List Event :=
  [.requestEmail ⟨1, "alice@example.org"⟩ "a" (hour 2 (by decide)) (hour 1 (by decide)) [] .confirmed,
    .requestEmail ⟨1, "alice@example.org"⟩ "b" (hour 2 (by decide)) (hour 1 (by decide)) ["a"]
      .confirmed]

/-- The second token of Alice still works after her reset with the first one, and so do both tokens
of overlapping requests. -/
theorem earlier_tokens_still_work :
    Along step Clocked aliceWorld aliceResets ∧
    (run step aliceWorld aliceResets).accounts.users = [⟨1, "alice", "second", none, false⟩] ∧
    tokenState (run step aliceWorld aliceResets).accounts.passwordResets "b" (hour 1 (by decide)) =
      .claimable ∧
    (run step aliceWorld (aliceResets ++
      [.confirmReset "b" "third" (hour 1 (by decide)) .confirmed])).accounts.users =
        [⟨1, "alice", "third", none, false⟩] ∧
    tokenState (run step aliceWorld aliceRequests).accounts.emailVerifications "a"
      (hour 1 (by decide)) = .claimable ∧
    tokenState (run step aliceWorld aliceRequests).accounts.emailVerifications "b"
      (hour 1 (by decide)) = .claimable :=
  ⟨along_aliceResets, by decide +kernel⟩

end Effects

end Jaunder.Storage.OneTimeSecrets
