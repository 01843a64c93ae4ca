import Jaunder.Foundation.OneTime
import Jaunder.Foundation.Outcome
import Jaunder.Storage.Dialect

namespace Jaunder.Storage.Accounts

open Foundation.OneTime Foundation.Outcome
open Jaunder.Common.Time
open Jaunder.Storage.Dialect

structure User where
  userId : ℤ
  username : String
  passwordHash : String
  email : Option String
  emailVerified : Bool
deriving DecidableEq

structure Session where
  tokenHash : String
  userId : ℤ
deriving DecidableEq

structure EmailClaim where
  userId : ℤ
  email : String
deriving DecidableEq

abbrev Secrets (b : Backend) (α : Type) := Table String α b.Stored

/-- The rows of the accounts; the subject of an invite is `used_by`, the one of a reset token its
user. -/
structure AccountTables (b : Backend) where
  users : List User
  lastUserId : ℤ
  sessions : List Session
  invites : Secrets b (Option ℤ)
  emailVerifications : Secrets b EmailClaim
  passwordResets : Secrets b ℤ

inductive TokenState
  | missing
  | alreadyUsed
  | expired
  | claimable
deriving DecidableEq

/-- `claim` carries the state of the token, `duplicate` a primary key that is taken. -/
inductive AccountError
  | claim (state : TokenState)
  | usernameTaken
  | duplicate
deriving DecidableEq

/-- `now - 24h`, or the earliest instant. -/
def unusedCutoff (now : UtcInstant) : UtcInstant := (now.checkedSub 86400).getD .timestampMin

variable {b : Backend} {α : Type}

def classifyTokenState (row : Option (Secret String α b.Stored)) (now : UtcInstant) : TokenState :=
  match row with
  | none => .missing
  | some s =>
    if s.usedAt.isSome then .alreadyUsed
    else if s.expiresAt ≤ b.stored now then .expired else .claimable

def tokenState (t : Secrets b α) (key : String) (now : UtcInstant) : TokenState :=
  classifyTokenState (t.rows.find? (fun s ↦ s.key = key)) now

def prunable (now : UtcInstant) (s : Secret String α b.Stored) : Bool :=
  s.usedAt.any (fun usedAt ↦ usedAt ≤ b.stored now) ∨ s.expiresAt ≤ b.stored (unusedCutoff now)

def pruneBatchSize : ℕ := 100

/-- One batch of `prune_invites`, `prune_email_verifications` or `prune_password_resets`. -/
def pruneBatch (now : UtcInstant) (t : Secrets b α) : Secrets b α :=
  let batch := (((t.rows.filter (prunable now)).map Secret.key).insertionSort (· ≤ ·)).take
    pruneBatchSize
  t.delete (fun s ↦ s.key ∈ batch)

def createInvite (s : AccountTables b) (code : String) (expiresAt now : UtcInstant) :
    Except AccountError (AccountTables b) := do
  let invites ← orError (s.invites.insert code none (b.stored now) (b.stored expiresAt)) .duplicate
  return { s with invites }

def precheckInvite (s : AccountTables b) (code : String) (now : UtcInstant) : Except AccountError Unit :=
  match tokenState s.invites code now with
  | .claimable => .ok ()
  | state => .error (.claim state)

def claimInvite (s : AccountTables b) (code : String) (userId : ℤ) (now : UtcInstant) :
    Except AccountError (AccountTables b) :=
  match s.invites.claim code (b.stored now) (fun _ ↦ some userId) with
  | some (_, invites) => .ok { s with invites }
  | none =>
    .error (.claim (match tokenState s.invites code now with
      | .claimable => .alreadyUsed
      | state => state))

def createUser (s : AccountTables b) (username passwordHash : String) :
    Except AccountError (ℤ × AccountTables b) := do
  require (username ∉ s.users.map User.username) .usernameTaken
  let userId := s.lastUserId + 1
  return (userId, { s with
    users := s.users ++ [⟨userId, username, passwordHash, none, false⟩]
    lastUserId := userId })

/-- `register_with_invite` after its precheck. -/
def registerWithInvite (s : AccountTables b) (username passwordHash code : String) (now : UtcInstant) :
    Except AccountError (ℤ × AccountTables b) := do
  let (userId, s') ← createUser s username passwordHash
  let s'' ← claimInvite s' code userId now
  return (userId, s'')

/-- The pending tokens of the user expire, but not the `unseen` ones: on PostgreSQL the update does
not see what overlapping transactions have not committed. -/
def createEmailVerification (s : AccountTables b) (claim : EmailClaim) (tokenHash : String)
    (expiresAt now : UtcInstant) (unseen : List String) : Except AccountError (AccountTables b) := do
  let superseded := s.emailVerifications.expire (fun t ↦
    t.subject.userId = claim.userId ∧ t.claimable (b.stored now) ∧ t.key ∉ unseen)
  let emailVerifications ←
    orError (superseded.insert tokenHash claim (b.stored now) (b.stored expiresAt)) .duplicate
  return { s with emailVerifications }

def tokenClaimError (state : TokenState) : AccountError :=
  .claim (if state = .claimable then .expired else state)

/-- The update of the user that a verified address or a reset makes. -/
def updateUser (users : List User) (userId : ℤ) (f : User → User) : List User :=
  users.map (fun u ↦ if u.userId = userId then f u else u)

/-- `use_email_verification` and `set_email`, in one scope. -/
def verifyEmail (s : AccountTables b) (tokenHash : String) (now : UtcInstant) :
    Except AccountError (ℤ × AccountTables b) :=
  match s.emailVerifications.claim tokenHash (b.stored now) id with
  | some (t, emailVerifications) => .ok (t.subject.userId, { s with
      emailVerifications
      users := updateUser s.users t.subject.userId (fun u ↦
        { u with email := some t.subject.email, emailVerified := true }) })
  | none => .error (tokenClaimError (tokenState s.emailVerifications tokenHash now))

def createPasswordReset (s : AccountTables b) (userId : ℤ) (tokenHash : String)
    (expiresAt now : UtcInstant) : Except AccountError (AccountTables b) := do
  let passwordResets ←
    orError (s.passwordResets.insert tokenHash userId (b.stored now) (b.stored expiresAt)) .duplicate
  return { s with passwordResets }

def setPassword (users : List User) (userId : ℤ) (passwordHash : String) : List User :=
  updateUser users userId (fun u ↦ { u with passwordHash })

def revokeAllForUser (sessions : List Session) (userId : ℤ) : List Session :=
  sessions.filter (fun session ↦ session.userId ≠ userId)

def confirmPasswordReset (s : AccountTables b) (tokenHash passwordHash : String) (now : UtcInstant) :
    Except AccountError (ℤ × AccountTables b) :=
  match s.passwordResets.claim tokenHash (b.stored now) id with
  | some (t, passwordResets) => .ok (t.subject, { s with
      passwordResets
      users := setPassword s.users t.subject passwordHash
      sessions := revokeAllForUser s.sessions t.subject })
  | none => .error (tokenClaimError (tokenState s.passwordResets tokenHash now))

def createSession (s : AccountTables b) (tokenHash : String) (userId : ℤ) :
    Except AccountError (AccountTables b) := do
  require (tokenHash ∉ s.sessions.map Session.tokenHash) .duplicate
  return { s with sessions := s.sessions ++ [⟨tokenHash, userId⟩] }

section Specifications

variable {s s' : AccountTables b} {now expiresAt : UtcInstant}

theorem createInvite_ok {code : String} (h : createInvite s code expiresAt now = .ok s') :
    ∃ invites, s.invites.insert code none (b.stored now) (b.stored expiresAt) = some invites ∧
      s' = { s with invites } := by
  obtain ⟨invites, hinsert, h⟩ := bind_eq_ok.mp h
  exact ⟨invites, orError_eq_ok.mp hinsert, (pure_eq_ok.mp h).symm⟩

theorem claimInvite_ok {code : String} {userId : ℤ} (h : claimInvite s code userId now = .ok s') :
    ∃ t invites, s.invites.claim code (b.stored now) (fun _ ↦ some userId) = some (t, invites) ∧
      s' = { s with invites } := by
  unfold claimInvite at h
  cases hclaim : s.invites.claim code (b.stored now) (fun _ ↦ some userId) with
  | none =>
    rw [hclaim] at h
    cases h
  | some claimed =>
    rw [hclaim] at h
    exact ⟨claimed.1, claimed.2, rfl, (Except.ok.inj h).symm⟩

/-- A registration creates the user and consumes the invite. -/
theorem registerWithInvite_ok {username passwordHash code : String} {userId : ℤ}
    (h : registerWithInvite s username passwordHash code now = .ok (userId, s')) :
    username ∉ s.users.map User.username ∧
      ∃ t invites, s.invites.claim code (b.stored now) (fun _ ↦ some userId) = some (t, invites) ∧
        s' = { s with
          users := s.users ++ [⟨userId, username, passwordHash, none, false⟩]
          lastUserId := userId
          invites } := by
  obtain ⟨⟨userId', created⟩, hcreate, h⟩ := bind_eq_ok.mp h
  obtain ⟨_, hfree, hcreate⟩ := bind_eq_ok.mp hcreate
  obtain ⟨rfl, rfl⟩ := Prod.mk.inj (pure_eq_ok.mp hcreate)
  obtain ⟨claimed, hclaim, h⟩ := bind_eq_ok.mp h
  obtain ⟨rfl, rfl⟩ := Prod.mk.inj (pure_eq_ok.mp h)
  obtain ⟨t, invites, hinvites, rfl⟩ := claimInvite_ok hclaim
  exact ⟨require_eq_ok.mp hfree, t, invites, hinvites, rfl⟩

theorem createEmailVerification_ok {claim : EmailClaim} {tokenHash : String} {unseen : List String}
    (h : createEmailVerification s claim tokenHash expiresAt now unseen = .ok s') :
    ∃ emailVerifications, (s.emailVerifications.expire (fun t ↦ t.subject.userId = claim.userId ∧
        t.claimable (b.stored now) ∧ t.key ∉ unseen)).insert tokenHash claim (b.stored now)
          (b.stored expiresAt) = some emailVerifications ∧
      s' = { s with emailVerifications } := by
  obtain ⟨emailVerifications, hinsert, h⟩ := bind_eq_ok.mp h
  exact ⟨emailVerifications, orError_eq_ok.mp hinsert, (pure_eq_ok.mp h).symm⟩

theorem verifyEmail_ok {tokenHash : String} {userId : ℤ}
    (h : verifyEmail s tokenHash now = .ok (userId, s')) :
    ∃ t emailVerifications,
      s.emailVerifications.claim tokenHash (b.stored now) id = some (t, emailVerifications) ∧
      s' = { s with
        emailVerifications
        users := updateUser s.users t.subject.userId (fun u ↦
          { u with email := some t.subject.email, emailVerified := true }) } := by
  unfold verifyEmail at h
  cases hclaim : s.emailVerifications.claim tokenHash (b.stored now) id with
  | none =>
    rw [hclaim] at h
    cases h
  | some claimed =>
    rw [hclaim] at h
    exact ⟨claimed.1, claimed.2, rfl, (Prod.mk.inj (Except.ok.inj h)).2.symm⟩

theorem createPasswordReset_ok {userId : ℤ} {tokenHash : String}
    (h : createPasswordReset s userId tokenHash expiresAt now = .ok s') :
    ∃ passwordResets, s.passwordResets.insert tokenHash userId (b.stored now) (b.stored expiresAt) =
      some passwordResets ∧ s' = { s with passwordResets } := by
  obtain ⟨passwordResets, hinsert, h⟩ := bind_eq_ok.mp h
  exact ⟨passwordResets, orError_eq_ok.mp hinsert, (pure_eq_ok.mp h).symm⟩

/-- A confirmed reset consumes its token, sets the password of its user and ends their sessions. -/
theorem confirmPasswordReset_ok {tokenHash passwordHash : String} {userId : ℤ}
    (h : confirmPasswordReset s tokenHash passwordHash now = .ok (userId, s')) :
    ∃ t passwordResets,
      s.passwordResets.claim tokenHash (b.stored now) id = some (t, passwordResets) ∧
      t.subject = userId ∧ s' = { s with
        passwordResets
        users := setPassword s.users userId passwordHash
        sessions := revokeAllForUser s.sessions userId } := by
  unfold confirmPasswordReset at h
  cases hclaim : s.passwordResets.claim tokenHash (b.stored now) id with
  | none =>
    rw [hclaim] at h
    cases h
  | some claimed =>
    rw [hclaim] at h
    obtain ⟨rfl, rfl⟩ := Prod.mk.inj (Except.ok.inj h)
    exact ⟨claimed.1, claimed.2, rfl, rfl, rfl⟩

theorem createSession_ok {tokenHash : String} {userId : ℤ}
    (h : createSession s tokenHash userId = .ok s') :
    s' = { s with sessions := s.sessions ++ [⟨tokenHash, userId⟩] } := by
  obtain ⟨_, -, h⟩ := bind_eq_ok.mp h
  exact (pure_eq_ok.mp h).symm

end Specifications

end Jaunder.Storage.Accounts
