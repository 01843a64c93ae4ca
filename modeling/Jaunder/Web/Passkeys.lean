import Jaunder.Foundation.Transactions
import Jaunder.Storage.Passkeys

namespace Jaunder.Web.Passkeys

open Foundation.OneTime Foundation.Outcome Foundation.Run Foundation.Transactions
open Jaunder.Common.Time
open Jaunder.Host.Passkey
open Jaunder.Storage.Accounts Jaunder.Storage.Dialect Jaunder.Storage.OneTimeSecrets
open Jaunder.Storage.Passkeys Jaunder.Storage.WriteScope

/-- The advisory lock of the relying party's host, and the row locks of the credentials. On SQLite
the lock of the one writer stands for all of them, and admits fewer runs. -/
inductive LockKey
  | rpHost
  | credential (id : String)
deriving DecidableEq

variable (wa : Webauthn) (b : Backend)

/-- How far a request has come. -/
inductive Flight
  | idle
  | registrationStarted (auth : Session) (label : String) (identity : Identity)
  | registrationClaimed (auth : Session) (response : String) (serial : ℕ)
      (ceremony : RegistrationCeremony wa)
  | registrationLocked (auth : Session) (response : String) (serial : ℕ)
      (ceremony : RegistrationCeremony wa)
  | registrationVerified (auth : Session) (serial : ℕ) (ceremony : RegistrationCeremony wa)
      (credential : wa.Credential)
  | registrationInserted (auth : Session) (serial : ℕ) (ceremony : RegistrationCeremony wa)
      (credential : wa.Credential)
  | authenticationStarted (identity : Identity)
  | authenticationClaimed (response : String) (ceremony : AuthenticationCeremony wa)
  | authenticationLocked (response : String) (ceremony : AuthenticationCeremony wa)
  | authenticationIdentified (response : String) (ceremony : AuthenticationCeremony wa)
      (userId : ℤ) (credentialId : String)
  | authenticationLoaded (response : String) (ceremony : AuthenticationCeremony wa)
      (stored : PasskeyCredential wa)
  | authenticationFinalized (stored : PasskeyCredential wa) (credential : wa.Credential)
      (session : Session)
  | deletionStarted (auth : Session) (stored : PasskeyCredential wa)
  | deletionRevoked (stored : PasskeyCredential wa) (tokenHashes : List String)
  | baseUrlLocked (mutation : BaseUrlMutation)
  | baseUrlRead (mutation : BaseUrlMutation) (current : Option BaseUrl)
  | baseUrlGuarded (mutation : BaseUrlMutation)

/-- The statements of the requests, and what becomes of their transactions. -/
inductive Action
  | startRegistration (auth : Session) (label : String)
  | createRegistrationCeremony (handleHash : String) (state : wa.RegistrationState)
      (now : UtcInstant) (commit : Commit)
  | claimRegistrationCeremony (auth : Session) (handleHash response : String) (now : UtcInstant)
      (commit : Commit)
  | lockRpHost
  | finishRegistration
  | insertCredential
  | startAuthentication
  | createAuthenticationCeremony (handleHash : String) (state : wa.AuthenticationState)
      (now : UtcInstant) (commit : Commit)
  | claimAuthenticationCeremony (handleHash response : String) (now : UtcInstant) (commit : Commit)
  | identify
  | credentialForAuthentication
  | finalizeAuthentication (tokenHash : String)
  | deleteCredential (auth : Session) (credentialId : String)
  | revokeOtherSessions
  | mutateBaseUrl (mutation : BaseUrlMutation)
  | getBaseUrl
  | hasCredentials
  | pruneCeremonies (now : UtcInstant) (batchSize : ℕ) (commit : Commit)
  | commit (commit : Commit)
  | rollBack

/-- The writes of a transaction. -/
inductive Change
  | rolledBack
  | createRegistrationCeremony (auth : Session) (handleHash : String)
      (ceremony : RegistrationCeremony wa) (now expiresAt : UtcInstant)
  | claimRegistrationCeremony (handleHash : String) (now : UtcInstant)
  | insertCredential (auth : Session) (ceremonySerial : ℕ) (ceremony : RegistrationCeremony wa)
      (credential : wa.Credential)
  | createAuthenticationCeremony (handleHash : String) (ceremony : AuthenticationCeremony wa)
      (now expiresAt : UtcInstant)
  | claimAuthenticationCeremony (handleHash : String) (now : UtcInstant)
  | finalizeAuthentication (stored : PasskeyCredential wa) (credential : wa.Credential)
      (session : Session)
  | deleteCredential (stored : PasskeyCredential wa) (tokenHashes : List String)
  | mutateBaseUrl (mutation : BaseUrlMutation)
  | pruneCeremonies (now : UtcInstant) (batchSize : ℕ)

variable {wa b}

def Flight.held : Flight wa → List LockKey
  | .registrationLocked _ _ _ _ | .registrationVerified _ _ _ _ | .registrationInserted _ _ _ _
  | .authenticationLocked _ _ | .authenticationIdentified _ _ _ _ | .baseUrlLocked _
  | .baseUrlRead _ _ | .baseUrlGuarded _ => [.rpHost]
  | .authenticationLoaded _ _ stored | .authenticationFinalized stored _ _ =>
    [.credential stored.id, .rpHost]
  | .deletionStarted _ stored | .deletionRevoked stored _ => [.credential stored.id]
  | .idle | .registrationStarted _ _ _ | .registrationClaimed _ _ _ _ | .authenticationStarted _
  | .authenticationClaimed _ _ => []

def Change.guards : Change wa → List LockKey
  | .insertCredential _ _ _ _ | .mutateBaseUrl _ => [.rpHost]
  | .finalizeAuthentication stored _ _ | .deleteCredential stored _ => [.credential stored.id]
  | .rolledBack | .createRegistrationCeremony _ _ _ _ _ | .claimRegistrationCeremony _ _
  | .createAuthenticationCeremony _ _ _ _ | .claimAuthenticationCeremony _ _
  | .pruneCeremonies _ _ => []

def record (t : PasskeyTables wa b) (entry : Entry) : PasskeyTables wa b :=
  { t with history := t.history ++ [entry] }

def applyChange (t : PasskeyTables wa b) : Change wa → PasskeyTables wa b
  | .rolledBack => t
  | .createRegistrationCeremony auth handleHash ceremony now expiresAt =>
    match createRegistrationCeremony t handleHash ceremony now expiresAt with
    | some t' => record t' (.registrationStarted t.registrations.issued auth ceremony.identity)
    | none => t
  | .claimRegistrationCeremony handleHash now =>
    ((claimRegistrationCeremony t handleHash now).map Prod.snd).getD t
  | .insertCredential auth serial ceremony credential =>
    record (insertCredential t auth.userId ceremony.label credential)
      (.registered t.inserted serial auth ceremony.identity t.baseUrl)
  | .createAuthenticationCeremony handleHash ceremony now expiresAt =>
    (createAuthenticationCeremony t handleHash ceremony now expiresAt).getD t
  | .claimAuthenticationCeremony handleHash now =>
    ((claimAuthenticationCeremony t handleHash now).map Prod.snd).getD t
  | .finalizeAuthentication stored credential session =>
    let t' := updateCredentialAfterAuthentication t stored.userId credential
    record { t' with sessions := t'.sessions ++ [session] } (.sessionCreated stored.serial)
  | .deleteCredential stored tokenHashes =>
    record (revokeSessions (deleteCredential t stored.userId stored.id) tokenHashes)
      (.credentialDeleted stored.serial)
  | .mutateBaseUrl mutation => { t with baseUrl := mutation.result }
  | .pruneCeremonies now batchSize => pruneCeremonies t now batchSize

/-- The change that a commit makes. -/
def committed (commit : Commit) (change : Change wa) : Change wa :=
  if commit.applies then change else .rolledBack

def ceremonyMinutes : ℕ := 5

def ceremonyExpiry (now : UtcInstant) : UtcInstant :=
  now.saturatingAdd (ceremonyMinutes * 60 * 1000000000)

abbrev Next (wa : Webauthn) : Type := Outcome (Flight wa) LockKey (Change wa)

/-- The request fails, and its transaction is rolled back. -/
def fail : Next wa := .finish .rolledBack .idle

/-- `require_cookie_auth` -/
def requireCookieAuth (t : PasskeyTables wa b) (auth : Session) (go : Next wa) : Next wa :=
  if auth ∈ t.sessions then go else fail

variable (handles : String → Option ℤ)

def next (t : PasskeyTables wa b) : Flight wa → Action wa → Next wa
  | .idle, .startRegistration auth label =>
    requireCookieAuth t auth <|
      match relyingParty wa t.baseUrl with
      | .ok identity => .goto (.registrationStarted auth label identity)
      | .error _ => fail
  | .registrationStarted auth label identity, .createRegistrationCeremony handleHash state now commit =>
    let ceremony := ⟨auth.userId, auth.tokenHash, label, identity, state⟩
    .finish (committed commit
      (.createRegistrationCeremony auth handleHash ceremony now (ceremonyExpiry now))) .idle
  | .idle, .claimRegistrationCeremony auth handleHash response now commit =>
    requireCookieAuth t auth <|
      match claimRegistrationCeremony t handleHash now with
      | some (s, _) =>
        .finish (committed commit (.claimRegistrationCeremony handleHash now))
          (if commit.isConfirmed ∧ s.subject.userId = auth.userId ∧
              s.subject.sessionTokenHash = auth.tokenHash then
            .registrationClaimed auth response s.serial s.subject
          else .idle)
      | none => fail
  | .registrationClaimed auth response serial ceremony, .lockRpHost =>
    .acquire .rpHost (.registrationLocked auth response serial ceremony)
  | .registrationLocked auth response serial ceremony, .finishRegistration =>
    match relyingParty wa t.baseUrl with
    | .ok identity =>
      if ceremony.identity ≠ identity then fail
      else match wa.finishRegistration identity response ceremony.state with
        | some credential => .goto (.registrationVerified auth serial ceremony credential)
        | none => fail
    | .error _ => fail
  | .registrationVerified auth serial ceremony credential, .insertCredential =>
    if wa.credentialId credential ∈ credentialIds t then fail
    else .goto (.registrationInserted auth serial ceremony credential)
  | .registrationInserted auth serial ceremony credential, .commit commit =>
    .finish (committed commit (.insertCredential auth serial ceremony credential)) .idle
  | .idle, .startAuthentication =>
    match relyingParty wa t.baseUrl with
    | .ok identity => .goto (.authenticationStarted identity)
    | .error _ => fail
  | .authenticationStarted identity, .createAuthenticationCeremony handleHash state now commit =>
    .finish (committed commit
      (.createAuthenticationCeremony handleHash ⟨identity, state⟩ now (ceremonyExpiry now))) .idle
  | .idle, .claimAuthenticationCeremony handleHash response now commit =>
    match claimAuthenticationCeremony t handleHash now with
    | some (s, _) =>
      .finish (committed commit (.claimAuthenticationCeremony handleHash now))
        (if commit.isConfirmed then .authenticationClaimed response s.subject else .idle)
    | none => fail
  | .authenticationClaimed response ceremony, .lockRpHost =>
    .acquire .rpHost (.authenticationLocked response ceremony)
  | .authenticationLocked response ceremony, .identify =>
    match relyingParty wa t.baseUrl with
    | .ok identity =>
      if ceremony.identity ≠ identity then fail
      else match wa.identify identity response with
        | some (userHandle, credentialId) =>
          match handles userHandle with
          | some userId => .goto (.authenticationIdentified response ceremony userId credentialId)
          | none => fail
        | none => fail
    | .error _ => fail
  | .authenticationIdentified response ceremony userId credentialId, .credentialForAuthentication =>
    match decodeCredential t credentialId with
    | some stored =>
      if stored.userId = userId then
        .acquire (.credential credentialId) (.authenticationLoaded response ceremony stored)
      else fail
    | none => fail
  | .authenticationLoaded response ceremony stored, .finalizeAuthentication tokenHash =>
    match finishAuthentication wa ceremony.identity response ceremony.state stored.credential with
    | .ok verified =>
      if t.credentials.any (fun r ↦ r.userId = stored.userId ∧
          r.id = wa.credentialId verified.credential) ∧
          tokenHash ∉ t.sessions.map Session.tokenHash then
        .goto (.authenticationFinalized stored verified.credential ⟨tokenHash, stored.userId⟩)
      else fail
    | .error _ => fail
  | .authenticationFinalized stored credential session, .commit commit =>
    .finish (committed commit (.finalizeAuthentication stored credential session)) .idle
  | .idle, .deleteCredential auth credentialId =>
    requireCookieAuth t auth <|
      match t.credentials.find? (fun r ↦ r.userId = auth.userId ∧ r.id = credentialId) with
      | some stored => .acquire (.credential credentialId) (.deletionStarted auth stored)
      | none => fail
  | .deletionStarted auth stored, .revokeOtherSessions =>
    .goto (.deletionRevoked stored
      ((t.sessions.filter (fun s ↦ s.userId = auth.userId ∧ s.tokenHash ≠ auth.tokenHash)).map
        Session.tokenHash))
  | .deletionRevoked stored tokenHashes, .commit commit =>
    .finish (committed commit (.deleteCredential stored tokenHashes)) .idle
  | .idle, .mutateBaseUrl mutation => .acquire .rpHost (.baseUrlLocked mutation)
  | .baseUrlLocked mutation, .getBaseUrl => .goto (.baseUrlRead mutation t.baseUrl)
  | .baseUrlRead mutation current, .hasCredentials =>
    if passkeyGuard mutation current (t.credentials ≠ []) then .goto (.baseUrlGuarded mutation)
    else fail
  | .baseUrlGuarded mutation, .commit commit =>
    .finish (committed commit (.mutateBaseUrl mutation)) .idle
  | .idle, .pruneCeremonies now batchSize commit =>
    .finish (committed commit (.pruneCeremonies now batchSize)) .idle
  | _, .rollBack => fail
  | _, _ => .wait

/-- The requests of the passkeys; `handles` is the table of the user handles. -/
def system : System (PasskeyTables wa b) (Flight wa) LockKey (Change wa) (Action wa) where
  next := next handles
  apply := applyChange
  held := Flight.held

section Moves

/-- What the next statement of a request can come to. -/
inductive Moves (t : PasskeyTables wa b) : Flight wa → Next wa → Prop
  | wait {f} : Moves t f .wait
  | fail {f} : Moves t f fail
  | startRegistration {auth label identity} (h : relyingParty wa t.baseUrl = .ok identity) :
    Moves t .idle (.goto (.registrationStarted auth label identity))
  | createRegistration {auth label identity handleHash state now expiresAt} :
    Moves t (.registrationStarted auth label identity)
      (.finish (.createRegistrationCeremony auth handleHash
        ⟨auth.userId, auth.tokenHash, label, identity, state⟩ now expiresAt) .idle)
  | claimRegistration {auth handleHash response now s t' f}
      (h : claimRegistrationCeremony t handleHash now = some (s, t'))
      (hf : f = .idle ∨ s.subject.userId = auth.userId ∧
        s.subject.sessionTokenHash = auth.tokenHash ∧
          f = .registrationClaimed auth response s.serial s.subject) :
    Moves t .idle (.finish (.claimRegistrationCeremony handleHash now) f)
  | lockRegistration {auth response serial ceremony} :
    Moves t (.registrationClaimed auth response serial ceremony)
      (.acquire .rpHost (.registrationLocked auth response serial ceremony))
  | finishRegistration {auth response serial ceremony credential}
      (h : relyingParty wa t.baseUrl = .ok ceremony.identity) :
    Moves t (.registrationLocked auth response serial ceremony)
      (.goto (.registrationVerified auth serial ceremony credential))
  | insertCredential {auth serial ceremony credential}
      (h : wa.credentialId credential ∉ credentialIds t) :
    Moves t (.registrationVerified auth serial ceremony credential)
      (.goto (.registrationInserted auth serial ceremony credential))
  | commitRegistration {auth serial ceremony credential} :
    Moves t (.registrationInserted auth serial ceremony credential)
      (.finish (.insertCredential auth serial ceremony credential) .idle)
  | startAuthentication {identity} : Moves t .idle (.goto (.authenticationStarted identity))
  | createAuthentication {identity handleHash ceremony now expiresAt} :
    Moves t (.authenticationStarted identity)
      (.finish (.createAuthenticationCeremony handleHash ceremony now expiresAt) .idle)
  | claimAuthentication {handleHash response now ceremony f}
      (hf : f = .idle ∨ f = .authenticationClaimed response ceremony) :
    Moves t .idle (.finish (.claimAuthenticationCeremony handleHash now) f)
  | lockAuthentication {response ceremony} :
    Moves t (.authenticationClaimed response ceremony)
      (.acquire .rpHost (.authenticationLocked response ceremony))
  | identify {response ceremony userId credentialId} :
    Moves t (.authenticationLocked response ceremony)
      (.goto (.authenticationIdentified response ceremony userId credentialId))
  | loadCredential {response ceremony userId credentialId stored}
      (h : decodeCredential t credentialId = some stored) :
    Moves t (.authenticationIdentified response ceremony userId credentialId)
      (.acquire (.credential credentialId) (.authenticationLoaded response ceremony stored))
  | finalizeAuthentication {response ceremony stored verified session}
      (h : finishAuthentication wa ceremony.identity response ceremony.state stored.credential =
        .ok verified) :
    Moves t (.authenticationLoaded response ceremony stored)
      (.goto (.authenticationFinalized stored verified.credential session))
  | commitAuthentication {stored credential session} :
    Moves t (.authenticationFinalized stored credential session)
      (.finish (.finalizeAuthentication stored credential session) .idle)
  | deleteCredential {auth credentialId stored}
      (h : t.credentials.find? (fun r ↦ r.userId = auth.userId ∧ r.id = credentialId) =
        some stored) :
    Moves t .idle (.acquire (.credential credentialId) (.deletionStarted auth stored))
  | revokeOtherSessions {auth stored tokenHashes} :
    Moves t (.deletionStarted auth stored) (.goto (.deletionRevoked stored tokenHashes))
  | commitDeletion {stored tokenHashes} :
    Moves t (.deletionRevoked stored tokenHashes)
      (.finish (.deleteCredential stored tokenHashes) .idle)
  | mutateBaseUrl {mutation} : Moves t .idle (.acquire .rpHost (.baseUrlLocked mutation))
  | getBaseUrl {mutation} :
    Moves t (.baseUrlLocked mutation) (.goto (.baseUrlRead mutation t.baseUrl))
  | hasCredentials {mutation current}
      (h : passkeyGuard mutation current (t.credentials ≠ []) = true) :
    Moves t (.baseUrlRead mutation current) (.goto (.baseUrlGuarded mutation))
  | commitBaseUrl {mutation} :
    Moves t (.baseUrlGuarded mutation) (.finish (.mutateBaseUrl mutation) .idle)
  | pruneCeremonies {now batchSize} :
    Moves t .idle (.finish (.pruneCeremonies now batchSize) .idle)

variable {t : PasskeyTables wa b} {f f' : Flight wa} {a : Action wa} {c : Change wa}
  {commit : Commit}

theorem Moves.committed (h : Moves t f (.finish c f')) (hf' : commit.applies = false → f' = .idle) :
    Moves t f (.finish (committed commit c) f') := by
  rw [Passkeys.committed]
  split_ifs with happlies
  · exact h
  · rw [hf' (eq_false_of_ne_true happlies)]
    exact .fail

theorem moves_requireCookieAuth {auth : Session} {go : Next wa} (h : Moves t f go) :
    Moves t f (requireCookieAuth t auth go) := by
  rw [requireCookieAuth]
  split_ifs
  · exact h
  · exact .fail

/-- Only a confirmed claim lets its request go on. -/
theorem Moves.claimed {P : Prop} [Decidable P] (hP : P → commit.isConfirmed = true)
    (hidle : Moves t f (.finish c .idle)) (hgo : P → Moves t f (.finish c f')) :
    Moves t f (.finish (Passkeys.committed commit c) (if P then f' else .idle)) := by
  split_ifs with h
  · refine (hgo h).committed fun happlies ↦ ?_
    rw [Commit.applies_of_isConfirmed (hP h)] at happlies
    cases happlies
  · exact hidle.committed fun _ ↦ rfl

theorem next_moves : Moves t f (next handles t f a) := by
  fun_cases next handles t f a
  case case1 auth label =>
    refine moves_requireCookieAuth ?_
    cases hidentity : relyingParty wa t.baseUrl with
    | ok identity => exact .startRegistration hidentity
    | error e => exact .fail
  case case2 => exact .committed .createRegistration fun _ ↦ rfl
  case case3 auth handleHash response now commit =>
    refine moves_requireCookieAuth ?_
    cases hclaim : claimRegistrationCeremony t handleHash now with
    | none => exact .fail
    | some p =>
      obtain ⟨s, t'⟩ := p
      refine .claimed And.left ?_ fun hP ↦ ?_
      · have hidle : (Flight.idle : Flight wa) = .idle ∨ s.subject.userId = auth.userId ∧
            s.subject.sessionTokenHash = auth.tokenHash ∧
              (Flight.idle : Flight wa) = .registrationClaimed auth response s.serial s.subject := .inl rfl
        exact .claimRegistration hclaim hidle
      · exact .claimRegistration hclaim (.inr ⟨hP.2.1, hP.2.2, rfl⟩)
  case case4 => exact .lockRegistration
  case case6 hidentity hsame credential hcredential =>
    obtain rfl := not_ne_iff.mp hsame
    exact .finishRegistration hidentity
  case case10 hfresh => exact .insertCredential hfresh
  case case11 => exact .committed .commitRegistration fun _ ↦ rfl
  case case12 => exact .startAuthentication
  case case14 => exact .committed .createAuthentication fun _ ↦ rfl
  case case15 handleHash response now commit s t' hclaim =>
    refine .claimed id ?_ fun _ ↦ .claimAuthentication (.inr rfl)
    have hidle : (Flight.idle : Flight wa) = .idle ∨
        (Flight.idle : Flight wa) = .authenticationClaimed response s.subject := .inl rfl
    exact .claimAuthentication hidle
  case case17 => exact .lockAuthentication
  case case19 => exact .identify
  case case23 hstored => exact .loadCredential hstored
  case case26 hverified hrow => exact .finalizeAuthentication hverified
  case case29 => exact .committed .commitAuthentication fun _ ↦ rfl
  case case30 auth credentialId =>
    refine moves_requireCookieAuth ?_
    cases hstored : t.credentials.find? (fun r ↦ r.userId = auth.userId ∧ r.id = credentialId) with
    | none => exact .fail
    | some stored => exact .deleteCredential hstored
  case case31 => exact .revokeOtherSessions
  case case32 => exact .committed .commitDeletion fun _ ↦ rfl
  case case33 => exact .mutateBaseUrl
  case case34 => exact .getBaseUrl
  case case35 hguard => exact .hasCredentials hguard
  case case37 => exact .committed .commitBaseUrl fun _ ↦ rfl
  case case38 => exact .committed .pruneCeremonies fun _ ↦ rfl
  case case40 => exact .wait
  all_goals exact .fail

end Moves

end Jaunder.Web.Passkeys
