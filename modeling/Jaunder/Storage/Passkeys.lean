import Jaunder.Host.Passkey
import Jaunder.Storage.OneTimeSecrets

namespace Jaunder.Storage.Passkeys

open Foundation.OneTime Foundation.Outcome
open Jaunder.Common.Time
open Jaunder.Host.Passkey
open Jaunder.Storage.Accounts Jaunder.Storage.Dialect Jaunder.Storage.OneTimeSecrets

/-- A row of `passkey_credentials`; its `serial` counts the insertions, no column stores it. -/
structure PasskeyCredential (wa : Webauthn) where
  serial : ℕ
  id : String
  userId : ℤ
  label : String
  credential : wa.Credential

structure RegistrationCeremony (wa : Webauthn) where
  userId : ℤ
  sessionTokenHash : String
  label : String
  identity : Identity
  state : wa.RegistrationState

structure AuthenticationCeremony (wa : Webauthn) where
  identity : Identity
  state : wa.AuthenticationState

/-- What has been committed, in this order. -/
inductive Entry
  | registrationStarted (ceremony : ℕ) (auth : Session) (identity : Identity)
  | registered (serial ceremony : ℕ) (auth : Session) (identity : Identity)
      (baseUrl : Option BaseUrl)
  | sessionCreated (serial : ℕ)
  | credentialDeleted (serial : ℕ)

/-- The tables of the passkeys with the two that they depend on, and what has happened to them. -/
structure PasskeyTables (wa : Webauthn) (b : Backend) where
  baseUrl : Option BaseUrl
  credentials : List (PasskeyCredential wa)
  inserted : ℕ
  registrations : Secrets b (RegistrationCeremony wa)
  authentications : Secrets b (AuthenticationCeremony wa)
  sessions : List Session
  history : List Entry

variable {wa : Webauthn} {b : Backend}

/-- `set` and `clear` of `site.base_url`; an empty value is read as no value. -/
inductive BaseUrlMutation
  | set (baseUrl : Option BaseUrl)
  | clear
deriving DecidableEq

def BaseUrlMutation.result : BaseUrlMutation → Option BaseUrl
  | .set baseUrl => baseUrl
  | .clear => none

/-- The guards of the two base-URL mutations: `hasCredentials` is read after `current`. -/
def passkeyGuard (mutation : BaseUrlMutation) (current : Option BaseUrl) (hasCredentials : Bool) :
    Bool :=
  match mutation with
  | .clear => ¬hasCredentials
  | .set requested =>
    if hasCredentials then
      match current, requested with
      | some current, some requested => current.hostStr = requested.hostStr
      | _, _ => false
    else true

def credentialIds (t : PasskeyTables wa b) : List String := t.credentials.map PasskeyCredential.id

/-- `decode_credential` of the row that an id finds. -/
def decodeCredential (t : PasskeyTables wa b) (id : String) : Option (PasskeyCredential wa) :=
  (t.credentials.find? (fun r ↦ r.id = id)).filter (fun r ↦ wa.credentialId r.credential = r.id)

def insertCredential (t : PasskeyTables wa b) (userId : ℤ) (label : String)
    (credential : wa.Credential) : PasskeyTables wa b :=
  { t with
    credentials := t.credentials ++
      [⟨t.inserted, wa.credentialId credential, userId, label, credential⟩]
    inserted := t.inserted + 1 }

def updateCredentialAfterAuthentication (t : PasskeyTables wa b) (userId : ℤ)
    (credential : wa.Credential) : PasskeyTables wa b :=
  { t with
    credentials := t.credentials.map (fun r ↦
      if r.userId = userId ∧ r.id = wa.credentialId credential then { r with credential } else r) }

def deleteCredential (t : PasskeyTables wa b) (userId : ℤ) (id : String) : PasskeyTables wa b :=
  { t with credentials := t.credentials.filter (fun r ↦ ¬(r.userId = userId ∧ r.id = id)) }

/-- Sessions are deleted with the registration ceremonies that refer to them. -/
def revokeSessions (t : PasskeyTables wa b) (tokenHashes : List String) : PasskeyTables wa b :=
  { t with
    sessions := t.sessions.filter (fun s ↦ s.tokenHash ∉ tokenHashes)
    registrations := t.registrations.delete (fun s ↦ s.subject.sessionTokenHash ∈ tokenHashes) }

def createRegistrationCeremony (t : PasskeyTables wa b) (handleHash : String)
    (ceremony : RegistrationCeremony wa) (now expiresAt : UtcInstant) : Option (PasskeyTables wa b) :=
  if ceremony.sessionTokenHash ∈ t.sessions.map Session.tokenHash then
    (t.registrations.insert handleHash ceremony (b.stored now) (b.stored expiresAt)).map
      (fun registrations ↦ { t with registrations })
  else none

def createAuthenticationCeremony (t : PasskeyTables wa b) (handleHash : String)
    (ceremony : AuthenticationCeremony wa) (now expiresAt : UtcInstant) :
    Option (PasskeyTables wa b) :=
  (t.authentications.insert handleHash ceremony (b.stored now) (b.stored expiresAt)).map
    (fun authentications ↦ { t with authentications })

def claimRegistrationCeremony (t : PasskeyTables wa b) (handleHash : String) (now : UtcInstant) :
    Option (Secret String (RegistrationCeremony wa) b.Stored × PasskeyTables wa b) :=
  (t.registrations.claim handleHash (b.stored now) id).map
    (fun (s, registrations) ↦ (s, { t with registrations }))

def claimAuthenticationCeremony (t : PasskeyTables wa b) (handleHash : String) (now : UtcInstant) :
    Option (Secret String (AuthenticationCeremony wa) b.Stored × PasskeyTables wa b) :=
  (t.authentications.claim handleHash (b.stored now) id).map
    (fun (s, authentications) ↦ (s, { t with authentications }))

/-- One domain of `prune_ceremonies`. -/
def pruneDomain {α : Type} (now : UtcInstant) (batchSize : ℕ) (t : Secrets b α) : Secrets b α :=
  let doomed := t.rows.filter (fun s ↦ s.usedAt.isSome ∨ s.expiresAt ≤ b.stored now)
  let batch := ((doomed.map Secret.key).insertionSort (· ≤ ·)).take batchSize
  t.delete (fun s ↦ s.key ∈ batch)

def pruneCeremonies (t : PasskeyTables wa b) (now : UtcInstant) (batchSize : ℕ) :
    PasskeyTables wa b :=
  { t with
    registrations := pruneDomain now batchSize t.registrations
    authentications := pruneDomain now batchSize t.authentications }

end Jaunder.Storage.Passkeys
