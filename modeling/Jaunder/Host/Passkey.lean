import Jaunder.Foundation.Outcome
import Mathlib.Data.List.DropRight

namespace Jaunder.Host.Passkey

open Foundation.Outcome

inductive UrlHost
  | domain (name : String)
  | ipv4 (text : String)
  | ipv6 (text : String)
deriving DecidableEq

def UrlHost.text : UrlHost → String
  | .domain text | .ipv4 text | .ipv6 text => text

/-- What the URL parser makes of a base URL; `bareOrigin` is its text without path, query and
fragment. -/
structure BaseUrl where
  scheme : String
  host : Option UrlHost
  bareOrigin : String
deriving DecidableEq

def BaseUrl.hostStr (u : BaseUrl) : Option String := u.host.map UrlHost.text

inductive PasskeyError
  | invalidOrigin
  | missingHostname
  | protocol
  | credentialMismatch
deriving DecidableEq

/-- The exact origin and the relying party's id. -/
structure Identity where
  origin : String
  rpId : String
deriving DecidableEq

def httpLoopback (rpId : String) : Bool :=
  rpId = "localhost" ∨ ".localhost".toList <:+ rpId.toList

def webauthnIdentity (u : BaseUrl) : Except PasskeyError Identity :=
  match u.host with
  | none => .error .missingHostname
  | some (.domain rpId) =>
    if u.scheme ≠ "https" ∧ ¬(u.scheme = "http" ∧ httpLoopback rpId) then .error .invalidOrigin
    else .ok ⟨String.ofList (u.bareOrigin.toList.rdropWhile (· = '/')), rpId⟩
  | some (.ipv4 _) | some (.ipv6 _) => .error .invalidOrigin

/-- The WebAuthn library: its values are opaque, its verdicts are trusted. -/
structure Webauthn where
  Credential : Type
  RegistrationState : Type
  AuthenticationState : Type
  AuthenticationResult : Type
  credentialId : Credential → String
  counter : Credential → ℕ
  resultCounter : AuthenticationResult → ℕ
  builds : Identity → Bool
  finishRegistration : Identity → String → RegistrationState → Option Credential
  identify : Identity → String → Option (String × String)
  finishAuthentication :
    Identity → String → AuthenticationState → Credential → Option AuthenticationResult
  updateCredential : Credential → AuthenticationResult → Option Credential

/-- An update changes the credential that it is for, and raises its counter or leaves it. -/
structure Webauthn.Documented (wa : Webauthn) : Prop where
  credentialId : ∀ c result c', wa.updateCredential c result = some c' →
    wa.credentialId c' = wa.credentialId c
  counter : ∀ c result c', wa.updateCredential c result = some c' →
    wa.counter c' = max (wa.counter c) (wa.resultCounter result)

inductive CounterOutcome
  | advance (returned : ℕ)
  | retainHighWater (returned : ℕ)
deriving DecidableEq

def classifyCounter (stored returned : ℕ) : CounterOutcome :=
  if returned > stored then .advance returned else .retainHighWater returned

structure VerifiedAuthentication (wa : Webauthn) where
  credential : wa.Credential
  counter : CounterOutcome

variable {wa : Webauthn} {u : BaseUrl} {i : Identity}

/-- `RelyingParty::from_base_url` with the identity that it stands for. -/
def relyingParty (wa : Webauthn) (baseUrl : Option BaseUrl) : Except PasskeyError Identity := do
  let baseUrl ← orError baseUrl .missingHostname
  let identity ← webauthnIdentity baseUrl
  require (wa.builds identity = true) .protocol
  return identity

/-- `RelyingParty::finish_authentication` -/
def finishAuthentication (wa : Webauthn) (i : Identity) (response : String)
    (state : wa.AuthenticationState) (credential : wa.Credential) :
    Except PasskeyError (VerifiedAuthentication wa) := do
  let result ← orError (wa.finishAuthentication i response state credential) .protocol
  let counter := classifyCounter (wa.counter credential) (wa.resultCounter result)
  let credential ← orError (wa.updateCredential credential result) .credentialMismatch
  return ⟨credential, counter⟩

/-- The id of the relying party is the host of its base URL. -/
theorem webauthnIdentity_rpId (h : webauthnIdentity u = .ok i) : u.hostStr = some i.rpId := by
  rw [webauthnIdentity] at h
  cases hhost : u.host with
  | none =>
    rw [hhost] at h
    exact absurd h nofun
  | some host =>
    rw [hhost] at h
    rw [BaseUrl.hostStr, hhost]
    cases host with
    | ipv4 text => exact absurd h nofun
    | ipv6 text => exact absurd h nofun
    | domain rpId =>
      dsimp only at h
      split_ifs at h
      rw [← Except.ok.inj h]
      rfl

theorem relyingParty_rpId {baseUrl : Option BaseUrl} (h : relyingParty wa baseUrl = .ok i) :
    baseUrl.bind BaseUrl.hostStr = some i.rpId := by
  obtain ⟨u, hu, h⟩ := bind_eq_ok.mp h
  obtain ⟨identity, hidentity, h⟩ := bind_eq_ok.mp h
  obtain ⟨_, -, h⟩ := bind_eq_ok.mp h
  obtain rfl := pure_eq_ok.mp h
  rw [orError_eq_ok.mp hu]
  exact webauthnIdentity_rpId hidentity

/-- What has been verified is the same credential, with no lower counter. -/
theorem finishAuthentication_ok (hwa : wa.Documented) {response : String}
    {state : wa.AuthenticationState} {credential : wa.Credential}
    {verified : VerifiedAuthentication wa}
    (h : finishAuthentication wa i response state credential = .ok verified) :
    wa.credentialId verified.credential = wa.credentialId credential ∧
      wa.counter credential ≤ wa.counter verified.credential := by
  obtain ⟨result, -, h⟩ := bind_eq_ok.mp h
  obtain ⟨c', hupdate, h⟩ := bind_eq_ok.mp h
  obtain rfl := pure_eq_ok.mp h
  have hupdate := orError_eq_ok.mp hupdate
  refine ⟨hwa.credentialId _ _ _ hupdate, ?_⟩
  rw [hwa.counter _ _ _ hupdate]
  exact le_max_left _ _

/-- The counter that is stored is the higher one, and the outcome says which. -/
theorem finishAuthentication_counter (hwa : wa.Documented) {response : String}
    {state : wa.AuthenticationState} {credential : wa.Credential}
    {verified : VerifiedAuthentication wa}
    (h : finishAuthentication wa i response state credential = .ok verified) :
    verified.counter = .advance (wa.counter verified.credential) ∧
        wa.counter credential < wa.counter verified.credential ∨
      ∃ returned, verified.counter = .retainHighWater returned ∧
        wa.counter verified.credential = wa.counter credential := by
  obtain ⟨result, -, h⟩ := bind_eq_ok.mp h
  obtain ⟨c', hupdate, h⟩ := bind_eq_ok.mp h
  obtain rfl := pure_eq_ok.mp h
  have hcounter := hwa.counter _ _ _ (orError_eq_ok.mp hupdate)
  dsimp only
  rw [classifyCounter]
  split_ifs with hadvance
  · refine .inl ⟨?_, ?_⟩
    · rw [hcounter, max_eq_right hadvance.le]
    · rw [hcounter]
      exact lt_max_of_lt_right hadvance
  · exact .inr ⟨_, rfl, hcounter.trans (max_eq_left (not_lt.mp hadvance))⟩

end Jaunder.Host.Passkey
