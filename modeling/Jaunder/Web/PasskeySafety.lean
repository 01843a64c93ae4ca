import Jaunder.Web.Passkeys

namespace Jaunder.Web.Passkeys

open Foundation.OneTime Foundation.Outcome Foundation.Run Foundation.Transactions
open Jaunder.Common.Time
open Jaunder.Host.Passkey
open Jaunder.Storage.Accounts Jaunder.Storage.Dialect Jaunder.Storage.OneTimeSecrets
open Jaunder.Storage.Passkeys Jaunder.Storage.WriteScope

variable {wa : Webauthn} {b : Backend}

section Ceremonies

variable {α : Type} {t t' : Secrets b α} {s : Secret String α b.Stored} {key : String}
  {now : UtcInstant}

/-- Every ceremony is claimed once at most, by the clock of its claim. -/
structure Claimed (t : Secrets b α) : Prop where
  sound : t.Sound
  clocked : ∀ c ∈ t.consumed, ∃ now, c.usedAt = b.stored now

theorem Claimed.insert {subject : α} {createdAt expiresAt : b.Stored} (h : Claimed t)
    (hinsert : t.insert key subject createdAt expiresAt = some t') : Claimed t' := by
  refine ⟨h.sound.insert hinsert, ?_⟩
  obtain ⟨-, rfl⟩ := Table.insert_eq_some hinsert
  exact h.clocked

theorem Claimed.claim {f : α → α} (h : Claimed t)
    (hclaim : t.claim key (b.stored now) f = some (s, t')) : Claimed t' := by
  refine ⟨h.sound.claim hclaim, fun c hc ↦ ?_⟩
  obtain ⟨-, -, -, rfl⟩ := Table.claim_eq_some hclaim
  rcases List.mem_append.mp hc with hc | hc
  · exact h.clocked c hc
  · rw [List.mem_singleton.mp hc]
    exact ⟨now, rfl⟩

theorem Claimed.delete (h : Claimed t) (p : Secret String α b.Stored → Bool) :
    Claimed (t.delete p) :=
  ⟨h.sound.delete p, h.clocked⟩

/-- A claim keeps what the ceremonies are for. -/
theorem subject_of_claimed (h : t.claim key (b.stored now) id = some (s, t')) :
    s ∈ t.rows ∧ ∀ r' ∈ t'.rows, ∃ r ∈ t.rows, r.serial = r'.serial ∧ r.subject = r'.subject := by
  obtain ⟨hs, -, -, rfl⟩ := Table.claim_eq_some h
  refine ⟨hs, fun r' hr' ↦ ?_⟩
  obtain ⟨r, hr, rfl⟩ := List.mem_map.mp hr'
  refine ⟨r, hr, ?_⟩
  split_ifs <;> exact ⟨rfl, rfl⟩

end Ceremonies

section Histories

variable {before history : List Entry} {entry : Entry}

/-- What must have come before an entry, and what must not. -/
def JustifiedBy (wa : Webauthn) (before : List Entry) : Entry → Prop
  | .registered _ ceremony auth identity baseUrl =>
    relyingParty wa baseUrl = .ok identity ∧ .registrationStarted ceremony auth identity ∈ before
  | .sessionCreated serial => .credentialDeleted serial ∉ before
  | .registrationStarted _ _ _ | .credentialDeleted _ => True

def Justified (wa : Webauthn) (history : List Entry) : Prop :=
  ∀ before entry after, history = before ++ entry :: after → JustifiedBy wa before entry

theorem Justified.concat (h : Justified wa history) (hentry : JustifiedBy wa history entry) :
    Justified wa (history ++ [entry]) := by
  intro before e after heq
  rcases List.eq_nil_or_concat after with rfl | ⟨after', last, rfl⟩
  · obtain ⟨rfl, he⟩ := List.append_inj' heq rfl
    rwa [← List.singleton_inj.mp he]
  · rw [List.concat_eq_append, ← List.cons_append, ← List.append_assoc] at heq
    exact h before e after' (List.append_inj' heq rfl).1

end Histories

/-- The relying party that a base URL stands for is its host. -/
def rpIdOf (baseUrl : Option BaseUrl) : Option String := baseUrl.bind BaseUrl.hostStr

/-- A credential of the user has been registered under this relying party. -/
def RegisteredUnder (history : List Entry) (rpId : Option String) (r : PasskeyCredential wa) : Prop :=
  ∃ ceremony auth identity baseUrl, .registered r.serial ceremony auth identity baseUrl ∈ history ∧
    auth.userId = r.userId ∧ rpId = some identity.rpId

theorem RegisteredUnder.mono {history history' : List Entry} {rpId : Option String}
    {r r' : PasskeyCredential wa} (h : RegisteredUnder history rpId r) (hsub : history ⊆ history')
    (hserial : r'.serial = r.serial) (huser : r'.userId = r.userId) :
    RegisteredUnder history' rpId r' := by
  obtain ⟨ceremony, auth, identity, baseUrl, hentry, hauth, hrpId⟩ := h
  rw [← hserial] at hentry
  exact ⟨ceremony, auth, identity, baseUrl, hsub hentry, hauth.trans huser.symm, hrpId⟩

structure Inv (t : PasskeyTables wa b) : Prop where
  bound : ∀ r ∈ t.credentials, RegisteredUnder t.history (rpIdOf t.baseUrl) r
  serials : (t.credentials.map PasskeyCredential.serial).Nodup
  serial_lt : ∀ r ∈ t.credentials, r.serial < t.inserted
  ids : (credentialIds t).Nodup
  registrations : Claimed t.registrations
  authentications : Claimed t.authentications
  started : ∀ s ∈ t.registrations.rows, .registrationStarted s.serial
    ⟨s.subject.sessionTokenHash, s.subject.userId⟩ s.subject.identity ∈ t.history
  deleted : ∀ serial, .credentialDeleted serial ∈ t.history →
    serial < t.inserted ∧ serial ∉ t.credentials.map PasskeyCredential.serial
  justified : Justified wa t.history

/-- What a request knows of the tables from its statements, as long as it holds its locks. -/
def Knows (t : PasskeyTables wa b) : Flight wa → Prop
  | .registrationClaimed auth _ serial ceremony | .registrationLocked auth _ serial ceremony =>
    .registrationStarted serial auth ceremony.identity ∈ t.history
  | .registrationVerified auth serial ceremony _ =>
    .registrationStarted serial auth ceremony.identity ∈ t.history ∧
      relyingParty wa t.baseUrl = .ok ceremony.identity
  | .registrationInserted auth serial ceremony credential =>
    .registrationStarted serial auth ceremony.identity ∈ t.history ∧
      relyingParty wa t.baseUrl = .ok ceremony.identity ∧
        wa.credentialId credential ∉ credentialIds t
  | .authenticationLoaded _ _ stored =>
    stored ∈ t.credentials ∧ wa.credentialId stored.credential = stored.id
  | .authenticationFinalized stored credential _ =>
    stored ∈ t.credentials ∧ wa.credentialId credential = stored.id ∧
      wa.counter stored.credential ≤ wa.counter credential
  | .deletionStarted _ stored | .deletionRevoked stored _ => stored ∈ t.credentials
  | .baseUrlRead _ current => t.baseUrl = current
  | .baseUrlGuarded mutation =>
    t.credentials = [] ∨ rpIdOf mutation.result = rpIdOf t.baseUrl
  | .idle | .registrationStarted _ _ _ | .authenticationStarted _ | .authenticationClaimed _ _
  | .authenticationLocked _ _ | .authenticationIdentified _ _ _ _ | .baseUrlLocked _ => True

/-- What the others can rely on while somebody with these locks changes the tables. -/
structure Moved (t t' : PasskeyTables wa b) (guards : List LockKey) : Prop where
  history : t.history ⊆ t'.history
  baseUrl : .rpHost ∉ guards → t'.baseUrl = t.baseUrl
  kept : ∀ r ∈ t.credentials, .credential r.id ∉ guards → r ∈ t'.credentials
  ids : .rpHost ∉ guards → credentialIds t' ⊆ credentialIds t

variable {t t' : PasskeyTables wa b} {f f' g : Flight wa} {c : Change wa} {guards : List LockKey}

theorem Moved.of_same (hhistory : t.history ⊆ t'.history) (hbaseUrl : t'.baseUrl = t.baseUrl)
    (hcredentials : t'.credentials = t.credentials) : Moved t t' guards := by
  refine ⟨hhistory, fun _ ↦ hbaseUrl, fun r hr _ ↦ ?_, fun _ id hid ↦ ?_⟩
  · rwa [hcredentials]
  · rwa [credentialIds, ← hcredentials]

/-- Nobody changes what is known under locks of its own. -/
theorem Moved.knows (h : Moved t t' guards) (hknows : Knows t g)
    (hlocks : ∀ k ∈ guards, k ∉ g.held) : Knows t' g := by
  have hfree {k : LockKey} (hk : k ∈ g.held) : k ∉ guards := fun hguard ↦ hlocks k hguard hk
  cases g with
  | registrationClaimed auth response serial ceremony => exact h.history hknows
  | registrationLocked auth response serial ceremony => exact h.history hknows
  | registrationVerified auth serial ceremony credential =>
    refine ⟨h.history hknows.1, ?_⟩
    rw [h.baseUrl (hfree List.mem_cons_self)]
    exact hknows.2
  | registrationInserted auth serial ceremony credential =>
    obtain ⟨hstarted, hidentity, hfresh⟩ := hknows
    have hrpHost := hfree List.mem_cons_self
    refine ⟨h.history hstarted, ?_, fun hid ↦ hfresh (h.ids hrpHost hid)⟩
    rw [h.baseUrl hrpHost]
    exact hidentity
  | authenticationLoaded response ceremony stored =>
    exact ⟨h.kept stored hknows.1 (hfree List.mem_cons_self), hknows.2⟩
  | authenticationFinalized stored credential session =>
    exact ⟨h.kept stored hknows.1 (hfree List.mem_cons_self), hknows.2⟩
  | deletionStarted auth stored => exact h.kept stored hknows (hfree List.mem_cons_self)
  | deletionRevoked stored tokenHashes => exact h.kept stored hknows (hfree List.mem_cons_self)
  | baseUrlRead mutation current => exact (h.baseUrl (hfree List.mem_cons_self)).trans hknows
  | baseUrlGuarded mutation =>
    have hrpHost := hfree List.mem_cons_self
    rcases hknows with hnone | hsame
    · have hids := h.ids hrpHost
      rw [credentialIds, credentialIds, hnone] at hids
      exact .inl (List.map_eq_nil_iff.mp (List.eq_nil_of_subset_nil hids))
    · exact .inr (hsame.trans (congrArg rpIdOf (h.baseUrl hrpHost).symm))
  | idle => trivial
  | registrationStarted auth label identity => trivial
  | authenticationStarted identity => trivial
  | authenticationClaimed response ceremony => trivial
  | authenticationLocked response ceremony => trivial
  | authenticationIdentified response ceremony userId credentialId => trivial
  | baseUrlLocked mutation => trivial

section Statements

theorem decodeCredential_some {id : String} {stored : PasskeyCredential wa}
    (h : decodeCredential t id = some stored) :
    stored ∈ t.credentials ∧ stored.id = id ∧ wa.credentialId stored.credential = stored.id := by
  obtain ⟨hfind, hpayload⟩ := Option.filter_eq_some_iff.mp h
  have hid := List.find?_some hfind
  exact ⟨List.mem_of_find?_eq_some hfind, of_decide_eq_true hid, of_decide_eq_true hpayload⟩

/-- The guard lets a mutation through that keeps the host, or that no credential depends on. -/
theorem passkeyGuard_sound {mutation : BaseUrlMutation} {current : Option BaseUrl}
    (h : passkeyGuard mutation current (t.credentials ≠ []) = true) :
    t.credentials = [] ∨ rpIdOf mutation.result = rpIdOf current := by
  by_cases hnone : t.credentials = []
  · exact .inl hnone
  · refine .inr ?_
    rw [decide_eq_true hnone] at h
    cases mutation with
    | clear => exact absurd h (by simp [passkeyGuard])
    | set requested =>
      cases current with
      | none => exact absurd h (by simp [passkeyGuard])
      | some current =>
        cases requested with
        | none => exact absurd h (by simp [passkeyGuard])
        | some requested => exact (of_decide_eq_true h).symm

theorem goto_knows (hwa : wa.Documented) (h : Moves t f (.goto f')) (hknows : Knows t f) :
    Knows t f' ∧ f'.held ⊆ f.held := by
  cases h with
  | startRegistration hidentity => exact ⟨trivial, List.Subset.refl _⟩
  | finishRegistration hidentity => exact ⟨⟨hknows, hidentity⟩, List.Subset.refl _⟩
  | insertCredential hfresh => exact ⟨⟨hknows.1, hknows.2, hfresh⟩, List.Subset.refl _⟩
  | startAuthentication => exact ⟨trivial, List.Subset.refl _⟩
  | identify => exact ⟨trivial, List.Subset.refl _⟩
  | finalizeAuthentication hverified =>
    obtain ⟨hid, hcounter⟩ := finishAuthentication_ok hwa hverified
    exact ⟨⟨hknows.1, hid.trans hknows.2, hcounter⟩, List.Subset.refl _⟩
  | revokeOtherSessions => exact ⟨hknows, List.Subset.refl _⟩
  | getBaseUrl => exact ⟨rfl, List.Subset.refl _⟩
  | hasCredentials hguard =>
    refine ⟨?_, List.Subset.refl _⟩
    rw [Knows] at hknows
    rw [Knows, hknows]
    exact passkeyGuard_sound hguard

theorem acquire_knows {k : LockKey} (h : Moves t f (.acquire k f')) (hknows : Knows t f) :
    Knows t f' ∧ f'.held ⊆ k :: f.held := by
  cases h with
  | lockRegistration => exact ⟨hknows, List.Subset.refl _⟩
  | lockAuthentication => exact ⟨trivial, List.Subset.refl _⟩
  | loadCredential hstored =>
    obtain ⟨hmem, rfl, hpayload⟩ := decodeCredential_some hstored
    exact ⟨⟨hmem, hpayload⟩, List.Subset.refl _⟩
  | deleteCredential hstored =>
    have hfound := List.find?_some hstored
    obtain ⟨-, rfl⟩ := of_decide_eq_true hfound
    exact ⟨List.mem_of_find?_eq_some hstored, List.Subset.refl _⟩
  | mutateBaseUrl => exact ⟨trivial, List.Subset.refl _⟩

end Statements

section Changes

theorem createRegistrationCeremony_some {handleHash : String} {ceremony : RegistrationCeremony wa}
    {now expiresAt : UtcInstant}
    (h : createRegistrationCeremony t handleHash ceremony now expiresAt = some t') :
    ∃ registrations, t.registrations.insert handleHash ceremony (b.stored now) (b.stored expiresAt) =
      some registrations ∧ t' = { t with registrations } := by
  rw [createRegistrationCeremony] at h
  split_ifs at h
  obtain ⟨registrations, hinsert, rfl⟩ := Option.map_eq_some_iff.mp h
  exact ⟨registrations, hinsert, rfl⟩

theorem claimRegistrationCeremony_some {handleHash : String} {now : UtcInstant}
    {s : Secret String (RegistrationCeremony wa) b.Stored}
    (h : claimRegistrationCeremony t handleHash now = some (s, t')) :
    ∃ registrations, t.registrations.claim handleHash (b.stored now) id = some (s, registrations) ∧
      t' = { t with registrations } := by
  obtain ⟨⟨s', registrations⟩, hclaim, heq⟩ := Option.map_eq_some_iff.mp h
  obtain ⟨rfl, rfl⟩ := Prod.mk.inj heq
  exact ⟨registrations, hclaim, rfl⟩

theorem authentications_created {handleHash : String} {ceremony : AuthenticationCeremony wa}
    {now expiresAt : UtcInstant} (h : Claimed t.authentications) :
    ∃ authentications, Claimed authentications ∧
      applyChange t (.createAuthenticationCeremony handleHash ceremony now expiresAt) =
        { t with authentications } := by
  cases hinsert :
    t.authentications.insert handleHash ceremony (b.stored now) (b.stored expiresAt) with
  | none =>
    refine ⟨t.authentications, h, ?_⟩
    simp only [applyChange, createAuthenticationCeremony, hinsert, Option.map_none,
      Option.getD_none]
  | some authentications =>
    refine ⟨authentications, h.insert hinsert, ?_⟩
    simp only [applyChange, createAuthenticationCeremony, hinsert, Option.map_some,
      Option.getD_some]

theorem authentications_claimed {handleHash : String} {now : UtcInstant}
    (h : Claimed t.authentications) :
    ∃ authentications, Claimed authentications ∧
      applyChange t (.claimAuthenticationCeremony handleHash now) = { t with authentications } := by
  cases hclaim : t.authentications.claim handleHash (b.stored now) id with
  | none =>
    refine ⟨t.authentications, h, ?_⟩
    simp only [applyChange, claimAuthenticationCeremony, hclaim, Option.map_none,
      Option.getD_none]
  | some p =>
    obtain ⟨s, authentications⟩ := p
    refine ⟨authentications, h.claim hclaim, ?_⟩
    simp only [applyChange, claimAuthenticationCeremony, hclaim, Option.map_some,
      Option.getD_some]

/-- A credential stays at its counter or goes to a higher one. -/
structure Grows (t t' : PasskeyTables wa b) : Prop where
  inserted : t.inserted ≤ t'.inserted
  counter : ∀ r' ∈ t'.credentials, r'.serial < t.inserted → ∃ r ∈ t.credentials,
    r.serial = r'.serial ∧ wa.counter r.credential ≤ wa.counter r'.credential

theorem Grows.of_same (hinserted : t'.inserted = t.inserted)
    (hcredentials : t'.credentials = t.credentials) : Grows t t' := by
  refine ⟨hinserted.ge, fun r hr _ ↦ ⟨r, ?_, rfl, le_rfl⟩⟩
  rwa [← hcredentials]

theorem Grows.trans {t'' : PasskeyTables wa b} (h : Grows t t') (h' : Grows t' t'') :
    Grows t t'' := by
  refine ⟨h.inserted.trans h'.inserted, fun r'' hr'' hlt ↦ ?_⟩
  obtain ⟨r', hr', hserial', hcounter'⟩ := h'.counter r'' hr'' (hlt.trans_le h.inserted)
  rw [← hserial'] at hlt ⊢
  obtain ⟨r, hr, hserial, hcounter⟩ := h.counter r' hr' hlt
  exact ⟨r, hr, hserial, hcounter.trans hcounter'⟩

/-- A change that keeps the invariants, and that the others can live with. -/
structure Lawful (t t' : PasskeyTables wa b) (guards : List LockKey) : Prop where
  inv : Inv t'
  moved : Moved t t' guards
  grows : Grows t t'

/-- Ceremonies come and go without the credentials. -/
theorem lawful_of_ceremonies (h : Inv t) {registrations : Secrets b (RegistrationCeremony wa)}
    {authentications : Secrets b (AuthenticationCeremony wa)} (sessions : List Session)
    (hregistrations : Claimed registrations) (hauthentications : Claimed authentications)
    (hsubjects : ∀ s ∈ registrations.rows, ∃ r ∈ t.registrations.rows,
      r.serial = s.serial ∧ r.subject = s.subject) :
    Lawful t { t with registrations, authentications, sessions } guards := by
  refine ⟨⟨h.bound, h.serials, h.serial_lt, h.ids, hregistrations, hauthentications,
    fun s hs ↦ ?_, h.deleted, h.justified⟩, .of_same (List.Subset.refl _) rfl rfl, .of_same rfl rfl⟩
  obtain ⟨r, hr, hserial, hsubject⟩ := hsubjects s hs
  rw [← hserial, ← hsubject]
  exact h.started r hr

theorem lawful_delete (h : Inv t) (p : Secret String (RegistrationCeremony wa) b.Stored → Bool)
    (q : Secret String (AuthenticationCeremony wa) b.Stored → Bool) (sessions : List Session) :
    Lawful t { t with
      registrations := t.registrations.delete p
      authentications := t.authentications.delete q
      sessions } guards :=
  lawful_of_ceremonies h sessions (h.registrations.delete p) (h.authentications.delete q)
    fun s hs ↦ ⟨s, List.mem_of_mem_filter hs, rfl, rfl⟩

theorem lawful_refl (h : Inv t) : Lawful t t guards :=
  lawful_of_ceremonies h t.sessions h.registrations h.authentications
    fun s hs ↦ ⟨s, hs, rfl, rfl⟩

theorem lawful_createRegistration (h : Inv t) {auth : Session} {handleHash label : String}
    {identity : Identity} {state : wa.RegistrationState} {now expiresAt : UtcInstant} :
    Lawful t (applyChange t (.createRegistrationCeremony auth handleHash
      ⟨auth.userId, auth.tokenHash, label, identity, state⟩ now expiresAt)) guards := by
  rw [applyChange]
  cases hcreate : createRegistrationCeremony t handleHash
      ⟨auth.userId, auth.tokenHash, label, identity, state⟩ now expiresAt with
  | none => exact lawful_refl h
  | some t' =>
    obtain ⟨registrations, hinsert, rfl⟩ := createRegistrationCeremony_some hcreate
    have hhistory : t.history ⊆ t.history ++ [.registrationStarted t.registrations.issued auth identity] :=
      List.subset_append_left _ _
    refine ⟨⟨fun r hr ↦ (h.bound r hr).mono hhistory rfl rfl, h.serials, h.serial_lt, h.ids,
      h.registrations.insert hinsert, h.authentications, fun s hs ↦ ?_, fun serial hserial ↦ ?_,
      h.justified.concat trivial⟩,
      .of_same hhistory rfl rfl, .of_same rfl rfl⟩
    · obtain ⟨-, rfl⟩ := Table.insert_eq_some hinsert
      rcases List.mem_append.mp hs with hs | hs
      · exact hhistory (h.started s hs)
      · rw [List.mem_singleton.mp hs]
        exact List.mem_append_right _ List.mem_cons_self
    · rcases List.mem_append.mp hserial with hserial | hserial
      · exact h.deleted serial hserial
      · exact absurd (List.mem_singleton.mp hserial) nofun

theorem lawful_insertCredential (h : Inv t) {auth : Session} {serial : ℕ}
    {ceremony : RegistrationCeremony wa} {credential : wa.Credential}
    (hknows : Knows t (.registrationInserted auth serial ceremony credential))
    (hguards : LockKey.rpHost ∈ guards) :
    Lawful t (applyChange t (.insertCredential auth serial ceremony credential)) guards := by
  obtain ⟨hstarted, hidentity, hfresh⟩ := hknows
  have hserial : t.inserted ∉ t.credentials.map PasskeyCredential.serial := by
    intro hmem
    obtain ⟨r, hr, hserial⟩ := List.mem_map.mp hmem
    exact (h.serial_lt r hr).ne hserial
  have hdisjoint {κ : Type} {keys : List κ} {key : κ} (hkeys : keys.Nodup) (hkey : key ∉ keys) :
      (keys ++ [key]).Nodup := by
    rw [← List.concat_eq_append]
    exact hkeys.concat hkey
  refine ⟨⟨fun r hr ↦ ?_, ?_, fun r hr ↦ ?_, ?_, h.registrations, h.authentications,
      fun s hs ↦ List.mem_append_left _ (h.started s hs), fun n hn ↦ ?_,
      h.justified.concat ⟨hidentity, hstarted⟩⟩,
    ⟨List.subset_append_left _ _, fun _ ↦ rfl, fun r hr _ ↦ List.mem_append_left _ hr,
      fun hrpHost ↦ absurd hguards hrpHost⟩,
    ⟨Nat.le_succ _, fun r hr hlt ↦ ?_⟩⟩
  · rcases List.mem_append.mp hr with hr | hr
    · exact (h.bound r hr).mono (List.subset_append_left _ _) rfl rfl
    · rw [List.mem_singleton.mp hr]
      exact ⟨serial, auth, ceremony.identity, t.baseUrl, List.mem_append_right _ List.mem_cons_self,
        rfl, relyingParty_rpId hidentity⟩
  · change ((t.credentials ++ [_]).map PasskeyCredential.serial).Nodup
    rw [List.map_append]
    exact hdisjoint h.serials hserial
  · rcases List.mem_append.mp hr with hr | hr
    · exact (h.serial_lt r hr).trans (Nat.lt_succ_self _)
    · rw [List.mem_singleton.mp hr]
      exact Nat.lt_succ_self _
  · change ((t.credentials ++ [_]).map PasskeyCredential.id).Nodup
    rw [List.map_append]
    exact hdisjoint h.ids hfresh
  · rcases List.mem_append.mp hn with hn | hn
    · obtain ⟨hlt, hgone⟩ := h.deleted n hn
      refine ⟨hlt.trans (Nat.lt_succ_self _), fun hmem ↦ ?_⟩
      obtain ⟨r, hr, rfl⟩ := List.mem_map.mp hmem
      rcases List.mem_append.mp hr with hr | hr
      · exact hgone (List.mem_map_of_mem hr)
      · rw [List.mem_singleton.mp hr] at hlt
        exact lt_irrefl _ hlt
    · exact absurd (List.mem_singleton.mp hn) nofun
  · rcases List.mem_append.mp hr with hr | hr
    · exact ⟨r, hr, rfl, le_rfl⟩
    · rw [List.mem_singleton.mp hr] at hlt
      exact absurd hlt (lt_irrefl _)

/-- Only the row of the credential changes, and only in what has been verified. -/
theorem lawful_finalizeAuthentication (h : Inv t) {stored : PasskeyCredential wa}
    {credential : wa.Credential} {session : Session}
    (hknows : Knows t (.authenticationFinalized stored credential session))
    (hguards : LockKey.credential stored.id ∈ guards) :
    Lawful t (applyChange t (.finalizeAuthentication stored credential session)) guards := by
  obtain ⟨hstored, hid, hcounter⟩ := hknows
  have hrows : ∀ r' ∈ (applyChange t (.finalizeAuthentication stored credential session)).credentials,
      ∃ r ∈ t.credentials, r.serial = r'.serial ∧ r.userId = r'.userId ∧
        wa.counter r.credential ≤ wa.counter r'.credential := by
    intro r' hr'
    obtain ⟨r, hr, rfl⟩ := List.mem_map.mp hr'
    refine ⟨r, hr, ?_⟩
    split_ifs with hmatch
    · obtain rfl := List.inj_on_of_nodup_map h.ids hr hstored (hmatch.2.trans hid)
      exact ⟨rfl, rfl, hcounter⟩
    · exact ⟨rfl, rfl, le_rfl⟩
  have hserials : (applyChange t (.finalizeAuthentication stored credential session)).credentials.map
      PasskeyCredential.serial = t.credentials.map PasskeyCredential.serial := by
    refine (List.map_map).trans (List.map_congr_left fun r hr ↦ ?_)
    rw [Function.comp_apply]
    split_ifs <;> rfl
  have hids : credentialIds (applyChange t (.finalizeAuthentication stored credential session)) =
      credentialIds t := by
    refine (List.map_map).trans (List.map_congr_left fun r hr ↦ ?_)
    rw [Function.comp_apply]
    split_ifs <;> rfl
  refine ⟨⟨fun r' hr' ↦ ?_, hserials.symm ▸ h.serials, fun r' hr' ↦ ?_, hids.symm ▸ h.ids,
      h.registrations, h.authentications, fun s hs ↦ List.mem_append_left _ (h.started s hs),
      fun n hn ↦ ?_, h.justified.concat fun hmem ↦ ?_⟩,
    ⟨List.subset_append_left _ _, fun _ ↦ rfl, fun r hr hfree ↦ List.mem_map.mpr ⟨r, hr, if_neg ?_⟩,
      fun _ id hid ↦ hids ▸ hid⟩,
    ⟨le_rfl, fun r' hr' _ ↦ ?_⟩⟩
  · obtain ⟨r, hr, hserial, huser, -⟩ := hrows r' hr'
    exact (h.bound r hr).mono (List.subset_append_left _ _) hserial.symm huser.symm
  · obtain ⟨r, hr, hserial, -, -⟩ := hrows r' hr'
    rw [← hserial]
    exact h.serial_lt r hr
  · rw [hserials]
    rcases List.mem_append.mp hn with hn | hn
    · exact h.deleted n hn
    · exact absurd (List.mem_singleton.mp hn) nofun
  · exact (h.deleted _ hmem).2 (List.mem_map_of_mem hstored)
  · intro hmatch
    rw [hmatch.2, hid] at hfree
    exact hfree hguards
  · obtain ⟨r, hr, hserial, -, hcounter⟩ := hrows r' hr'
    exact ⟨r, hr, hserial, hcounter⟩

theorem lawful_deleteCredential (h : Inv t) {stored : PasskeyCredential wa}
    {tokenHashes : List String} (hstored : stored ∈ t.credentials)
    (hguards : LockKey.credential stored.id ∈ guards) :
    Lawful t (applyChange t (.deleteCredential stored tokenHashes)) guards := by
  have hsub : (applyChange t (.deleteCredential stored tokenHashes)).credentials.Sublist
      t.credentials := List.filter_sublist
  refine ⟨⟨fun r hr ↦ (h.bound r (hsub.subset hr)).mono (List.subset_append_left _ _) rfl rfl,
      h.serials.sublist (hsub.map _),
      fun r hr ↦ h.serial_lt r (hsub.subset hr), h.ids.sublist (hsub.map _),
      h.registrations.delete _, h.authentications,
      fun s hs ↦ List.mem_append_left _ (h.started s (List.mem_of_mem_filter hs)), fun n hn ↦ ?_,
      h.justified.concat trivial⟩,
    ⟨List.subset_append_left _ _, fun _ ↦ rfl, fun r hr hfree ↦ List.mem_filter.mpr ⟨hr, ?_⟩,
      fun _ ↦ (hsub.map _).subset⟩,
    ⟨le_rfl, fun r hr _ ↦ ⟨r, hsub.subset hr, rfl, le_rfl⟩⟩⟩
  · rcases List.mem_append.mp hn with hn | hn
    · obtain ⟨hlt, hgone⟩ := h.deleted n hn
      exact ⟨hlt, fun hmem ↦ hgone ((hsub.map _).subset hmem)⟩
    · obtain rfl := Entry.credentialDeleted.inj (List.mem_singleton.mp hn)
      refine ⟨h.serial_lt stored hstored, fun hmem ↦ ?_⟩
      obtain ⟨r, hr, hserial⟩ := List.mem_map.mp hmem
      obtain rfl := List.inj_on_of_nodup_map h.serials (hsub.subset hr) hstored hserial
      have hkept := (List.mem_filter.mp hr).2
      simp at hkept
  · refine decide_eq_true fun hmatch ↦ ?_
    rw [hmatch.2] at hfree
    exact hfree hguards

theorem lawful_mutateBaseUrl (h : Inv t) {mutation : BaseUrlMutation}
    (hknows : Knows t (.baseUrlGuarded mutation)) (hguards : LockKey.rpHost ∈ guards) :
    Lawful t (applyChange t (.mutateBaseUrl mutation)) guards := by
  refine ⟨⟨fun r hr ↦ ?_, h.serials, h.serial_lt, h.ids, h.registrations, h.authentications,
      h.started, h.deleted, h.justified⟩,
    ⟨List.Subset.refl _, fun hrpHost ↦ absurd hguards hrpHost, fun r hr _ ↦ hr,
      fun _ ↦ List.Subset.refl _⟩,
    .of_same rfl rfl⟩
  rcases hknows with hnone | hsame
  · have hr : r ∈ t.credentials := hr
    rw [hnone] at hr
    exact absurd hr List.not_mem_nil
  · obtain ⟨ceremony, auth, identity, baseUrl, hentry, hauth, hrpId⟩ := h.bound r hr
    exact ⟨ceremony, auth, identity, baseUrl, hentry, hauth, hsame.trans hrpId⟩

/-- The end of a transaction: what it knows is enough for what it writes. -/
theorem finish_lawful (h : Inv t) (hmoves : Moves t f (.finish c f')) (hknows : Knows t f) :
    Lawful t (applyChange t c) c.guards ∧ Knows (applyChange t c) f' ∧ f'.held = [] ∧
      c.guards ⊆ f.held := by
  cases hmoves with
  | fail => exact ⟨lawful_refl h, trivial, rfl, List.nil_subset _⟩
  | createRegistration =>
    exact ⟨lawful_createRegistration h, trivial, rfl, List.nil_subset _⟩
  | claimRegistration hclaim hf =>
    obtain ⟨registrations, hclaimed, rfl⟩ := claimRegistrationCeremony_some hclaim
    obtain ⟨hs, hsubjects⟩ := subject_of_claimed hclaimed
    rw [applyChange, hclaim]
    refine ⟨lawful_of_ceremonies h _ (h.registrations.claim hclaimed) h.authentications hsubjects,
      ?_, ?_, List.nil_subset _⟩
    · rcases hf with rfl | ⟨huser, hsession, rfl⟩
      · trivial
      · have hstarted := h.started _ hs
        rw [huser, hsession] at hstarted
        exact hstarted
    · rcases hf with rfl | ⟨-, -, rfl⟩ <;> rfl
  | commitRegistration =>
    exact ⟨lawful_insertCredential h hknows List.mem_cons_self, trivial, rfl,
      List.Subset.refl _⟩
  | createAuthentication =>
    obtain ⟨authentications, hclaimed, heq⟩ := authentications_created h.authentications
    rw [heq]
    exact ⟨lawful_of_ceremonies h _ h.registrations hclaimed fun s hs ↦ ⟨s, hs, rfl, rfl⟩, trivial,
      rfl, List.nil_subset _⟩
  | claimAuthentication hf =>
    obtain ⟨authentications, hclaimed, heq⟩ := authentications_claimed h.authentications
    rw [heq]
    refine ⟨lawful_of_ceremonies h _ h.registrations hclaimed fun s hs ↦ ⟨s, hs, rfl, rfl⟩, ?_, ?_,
      List.nil_subset _⟩
    · rcases hf with rfl | rfl <;> trivial
    · rcases hf with rfl | rfl <;> rfl
  | commitAuthentication =>
    exact ⟨lawful_finalizeAuthentication h hknows List.mem_cons_self, trivial, rfl,
      List.cons_subset_cons _ (List.nil_subset _)⟩
  | commitDeletion =>
    exact ⟨lawful_deleteCredential h hknows List.mem_cons_self, trivial, rfl, List.Subset.refl _⟩
  | commitBaseUrl =>
    exact ⟨lawful_mutateBaseUrl h hknows List.mem_cons_self, trivial, rfl, List.Subset.refl _⟩
  | pruneCeremonies => exact ⟨lawful_delete h _ _ _, trivial, rfl, List.nil_subset _⟩

end Changes

section Runs

variable {handles : String → Option ℤ}

theorem moves_of_next {a : Action wa} {o : Next wa} (h : (system handles).next t f a = o) :
    Moves t f o := by
  rw [← h]
  exact next_moves handles

theorem discipline (hwa : wa.Documented) (handles : String → Option ℤ) :
    Discipline (system (b := b) handles) Inv Knows (Change.guards : Change wa → List LockKey) := by
  refine ⟨fun _ hknows hnext ↦ goto_knows hwa (moves_of_next hnext) hknows,
    fun _ hknows hnext ↦ acquire_knows (moves_of_next hnext) hknows, fun h hknows hnext ↦ ?_,
    fun h hknows hnext hother hlocks ↦ ?_⟩
  · obtain ⟨hlawful, hafter⟩ := finish_lawful h (moves_of_next hnext) hknows
    exact ⟨hlawful.inv, hafter⟩
  · exact (finish_lawful h (moves_of_next hnext) hknows).1.moved.knows hother hlocks

/-- No passkey and no ceremony yet, and no request under way. -/
structure Fresh (w : World (PasskeyTables wa b) (Flight wa) LockKey) : Prop where
  credentials : w.tables.credentials = []
  registrations : w.tables.registrations = .empty
  authentications : w.tables.authentications = .empty
  history : w.tables.history = []
  flights : ∀ i, w.flights i = .idle

theorem Fresh.sound {w : World (PasskeyTables wa b) (Flight wa) LockKey} (h : Fresh w) :
    Sound (system handles) Inv Knows w := by
  refine ⟨⟨?_, ?_, ?_, ?_, ?_, ?_, ?_, ?_, ?_⟩, fun i ↦ ?_, fun i k hk ↦ ?_⟩
  · rw [h.credentials]
    exact nofun
  · rw [h.credentials]
    exact List.nodup_nil
  · rw [h.credentials]
    exact nofun
  · rw [credentialIds, h.credentials]
    exact List.nodup_nil
  · rw [h.registrations]
    exact ⟨Table.sound_empty, nofun⟩
  · rw [h.authentications]
    exact ⟨Table.sound_empty, nofun⟩
  · rw [h.registrations]
    exact nofun
  · rw [h.history]
    exact nofun
  · intro before entry after heq
    rw [h.history] at heq
    exact absurd heq (by simp)
  · rw [h.flights i]
    trivial
  · rw [h.flights i] at hk
    exact absurd hk List.not_mem_nil

/-- No ceremony has been claimed twice, or at its expiry or later. -/
structure ClaimedInTime {α : Type} (t : Secrets b α) : Prop where
  once : (t.consumed.map Consumption.serial).Nodup
  inTime : ∀ c ∈ t.consumed, c.usedAt < c.expiresAt ∧ ∃ now, c.usedAt = b.stored now ∧
    (Orders b now → ∀ expiry, c.expiresAt = b.stored expiry → now < expiry)

theorem Claimed.inTime {α : Type} {t : Secrets b α} (h : Claimed t) : ClaimedInTime t := by
  refine ⟨h.sound.once, fun c hc ↦ ⟨h.sound.inTime c hc, ?_⟩⟩
  obtain ⟨now, hnow⟩ := h.clocked c hc
  refine ⟨now, hnow, fun horders expiry hexpiry ↦ ?_⟩
  have hlt := h.sound.inTime c hc
  rw [hnow, hexpiry] at hlt
  by_contra hle
  exact absurd hlt (not_lt.mpr ((horders expiry).1 (not_lt.mp hle)))

/-- The passkeys of the site: whose they are, and what has led to them and to their sessions. -/
structure BoundToSite (t : PasskeyTables wa b) : Prop where
  bound : ∀ r ∈ t.credentials, RegisteredUnder t.history (rpIdOf t.baseUrl) r
  registrations : ClaimedInTime t.registrations
  authentications : ClaimedInTime t.authentications
  completed : ∀ before serial ceremony auth identity baseUrl after,
    t.history = before ++ .registered serial ceremony auth identity baseUrl :: after →
      relyingParty wa baseUrl = .ok identity ∧ .registrationStarted ceremony auth identity ∈ before
  sessions : ∀ before serial after, t.history = before ++ .sessionCreated serial :: after →
    .credentialDeleted serial ∉ before

theorem Inv.boundToSite {t : PasskeyTables wa b} (h : Inv t) : BoundToSite t where
  bound := h.bound
  registrations := h.registrations.inTime
  authentications := h.authentications.inTime
  completed before _ _ _ _ _ after heq := h.justified before _ after heq
  sessions before _ after heq := h.justified before _ after heq

/-- No credential of a run has a lower counter than it had. -/
theorem counter_le_run {w : World (PasskeyTables wa b) (Flight wa) LockKey} (hwa : wa.Documented)
    (h : Sound (system handles) Inv Knows w) (events : List (ℕ × Action wa)) :
    ∀ r ∈ w.tables.credentials, ∀ r' ∈ (run (step (system handles)) w events).tables.credentials,
      r.serial = r'.serial → wa.counter r.credential ≤ wa.counter r'.credential := by
  intro r hr r' hr' hserial
  have hgrows := rel_run (discipline hwa handles) h (fun t ↦ Grows.of_same (t := t) rfl rfl)
    Grows.trans (fun ht hknows hnext ↦
      (finish_lawful ht (moves_of_next hnext) hknows).1.grows) events
  have hlt := h.tables.serial_lt r hr
  rw [hserial] at hlt
  obtain ⟨r₀, hr₀, hserial₀, hcounter⟩ := hgrows.counter r' hr' hlt
  obtain rfl := List.inj_on_of_nodup_map h.tables.serials hr hr₀ (hserial.trans hserial₀.symm)
  exact hcounter

/-- Passkeys stay bound to the site, in every state of every run. -/
theorem passkeys_boundToSite {w : World (PasskeyTables wa b) (Flight wa) LockKey}
    (hwa : wa.Documented) (hw : Fresh w) (events : List (ℕ × Action wa)) :
    BoundToSite (run (step (system handles)) w events).tables ∧
      ∀ before after, events = before ++ after →
        ∀ r ∈ (run (step (system handles)) w before).tables.credentials,
        ∀ r' ∈ (run (step (system handles)) w events).tables.credentials,
          r.serial = r'.serial → wa.counter r.credential ≤ wa.counter r'.credential := by
  have hsound := sound_run (discipline hwa handles) hw.sound
  refine ⟨(hsound events).tables.boundToSite, ?_⟩
  rintro before after rfl
  rw [run_append]
  exact counter_le_run hwa (hsound before) after

/-- A library whose credentials are their id and their counter. -/
def plainWebauthn : Webauthn where
  Credential := String × ℕ
  RegistrationState := Unit
  AuthenticationState := Unit
  AuthenticationResult := ℕ
  credentialId := Prod.fst
  counter := Prod.snd
  resultCounter := id
  builds _ := true
  finishRegistration _ response _ := some (response, 0)
  identify _ response := some ("handle", response)
  finishAuthentication _ _ _ _ := some 7
  updateCredential credential returned := some (credential.1, max credential.2 returned)

theorem plainWebauthn_documented : plainWebauthn.Documented := by
  refine ⟨fun c result c' h ↦ ?_, fun c result c' h ↦ ?_⟩
  · rw [← Option.some.inj h]
    rfl
  · rw [← Option.some.inj h]
    rfl

def exampleUrl (host : String) : BaseUrl := ⟨"https", some (.domain host), "https://example.org/"⟩

/-- A site with the session of its only user. -/
def exampleSite : World (PasskeyTables plainWebauthn sqlite) (Flight plainWebauthn) LockKey where
  tables := ⟨some (exampleUrl "example.org"), [], 0, .empty, .empty, [⟨"laptop", 1⟩], []⟩
  locks _ := none
  flights _ := .idle

theorem fresh_exampleSite : Fresh exampleSite := ⟨rfl, rfl, rfl, rfl, fun _ ↦ rfl⟩

/-- A passkey is registered and used while its site tries to move to another host. -/
def exampleRequests : List (ℕ × Action plainWebauthn) :=
  let now : UtcInstant := .epoch
  let auth : Session := ⟨"laptop", 1⟩
  [(0, .startRegistration auth "Laptop"), (0, .createRegistrationCeremony "a" () now .confirmed),
    (0, .claimRegistrationCeremony auth "a" "key" now .confirmed), (0, .lockRpHost),
    (1, .mutateBaseUrl (.set (some (exampleUrl "example.net")))), (0, .finishRegistration),
    (0, .insertCredential), (0, .commit .confirmed),
    (1, .mutateBaseUrl (.set (some (exampleUrl "example.net")))), (1, .getBaseUrl),
    (1, .hasCredentials), (1, .commit .confirmed), (2, .startAuthentication),
    (2, .createAuthenticationCeremony "b" () now .confirmed),
    (2, .claimAuthenticationCeremony "b" "key" now .confirmed), (2, .lockRpHost), (2, .identify),
    (2, .credentialForAuthentication), (2, .finalizeAuthentication "phone"),
    (2, .commit .confirmed)]

theorem exampleSite_boundToSite :
    ((run (step (system (fun _ ↦ some 1))) exampleSite exampleRequests).tables.credentials.map
        (fun r ↦ plainWebauthn.counter r.credential) = [7] ∧
      (run (step (system (fun _ ↦ some 1))) exampleSite exampleRequests).tables.baseUrl =
        some (exampleUrl "example.org")) ∧
    BoundToSite (run (step (system (fun _ ↦ some 1))) exampleSite exampleRequests).tables :=
  ⟨by decide +kernel,
    (passkeys_boundToSite plainWebauthn_documented fresh_exampleSite exampleRequests).1⟩

end Runs

end Jaunder.Web.Passkeys
