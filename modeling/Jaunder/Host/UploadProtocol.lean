import Jaunder.Host.UploadPreparer

namespace Jaunder.Host.UploadPreparer

section Places

/-- In `admit`, before the owner is spawned. -/
def Caller.admitting : Caller → Bool
  | .permitted | .locked | .accepted | .spooled | .failing | .unlocked | .refused => true
  | _ => false

def Caller.hasLock : Caller → Bool
  | .locked | .accepted | .spooled | .spawned | .failing => true
  | _ => false

def Caller.hasLease : Caller → Bool
  | .spawned | .receiving | .preparing | .prepared _ | .unprepared => true
  | _ => false

def Owner.hasSpool : Owner → Bool
  | .unspawned | .releasing | .reporting | .gone => false
  | _ => true

def Owner.hasPermit : Owner → Bool
  | .unspawned | .reporting | .gone => false
  | _ => true

/-- The result has not been sent yet, and will be. -/
def Owner.pending : Owner → Bool
  | .selecting | .starting | .spawning | .working | .reaping => true
  | _ => false

/-- The workers that an owner may have. -/
def Owner.workers : Owner → List Worker
  | .unspawned | .selecting | .refusing | .starting | .spawning => [.none]
  | .working => [.running, .exited]
  | .reaping => [.running, .exited, .reaped]
  | .holding => [.reaped]
  | .cleaning | .releasing | .reporting | .gone => [.none, .reaped]

/-- The results that an owner may have sent. -/
def Owner.results : Owner → List (Option Bool)
  | .unspawned | .selecting | .starting | .spawning | .working | .reaping => [none]
  | .refusing => [some false]
  | .holding => [some true]
  | .cleaning | .releasing | .reporting | .gone => [none, some false, some true]

/-- What the caller's place says of the result. -/
def Attempt.Waits (a : Attempt) : Caller → Prop
  | .preparing => a.result ≠ none ∨
      a.owner.pending = true ∧ (a.owner = .selecting → a.start = true)
  | .prepared ok => a.result = some ok
  | _ => True

/-- What the places of a caller and its owner say of the resources and the channels. -/
structure Attempt.Sound (a : Attempt) : Prop where
  admitting : a.owner = .unspawned ↔ a.caller.admitting = true
  spool : a.spool = (a.caller = .spooled || a.owner.hasSpool)
  permit : a.permit = (a.owner = .unspawned && a.caller ≠ .refused || a.owner.hasPermit)
  done : a.done = decide (a.owner = .gone)
  lease : a.lease = a.caller.hasLease
  worker : a.worker ∈ a.owner.workers
  results : a.result ∈ a.owner.results
  succeeded : a.result = some true → a.owner = .holding ∨ a.lease = false
  waits : a.Waits a.caller

theorem sound_admitted : Attempt.admitted.Sound where
  admitting := ⟨fun _ ↦ rfl, fun _ ↦ rfl⟩
  spool := rfl
  permit := rfl
  done := rfl
  lease := rfl
  worker := List.mem_singleton.mpr rfl
  results := List.mem_singleton.mpr rfl
  succeeded h := by cases h
  waits := trivial

end Places

section Owners

variable {a a' : Attempt} {stopping : Bool}

theorem Attempt.Sound.running (ha : a.Sound) (hw : a.worker = .running) :
    a.owner = .working ∨ a.owner = .reaping := by
  have hworker := ha.worker
  rw [hw] at hworker
  cases ho : a.owner <;> simp_all [Owner.workers]

/-- An owner leaves its caller as it is. -/
theorem OwnerStep.frame (h : OwnerStep stopping a a') :
    a'.caller = a.caller ∧ a'.lease = a.lease ∧ a'.joined = a.joined := by
  cases h <;> exact ⟨rfl, rfl, rfl⟩

theorem OwnerStep.spawned (h : OwnerStep stopping a a') (ha : a.Sound) :
    a.owner ≠ .unspawned ∧ a'.owner ≠ .unspawned := by
  have hrunning := ha.running
  cases h <;> grind

theorem OwnerStep.worker (h : OwnerStep stopping a a') (ha : a.Sound) :
    a'.worker ∈ a'.owner.workers := by
  have hrunning := ha.running
  have hworker := ha.worker
  cases h <;> grind [Owner.workers]

theorem OwnerStep.results (h : OwnerStep stopping a a') (ha : a.Sound) :
    a'.result ∈ a'.owner.results := by
  have hresults := ha.results
  cases h <;> grind [Owner.results]

theorem OwnerStep.spool (h : OwnerStep stopping a a') (ha : a.Sound) :
    a'.spool = (a'.caller = .spooled || a'.owner.hasSpool) := by
  have hspool := ha.spool
  have hspooled : a.caller ≠ .spooled := fun hc ↦
    (h.spawned ha).1 (ha.admitting.mpr (by rw [hc]; rfl))
  cases h <;> grind [Owner.hasSpool]

theorem OwnerStep.permit (h : OwnerStep stopping a a') (ha : a.Sound) :
    a'.permit = (a'.owner = .unspawned && a'.caller ≠ .refused || a'.owner.hasPermit) := by
  have hpermit := ha.permit
  cases h <;> grind [Owner.hasPermit]

theorem OwnerStep.done (h : OwnerStep stopping a a') (ha : a.Sound) :
    a'.done = decide (a'.owner = .gone) := by
  have hdone := ha.done
  cases h <;> grind

theorem OwnerStep.succeeded (h : OwnerStep stopping a a') (ha : a.Sound) :
    a'.result = some true → a'.owner = .holding ∨ a'.lease = false := by
  have hsucceeded := ha.succeeded
  cases h <;> grind

theorem OwnerStep.waits (h : OwnerStep stopping a a') (ha : a.Sound) : a'.Waits a'.caller := by
  have hwaits := ha.waits
  have hresults := ha.results
  have hlease := ha.lease
  cases h <;> cases hc : a.caller <;>
    simp_all [Attempt.Waits, Owner.pending, Owner.results, Caller.hasLease]

theorem Attempt.Sound.ownerStep (ha : a.Sound) (h : OwnerStep stopping a a') : a'.Sound where
  admitting := by
    obtain ⟨hbefore, hafter⟩ := h.spawned ha
    rw [h.frame.1, ← ha.admitting]
    exact iff_of_false hafter hbefore
  spool := h.spool ha
  permit := h.permit ha
  done := h.done ha
  lease := by
    rw [h.frame.1, h.frame.2.1]
    exact ha.lease
  worker := h.worker ha
  results := h.results ha
  succeeded := h.succeeded ha
  waits := h.waits ha

end Owners

section Callers

variable {a a' : Attempt} {closed : Bool}

/-- A caller that holds its attempt leaves the owner and its resources as they are. -/
theorem CallerStep.frame (h : CallerStep a a') :
    a'.owner = a.owner ∧ a'.worker = a.worker ∧ a'.permit = a.permit ∧ a'.spool = a.spool ∧
      a'.result = a.result ∧ a'.done = a.done ∧ a'.joined = a.joined := by
  cases h <;> exact ⟨rfl, rfl, rfl, rfl, rfl, rfl, rfl⟩

theorem Caller.mayDrop_of_mayFinish {c : Caller} (h : c.mayFinish = true) : c.mayDrop = true := by
  cases c <;> first | rfl | cases h

theorem Caller.places_of_mayDrop {c : Caller} (h : c.mayDrop = true) :
    c.admitting = false ∧ c.hasLock = false := by
  cases c <;> first | exact ⟨rfl, rfl⟩ | cases h

theorem CallerStep.places (h : CallerStep a a') :
    a.caller.admitting = false ∧ a'.caller.admitting = false ∧
      a.caller.hasLock = false ∧ a'.caller.hasLock = false := by
  have hdrop := @Caller.places_of_mayDrop a.caller
  have hfinish := @Caller.mayDrop_of_mayFinish a.caller
  cases h <;> grind [Caller.admitting, Caller.hasLock]

theorem CallerStep.lease (h : CallerStep a a') (ha : a.Sound) : a'.lease = a'.caller.hasLease := by
  have hlease := ha.lease
  cases h <;> grind [Caller.hasLease]

theorem CallerStep.closes (h : CallerStep a a') : a'.lease = a.lease ∨ a'.lease = false := by
  cases h <;> grind

theorem CallerStep.waits (h : CallerStep a a') (ha : a.Sound) : a'.Waits a'.caller := by
  have hwaits := ha.waits
  cases h <;> simp_all [Attempt.Waits, Owner.pending]

theorem Attempt.Sound.callerStep (ha : a.Sound) (h : CallerStep a a') : a'.Sound := by
  obtain ⟨howner, hworker, hpermit, hspool, hresult, hdone, -⟩ := h.frame
  obtain ⟨hbefore, hafter, -⟩ := h.places
  have hunspawned : a.owner ≠ .unspawned := fun ho ↦
    Bool.false_ne_true (hbefore.symm.trans (ha.admitting.mp ho))
  have hspooled {c : Caller} (hc : c.admitting = false) : c ≠ .spooled := by
    rintro rfl
    cases hc
  constructor
  · rw [howner, hafter]
    exact iff_of_false hunspawned Bool.false_ne_true
  · rw [hspool, howner, ha.spool, decide_eq_false (hspooled hbefore),
      decide_eq_false (hspooled hafter)]
  · rw [hpermit, howner, ha.permit, decide_eq_false hunspawned, Bool.false_and, Bool.false_and]
  · rw [hdone, howner]
    exact ha.done
  · exact h.lease ha
  · rw [hworker, howner]
    exact ha.worker
  · rw [hresult, howner]
    exact ha.results
  · rw [hresult, howner]
    intro hok
    rcases ha.succeeded hok with ho | hl
    · exact .inl ho
    · exact .inr (h.closes.elim (fun heq ↦ heq.trans hl) id)
  · exact h.waits ha

/-- The steps of `admit` that need no owner. -/
theorem Attempt.Sound.admitStep (ha : a.Sound) (h : AdmitStep closed a a') : a'.Sound := by
  have hadmitting := ha.admitting
  have hspool := ha.spool
  have hpermit := ha.permit
  have hdone := ha.done
  have hlease := ha.lease
  have hworker := ha.worker
  have hresults := ha.results
  cases h <;> constructor <;>
    grind [Caller.admitting, Owner.hasSpool, Owner.hasPermit, Caller.hasLease, Owner.workers,
      Owner.results, Attempt.Waits]

/-- The steps of `admit` that take and give back the lock and the permit. -/
theorem Attempt.Sound.move {c : Caller} (ha : a.Sound) (hadmitting : c.admitting = a.caller.admitting)
    (hspool : a.caller ≠ .spooled ∧ c ≠ .spooled) (hrefused : a.caller ≠ .refused ∧ c ≠ .refused)
    (hlease : c.hasLease = a.caller.hasLease) (hwaits : a.Waits c) : { a with caller := c }.Sound where
  admitting := by
    rw [ha.admitting, hadmitting]
  spool := by
    rw [ha.spool, decide_eq_false hspool.1, decide_eq_false hspool.2]
  permit := by
    rw [ha.permit, decide_eq_true hrefused.1, decide_eq_true hrefused.2]
  done := ha.done
  lease := ha.lease.trans hlease.symm
  worker := ha.worker
  results := ha.results
  succeeded := ha.succeeded
  waits := hwaits

theorem Attempt.Sound.returnPermit (ha : a.Sound) (hc : a.caller = .unlocked) :
    { a with caller := Caller.refused, permit := false }.Sound := by
  have howner : a.owner = .unspawned := ha.admitting.mpr (by rw [hc]; rfl)
  constructor
  · exact iff_of_true howner rfl
  · rw [ha.spool, hc]
    rfl
  · rw [howner]
    rfl
  · exact ha.done
  · rw [ha.lease, hc]
    rfl
  · exact ha.worker
  · exact ha.results
  · exact ha.succeeded
  · trivial

theorem Attempt.Sound.release (ha : a.Sound) (ho : a.owner = .releasing) :
    { a with owner := Owner.reporting, permit := false }.Sound := by
  have hadmitting := ha.admitting
  have hspool := ha.spool
  have hdone := ha.done
  have hworker := ha.worker
  have hresults := ha.results
  have hsucceeded := ha.succeeded
  have hwaits := ha.waits
  rw [ho] at hadmitting hspool hdone hworker hresults hsucceeded
  refine ⟨?_, hspool, rfl, hdone, ha.lease, hworker, hresults, ?_, ?_⟩
  · rw [← hadmitting]
    exact iff_of_false nofun nofun
  · exact fun hok ↦ .inr ((hsucceeded hok).resolve_left nofun)
  · cases hc : a.caller <;> simp_all [Attempt.Waits, Owner.pending]

theorem Attempt.Sound.joinBy (ha : a.Sound) (j : ℕ) : (a.joinBy j).Sound := by
  rw [Attempt.joinBy]
  split
  · refine ⟨ha.admitting, ha.spool, ha.permit, ha.done, ha.lease, ha.worker, ha.results,
      ha.succeeded, ?_⟩
    have hwaits := ha.waits
    cases hc : a.caller <;> simp_all [Attempt.Waits]
  · exact ha

end Callers

section Invariant

variable {s s' : State} {a a' : Attempt} {i j : ℕ}

/-- A shutdown has taken the owners. -/
def State.Drained (s : State) : Prop := ∃ d ∈ s.shutdowns, d ≠ .waiting

/-- No admission can make a spool any more, and every owner is known to a shutdown. -/
def Attempt.Drained (a : Attempt) : Prop :=
  a.caller ≠ .accepted ∧ a.caller ≠ .spooled ∧ (a.owner ≠ .unspawned → a.joined ≠ none)

structure State.Inv (s : State) : Prop where
  sound : ∀ a ∈ s.attempts, a.Sound
  slots : s.slots + s.attempts.countP (·.permit) = 2
  lock : ∀ i a, s.attempts[i]? = some a → (a.caller.hasLock = true ↔ s.lock = some i)
  holder : ∀ i, s.lock = some i → i < s.attempts.length
  signalled : s.stopping = true → s.closed = true
  shutdowns : s.shutdowns ≠ [] → s.closed = true
  joined : ∀ a ∈ s.attempts, ∀ j, a.joined = some j →
    s.shutdowns[j]? = some .joining ∨ s.shutdowns[j]? = some .returned
  drained : s.Drained → ∀ a ∈ s.attempts, a.Drained
  returned : ∀ a ∈ s.attempts, ∀ j, a.joined = some j → s.shutdowns[j]? = some .returned →
    a.owner = .gone

theorem inv_new : State.new.Inv where
  sound _ h := absurd h List.not_mem_nil
  slots := rfl
  lock _ _ h := nomatch h
  holder _ h := nomatch h
  signalled h := nomatch h
  shutdowns h := absurd rfl h
  joined _ h := absurd h List.not_mem_nil
  drained _ _ h := absurd h List.not_mem_nil
  returned _ h := absurd h List.not_mem_nil

theorem Drained.closed (h : s.Inv) (hd : s.Drained) : s.closed = true := by
  obtain ⟨d, hd, -⟩ := hd
  exact h.shutdowns (List.ne_nil_of_mem hd)

theorem forall_mem_set {P : Attempt → Prop} (h : ∀ a ∈ s.attempts, P a) (ha' : P a') :
    ∀ a ∈ s.attempts.set i a', P a := by
  intro b hb
  rcases List.mem_or_eq_of_mem_set hb with hb | rfl
  · exact h b hb
  · exact ha'

/-- A step of one attempt that may take or give back the lock and a slot. -/
theorem State.Inv.update {slots : ℕ} {lock : Option ℕ} (h : s.Inv) (ha : s.attempts[i]? = some a)
    (hsound : a'.Sound) (hslots : slots + a'.permit.toNat = s.slots + a.permit.toNat)
    (hlock : a'.caller.hasLock = true ↔ lock = some i)
    (hothers : ∀ k, k ≠ i → (s.lock = some k ↔ lock = some k))
    (hjoined : a'.joined = a.joined) (hdrained : s.Drained → a.Drained → a'.Drained)
    (hgone : a.owner = .gone → a'.owner = .gone) :
    { s with slots := slots, lock := lock, attempts := s.attempts.set i a' }.Inv where
  sound := forall_mem_set h.sound hsound
  slots := by
    obtain ⟨hi, rfl⟩ := List.getElem?_eq_some_iff.mp ha
    have hcount := h.slots
    have hpos : s.attempts[i].permit = true → 0 < s.attempts.countP (·.permit) := fun hp ↦
      List.countP_pos_iff.mpr ⟨_, List.getElem_mem hi, hp⟩
    dsimp only
    rw [List.countP_set hi]
    cases hp : s.attempts[i].permit <;> cases hp' : a'.permit <;> simp_all <;> omega
  lock k b hb := by
    dsimp only at hb ⊢
    rw [List.getElem?_set] at hb
    split_ifs at hb with hik hlen
    · obtain rfl := Option.some.inj hb
      rw [hlock, hik]
    · rw [h.lock k b hb, hothers k (Ne.symm hik)]
  holder k hk := by
    dsimp only at hk ⊢
    rw [List.length_set]
    by_cases hik : k = i
    · rw [hik]
      exact (List.getElem?_eq_some_iff.mp ha).1
    · exact h.holder k ((hothers k hik).mpr hk)
  signalled := h.signalled
  shutdowns := h.shutdowns
  joined := by
    refine forall_mem_set h.joined fun j hj ↦ ?_
    rw [hjoined] at hj
    exact h.joined a (List.mem_of_getElem? ha) j hj
  drained hd := forall_mem_set (h.drained hd)
    (hdrained hd (h.drained hd a (List.mem_of_getElem? ha)))
  returned := by
    refine forall_mem_set h.returned fun j hj hreturned ↦ hgone ?_
    rw [hjoined] at hj
    exact h.returned a (List.mem_of_getElem? ha) j hj hreturned

/-- A step of one attempt alone. -/
theorem State.Inv.set (h : s.Inv) (ha : s.attempts[i]? = some a) (hsound : a'.Sound)
    (hpermit : a'.permit = a.permit) (hlock : a'.caller.hasLock = a.caller.hasLock)
    (hjoined : a'.joined = a.joined) (hdrained : s.Drained → a.Drained → a'.Drained)
    (hgone : a.owner = .gone → a'.owner = .gone) :
    { s with attempts := s.attempts.set i a' }.Inv :=
  h.update ha hsound (by rw [hpermit]) (by rw [hlock]; exact h.lock i a ha) (fun _ _ ↦ Iff.rfl)
    hjoined hdrained hgone

theorem AdmitStep.frame {closed : Bool} (h : AdmitStep closed a a') :
    a'.permit = a.permit ∧ a'.caller.hasLock = a.caller.hasLock ∧ a'.joined = a.joined := by
  cases h with
  | accept hc => exact ⟨rfl, by rw [hc]; rfl, rfl⟩
  | reject hc => rcases hc with hc | hc | hc <;> exact ⟨rfl, by rw [hc]; rfl, rfl⟩
  | createSpool hc => exact ⟨rfl, by rw [hc]; rfl, rfl⟩
  | spawnOwner hc => exact ⟨rfl, by rw [hc]; rfl, rfl⟩

/-- After the close no check passes, and what has not passed it makes no spool. -/
theorem AdmitStep.drained (h : AdmitStep true a a') (hd : a.Drained) (ha : a.Sound) :
    a'.Drained := by
  obtain ⟨haccepted, hspooled, hjoined⟩ := hd
  cases h with
  | accept _ hopen => cases hopen
  | reject hc =>
    refine ⟨nofun, nofun, fun ho ↦ absurd (ha.admitting.mpr ?_) ho⟩
    rcases hc with hc | hc | hc <;> rw [hc] <;> rfl
  | createSpool hc => exact absurd hc haccepted
  | spawnOwner hc => exact absurd hc hspooled

theorem AdmitStep.unspawned {closed : Bool} (h : AdmitStep closed a a') (ha : a.Sound) :
    a.owner = .unspawned := by
  refine ha.admitting.mpr ?_
  cases h with
  | accept hc => rw [hc]; rfl
  | reject hc => rcases hc with hc | hc | hc <;> rw [hc] <;> rfl
  | createSpool hc => rw [hc]; rfl
  | spawnOwner hc => rw [hc]; rfl

theorem OwnerStep.not_gone {stopping : Bool} (h : OwnerStep stopping a a') (ha : a.Sound) :
    a.owner ≠ .gone := by
  have hrunning := ha.running
  cases h <;> grind

theorem OwnerStep.permit_eq {stopping : Bool} (h : OwnerStep stopping a a') :
    a'.permit = a.permit := by
  cases h <;> rfl

theorem Attempt.Drained.of_frame (hd : a.Drained) (hcaller : a'.caller = a.caller)
    (howner : a.owner ≠ .unspawned) (hjoined : a'.joined = a.joined) : a'.Drained := by
  refine ⟨?_, ?_, fun _ ↦ ?_⟩
  · rw [hcaller]
    exact hd.1
  · rw [hcaller]
    exact hd.2.1
  · rw [hjoined]
    exact hd.2.2 howner

theorem Attempt.Drained.of_caller {c : Caller} (hd : a.Drained)
    (hc : c ≠ .accepted ∧ c ≠ .spooled) : { a with caller := c }.Drained :=
  ⟨hc.1, hc.2, hd.2.2⟩

theorem State.Inv.locked (h : s.Inv) (ha : s.attempts[i]? = some a)
    (hc : a.caller.hasLock = true) : s.lock = some i := (h.lock i a ha).mp hc

theorem State.Inv.unlocks (h : s.Inv) (ha : s.attempts[i]? = some a)
    (hc : a.caller.hasLock = true) (k : ℕ) (hk : k ≠ i) : s.lock = some k ↔ none = some k := by
  rw [h.locked ha hc]
  exact iff_of_false (fun heq ↦ hk (Option.some.inj heq).symm) nofun

theorem joinBy_drained (ha : a.Sound) (hc : a.caller.hasLock = false) (j : ℕ) :
    (a.joinBy j).Drained := by
  have hcaller : (a.joinBy j).caller = a.caller := by
    rw [Attempt.joinBy]
    split <;> rfl
  refine ⟨?_, ?_, fun ho ↦ ?_⟩
  · rw [hcaller]
    rintro heq
    rw [heq] at hc
    cases hc
  · rw [hcaller]
    rintro heq
    rw [heq] at hc
    cases hc
  · rw [Attempt.joinBy] at ho ⊢
    split
    · exact Option.some_ne_none j
    · rename_i hkept
      rw [if_neg hkept] at ho
      exact fun hnone ↦ hkept ⟨ho, hnone⟩

theorem joinBy_frame (j : ℕ) (a : Attempt) :
    (a.joinBy j).caller = a.caller ∧ (a.joinBy j).owner = a.owner ∧
      (a.joinBy j).permit = a.permit := by
  rw [Attempt.joinBy]
  split <;> exact ⟨rfl, rfl, rfl⟩

theorem joinBy_joined {k : ℕ} (h : (a.joinBy j).joined = some k) : k = j ∨ a.joined = some k := by
  rw [Attempt.joinBy] at h
  split at h
  · exact .inl (Option.some.inj h).symm
  · exact .inr h

theorem getElem?_set_shutdowns {l : List Shutdown} {d : Shutdown} {k : ℕ} (hj : l[j]? = some d)
    (d' : Shutdown) : (l.set j d')[k]? = if k = j then some d' else l[k]? := by
  have hlen := (List.getElem?_eq_some_iff.mp hj).1
  rw [List.getElem?_set]
  by_cases hk : k = j
  · rw [if_pos hk.symm, if_pos hlen, if_pos hk]
  · rw [if_neg (Ne.symm hk), if_neg hk]

theorem State.Inv.takeOwners (h : s.Inv) (hj : s.shutdowns[j]? = some .waiting)
    (hlock : s.lock = none) :
    { s with
      shutdowns := s.shutdowns.set j .joining
      attempts := s.attempts.map (Attempt.joinBy j) }.Inv where
  sound b hb := by
    obtain ⟨a, ha, rfl⟩ := List.mem_map.mp hb
    exact (h.sound a ha).joinBy j
  slots := by
    have hcount : (s.attempts.map (Attempt.joinBy j)).countP (·.permit) =
        s.attempts.countP (·.permit) := by
      rw [List.countP_map]
      refine List.countP_congr fun a _ ↦ ?_
      rw [Function.comp_apply, (joinBy_frame j a).2.2]
    rw [hcount]
    exact h.slots
  lock i b hb := by
    rw [List.getElem?_map] at hb
    obtain ⟨a, ha, rfl⟩ := Option.map_eq_some_iff.mp hb
    rw [(joinBy_frame j a).1]
    exact h.lock i a ha
  holder i hi := by
    rw [List.length_map]
    exact h.holder i hi
  signalled := h.signalled
  shutdowns _ := h.shutdowns (List.ne_nil_of_mem (List.mem_of_getElem? hj))
  joined b hb k hk := by
    obtain ⟨a, ha, rfl⟩ := List.mem_map.mp hb
    rw [getElem?_set_shutdowns hj]
    split
    · exact .inl rfl
    · rename_i hkj
      exact h.joined a ha k ((joinBy_joined hk).resolve_left hkj)
  drained _ b hb := by
    obtain ⟨a, ha, rfl⟩ := List.mem_map.mp hb
    obtain ⟨i, hi⟩ := List.mem_iff_getElem?.mp ha
    refine joinBy_drained (h.sound a ha) (eq_false_of_ne_true fun hc ↦ ?_) j
    have hheld := (h.lock i a hi).mp hc
    rw [hlock] at hheld
    cases hheld
  returned b hb k hk hreturned := by
    obtain ⟨a, ha, rfl⟩ := List.mem_map.mp hb
    rw [getElem?_set_shutdowns hj] at hreturned
    split at hreturned
    · cases hreturned
    · rename_i hkj
      rw [(joinBy_frame j a).2.1]
      exact h.returned a ha k ((joinBy_joined hk).resolve_left hkj) hreturned

theorem State.Inv.join (h : s.Inv) (hj : s.shutdowns[j]? = some .joining)
    (hgone : ∀ a ∈ s.attempts, a.joined = some j → a.owner = .gone) :
    { s with shutdowns := s.shutdowns.set j .returned }.Inv where
  sound := h.sound
  slots := h.slots
  lock := h.lock
  holder := h.holder
  signalled := h.signalled
  shutdowns _ := h.shutdowns (List.ne_nil_of_mem (List.mem_of_getElem? hj))
  joined a ha k hk := by
    rw [getElem?_set_shutdowns hj]
    split
    · exact .inr rfl
    · exact h.joined a ha k hk
  drained _ := h.drained ⟨_, List.mem_of_getElem? hj, nofun⟩
  returned a ha k hk hreturned := by
    rw [getElem?_set_shutdowns hj] at hreturned
    split at hreturned
    · rename_i hkj
      exact hgone a ha (hkj ▸ hk)
    · exact h.returned a ha k hk hreturned

theorem State.Inv.tryAcquire (h : s.Inv) (hopen : s.closed = false) (hslot : 0 < s.slots) :
    { s with slots := s.slots - 1, attempts := s.attempts ++ [Attempt.admitted] }.Inv where
  sound := List.forall_mem_append.mpr ⟨h.sound, List.forall_mem_singleton.mpr sound_admitted⟩
  slots := by
    have hcount := h.slots
    have hone : [Attempt.admitted].countP (·.permit) = 1 := rfl
    rw [List.countP_append, hone]
    dsimp only
    omega
  lock i a ha := by
    by_cases hlen : i < s.attempts.length
    · exact h.lock i a (by rwa [← List.getElem?_append_left hlen])
    · dsimp only at ha
      rw [List.getElem?_append_right (not_lt.mp hlen)] at ha
      rw [List.mem_singleton.mp (List.mem_of_getElem? ha)]
      exact iff_of_false nofun fun hlock ↦ hlen (h.holder i hlock)
  holder i hi := (h.holder i hi).trans_le (by rw [List.length_append]; exact Nat.le_add_right _ _)
  signalled := h.signalled
  shutdowns := h.shutdowns
  joined := List.forall_mem_append.mpr ⟨h.joined, List.forall_mem_singleton.mpr fun _ hj ↦ nomatch hj⟩
  drained hd := by
    have hclosed := Drained.closed h hd
    rw [hopen] at hclosed
    cases hclosed
  returned := List.forall_mem_append.mpr
    ⟨h.returned, List.forall_mem_singleton.mpr fun _ hj ↦ nomatch hj⟩

theorem getElem?_append_waiting {l : List Shutdown} {d : Shutdown} (hd : d ≠ .waiting) :
    (l ++ [.waiting])[j]? = some d ↔ l[j]? = some d := by
  constructor
  · intro h
    by_cases hlen : j < l.length
    · rwa [List.getElem?_append_left hlen] at h
    · rw [List.getElem?_append_right (not_lt.mp hlen)] at h
      exact absurd (List.mem_singleton.mp (List.mem_of_getElem? h)) hd
  · intro h
    rw [List.getElem?_append_left (List.getElem?_eq_some_iff.mp h).1]
    exact h

theorem State.Inv.shutdown (h : s.Inv) (hstopping : s.stopping = true) :
    { s with shutdowns := s.shutdowns ++ [Shutdown.waiting] }.Inv where
  sound := h.sound
  slots := h.slots
  lock := h.lock
  holder := h.holder
  signalled := h.signalled
  shutdowns _ := h.signalled hstopping
  joined a ha k hk := by
    dsimp only
    rw [getElem?_append_waiting (d := .joining) nofun,
      getElem?_append_waiting (d := .returned) nofun]
    exact h.joined a ha k hk
  drained hd := by
    obtain ⟨d, hmem, hne⟩ := hd
    refine h.drained ⟨d, (List.mem_append.mp hmem).resolve_right fun hlast ↦ ?_, hne⟩
    exact hne (List.mem_singleton.mp hlast)
  returned a ha k hk hreturned := by
    dsimp only at hreturned
    rw [getElem?_append_waiting (d := .returned) nofun] at hreturned
    exact h.returned a ha k hk hreturned

/-- What one step preserves. -/
theorem State.Inv.step (h : s.Inv) (hs : Step s s') : s'.Inv := by
  cases hs with
  | tryAcquire hopen hslot => exact h.tryAcquire hopen hslot
  | @acquire i a ha hc hlock =>
    have hsound := h.sound a (List.mem_of_getElem? ha)
    refine h.update ha (hsound.move ?_ ?_ ?_ ?_ trivial) rfl (iff_of_true rfl rfl) ?_ rfl ?_ id
    · rw [hc]; rfl
    · rw [hc]; exact ⟨nofun, nofun⟩
    · rw [hc]; exact ⟨nofun, nofun⟩
    · rw [hc]; rfl
    · intro k hk
      rw [hlock]
      exact iff_of_false nofun fun heq ↦ hk (Option.some.inj heq).symm
    · exact fun _ hd ↦ hd.of_caller ⟨nofun, nofun⟩
  | @admission i a a' ha hstep =>
    have hsound := h.sound a (List.mem_of_getElem? ha)
    obtain ⟨hpermit, hlock, hjoined⟩ := hstep.frame
    refine h.set ha (hsound.admitStep hstep) hpermit hlock hjoined (fun hd hda ↦ ?_) fun ho ↦ ?_
    · rw [Drained.closed h hd] at hstep
      exact hstep.drained hda hsound
    · rw [hstep.unspawned hsound] at ho
      cases ho
  | @unlock i a ha hc =>
    have hsound := h.sound a (List.mem_of_getElem? ha)
    have hlocked : a.caller.hasLock = true := by rw [hc]; rfl
    refine h.update ha (hsound.move ?_ ?_ ?_ ?_ trivial) rfl (iff_of_false nofun nofun)
      (h.unlocks ha hlocked) rfl ?_ id
    · rw [hc]; rfl
    · rw [hc]; exact ⟨nofun, nofun⟩
    · rw [hc]; exact ⟨nofun, nofun⟩
    · rw [hc]; rfl
    · exact fun _ hd ↦ hd.of_caller ⟨nofun, nofun⟩
  | @unlockFailing i a ha hc =>
    have hsound := h.sound a (List.mem_of_getElem? ha)
    have hlocked : a.caller.hasLock = true := by rw [hc]; rfl
    refine h.update ha (hsound.move ?_ ?_ ?_ ?_ trivial) rfl (iff_of_false nofun nofun)
      (h.unlocks ha hlocked) rfl ?_ id
    · rw [hc]; rfl
    · rw [hc]; exact ⟨nofun, nofun⟩
    · rw [hc]; exact ⟨nofun, nofun⟩
    · rw [hc]; rfl
    · exact fun _ hd ↦ hd.of_caller ⟨nofun, nofun⟩
  | @returnPermit i a ha hc =>
    have hsound := h.sound a (List.mem_of_getElem? ha)
    have howner : a.owner = .unspawned := hsound.admitting.mpr (by rw [hc]; rfl)
    have hpermit : a.permit = true := by rw [hsound.permit, howner, hc]; rfl
    have hunlocked : s.lock ≠ some i := fun hlock ↦ by
      have hlocked := (h.lock i a ha).mpr hlock
      rw [hc] at hlocked
      cases hlocked
    refine h.update ha (hsound.returnPermit hc) ?_ (iff_of_false nofun hunlocked)
      (fun _ _ ↦ Iff.rfl) rfl (fun _ hd ↦ ⟨nofun, nofun, hd.2.2⟩) id
    rw [hpermit]
    rfl
  | @caller i a a' ha hstep =>
    have hsound := h.sound a (List.mem_of_getElem? ha)
    obtain ⟨howner, -, hpermit, -, -, -, hjoined⟩ := hstep.frame
    obtain ⟨-, hadmitting, hunlocked, hunlocked'⟩ := hstep.places
    refine h.set ha (hsound.callerStep hstep) hpermit (hunlocked'.trans hunlocked.symm) hjoined
      (fun _ hd ↦ ⟨?_, ?_, fun ho ↦ ?_⟩) fun ho ↦ howner.trans ho
    · rintro heq
      rw [heq] at hadmitting
      cases hadmitting
    · rintro heq
      rw [heq] at hadmitting
      cases hadmitting
    · rw [howner] at ho
      rw [hjoined]
      exact hd.2.2 ho
  | @owner i a a' ha hstep =>
    have hsound := h.sound a (List.mem_of_getElem? ha)
    obtain ⟨hcaller, -, hjoined⟩ := hstep.frame
    refine h.set ha (hsound.ownerStep hstep) hstep.permit_eq (by rw [hcaller]) hjoined
      (fun _ hd ↦ hd.of_frame hcaller (hstep.spawned hsound).1 hjoined) fun ho ↦ ?_
    exact absurd ho (hstep.not_gone hsound)
  | @release i a ha ho =>
    have hsound := h.sound a (List.mem_of_getElem? ha)
    have hpermit : a.permit = true := by rw [hsound.permit, ho]; exact Bool.or_true _
    refine h.update ha (hsound.release ho) ?_ (h.lock i a ha) (fun _ _ ↦ Iff.rfl) rfl
      (fun _ hd ↦ hd.of_frame rfl (by rw [ho]; nofun) rfl) fun hgone ↦ ?_
    · rw [hpermit]
      rfl
    · rw [ho] at hgone
      cases hgone
  | close => exact { h with signalled := fun _ ↦ rfl, shutdowns := fun _ ↦ rfl }
  | signal hclosed => exact { h with signalled := fun _ ↦ hclosed }
  | shutdown hstopping => exact h.shutdown hstopping
  | takeOwners hj hlock => exact h.takeOwners hj hlock
  | join hj hgone => exact h.join hj hgone

theorem Reachable.inv (h : Reachable s) : s.Inv := by
  induction h with
  | refl => exact inv_new
  | tail _ hstep ih => exact ih.step hstep

end Invariant

section Safety

variable {s : State} {a : Attempt}

end Safety

section Progress

/-- The steps of one owner, its worker and its permit. -/
inductive TaskStep (stopping : Bool) : Attempt → Attempt → Prop
  | step {a a'} (h : OwnerStep stopping a a') : TaskStep stopping a a'
  | release {a} (ho : a.owner = .releasing) :
    TaskStep stopping a { a with owner := .reporting, permit := false }

abbrev TaskRun (stopping : Bool) : Attempt → Attempt → Prop :=
  Relation.ReflTransGen (TaskStep stopping)

variable {s : State} {a a' : Attempt} {i : ℕ} {stopping : Bool}

/-- The owner is in `cleanup_spool` with a failure for its caller. -/
def Fails (stopping : Bool) (a : Attempt) : Prop :=
  ∃ a', TaskRun stopping a a' ∧ a'.owner = .cleaning ∧ a'.result = some false ∧
    a'.caller = a.caller ∧ a'.lease = a.lease

theorem Fails.head (h : OwnerStep stopping a a') (hf : Fails stopping a') : Fails stopping a := by
  obtain ⟨b, hrun, howner, hresult, hcaller, hlease⟩ := hf
  obtain ⟨hcaller', hlease', -⟩ := h.frame
  exact ⟨b, .head (.step h) hrun, howner, hresult, hcaller.trans hcaller', hlease.trans hlease'⟩

theorem fails_of_step (h : OwnerStep stopping a a') (howner : a'.owner = .cleaning)
    (hresult : a'.result = some false) : Fails stopping a :=
  ⟨a', .single (.step h), howner, hresult, h.frame.1, h.frame.2.1⟩

theorem fails_of_reaping (ha : a.Sound) (ho : a.owner = .reaping) : Fails stopping a := by
  have hreaped {b : Attempt} (ho : b.owner = .reaping) (hw : b.worker = .reaped) :
      Fails stopping b := fails_of_step (.fail ho hw) rfl rfl
  have hexited {b : Attempt} (ho : b.owner = .reaping) (hw : b.worker = .exited) :
      Fails stopping b := .head (.reap ho hw) (hreaped ho rfl)
  have hworker := ha.worker
  rw [ho] at hworker
  rcases List.mem_cons.mp hworker with hw | hworker
  · exact .head (.exit hw) (hexited ho rfl)
  · rcases List.mem_cons.mp hworker with hw | hworker
    · exact hexited ho hw
    · exact hreaped ho (List.mem_singleton.mp hworker)

theorem fails_of_working (ha : a.Sound) (ho : a.owner = .working) : Fails stopping a := by
  have hinterrupt : OwnerStep stopping a { a with owner := .reaping } := .interrupt ho
  exact .head hinterrupt (fails_of_reaping (ha.ownerStep hinterrupt) rfl)

theorem fails_of_spawning (ho : a.owner = .spawning) : Fails stopping a :=
  fails_of_step (.spawnFails ho) rfl rfl

theorem fails_of_starting (ho : a.owner = .starting) : Fails stopping a := by
  cases hs : stopping with
  | true => exact fails_of_step (.checkFails ho rfl) rfl rfl
  | false => exact .head (.check ho rfl) (fails_of_spawning rfl)

/-- The owner of a caller in `prepare` can answer it. -/
theorem answers (ha : a.Sound) (hc : a.caller = .preparing) :
    ∃ a', TaskRun stopping a a' ∧ a'.caller = .preparing ∧ a'.result ≠ none := by
  have hfails (hf : Fails stopping a) :
      ∃ a', TaskRun stopping a a' ∧ a'.caller = .preparing ∧ a'.result ≠ none := by
    obtain ⟨a', hrun, -, hresult, hcaller, -⟩ := hf
    exact ⟨a', hrun, hcaller.trans hc, by rw [hresult]; nofun⟩
  have hwaits := ha.waits
  rw [hc] at hwaits
  rcases hwaits with hresult | ⟨hpending, hstart⟩
  · exact ⟨a, .refl, hc, hresult⟩
  · cases ho : a.owner with
    | selecting =>
      cases hs : stopping with
      | true =>
        refine ⟨{ a with owner := .refusing, result := some false }, ?_, hc, nofun⟩
        exact .single (.step (.refuse ho rfl))
      | false =>
        rw [hs] at hfails
        exact hfails (.head (.take ho (hstart ho)) (fails_of_starting rfl))
    | starting => exact hfails (fails_of_starting ho)
    | spawning => exact hfails (fails_of_spawning ho)
    | working => exact hfails (fails_of_working ha ho)
    | reaping => exact hfails (fails_of_reaping ha ho)
    | _ =>
      rw [ho] at hpending
      cases hpending

/-- An owner in `cleanup_spool` can end. -/
theorem ends_of_cleaning (ho : a.owner = .cleaning) :
    ∃ a', TaskRun stopping a a' ∧ a'.caller = a.caller ∧ a'.done = true := by
  refine ⟨{ a with owner := .gone, spool := false, permit := false, done := true }, ?_, rfl, rfl⟩
  exact .head (.step (.remove ho)) (.head (.release rfl) (.single (.step (.report rfl))))

/-- The owner of a caller in `finish` can end: the lease is closed. -/
theorem ends (ha : a.Sound) (hc : a.caller = .finishing) :
    ∃ a', TaskRun stopping a a' ∧ a'.caller = .finishing ∧ a'.done = true := by
  have hlease : a.lease = false := by rw [ha.lease, hc]; rfl
  have hstep {b : Attempt} (h : TaskRun stopping a b) (howner : b.owner = .cleaning)
      (hcaller : b.caller = a.caller) :
      ∃ a', TaskRun stopping a a' ∧ a'.caller = .finishing ∧ a'.done = true := by
    have hends : ∃ a' : Attempt, TaskRun stopping b a' ∧ a'.caller = b.caller ∧ a'.done = true :=
      ends_of_cleaning howner
    obtain ⟨a', hrun, hcaller', hdone⟩ := hends
    exact ⟨a', h.trans hrun, hcaller'.trans (hcaller.trans hc), hdone⟩
  have hfails (hf : Fails stopping a) :
      ∃ a', TaskRun stopping a a' ∧ a'.caller = .finishing ∧ a'.done = true := by
    obtain ⟨b, hrun, howner, -, hcaller, -⟩ := hf
    exact hstep hrun howner hcaller
  cases ho : a.owner with
  | unspawned =>
    have hadmitting := ha.admitting.mp ho
    rw [hc] at hadmitting
    cases hadmitting
  | selecting => exact hstep (.single (.step (.leave ho hlease))) rfl rfl
  | refusing => exact hstep (.single (.step (.refused ho hlease))) rfl rfl
  | starting => exact hfails (fails_of_starting ho)
  | spawning => exact hfails (fails_of_spawning ho)
  | working => exact hfails (fails_of_working ha ho)
  | reaping => exact hfails (fails_of_reaping ha ho)
  | holding => exact hstep (.single (.step (.hold ho hlease))) rfl rfl
  | cleaning => exact hstep .refl ho rfl
  | releasing =>
    refine ⟨{ a with owner := .gone, permit := false, done := true }, ?_, hc, rfl⟩
    exact .head (.release ho) (.single (.step (.report rfl)))
  | reporting =>
    exact ⟨{ a with owner := .gone, done := true }, .single (.step (.report ho)), hc, rfl⟩
  | gone => exact ⟨a, .refl, hc, by rw [ha.done, ho]; rfl⟩

end Progress

section Admission

variable {s s' : State} {a a' : Attempt} {i : ℕ}

/-- Where a spool and a passed check come from. -/
def Attempt.Follows (closed : Bool) (a a' : Attempt) : Prop :=
  (a'.spool = true → a.spool = true ∨ a.caller = .accepted) ∧
    (a'.caller = .accepted → a.caller = .accepted ∨ closed = false)

theorem AdmitStep.follows {closed : Bool} (h : AdmitStep closed a a') : a.Follows closed a' := by
  cases h with
  | accept hc hopen => exact ⟨.inl, fun _ ↦ .inr hopen⟩
  | reject hc => exact ⟨nofun, nofun⟩
  | createSpool hc => exact ⟨fun _ ↦ .inr hc, nofun⟩
  | spawnOwner hc => exact ⟨.inl, nofun⟩

theorem CallerStep.follows {closed : Bool} (h : CallerStep a a') : a.Follows closed a' := by
  refine ⟨fun hspool ↦ .inl (h.frame.2.2.2.1 ▸ hspool), fun hc ↦ ?_⟩
  have hplaces := h.places.2.1
  rw [hc] at hplaces
  cases hplaces

theorem OwnerStep.follows {closed stopping : Bool} (h : OwnerStep stopping a a') :
    a.Follows closed a' := by
  refine ⟨fun hspool ↦ .inl ?_, fun hc ↦ .inl (h.frame.1 ▸ hc)⟩
  cases h <;> first | exact hspool | cases hspool

end Admission

section Protocol

end Protocol

end Jaunder.Host.UploadPreparer
