import Jaunder.Server.RuntimeProcesses

namespace Jaunder.Server.RuntimeOwnership

open Jaunder.Server.RuntimeFile Jaunder.Server.RuntimeProcesses

section Effects

/-- The addresses under which a published serve command can be found. -/
def Announces (s : Serve) (addr : SocketAddr) : Prop :=
  addr = reservation s.bind ∨ (s.phase = .serving ∧ s.bound = some addr)

/-- A step that leaves a publication standing. -/
structure Carries (s s' : Serve) : Prop where
  forced : s'.forced = s.forced
  announces : s'.phase.published = true →
    s.phase.published = true ∧ ∀ addr, Announces s addr → Announces s' addr
  named : s.phase.mayBeNamed = true → s'.phase.mayBeNamed = true

/-- What an action of a serve command does to the lock and the files. -/
inductive Effect (process : RuntimeProcessIdentity) (f : Files) (s : Serve) :
    Action → Files → Serve → Prop
  | acquires (hphase : s.phase = .starting) (hfree : f.lock = none) :
    Effect process f s .acquire { f with lock := some process.pid } { s with phase := .locked }
  | keeps {action : Action} {s' : Serve} (hcarries : Carries s s')
    (hlock : s'.phase.holdsLock = s.phase.holdsLock)
    (hpending : ∀ addr, s'.pending = some addr → s.pending = some addr) :
    Effect process f s action f s'
  | writes {action : Action} {s' : Serve} (addr : SocketAddr) (hcarries : Carries s s')
    (hlock : s.phase.holdsLock = true) (hlock' : s'.phase.holdsLock = true)
    (hpending : s'.pending = some addr) : Effect process f s action (f.writeTmp addr process) s'
  | publishes {action : Action} {s' : Serve} (addr : SocketAddr) (hpending : s.pending = some addr)
    (hlock : s.phase.holdsLock = true) (hlock' : s'.phase.holdsLock = true)
    (hpending' : s'.pending = none) (hannounces : Announces s' addr)
    (hnamed : s'.phase.mayBeNamed = true) : Effect process f s action f.rename s'
  | removes (removed : Bool) (hphase : s.phase = .dropping) :
    Effect process f s (.removeIdentity removed) (f.removeRuntimeFile removed)
      { s with phase := .unlocking }
  | unlocks (hphase : s.phase = .unlocking) :
    Effect process f s .unlock { f with lock := none } { s with phase := .returning }
  | forces (removed : Bool) (hstate : s.supervisor = some .draining) :
    Effect process f s (.signal .sigint removed) (f.removeRuntimeFile removed)
      { s with supervisor := none, forced := true }

theorem carries_of_not_serving {s s' : Serve} (hforced : s'.forced = s.forced) (hbind : s'.bind = s.bind)
    (hserving : s.phase ≠ .serving)
    (hpublished : s'.phase.published = true → s.phase.published = true)
    (hnamed : s.phase.mayBeNamed = true → s'.phase.mayBeNamed = true) : Carries s s' := by
  refine ⟨hforced, fun h ↦ ⟨hpublished h, fun addr haddr ↦ ?_⟩, hnamed⟩
  rcases haddr with haddr | ⟨hphase, -⟩
  · exact .inl (haddr.trans (congrArg reservation hbind.symm))
  · exact absurd hphase hserving

variable {startTimeOf : UInt32 → Option UInt64} {process : RuntimeProcessIdentity} {f f' : Files}
  {s s' : Serve} {action : Action}

/-- A move to a phase without a publication and without a rename that waits. -/
theorem keeps_moved {phase : Phase} (hpublished : phase.published = false)
    (hlock : phase.holdsLock = s.phase.holdsLock)
    (hnamed : s.phase.mayBeNamed = true → phase.mayBeNamed = true)
    (hpending : { s with phase := phase }.pending = none) :
    Effect process f s action f { s with phase := phase } := by
  refine .keeps ⟨rfl, fun h ↦ ?_, hnamed⟩ hlock (fun addr haddr ↦ ?_)
  · exact absurd (hpublished.symm.trans h) Bool.false_ne_true
  · rw [hpending] at haddr
    cases haddr

theorem afterFailure_effect {phase : Phase} (h : s.phase.afterFailure = some phase) :
    Effect process f s action f { s with phase := phase } := by
  cases hphase : s.phase with
  | starting =>
    rw [hphase] at h
    cases h
    exact keeps_moved rfl (by rw [hphase]; rfl) (by rw [hphase]; exact nofun) rfl
  | locked =>
    rw [hphase] at h
    cases h
    exact keeps_moved rfl (by rw [hphase]; rfl) (by rw [hphase]; exact nofun) rfl
  | checked =>
    rw [hphase] at h
    cases h
    exact keeps_moved rfl (by rw [hphase]; rfl) (by rw [hphase]; exact nofun) rfl
  | reserving =>
    rw [hphase] at h
    cases h
    exact keeps_moved rfl (by rw [hphase]; rfl) (by rw [hphase]; exact nofun) rfl
  | preparing =>
    rw [hphase] at h
    cases h
    exact keeps_moved rfl (by rw [hphase]; rfl) (fun _ ↦ rfl) rfl
  | _ =>
    rw [hphase] at h
    cases h

theorem handleSignal_effect {signal : ShutdownSignal} {removed : Bool}
    (h : handleSignal f s signal removed = some (f', s')) :
    Effect process f s (.signal signal removed) f' s' := by
  unfold handleSignal at h
  have hdrains : Effect process f s (.signal signal removed) f { s with supervisor := some .draining } :=
    .keeps ⟨rfl, fun hpublished ↦ ⟨hpublished, fun _ haddr ↦ haddr⟩, fun hnamed ↦ hnamed⟩ rfl
      (fun _ haddr ↦ haddr)
  cases hstate : s.supervisor with
  | none =>
    rw [hstate] at h
    cases h
  | some state =>
    rw [hstate] at h
    cases state with
    | awaitingSignal =>
      cases h
      exact hdrains
    | draining =>
      cases signal with
      | sigterm =>
        cases h
        exact hdrains
      | sigint =>
        cases h
        exact .forces removed hstate

theorem act_effect (h : act startTimeOf process f s action = some (f', s')) :
    Effect process f s action f' s' := by
  cases action with
  | acquire =>
    obtain ⟨hphase, h⟩ := Option.ite_none_right_eq_some.mp h
    split at h
    next hfree =>
      cases h
      exact .acquires hphase hfree
    next =>
      cases h
      exact keeps_moved rfl (by rw [hphase]; rfl) (by rw [hphase]; exact nofun) rfl
  | check readable =>
    obtain ⟨hphase, h⟩ := Option.ite_none_right_eq_some.mp h
    split at h
    · cases h
      exact keeps_moved rfl (by rw [hphase]; rfl) (by rw [hphase]; exact nofun) rfl
    · cases h
      exact keeps_moved rfl (by rw [hphase]; rfl) (by rw [hphase]; exact nofun) rfl
    · cases h
      exact keeps_moved rfl (by rw [hphase]; rfl) (by rw [hphase]; exact nofun) rfl
  | fail =>
    obtain ⟨phase, hphase, h⟩ := Option.map_eq_some_iff.mp h
    cases h
    exact afterFailure_effect hphase
  | writeReservation =>
    obtain ⟨hphase, h⟩ := Option.ite_none_right_eq_some.mp h
    cases h
    refine .writes _ (carries_of_not_serving rfl rfl ?_ nofun ?_) ?_ rfl rfl
    · rw [hphase]
      exact nofun
    · rw [hphase]
      exact nofun
    · rw [hphase]
      rfl
  | publish =>
    obtain ⟨hphase, h⟩ := Option.ite_none_right_eq_some.mp h
    cases h
    refine .publishes (reservation s.bind) ?_ ?_ rfl rfl (.inl rfl) rfl
    · rw [Serve.pending, hphase]
    · rw [hphase]
      rfl
  | writeAddress addr =>
    obtain ⟨hphase, h⟩ := Option.ite_none_right_eq_some.mp h
    cases h
    refine .writes addr (carries_of_not_serving rfl rfl ?_ ?_ (fun _ ↦ rfl)) ?_ rfl rfl
    · rw [hphase]
      exact nofun
    · rw [hphase]
      exact fun _ ↦ rfl
    · rw [hphase]
      rfl
  | publishAddress =>
    cases hbound : s.bound with
    | none =>
      simp only [act, hbound] at h
      cases h
    | some addr =>
      simp only [act, hbound] at h
      obtain ⟨hphase, h⟩ := Option.ite_none_right_eq_some.mp h
      cases h
      refine .publishes addr ?_ ?_ rfl rfl (.inr ⟨rfl, rfl⟩) rfl
      · rw [Serve.pending, hphase]
        exact hbound
      · rw [hphase]
        rfl
  | keepReservation =>
    obtain ⟨hphase, h⟩ := Option.ite_none_right_eq_some.mp h
    cases h
    have hserving : s.phase ≠ .serving := by
      rcases hphase with hphase | hphase
      · rw [hphase]
        exact nofun
      · rw [hphase]
        exact nofun
    refine .keeps (carries_of_not_serving rfl rfl hserving (fun _ ↦ ?_) (fun _ ↦ rfl)) ?_ nofun
    · rcases hphase with hphase | hphase
      · rw [hphase]
        rfl
      · rw [hphase]
        rfl
    · rcases hphase with hphase | hphase
      · rw [hphase]
        rfl
      · rw [hphase]
        rfl
  | stop =>
    obtain ⟨hphase, h⟩ := Option.ite_none_right_eq_some.mp h
    cases h
    refine .keeps ⟨rfl, nofun, fun _ ↦ rfl⟩ ?_ nofun
    rw [hphase]
    rfl
  | removeIdentity removed =>
    obtain ⟨hphase, h⟩ := Option.ite_none_right_eq_some.mp h
    cases h
    exact .removes removed hphase
  | unlock =>
    obtain ⟨hphase, h⟩ := Option.ite_none_right_eq_some.mp h
    cases h
    exact .unlocks hphase
  | signal signal removed => exact handleSignal_effect h

end Effects

section Locks

/-- The lock belongs to who is past it, and what waits for a rename is its own. -/
structure Good (process : RuntimeProcessIdentity) (f : Files) (s : Serve) : Prop where
  lock : s.phase.holdsLock = true ↔ f.lock = some process.pid
  tmp : ∀ addr, s.pending = some addr → f.tmp = some (body addr process)

def Published (process : RuntimeProcessIdentity) (f : Files) (s : Serve) : Prop :=
  s.phase.published = true → s.forced = false →
    ∃ addr, Announces s addr ∧ f.runtime = some (body addr process)

variable {process other : RuntimeProcessIdentity} {f f' : Files} {s s' t : Serve} {action : Action}

theorem pending_of_idle (h : s.phase.holdsLock = false) : s.pending = none := by
  cases hphase : s.phase with
  | reserving =>
    rw [hphase] at h
    cases h
  | updating =>
    rw [hphase] at h
    cases h
  | _ => rw [Serve.pending, hphase]

theorem holdsLock_of_published {phase : Phase} (h : phase.published = true) : phase.holdsLock = true := by
  cases phase with
  | starting => cases h
  | returning => cases h
  | _ => rfl

theorem good_of_idle (hidle : s.phase.holdsLock = false) (hlock : f.lock ≠ some process.pid) :
    Good process f s := by
  refine ⟨iff_of_false (Bool.eq_false_iff.mp hidle) hlock, fun addr haddr ↦ ?_⟩
  rw [pending_of_idle hidle] at haddr
  cases haddr

theorem Good.idle (h : Good other f t) (hlock : f.lock ≠ some other.pid) : t.phase.holdsLock = false :=
  Bool.eq_false_iff.mpr (fun hholds ↦ hlock (h.lock.mp hholds))

theorem Effect.good (h : Effect process f s action f' s') (hgood : Good process f s) :
    Good process f' s' := by
  cases h with
  | acquires hphase hfree => exact ⟨iff_of_true rfl rfl, nofun⟩
  | keeps hcarries hlock hpending =>
    refine ⟨?_, fun addr haddr ↦ hgood.tmp addr (hpending addr haddr)⟩
    rw [hlock]
    exact hgood.lock
  | writes addr hcarries hlock hlock' hpending =>
    refine ⟨iff_of_true hlock' (hgood.lock.mp hlock), fun addr' haddr' ↦ ?_⟩
    rw [hpending] at haddr'
    cases haddr'
    rfl
  | publishes addr hpending hlock hlock' hpending' hannounces hnamed =>
    refine ⟨iff_of_true hlock' (hgood.lock.mp hlock), fun addr' haddr' ↦ ?_⟩
    rw [hpending'] at haddr'
    cases haddr'
  | removes removed hphase =>
    have hholds : s.phase.holdsLock = true := by
      rw [hphase]
      rfl
    exact ⟨iff_of_true rfl (hgood.lock.mp hholds), nofun⟩
  | unlocks hphase => exact ⟨iff_of_false nofun nofun, nofun⟩
  | forces removed hstate => exact ⟨hgood.lock, hgood.tmp⟩

/-- Who takes the lock found it free; who lets it go had it. -/
theorem Effect.lock_cases (h : Effect process f s action f' s') (hgood : Good process f s) :
    f'.lock = f.lock ∨ (f.lock = none ∧ f'.lock = some process.pid) ∨
      (f.lock = some process.pid ∧ f'.lock = none) := by
  cases h with
  | acquires hphase hfree => exact .inr (.inl ⟨hfree, rfl⟩)
  | unlocks hphase =>
    have hholds : s.phase.holdsLock = true := by
      rw [hphase]
      rfl
    exact .inr (.inr ⟨hgood.lock.mp hholds, rfl⟩)
  | keeps hcarries hlock hpending => exact .inl rfl
  | writes addr hcarries hlock hlock' hpending => exact .inl rfl
  | publishes addr hpending hlock hlock' hpending' hannounces hnamed => exact .inl rfl
  | removes removed hphase => exact .inl rfl
  | forces removed hstate => exact .inl rfl

/-- The temporary file changes under the lock only. -/
theorem Effect.tmp_cases (h : Effect process f s action f' s') (hgood : Good process f s) :
    f'.tmp = f.tmp ∨ f.lock = some process.pid := by
  cases h with
  | writes addr hcarries hlock hlock' hpending => exact .inr (hgood.lock.mp hlock)
  | publishes addr hpending hlock hlock' hpending' hannounces hnamed =>
    exact .inr (hgood.lock.mp hlock)
  | acquires hphase hfree => exact .inl rfl
  | unlocks hphase => exact .inl rfl
  | keeps hcarries hlock hpending => exact .inl rfl
  | removes removed hphase => exact .inl rfl
  | forces removed hstate => exact .inl rfl

/-- The published file changes under the lock only, but for a forced exit. -/
theorem Effect.runtime_cases (h : Effect process f s action f' s') (hgood : Good process f s) :
    f'.runtime = f.runtime ∨ f.lock = some process.pid ∨
      ∃ removed, action = .signal .sigint removed ∧ s.supervisor = some .draining := by
  cases h with
  | publishes addr hpending hlock hlock' hpending' hannounces hnamed =>
    exact .inr (.inl (hgood.lock.mp hlock))
  | removes removed hphase =>
    have hholds : s.phase.holdsLock = true := by
      rw [hphase]
      rfl
    exact .inr (.inl (hgood.lock.mp hholds))
  | forces removed hstate => exact .inr (.inr ⟨removed, rfl, hstate⟩)
  | acquires hphase hfree => exact .inl rfl
  | unlocks hphase => exact .inl rfl
  | keeps hcarries hlock hpending => exact .inl rfl
  | writes addr hcarries hlock hlock' hpending => exact .inl rfl

theorem Effect.good_other (h : Effect process f s action f' s') (hgood : Good process f s)
    (hother : Good other f t) (hpid : other.pid ≠ process.pid) : Good other f' t := by
  have hne : some process.pid ≠ some other.pid := fun heq ↦ hpid (Option.some.inj heq).symm
  by_cases hlock : f.lock = some process.pid
  · have hidle := hother.idle (hlock ▸ hne)
    refine good_of_idle hidle ?_
    rcases h.lock_cases hgood with hsame | ⟨-, htaken⟩ | ⟨-, hfree⟩
    · rw [hsame, hlock]
      exact hne
    · rw [htaken]
      exact hne
    · rw [hfree]
      exact nofun
  · have htmp : f'.tmp = f.tmp := (h.tmp_cases hgood).resolve_right hlock
    rcases h.lock_cases hgood with hsame | ⟨hfree, htaken⟩ | ⟨hheld, -⟩
    · refine ⟨?_, fun addr haddr ↦ htmp.trans (hother.tmp addr haddr)⟩
      rw [hsame]
      exact hother.lock
    · refine good_of_idle (hother.idle ?_) ?_
      · rw [hfree]
        exact nofun
      · rw [htaken]
        exact hne
    · exact absurd hheld hlock

theorem Effect.published (h : Effect process f s action f' s') (hgood : Good process f s)
    (hpublished : Published process f s) : Published process f' s' := by
  intro hphase' hforced
  cases h with
  | acquires hphase hfree => cases hphase'
  | removes removed hphase => cases hphase'
  | unlocks hphase => cases hphase'
  | forces removed hstate => cases hforced
  | keeps hcarries hlock hpending =>
    obtain ⟨hphase, hannounces⟩ := hcarries.announces hphase'
    obtain ⟨addr, haddr, hruntime⟩ := hpublished hphase (hcarries.forced.symm.trans hforced)
    exact ⟨addr, hannounces addr haddr, hruntime⟩
  | writes addr hcarries hlock hlock' hpending =>
    obtain ⟨hphase, hannounces⟩ := hcarries.announces hphase'
    obtain ⟨addr, haddr, hruntime⟩ := hpublished hphase (hcarries.forced.symm.trans hforced)
    exact ⟨addr, hannounces addr haddr, hruntime⟩
  | publishes addr hpending hlock hlock' hpending' hannounces hnamed =>
    exact ⟨addr, hannounces, hgood.tmp addr hpending⟩

theorem Effect.published_other (h : Effect process f s action f' s') (hgood : Good process f s)
    (hother : Good other f t) (hpid : other.pid ≠ process.pid) (hpublished : Published other f t)
    (horderly : ∀ removed, action = .signal .sigint removed → s.supervisor = some .draining →
      f.lock = none ∨ f.lock = some process.pid) : Published other f' t := by
  intro hphase hforced
  have hlock := hother.lock.mp (holdsLock_of_published hphase)
  have hne : f.lock ≠ some process.pid := by
    rw [hlock]
    exact fun heq ↦ hpid (Option.some.inj heq)
  obtain ⟨addr, haddr, hruntime⟩ := hpublished hphase hforced
  refine ⟨addr, haddr, ?_⟩
  rcases h.runtime_cases hgood with hsame | hheld | ⟨removed, hsignal, hstate⟩
  · exact hsame.trans hruntime
  · exact absurd hheld hne
  · rcases horderly removed hsignal hstate with hfree | hheld
    · rw [hfree] at hlock
      cases hlock
    · exact absurd hheld hne

end Locks

end Jaunder.Server.RuntimeOwnership
