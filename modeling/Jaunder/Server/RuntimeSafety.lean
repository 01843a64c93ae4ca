import Jaunder.Server.RuntimeOwnership

namespace Jaunder.Server.RuntimeSafety

open Foundation.IpAddress
open Jaunder.Server.RuntimeFile Jaunder.Server.RuntimeProcesses Jaunder.Server.RuntimeOwnership

section Steps

variable {w w' : World} {e : Event} {process : RuntimeProcessIdentity} {pid : UInt32} {p : Process}

theorem update_eq_some {table : UInt32 → Option Process} {value : Option Process} {q : UInt32} :
    Function.update table pid value q = some p ↔ (q = pid ∧ value = some p) ∨ (q ≠ pid ∧ table q = some p) := by
  by_cases hq : q = pid
  · rw [hq, Function.update_self]
    simp
  · rw [Function.update_of_ne hq]
    simp [hq]

/-- What a step can do. -/
theorem step_cases (h : step w e = some w') :
    (∃ (process : RuntimeProcessIdentity) (bind : Option SocketAddr), process.pid ≠ 0 ∧ w.table process.pid = none ∧ process ∉ w.past ∧ w' =
      { w with
        table := Function.update w.table process.pid (some ⟨process, bind.map newServe⟩)
        past := process :: w.past
        servers := if bind.isSome then process :: w.servers else w.servers }) ∨
    (∃ pid p, w.table pid = some p ∧ w' =
      { w with table := Function.update w.table pid none, files := w.files.release pid }) ∨
    ∃ pid action p s files s', e = .act pid action ∧ w.table pid = some p ∧ p.serve = some s ∧
      Effect p.identity w.files s action files s' ∧ w' =
        { w with
          table := Function.update w.table pid (some { p with serve := some s' })
          files := files } := by
  cases e with
  | spawn process bind =>
    obtain ⟨⟨hpid, hfree, hnew⟩, h⟩ := Option.ite_none_right_eq_some.mp h
    cases h
    exact .inl ⟨process, bind, hpid, Option.isNone_iff_eq_none.mp hfree, hnew, rfl⟩
  | exit pid =>
    obtain ⟨p, hp, h⟩ := Option.map_eq_some_iff.mp h
    cases h
    exact .inr (.inl ⟨pid, p, hp, rfl⟩)
  | act pid action =>
    obtain ⟨p, hp, h⟩ := Option.bind_eq_some_iff.mp h
    obtain ⟨s, hs, h⟩ := Option.bind_eq_some_iff.mp h
    obtain ⟨⟨files, s'⟩, hact, h⟩ := Option.bind_eq_some_iff.mp h
    cases h
    exact .inr (.inr ⟨pid, action, p, s, files, s', rfl, hp, hs, act_effect hact, rfl⟩)

/-- A condition on every event of a run, at the state that it meets. -/
def Throughout (P : World → Event → Prop) : World → List Event → Prop
  | _, [] => True
  | w, e :: events => P w e ∧ Throughout P (next w e) events

/-- What every step keeps, a run keeps. -/
theorem run_keeps {P : World → Event → Prop} {I : World → Prop}
    (hstep : ∀ w e w', P w e → I w → step w e = some w' → I w') {events : List Event}
    (hevents : Throughout P w events) (hw : I w) : I (run w events) := by
  induction events generalizing w with
  | nil => exact hw
  | cons e events ih =>
    refine ih hevents.2 ?_
    unfold next
    cases h : step w e with
    | none => exact hw
    | some w' => exact hstep w e w' hevents.1 hw h

theorem throughout_true (w : World) (events : List Event) : Throughout (fun _ _ ↦ True) w events := by
  induction events generalizing w with
  | nil => trivial
  | cons e events ih => exact ⟨trivial, ih _⟩

end Steps

section Identities

/-- The table and the identities that there have been agree. -/
structure Consistent (w : World) : Prop where
  keyed : ∀ pid p, w.table pid = some p → p.identity.pid = pid ∧ pid ≠ 0
  past : ∀ pid p, w.table pid = some p → p.identity ∈ w.past
  servers : ∀ pid p, w.table pid = some p → (p.serve.isSome = true ↔ p.identity ∈ w.servers)
  servers_past : ∀ process ∈ w.servers, process ∈ w.past

variable {w w' w'' : World} {e : Event} {process : RuntimeProcessIdentity} {pid : UInt32} {p : Process}

theorem step_consistent (hw : Consistent w) (h : step w e = some w') : Consistent w' := by
  rcases step_cases h with ⟨process, bind, hpid, hfree, hnew, rfl⟩ | ⟨pid, p, hp, rfl⟩ |
    ⟨pid, action, p, s, files, s', -, hp, hs, -, rfl⟩
  · have hne : ∀ pid p, w.table pid = some p → p.identity ≠ process :=
      fun pid p hp heq ↦ hnew (heq ▸ hw.past pid p hp)
    have hservers : ∀ other, other ≠ process →
        (other ∈ (if bind.isSome then process :: w.servers else w.servers) ↔ other ∈ w.servers) := by
      intro other hother
      cases bind with
      | none => exact Iff.rfl
      | some bind => exact List.mem_cons.trans (or_iff_right hother)
    refine ⟨fun q p hq ↦ ?_, fun q p hq ↦ ?_, fun q p hq ↦ ?_, fun other hother ↦ ?_⟩
    · rcases update_eq_some.mp hq with ⟨rfl, hp⟩ | ⟨-, hq⟩
      · cases hp
        exact ⟨rfl, hpid⟩
      · exact hw.keyed q p hq
    · rcases update_eq_some.mp hq with ⟨rfl, hp⟩ | ⟨-, hq⟩
      · cases hp
        exact List.mem_cons_self
      · exact List.mem_cons_of_mem _ (hw.past q p hq)
    · rcases update_eq_some.mp hq with ⟨rfl, hp⟩ | ⟨-, hq⟩
      · cases hp
        cases bind with
        | none => exact iff_of_false Bool.false_ne_true (fun hmem ↦ hnew (hw.servers_past _ hmem))
        | some bind => exact iff_of_true rfl List.mem_cons_self
      · exact (hw.servers q p hq).trans (hservers _ (hne q p hq)).symm
    · by_cases heq : other = process
      · rw [heq]
        exact List.mem_cons_self
      · exact List.mem_cons_of_mem _ (hw.servers_past other ((hservers other heq).mp hother))
  · have hkept : ∀ q p', Function.update w.table pid none q = some p' → w.table q = some p' := by
      intro q p' hq
      rcases update_eq_some.mp hq with ⟨-, hnone⟩ | ⟨-, hq⟩
      · cases hnone
      · exact hq
    exact ⟨fun q p' hq ↦ hw.keyed q p' (hkept q p' hq), fun q p' hq ↦ hw.past q p' (hkept q p' hq),
      fun q p' hq ↦ hw.servers q p' (hkept q p' hq), hw.servers_past⟩
  · have hkept : ∀ q p', Function.update w.table pid (some { p with serve := some s' }) q = some p' →
        ∃ p'', w.table q = some p'' ∧ p''.identity = p'.identity ∧ p''.serve.isSome = p'.serve.isSome := by
      intro q p' hq
      rcases update_eq_some.mp hq with ⟨rfl, hp'⟩ | ⟨-, hq⟩
      · cases hp'
        exact ⟨p, hp, rfl, by rw [hs]; rfl⟩
      · exact ⟨p', hq, rfl, rfl⟩
    refine ⟨fun q p' hq ↦ ?_, fun q p' hq ↦ ?_, fun q p' hq ↦ ?_, hw.servers_past⟩
    · obtain ⟨p'', hq, hsame, -⟩ := hkept q p' hq
      exact hsame ▸ hw.keyed q p'' hq
    · obtain ⟨p'', hq, hsame, -⟩ := hkept q p' hq
      exact hsame ▸ hw.past q p'' hq
    · obtain ⟨p'', hq, hsame, hserve⟩ := hkept q p' hq
      rw [← hsame, ← hserve]
      exact hw.servers q p'' hq

theorem run_consistent (hw : Consistent w) (events : List Event) : Consistent (run w events) :=
  run_keeps (fun _ _ _ _ hw h ↦ step_consistent hw h) (throughout_true w events) hw

/-- An identity that is gone stays gone. -/
structure Gone (w : World) (process : RuntimeProcessIdentity) : Prop where
  past : process ∈ w.past
  dead : ¬Alive w process

theorem step_gone (hw : Gone w process) (h : step w e = some w') : Gone w' process := by
  rcases step_cases h with ⟨new, bind, -, -, hnew, rfl⟩ | ⟨pid, p, -, rfl⟩ |
    ⟨pid, action, p, s, files, s', -, hp, -, -, rfl⟩
  · refine ⟨List.mem_cons_of_mem _ hw.past, ?_⟩
    rintro ⟨p, hp, hsame⟩
    rcases update_eq_some.mp hp with ⟨-, hp⟩ | ⟨-, hp⟩
    · cases hp
      cases hsame
      exact hnew hw.past
    · exact hw.dead ⟨p, hp, hsame⟩
  · refine ⟨hw.past, ?_⟩
    rintro ⟨p, hp, hsame⟩
    rcases update_eq_some.mp hp with ⟨-, hp⟩ | ⟨-, hp⟩
    · cases hp
    · exact hw.dead ⟨p, hp, hsame⟩
  · refine ⟨hw.past, ?_⟩
    rintro ⟨p', hp', hsame⟩
    rcases update_eq_some.mp hp' with ⟨hpid, hp'⟩ | ⟨-, hp'⟩
    · cases hp'
      exact hw.dead ⟨p, hpid ▸ hp, hsame⟩
    · exact hw.dead ⟨p', hp', hsame⟩

theorem run_gone (hw : Gone w process) (events : List Event) : Gone (run w events) process :=
  run_keeps (I := fun w ↦ Gone w process) (fun _ _ _ _ hw h ↦ step_gone hw h) (throughout_true w events) hw

def Follows (w w' : World) : Prop := ∃ events, w' = run w events

theorem Follows.trans (h : Follows w w') (h' : Follows w' w'') : Follows w w'' := by
  obtain ⟨events, rfl⟩ := h
  obtain ⟨later, rfl⟩ := h'
  exact ⟨events ++ later, List.foldl_append.symm⟩

theorem step_past (h : step w e = some w') (hpast : process ∈ w.past) : process ∈ w'.past := by
  rcases step_cases h with ⟨new, bind, -, -, -, rfl⟩ | ⟨pid, p, -, rfl⟩ |
    ⟨pid, action, p, s, files, s', -, -, -, -, rfl⟩
  · exact List.mem_cons_of_mem _ hpast
  · exact hpast
  · exact hpast

theorem run_past (hpast : process ∈ w.past) (events : List Event) : process ∈ (run w events).past :=
  run_keeps (I := fun w ↦ process ∈ w.past) (fun _ _ _ _ hw h ↦ step_past h hw) (throughout_true w events)
    hpast

theorem alive_past (hw : Consistent w) (h : Alive w process) : process ∈ w.past := by
  obtain ⟨p, hp, rfl⟩ := h
  exact hw.past _ p hp

/-- Who is there before and after has been there all the time. -/
theorem alive_between (hw : Consistent w) (h : Follows w w') (h' : Follows w' w'')
    (hbefore : Alive w process) (hafter : Alive w'' process) : Alive w' process := by
  by_contra hdead
  obtain ⟨events, rfl⟩ := h
  obtain ⟨later, rfl⟩ := h'
  exact (run_gone ⟨run_past (alive_past hw hbefore) events, hdead⟩ later).dead hafter

theorem alive_of_startTimeOf (hw : Consistent w)
    (h : startTimeOf w process.pid = some process.startTime) : Alive w process := by
  obtain ⟨p, hp, hstart⟩ := Option.map_eq_some_iff.mp h
  refine ⟨p, hp, ?_⟩
  obtain ⟨hpid, -⟩ := hw.keyed _ p hp
  cases hidentity : p.identity with
  | mk pid startTime =>
    rw [hidentity] at hpid hstart
    cases process with
    | mk pid' startTime' =>
      cases hpid
      cases hstart
      rfl

end Identities

section Guards

/-- Every serve command and the files of its directory fit, and the lock has a live holder. -/
structure Guarded (w : World) : Prop where
  good : ∀ pid p s, w.table pid = some p → p.serve = some s → Good p.identity w.files s
  holder : ∀ pid, w.files.lock = some pid → (w.table pid).isSome = true

/-- A readable runtime file names a serve command of this directory. -/
def Left (w : World) : Prop :=
  ∀ contents process, w.files.runtime = some contents →
    decodeRuntimeProcessIdentity contents = .ok process → process ∈ w.servers

def AllPublished (w : World) : Prop :=
  ∀ pid p s, w.table pid = some p → p.serve = some s → Published p.identity w.files s

/-- Before the first serve command; the runtime file may be left from an earlier one. -/
structure Boot (w : World) : Prop where
  consistent : Consistent w
  idle : ∀ pid p, w.table pid = some p → p.serve = none
  unlocked : w.files.lock = none
  left : Left w

variable {w w' : World} {e : Event} {process : RuntimeProcessIdentity} {pid : UInt32} {p : Process}
  {s : Serve}

theorem Boot.guarded (h : Boot w) : Guarded w := by
  refine ⟨fun pid p s hp hs ↦ ?_, fun pid hlock ↦ ?_⟩
  · rw [h.idle pid p hp] at hs
    cases hs
  · rw [h.unlocked] at hlock
    cases hlock

theorem Boot.allPublished (h : Boot w) : AllPublished w := by
  intro pid p s hp hs
  rw [h.idle pid p hp] at hs
  cases hs

theorem good_release {f : Files} (hgood : Good process f s) (hpid : process.pid ≠ pid) :
    Good process (f.release pid) s := by
  refine ⟨?_, hgood.tmp⟩
  by_cases hlock : f.lock = some pid
  · have hne : f.lock ≠ some process.pid := by
      rw [hlock]
      exact fun heq ↦ hpid (Option.some.inj heq).symm
    rw [hgood.idle hne]
    refine iff_of_false Bool.false_ne_true ?_
    rw [Files.release, if_pos hlock]
    exact nofun
  · rw [Files.release, if_neg hlock]
    exact hgood.lock

theorem step_guarded (hc : Consistent w) (hw : Guarded w) (h : step w e = some w') : Guarded w' := by
  rcases step_cases h with ⟨process, bind, hpid, hfree, hnew, rfl⟩ | ⟨pid, p, hp, rfl⟩ |
    ⟨pid, action, p, s, files, s', -, hp, hs, heffect, rfl⟩
  · refine ⟨fun q p s hq hs ↦ ?_, fun q hlock ↦ ?_⟩
    · rcases update_eq_some.mp hq with ⟨-, hp⟩ | ⟨-, hq⟩
      · cases hp
        obtain ⟨bind, -, rfl⟩ := Option.map_eq_some_iff.mp hs
        refine good_of_idle rfl (fun hlock ↦ ?_)
        have hholder := hw.holder process.pid hlock
        rw [hfree] at hholder
        cases hholder
      · exact hw.good q p s hq hs
    · by_cases hq : q = process.pid
      · show (Function.update w.table process.pid _ q).isSome = true
        rw [hq, Function.update_self]
        rfl
      · show (Function.update w.table process.pid _ q).isSome = true
        rw [Function.update_of_ne hq]
        exact hw.holder q hlock
  · refine ⟨fun q p' s hq hs ↦ ?_, fun q hlock ↦ ?_⟩
    · rcases update_eq_some.mp hq with ⟨-, hnone⟩ | ⟨hne, hq⟩
      · cases hnone
      · refine good_release (hw.good q p' s hq hs) ?_
        rw [(hc.keyed q p' hq).1]
        exact hne
    · by_cases hheld : w.files.lock = some pid
      · have hnone : (w.files.release pid).lock = none := if_pos hheld
        rw [show (w.files.release pid).lock = some q from hlock] at hnone
        cases hnone
      · have hkept : (w.files.release pid).lock = w.files.lock := if_neg hheld
        have hlock' : w.files.lock = some q := hkept.symm.trans hlock
        have hq : q ≠ pid := fun heq ↦ hheld (heq ▸ hlock')
        show (Function.update w.table pid none q).isSome = true
        rw [Function.update_of_ne hq]
        exact hw.holder q hlock'
  · have hgood := hw.good pid p s hp hs
    have hkey := (hc.keyed pid p hp).1
    refine ⟨fun q p' t hq ht ↦ ?_, fun q hlock ↦ ?_⟩
    · rcases update_eq_some.mp hq with ⟨-, hp'⟩ | ⟨hne, hq⟩
      · cases hp'
        cases ht
        exact heffect.good hgood
      · refine heffect.good_other hgood (hw.good q p' t hq ht) ?_
        rw [hkey, (hc.keyed q p' hq).1]
        exact hne
    · show (Function.update w.table pid _ q).isSome = true
      by_cases hq : q = pid
      · rw [hq, Function.update_self]
        rfl
      · rw [Function.update_of_ne hq]
        rcases heffect.lock_cases hgood with hsame | ⟨-, htaken⟩ | ⟨-, hfree⟩
        · exact hw.holder q (hsame.symm.trans hlock)
        · have heq := Option.some.inj (htaken.symm.trans hlock)
          exact absurd (heq.symm.trans hkey) hq
        · rw [show files.lock = some q from hlock] at hfree
          cases hfree

/-- The runtime file after an action is the old one, none, or names the process that acted. -/
theorem effect_names {f f' : Files} {s' : Serve} {action : Action}
    (h : Effect p.identity f s action f' s') (hgood : Good p.identity f s) {contents : List Char}
    (hpid : p.identity.pid ≠ 0) (hcontents : f'.runtime = some contents)
    (hdecode : decodeRuntimeProcessIdentity contents = .ok process) :
    f.runtime = some contents ∨ (process = p.identity ∧ s'.phase.mayBeNamed = true) := by
  cases h with
  | publishes addr hpending hlock hlock' hpending' hannounces hnamed =>
    have hbody : some (body addr p.identity) = some contents :=
      (hgood.tmp addr hpending).symm.trans hcontents
    cases hbody
    rw [decodeRuntimeProcessIdentity_body addr hpid] at hdecode
    exact .inr ⟨(Except.ok.inj hdecode).symm, hnamed⟩
  | removes removed hphase =>
    obtain ⟨-, hkept⟩ := Option.ite_none_left_eq_some.mp hcontents
    exact .inl hkept
  | forces removed hstate =>
    obtain ⟨-, hkept⟩ := Option.ite_none_left_eq_some.mp hcontents
    exact .inl hkept
  | acquires hphase hfree => exact .inl hcontents
  | unlocks hphase => exact .inl hcontents
  | keeps hcarries hlock hpending => exact .inl hcontents
  | writes addr hcarries hlock hlock' hpending => exact .inl hcontents

theorem step_left (hc : Consistent w) (hg : Guarded w) (hw : Left w) (h : step w e = some w') :
    Left w' := by
  intro contents named hcontents hdecode
  rcases step_cases h with ⟨process, bind, -, -, -, rfl⟩ | ⟨pid, p, -, rfl⟩ |
    ⟨pid, action, p, s, files, s', -, hp, hs, heffect, rfl⟩
  · have hmem := hw contents named hcontents hdecode
    show named ∈ (if bind.isSome then process :: w.servers else w.servers)
    split
    · exact List.mem_cons_of_mem _ hmem
    · exact hmem
  · exact hw contents named hcontents hdecode
  · obtain ⟨hkey, hpid⟩ := hc.keyed pid p hp
    rcases effect_names heffect (hg.good pid p s hp hs) (hkey ▸ hpid) hcontents hdecode with
      hkept | ⟨rfl, -⟩
    · exact hw contents named hkept hdecode
    · exact (hc.servers pid p hp).mp (by rw [hs]; rfl)

/-- What every run from the boot of the machine keeps. -/
structure Kept (w : World) : Prop where
  consistent : Consistent w
  guarded : Guarded w
  left : Left w

theorem Boot.kept (h : Boot w) : Kept w := ⟨h.consistent, h.guarded, h.left⟩

theorem step_kept (hw : Kept w) (h : step w e = some w') : Kept w' :=
  ⟨step_consistent hw.consistent h, step_guarded hw.consistent hw.guarded h,
    step_left hw.consistent hw.guarded hw.left h⟩

theorem run_kept (hw : Kept w) (events : List Event) : Kept (run w events) :=
  run_keeps (fun _ _ _ _ hw h ↦ step_kept hw h) (throughout_true w events) hw

/-- A forced exit strikes the process that holds the lock, or nobody holds it. -/
def Orderly (w : World) (e : Event) : Prop :=
  ∀ pid removed p s, e = .act pid (.signal .sigint removed) → w.table pid = some p →
    p.serve = some s → s.supervisor = some .draining →
      w.files.lock = none ∨ w.files.lock = some pid

theorem orderly_of_ne (h : ∀ pid removed, e ≠ .act pid (.signal .sigint removed)) : Orderly w e :=
  fun pid removed _ _ he ↦ absurd he (h pid removed)

theorem step_allPublished (hk : Kept w) (horderly : Orderly w e) (hw : AllPublished w)
    (h : step w e = some w') : AllPublished w' := by
  rcases step_cases h with ⟨process, bind, -, -, -, rfl⟩ | ⟨pid, p, -, rfl⟩ |
    ⟨pid, action, p, s, files, s', rfl, hp, hs, heffect, rfl⟩
  · intro q p s hq hs
    rcases update_eq_some.mp hq with ⟨-, hp⟩ | ⟨-, hq⟩
    · cases hp
      obtain ⟨bind, -, rfl⟩ := Option.map_eq_some_iff.mp hs
      exact nofun
    · exact hw q p s hq hs
  · intro q p' s hq hs
    rcases update_eq_some.mp hq with ⟨-, hnone⟩ | ⟨-, hq⟩
    · cases hnone
    · exact hw q p' s hq hs
  · have hgood := hk.guarded.good pid p s hp hs
    have hkey := (hk.consistent.keyed pid p hp).1
    intro q p' t hq ht
    rcases update_eq_some.mp hq with ⟨-, hp'⟩ | ⟨hne, hq⟩
    · cases hp'
      cases ht
      exact heffect.published hgood (hw pid p s hp hs)
    · refine heffect.published_other hgood (hk.guarded.good q p' t hq ht) ?_ (hw q p' t hq ht)
        (fun removed haction hstate ↦ ?_)
      · rw [hkey, (hk.consistent.keyed q p' hq).1]
        exact hne
      · rw [hkey]
        exact horderly pid removed p s (by rw [haction]) hp hs hstate

/-- A published serve command is found under its own identity, and no second one is past the lock. -/
theorem published_identity (w : World) (hboot : Boot w) (events : List Event)
    (horderly : Throughout Orderly w events) (pid : UInt32) (p : Process) (s : Serve)
    (hp : (run w events).table pid = some p) (hs : p.serve = some s) :
    (s.phase.published = true → s.forced = false → ∃ addr contents, Announces s addr ∧
      (run w events).files.runtime = some contents ∧
        decodeRuntimeRecord contents = .ok ⟨p.identity, addr.port⟩) ∧
    (s.phase.holdsLock = true → ∀ pid' p' s', (run w events).table pid' = some p' →
      p'.serve = some s' → s'.phase.holdsLock = true → pid' = pid) := by
  obtain ⟨hk, hall⟩ := run_keeps (I := fun w ↦ Kept w ∧ AllPublished w)
    (fun _ _ _ horderly hw h ↦ ⟨step_kept hw.1 h, step_allPublished hw.1 horderly hw.2 h⟩) horderly
    ⟨hboot.kept, hboot.allPublished⟩
  obtain ⟨hkey, hpid⟩ := hk.consistent.keyed pid p hp
  refine ⟨fun hphase hforced ↦ ?_, fun hholds pid' p' s' hp' hs' hholds' ↦ ?_⟩
  · obtain ⟨addr, haddr, hruntime⟩ := hall pid p s hp hs hphase hforced
    exact ⟨addr, _, haddr, hruntime, decodeRuntimeRecord_body addr (hkey ▸ hpid)⟩
  · have hlock := (hk.guarded.good pid p s hp hs).lock.mp hholds
    have hlock' := (hk.guarded.good pid' p' s' hp' hs').lock.mp hholds'
    have hsame := Option.some.inj (hlock'.symm.trans hlock)
    rw [← hkey, ← (hk.consistent.keyed pid' p' hp').1]
    exact hsame

/-- A machine without processes and an empty storage directory. -/
def emptyMachine : World := ⟨fun _ ↦ none, ⟨none, none, none⟩, [], []⟩

theorem boot_emptyMachine : Boot emptyMachine :=
  ⟨⟨nofun, nofun, nofun, nofun⟩, nofun, rfl, nofun⟩

theorem loopback_parses : (IpAddr.parse "127.0.0.1".toList).isSome = true := by decide

def loopback : SocketAddr := ⟨"127.0.0.1", 3000, loopback_parses⟩

/-- A serve command publishes its reservation. -/
def reserved : List Event :=
  [.spawn ⟨41, 101⟩ (some loopback), .act 41 .acquire, .act 41 (.check true), .act 41 .writeReservation,
    .act 41 .publish]

theorem published_identity_reserved :
    (Phase.preparing.published = true → false = false → ∃ addr contents,
      Announces ⟨loopback, none, .preparing, some .awaitingSignal, false⟩ addr ∧
        (run emptyMachine reserved).files.runtime = some contents ∧
          decodeRuntimeRecord contents = .ok ⟨⟨41, 101⟩, addr.port⟩) ∧
    (Phase.preparing.holdsLock = true → ∀ pid' p' s', (run emptyMachine reserved).table pid' = some p' →
      p'.serve = some s' → s'.phase.holdsLock = true → pid' = 41) :=
  published_identity emptyMachine boot_emptyMachine reserved
    ⟨orderly_of_ne nofun, orderly_of_ne nofun, orderly_of_ne nofun, orderly_of_ne nofun,
      orderly_of_ne nofun, trivial⟩ 41
    ⟨⟨41, 101⟩, some ⟨loopback, none, .preparing, some .awaitingSignal, false⟩⟩
    ⟨loopback, none, .preparing, some .awaitingSignal, false⟩ rfl rfl

end Guards

section Startup

variable {w w' : World} {e : Event}

/-- The published serve command is killed, and another one takes the lock. -/
def restarted : List Event :=
  reserved ++ [.exit 41, .spawn ⟨42, 202⟩ (some loopback), .act 42 .acquire]

end Startup

section ShutDown

variable {w : World} {m : Moments} {identity handle process : RuntimeProcessIdentity}

/-- The operations of one `shut_down` happen one after the other. -/
structure InOrder (m : Moments) : Prop where
  verify : Follows m.read m.verify
  «open» : Follows m.verify m.open
  reverify : Follows m.open m.reverify
  signal : Follows m.reverify m.signal
  wait : Follows m.signal m.wait

/-- A look at the runtime file found a record. -/
def Recorded (w : World) (process : RuntimeProcessIdentity) (port : UInt16) : Prop :=
  ∃ contents, w.files.runtime = some contents ∧ decodeRuntimeRecord contents = .ok ⟨process, port⟩

theorem readRuntimeRecord_eq_some {readable : Bool} {record : RuntimeRecord}
    (h : readRuntimeRecord w.files readable = .ok (some record)) :
    Recorded w record.process record.port := by
  unfold readRuntimeRecord at h
  split at h
  · cases h
  · cases h
  · next contents hread =>
    split at h
    · cases h
    · next record' hdecode =>
      cases h
      unfold Files.read at hread
      split at hread
      · cases hread
      · next contents' hcontents =>
        split at hread
        · cases hread
          exact ⟨contents, hcontents, hdecode⟩
        · cases hread

theorem readRuntimeRecord_of_recorded {readable : Bool} {port : UInt16} (h : Recorded w process port)
    {record : Option RuntimeRecord} (hread : readRuntimeRecord w.files readable = .ok record) :
    record = some ⟨process, port⟩ := by
  obtain ⟨contents, hcontents, hdecode⟩ := h
  unfold readRuntimeRecord Files.read at hread
  rw [hcontents] at hread
  cases readable with
  | false => cases hread
  | true =>
    simp only [if_true, hdecode] at hread
    cases hread
    rfl

theorem isAlive_iff : isAlive w process = true ↔ Alive w process := by
  unfold isAlive Alive
  cases w.table process.pid with
  | none => simp
  | some p => simp

theorem startTimeOf_of_verified (h : verifyProcessIdentity w identity = .ok ()) :
    startTimeOf w identity.pid = some identity.startTime := by
  unfold verifyProcessIdentity at h
  split at h
  · cases h
  · next startTime hstart =>
    split at h
    · cases h
    · next heq => rw [hstart, not_not.mp heq]

theorem openHandle_eq_ok {opened : Bool} {pid : UInt32} (h : openHandle w opened pid = .ok handle) :
    ∃ p, w.table pid = some p ∧ p.identity = handle := by
  unfold openHandle at h
  split at h
  · cases h
  · next p hp =>
    split at h
    · cases h
      exact ⟨p, hp, rfl⟩
    · cases h

theorem acquireHandle_eq_ok (h : acquireHandle m = .ok (identity, handle)) :
    ∃ port, Recorded m.read identity port ∧ port ≠ 0 ∧
      startTimeOf m.verify identity.pid = some identity.startTime ∧
      (∃ p, m.open.table identity.pid = some p ∧ p.identity = handle) ∧
      startTimeOf m.reverify identity.pid = some identity.startTime := by
  unfold acquireHandle at h
  split at h
  · cases h
  · cases h
  · next record hrecord =>
    split at h
    · cases h
    · next hport =>
      cases hverify : verifyProcessIdentity m.verify record.process with
      | error e =>
        rw [hverify] at h
        cases h
      | ok _ =>
        rw [hverify] at h
        cases hopen : openHandle m.open m.opened record.process.pid with
        | error e =>
          rw [hopen] at h
          cases h
        | ok found =>
          rw [hopen] at h
          cases hreverify : verifyProcessIdentity m.reverify record.process with
          | error e =>
            rw [hreverify] at h
            cases h
          | ok _ =>
            rw [hreverify] at h
            cases h
            exact ⟨record.port, readRuntimeRecord_eq_some hrecord, hport,
              startTimeOf_of_verified hverify, openHandle_eq_ok hopen, startTimeOf_of_verified hreverify⟩

/-- The process with the handle is the one that the record names, however the numbers are reused. -/
theorem handle_eq_identity (hverify : Consistent m.verify) (hreverify : Consistent m.reverify)
    (horder : InOrder m) (h : acquireHandle m = .ok (identity, handle)) : handle = identity := by
  obtain ⟨port, -, -, hbefore, ⟨p, hp, rfl⟩, hafter⟩ := acquireHandle_eq_ok h
  obtain ⟨p', hp', hsame⟩ := alive_between hverify horder.open horder.reverify
    (alive_of_startTimeOf hverify hbefore) (alive_of_startTimeOf hreverify hafter)
  rw [hp] at hp'
  cases hp'
  exact hsame

theorem awaitExit_eq_ok (h : awaitExit m identity handle = .ok ()) :
    isAlive m.wait handle = false ∧ ∀ port, ¬Recorded m.reread identity port := by
  unfold awaitExit at h
  split at h
  · cases h
  · split at h
    · cases h
    · next hdead =>
      refine ⟨Bool.eq_false_iff.mpr hdead, fun port hrecorded ↦ ?_⟩
      cases hread : readRuntimeRecord m.reread.files m.rereadable with
      | error e =>
        rw [hread] at h
        cases h
      | ok record =>
        rw [hread, readRuntimeRecord_of_recorded hrecorded hread] at h
        simp only [ne_eq, not_true_eq_false, if_false] at h
        cases h

theorem step_servers {w' : World} {e : Event} (h : step w e = some w') (hmem : process ∈ w.servers) :
    process ∈ w'.servers := by
  rcases step_cases h with ⟨new, bind, -, -, -, rfl⟩ | ⟨pid, p, -, rfl⟩ |
    ⟨pid, action, p, s, files, s', -, -, -, -, rfl⟩
  · show process ∈ (if bind.isSome then new :: w.servers else w.servers)
    split
    · exact List.mem_cons_of_mem _ hmem
    · exact hmem
  · exact hmem
  · exact hmem

theorem follows_servers {w' : World} (h : Follows w w') (hmem : process ∈ w.servers) :
    process ∈ w'.servers := by
  obtain ⟨events, rfl⟩ := h
  exact run_keeps (I := fun w ↦ process ∈ w.servers) (fun _ _ _ _ hw h ↦ step_servers h hw)
    (throughout_true w events) hmem

theorem Boot.follows {w' : World} (hboot : Boot w) (h : Follows w w') : Kept w' := by
  obtain ⟨events, rfl⟩ := h
  exact run_kept hboot.kept events

/-- `shut_down` signals nobody but the serve command that the runtime file named, and succeeds only
when that process is gone for good and the runtime file names it no longer. -/
theorem shut_down_reaches_recorded_server (w : World) (hboot : Boot w) (m : Moments)
    (hread : Follows w m.read) (horder : InOrder m) :
    (∀ process, (cmdShutDownWith m).signalled = some process →
      (∃ port, Recorded m.read process port ∧ port ≠ 0) ∧
        ∃ s, m.signal.table process.pid = some ⟨process, some s⟩) ∧
    ((cmdShutDownWith m).result = .ok () → ∃ process port, Recorded m.read process port ∧ port ≠ 0 ∧
      (∀ later, Follows m.wait later → ¬Alive later process) ∧
        ∀ port', ¬Recorded m.reread process port') := by
  have hverify := hread.trans horder.verify
  have hreverify := (hverify.trans horder.open).trans horder.reverify
  have hsignal := hreverify.trans horder.signal
  cases hacquire : acquireHandle m with
  | error e =>
    have houtcome : cmdShutDownWith m = ⟨.error e, none⟩ := by
      unfold cmdShutDownWith
      rw [hacquire]
    rw [houtcome]
    exact ⟨nofun, nofun⟩
  | ok pair =>
    obtain ⟨identity, handle⟩ := pair
    obtain rfl := handle_eq_identity (hboot.follows hverify).consistent
      (hboot.follows hreverify).consistent horder hacquire
    obtain ⟨port, hrecorded, hport, hbefore, -, -⟩ := acquireHandle_eq_ok hacquire
    cases hdelivered : m.delivered with
    | false =>
      have houtcome : cmdShutDownWith m = ⟨.error .notDelivered, none⟩ := by
        unfold cmdShutDownWith
        rw [hacquire]
        exact if_pos hdelivered
      rw [houtcome]
      exact ⟨nofun, nofun⟩
    | true =>
      have houtcome : cmdShutDownWith m = ⟨awaitExit m handle handle,
          if isAlive m.signal handle then some handle else none⟩ := by
        unfold cmdShutDownWith
        rw [hacquire]
        exact if_neg (by rw [hdelivered]; exact nofun)
      rw [houtcome]
      refine ⟨fun process h ↦ ?_, fun h ↦ ?_⟩
      · obtain ⟨halive, hprocess⟩ := Option.ite_none_right_eq_some.mp h
        cases hprocess
        refine ⟨⟨port, hrecorded, hport⟩, ?_⟩
        obtain ⟨p, hp, hsame⟩ := isAlive_iff.mp halive
        obtain ⟨contents, hcontents, hdecode⟩ := hrecorded
        have hserver := (hboot.follows hread).left contents handle hcontents
          (decodeRuntimeProcessIdentity_of_record hdecode)
        have hstays := follows_servers ((((horder.verify).trans horder.open).trans horder.reverify).trans
          horder.signal) hserver
        have hserve := ((hboot.follows hsignal).consistent.servers _ p hp).mpr (hsame ▸ hstays)
        obtain ⟨s, hs⟩ := Option.isSome_iff_exists.mp hserve
        refine ⟨s, hp.trans ?_⟩
        rw [← hsame, ← hs]
      · obtain ⟨hdead, hnot⟩ := awaitExit_eq_ok h
        refine ⟨handle, port, hrecorded, hport, fun later hlater ↦ ?_, hnot⟩
        obtain ⟨events, rfl⟩ := hlater
        have hpast := alive_past (hboot.follows hverify).consistent
          (alive_of_startTimeOf (hboot.follows hverify).consistent hbefore)
        obtain ⟨between, hbetween⟩ := ((horder.open.trans horder.reverify).trans horder.signal).trans
          horder.wait
        have hpast' : handle ∈ m.wait.past := by
          rw [hbetween]
          exact run_past hpast between
        have hgone : ¬Alive m.wait handle := fun halive ↦ by
          rw [isAlive_iff.mpr halive] at hdead
          cases hdead
        exact (run_gone ⟨hpast', hgone⟩ events).dead

def serving : World :=
  run emptyMachine (reserved ++ [.act 41 (.writeAddress loopback), .act 41 .publishAddress])

/-- A `shut_down` whose server drains in time. -/
def drained : Moments where
  read := serving
  verify := serving
  «open» := serving
  reverify := serving
  signal := serving
  wait := run serving [.exit 41]
  reread := run serving [.exit 41]
  readable := true
  opened := true
  delivered := true
  polled := true
  rereadable := true

theorem shut_down_reaches_recorded_server_drained :
    (∀ process, (cmdShutDownWith drained).signalled = some process →
      (∃ port, Recorded serving process port ∧ port ≠ 0) ∧
        ∃ s, serving.table process.pid = some ⟨process, some s⟩) ∧
    ((cmdShutDownWith drained).result = .ok () → ∃ process port, Recorded serving process port ∧ port ≠ 0 ∧
      (∀ later, Follows (run serving [.exit 41]) later → ¬Alive later process) ∧
        ∀ port', ¬Recorded (run serving [.exit 41]) process port') :=
  shut_down_reaches_recorded_server emptyMachine boot_emptyMachine drained ⟨_, rfl⟩
    ⟨⟨[], rfl⟩, ⟨[], rfl⟩, ⟨[], rfl⟩, ⟨[], rfl⟩, ⟨[.exit 41], rfl⟩⟩

end ShutDown

end Jaunder.Server.RuntimeSafety
