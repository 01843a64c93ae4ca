import Jaunder.Storage.Sessions

namespace Jaunder.Storage.SessionLifetime

open Foundation.Outcome Foundation.Run
open Jaunder.Common.SqliteTime Jaunder.Common.Time
open Jaunder.Storage.Sessions

variable {env : Environment} {rows : List SessionRow} {r : SessionRow} {tokenHash rawToken : String}
  {now clock t u : UtcInstant} {s : SessionState} {e : SessionEvent}

section Cutoffs

/-- The idle period and the touch interval in nanoseconds. -/
def idlePeriod : ℤ := nanosPerSecond * browserSessionIdleSeconds

def touchInterval : ℤ := nanosPerSecond * sessionTouchFreshnessSeconds

/-- From year 0 on a clock is more than an idle period after the first instant. -/
theorem floor_of_year (h : 0 ≤ year now) : UtcInstant.timestampMin.nanos + idlePeriod ≤ now.nanos := by
  let first : UtcInstant := ⟨-377705023201000000000 + 2592000000000000, by decide, by decide⟩
  have hfirst : year first < 0 := by decide
  by_contra hbefore
  have hle : now ≤ first := by
    rw [UtcInstant.le_iff]
    simp only [first, UtcInstant.timestampMin, idlePeriod, nanosPerSecond, browserSessionIdleSeconds] at hbefore ⊢
    omega
  have hyear := year_mono hle
  omega

theorem saturatingSub_nanos {seconds : ℕ}
    (h : UtcInstant.timestampMin.nanos + nanosPerSecond * seconds ≤ now.nanos) :
    (saturatingSub now seconds).nanos = now.nanos - nanosPerSecond * seconds := by
  have hupper := now.upper
  have hnonneg : 0 ≤ nanosPerSecond * (seconds : ℤ) := by
    unfold nanosPerSecond
    omega
  have hbounds : -377705023201000000000 ≤ now.nanos - nanosPerSecond * seconds ∧
      now.nanos - nanosPerSecond * seconds ≤ 253402207200999999999 := by
    simp only [UtcInstant.timestampMin] at h
    constructor
    · linarith
    · linarith
  rw [saturatingSub, UtcInstant.checkedSub, UtcInstant.ofNanos?, dif_pos hbounds]
  rfl

theorem sessionIdleCutoff_nanos (h : 0 ≤ year now) :
    (sessionIdleCutoff now).nanos = now.nanos - idlePeriod :=
  saturatingSub_nanos (floor_of_year h)

theorem sessionTouchCutoff_nanos (h : 0 ≤ year now) :
    (sessionTouchCutoff now).nanos = now.nanos - touchInterval := by
  refine saturatingSub_nanos (le_trans ?_ (floor_of_year h))
  simp only [idlePeriod, nanosPerSecond, browserSessionIdleSeconds, sessionTouchFreshnessSeconds]
  omega

theorem saturatingSub_mono {seconds : ℕ} (h : t ≤ now) :
    saturatingSub t seconds ≤ saturatingSub now seconds := by
  rw [UtcInstant.le_iff] at h
  unfold saturatingSub UtcInstant.checkedSub UtcInstant.ofNanos?
  have hlower := t.lower
  have hupper := now.upper
  have hnonneg : 0 ≤ nanosPerSecond * (seconds : ℤ) := by
    unfold nanosPerSecond
    omega
  split_ifs with ht hnow hnow
  · rw [UtcInstant.le_iff]
    dsimp only [Option.getD_some]
    omega
  · omega
  · exact hnow.1
  · exact le_rfl

theorem sessionIdleCutoff_mono (h : t ≤ now) : sessionIdleCutoff t ≤ sessionIdleCutoff now :=
  saturatingSub_mono h

end Cutoffs

section Rows

/-- A browser session that has been idle for the whole period. -/
def Idle (now : UtcInstant) (r : SessionRow) : Prop :=
  r.kind = .browser ∧ r.lastUsedAt.nanos + idlePeriod ≤ now.nanos

instance : Decidable (Idle now r) := inferInstanceAs (Decidable (_ ∧ _))

/-- A row after its use: the last use is only persisted once it is an interval old. -/
def refresh (now : UtcInstant) (r : SessionRow) : SessionRow :=
  if now.nanos < r.lastUsedAt.nanos + touchInterval then r else { r with lastUsedAt := now }

/-- Rows as the operations leave them. -/
structure WellKept (env : Environment) (rows : List SessionRow) : Prop where
  keys : (rows.map SessionRow.tokenHash).Nodup
  users : ∀ r ∈ rows, (env.username r.userId).isSome = true
  years : ∀ r ∈ rows, 0 ≤ year r.lastUsedAt

theorem WellKept.unique (h : WellKept env rows) {r' : SessionRow} (hr : r ∈ rows) (hr' : r' ∈ rows)
    (hkey : r'.tokenHash = r.tokenHash) : r' = r :=
  List.inj_on_of_nodup_map h.keys hr' hr hkey

theorem selectSession_eq (h : WellKept env rows) (hr : r ∈ rows) (hkey : r.tokenHash = tokenHash) :
    selectSession env rows tokenHash = some r := by
  have hmatches : decide (r.tokenHash = tokenHash ∧ (env.username r.userId).isSome = true) = true :=
    decide_eq_true ⟨hkey, h.users r hr⟩
  cases hfind : selectSession env rows tokenHash with
  | none => exact absurd hmatches (List.find?_eq_none.mp hfind r hr)
  | some r' =>
    unfold selectSession at hfind
    have hmatch := List.find?_some hfind
    have hkey' := (of_decide_eq_true hmatch).1
    rw [h.unique hr (List.mem_of_find?_eq_some hfind) (hkey'.trans hkey.symm)]

theorem selectSession_eq_none (h : ∀ r ∈ rows, r.tokenHash ≠ tokenHash) :
    selectSession env rows tokenHash = none :=
  List.find?_eq_none.mpr fun r hr hmatches ↦ h r hr (of_decide_eq_true hmatches).1

theorem refresh_tokenHash : (refresh now r).tokenHash = r.tokenHash := by
  unfold refresh
  split_ifs <;> rfl

theorem refresh_userId : (refresh now r).userId = r.userId := by
  unfold refresh
  split_ifs <;> rfl

theorem refresh_kind : (refresh now r).kind = r.kind := by
  unfold refresh
  split_ifs <;> rfl

/-- The rows after a use of a token. -/
def useRow (tokenHash : String) (now : UtcInstant) (rows : List SessionRow) : List SessionRow :=
  rows.map (fun r ↦ if r.tokenHash = tokenHash then refresh now r else r)

theorem useRow_eq_self (h : ∀ r ∈ rows, r.tokenHash = tokenHash → refresh now r = r) :
    useRow tokenHash now rows = rows := by
  refine (List.map_congr_left fun r hr ↦ ?_).trans (List.map_id _)
  split_ifs with hkey
  · exact h r hr hkey
  · rfl

theorem WellKept.useRow (h : WellKept env rows) (hnow : 0 ≤ year now) :
    WellKept env (useRow tokenHash now rows) := by
  refine ⟨?_, ?_, ?_⟩
  · have hkeys : (SessionLifetime.useRow tokenHash now rows).map SessionRow.tokenHash =
        rows.map SessionRow.tokenHash := by
      rw [SessionLifetime.useRow, List.map_map]
      refine List.map_congr_left fun r _ ↦ ?_
      rw [Function.comp_apply]
      split_ifs
      · exact refresh_tokenHash
      · rfl
    rw [hkeys]
    exact h.keys
  · intro r hr
    obtain ⟨r₀, hr₀, rfl⟩ := List.mem_map.mp hr
    split_ifs
    · rw [refresh_userId]
      exact h.users r₀ hr₀
    · exact h.users r₀ hr₀
  · intro r hr
    obtain ⟨r₀, hr₀, rfl⟩ := List.mem_map.mp hr
    unfold refresh
    split_ifs
    · exact h.years r₀ hr₀
    · exact hnow
    · exact h.years r₀ hr₀

theorem touchSession_eq (h : WellKept env rows) (hnow : 0 ≤ year now) (hr : r ∈ rows)
    (hkey : r.tokenHash = tokenHash) (hidle : ¬Idle now r)
    (hstale : ¬now.nanos < r.lastUsedAt.nanos + touchInterval) :
    touchSession rows tokenHash now (sessionTouchCutoff now) (sessionIdleCutoff now) =
      useRow tokenHash now rows := by
  refine List.map_congr_left fun r' hr' ↦ ?_
  by_cases hkey' : r'.tokenHash = tokenHash
  · obtain rfl := h.unique hr hr' (hkey'.trans hkey.symm)
    have hyear := h.years r' hr'
    have htouch : sqliteText r'.lastUsedAt ≤ sqliteText (sessionTouchCutoff now) := by
      rw [sqliteText_le_iff (.inl hyear), UtcInstant.le_iff, sessionTouchCutoff_nanos hnow]
      omega
    have hlive : r'.kind ≠ .browser ∨ sqliteText (sessionIdleCutoff now) < sqliteText r'.lastUsedAt := by
      rw [← not_le, sqliteText_le_iff (.inl hyear), UtcInstant.le_iff, sessionIdleCutoff_nanos hnow]
      rw [Idle, not_and_or] at hidle
      exact hidle.imp id fun hnot ↦ by omega
    rw [if_pos ⟨hkey', htouch, hlive⟩, if_pos hkey', refresh, if_neg hstale]
  · rw [if_neg fun hall ↦ hkey' hall.1, if_neg hkey']

/-- What `touch_and_load` does with the row of a token. -/
theorem touchAndLoad_eq (h : WellKept env rows) (hnow : 0 ≤ year now) (hr : r ∈ rows)
    (hkey : r.tokenHash = tokenHash) :
    touchAndLoad env rows tokenHash now =
      if Idle now r then (none, rows)
      else (some (refresh now r, decide (¬now.nanos < r.lastUsedAt.nanos + touchInterval)),
        useRow tokenHash now rows) := by
  have hidle : (r.kind = .browser ∧ r.lastUsedAt ≤ sessionIdleCutoff now) ↔ Idle now r := by
    rw [UtcInstant.le_iff, sessionIdleCutoff_nanos hnow, Idle]
    exact and_congr_right fun _ ↦ by omega
  have hfresh : sessionTouchCutoff now < r.lastUsedAt ↔
      now.nanos < r.lastUsedAt.nanos + touchInterval := by
    rw [UtcInstant.lt_iff, sessionTouchCutoff_nanos hnow]
    omega
  rw [touchAndLoad, selectSession_eq h hr hkey]
  dsimp only
  simp only [hidle, hfresh]
  by_cases hi : Idle now r
  · rw [if_pos hi, if_pos hi]
  · rw [if_neg hi, if_neg hi]
    by_cases hf : now.nanos < r.lastUsedAt.nanos + touchInterval
    · have hself : useRow tokenHash now rows = rows := by
        refine useRow_eq_self fun r' hr' hkey' ↦ ?_
        obtain rfl := h.unique hr hr' (hkey'.trans hkey.symm)
        exact if_pos hf
      rw [if_pos hf, hself, refresh, if_pos hf, decide_eq_false (not_not.mpr hf)]
    · have hmem : refresh now r ∈ useRow tokenHash now rows :=
        List.mem_map.mpr ⟨r, hr, if_pos hkey⟩
      rw [if_neg hf, touchSession_eq h hnow hr hkey hi hf,
        selectSession_eq (h.useRow hnow) hmem (refresh_tokenHash.trans hkey), decide_eq_true hf]
      rfl

theorem touchAndLoad_eq_none (h : ∀ r ∈ rows, r.tokenHash ≠ tokenHash) :
    touchAndLoad env rows tokenHash now = (none, rows) := by
  rw [touchAndLoad, selectSession_eq_none h]

end Rows

section Authentication

/-- An authentication with a token succeeds. -/
def Accepts (env : Environment) (rows : List SessionRow) (rawToken : String) (t : UtcInstant) : Prop :=
  ∃ authentication rows', authenticate env rows rawToken t = (.ok authentication, rows')

theorem authenticate_eq (h : WellKept env rows) (hnow : 0 ≤ year now) (hr : r ∈ rows)
    (hkey : env.tokenHash rawToken = some r.tokenHash) :
    authenticate env rows rawToken now =
      if Idle now r then (.error .sessionNotFound, rows)
      else (.ok ⟨sessionRecordFromRow env (refresh now r),
        decide (¬now.nanos < r.lastUsedAt.nanos + touchInterval)⟩,
          useRow r.tokenHash now rows) := by
  rw [authenticate, hkey]
  dsimp only
  rw [touchAndLoad_eq h hnow hr rfl]
  by_cases hidle : Idle now r
  · rw [if_pos hidle, if_pos hidle]
  · rw [if_neg hidle, if_neg hidle]

theorem authenticate_eq_error
    (h : ∀ r ∈ rows, env.tokenHash rawToken ≠ some r.tokenHash) :
    ∃ error, authenticate env rows rawToken now = (.error error, rows) := by
  rw [authenticate]
  cases htoken : env.tokenHash rawToken with
  | none => exact ⟨.invalidToken, rfl⟩
  | some tokenHash =>
    have hnone : ∀ r ∈ rows, r.tokenHash ≠ tokenHash := fun r hr heq ↦ h r hr (heq ▸ htoken)
    dsimp only
    rw [touchAndLoad_eq_none hnone]
    exact ⟨.sessionNotFound, rfl⟩

/-- An authentication succeeds exactly with the row of a token that is not idle. -/
theorem accepts_iff (h : WellKept env rows) (ht : 0 ≤ year t) :
    Accepts env rows rawToken t ↔
      ∃ r ∈ rows, env.tokenHash rawToken = some r.tokenHash ∧ ¬Idle t r := by
  by_cases hrow : ∃ r ∈ rows, env.tokenHash rawToken = some r.tokenHash
  · obtain ⟨r, hr, hkey⟩ := hrow
    have heq := authenticate_eq h ht hr hkey
    constructor
    · rintro ⟨authentication, rows', hok⟩
      refine ⟨r, hr, hkey, fun hidle ↦ ?_⟩
      rw [heq, if_pos hidle] at hok
      cases (Prod.mk.inj hok).1
    · rintro ⟨r', hr', hkey', hidle⟩
      obtain rfl := h.unique hr' hr (Option.some.inj (hkey.symm.trans hkey'))
      rw [if_neg hidle] at heq
      exact ⟨_, _, heq⟩
  · have hnone : ∀ r ∈ rows, env.tokenHash rawToken ≠ some r.tokenHash :=
      fun r hr hkey ↦ hrow ⟨r, hr, hkey⟩
    refine iff_of_false ?_ fun ⟨r, hr, hkey, _⟩ ↦ hnone r hr hkey
    rintro ⟨authentication, rows', hok⟩
    have hrefused : ∃ error, authenticate env rows rawToken t = (.error error, rows) :=
      authenticate_eq_error hnone
    obtain ⟨error, herror⟩ := hrefused
    rw [herror] at hok
    cases (Prod.mk.inj hok).1

end Authentication

section Steps

/-- The operation revokes the session. -/
def Revokes : SessionOp → SessionRow → Prop
  | .revoke tokenHash, r => r.tokenHash = tokenHash
  | .revokeAllForUser userId, r => r.userId = userId
  | .revokeAllForUserExcept userId current, r => r.userId = userId ∧ r.tokenHash ≠ current
  | _, _ => False

structure Sound (env : Environment) (s : SessionState) : Prop where
  wellKept : WellKept env s.rows
  issued : ∀ r ∈ s.rows, r.tokenHash ∈ s.issued
  used : ∀ r ∈ s.rows, ∃ u, s.lastUse r.tokenHash = some u ∧ r.lastUsedAt ≤ u ∧
    u.nanos < r.lastUsedAt.nanos + touchInterval
  usedIssued : ∀ tokenHash u, s.lastUse tokenHash = some u → tokenHash ∈ s.issued
  clock : ∀ tokenHash u, s.lastUse tokenHash = some u → u ≤ s.clock

theorem sound_empty : Sound env (.empty clock) where
  wellKept := ⟨List.nodup_nil, fun _ h ↦ absurd h List.not_mem_nil, fun _ h ↦ absurd h List.not_mem_nil⟩
  issued _ h := absurd h List.not_mem_nil
  used _ h := absurd h List.not_mem_nil
  usedIssued _ _ h := by cases h
  clock _ _ h := by cases h

theorem isPrunable_iff {cutoff : UtcInstant} (h : 0 ≤ year r.lastUsedAt) :
    isPrunable cutoff r = true ↔ r.kind = .browser ∧ r.lastUsedAt ≤ cutoff := by
  rw [isPrunable, decide_eq_true_iff, sqliteText_le_iff (.inl h)]

/-- What the prune deletes is idle from the reading of the clock on. -/
theorem idle_of_isPrunable (h : 0 ≤ year r.lastUsedAt) (hnow : now ≤ t) (ht : 0 ≤ year t)
    (hprunable : isPrunable (sessionIdleCutoff now) r = true) : Idle t r := by
  obtain ⟨hkind, hbefore⟩ := (isPrunable_iff h).mp hprunable
  have hcutoff := hbefore.trans (sessionIdleCutoff_mono hnow)
  rw [UtcInstant.le_iff, sessionIdleCutoff_nanos ht] at hcutoff
  exact ⟨hkind, by omega⟩

/-- What an event does that deletes rows at most. -/
def Deletes (env : Environment) (s : SessionState) (e : SessionEvent) : Prop :=
  ∃ keep : SessionRow → Bool,
    step env s e = ⟨s.rows.filter keep, e.clock, s.issued, s.lastUse⟩ ∧
    (∀ r ∈ s.rows, keep r = false → Revokes e.op r ∨ Idle e.clock r) ∧
    ∀ r ∈ s.rows, Revokes e.op r → keep r = false

/-- What an event does that adds the row of a new token. -/
def Creates (env : Environment) (s : SessionState) (e : SessionEvent) : Prop :=
  ∃ r : SessionRow, r.tokenHash ∉ s.issued ∧ (env.username r.userId).isSome = true ∧
    r.lastUsedAt = e.clock ∧ (∀ r, ¬Revokes e.op r) ∧
    step env s e = ⟨s.rows ++ [r], e.clock, r.tokenHash :: s.issued,
      Function.update s.lastUse r.tokenHash (some e.clock)⟩

/-- What an event does that uses a token. -/
def Uses (env : Environment) (s : SessionState) (e : SessionEvent) : Prop :=
  ∃ r ∈ s.rows, ¬Idle e.clock r ∧ (∀ r, ¬Revokes e.op r) ∧
    step env s e = ⟨useRow r.tokenHash e.clock s.rows, e.clock, s.issued,
      Function.update s.lastUse r.tokenHash (some e.clock)⟩

theorem deletes_of_stepOp_eq (hnot : ∀ r, ¬Revokes e.op r) (h : stepOp env s e.clock e.op = s) :
    Deletes env s e := by
  refine ⟨fun _ ↦ true, ?_, fun _ _ hfalse ↦ (nomatch hfalse), fun r _ hr ↦ absurd hr (hnot r)⟩
  rw [step, h, List.filter_true]

theorem step_create {userId : ℤ} {label : String} {kind : SessionKind} (h : Sound env s)
    (ha : Admissible env s ⟨clock, .create rawToken userId label kind⟩) :
    Deletes env s ⟨clock, .create rawToken userId label kind⟩ ∨
      Creates env s ⟨clock, .create rawToken userId label kind⟩ := by
  cases htoken : env.tokenHash rawToken with
  | none => exact .inl (deletes_of_stepOp_eq (fun _ ↦ id) (by rw [stepOp, htoken]))
  | some tokenHash =>
    have hnew : tokenHash ∉ s.issued := ha.2.2 tokenHash htoken
    by_cases huser : (env.username userId).isSome = true
    · refine .inr ⟨⟨tokenHash, userId, label, kind, clock, clock⟩, hnew, huser, rfl, fun _ ↦ id, ?_⟩
      have hfree : ¬(s.rows.any (fun r ↦ r.tokenHash = tokenHash) = true ∨
          (env.username userId).isNone = true) := by
        rintro (hany | hnone)
        · obtain ⟨r, hr, heq⟩ := List.any_eq_true.mp hany
          exact hnew (of_decide_eq_true heq ▸ h.issued r hr)
        · rw [Option.isNone_iff_eq_none.mp hnone] at huser
          cases huser
      have hcreated : createSession env s.rows tokenHash userId label kind clock =
          some (s.rows ++ [⟨tokenHash, userId, label, kind, clock, clock⟩]) := if_neg hfree
      rw [step, stepOp, htoken]
      simp only [hcreated, SessionState.use]
    · have hcreated : createSession env s.rows tokenHash userId label kind clock = none :=
        if_pos (.inr (Option.isNone_iff_eq_none.mpr (Option.not_isSome_iff_eq_none.mp huser)))
      refine .inl (deletes_of_stepOp_eq (fun _ ↦ id) ?_)
      rw [stepOp, htoken]
      simp only [hcreated]

theorem step_authenticate (h : Sound env s) (hyear : 0 ≤ year clock) :
    Deletes env s ⟨clock, .authenticate rawToken⟩ ∨ Uses env s ⟨clock, .authenticate rawToken⟩ := by
  by_cases hrow : ∃ r ∈ s.rows, env.tokenHash rawToken = some r.tokenHash ∧ ¬Idle clock r
  · obtain ⟨r, hr, hkey, hidle⟩ := hrow
    refine .inr ⟨r, hr, hidle, fun _ ↦ id, ?_⟩
    rw [step, stepOp, authenticate_eq h.wellKept hyear hr hkey, if_neg hidle]
    dsimp only [SessionState.use, sessionRecordFromRow]
    rw [refresh_tokenHash]
  · refine .inl (deletes_of_stepOp_eq (fun _ ↦ id) ?_)
    have herror : ∃ error, authenticate env s.rows rawToken clock = (.error error, s.rows) := by
      by_cases hany : ∃ r ∈ s.rows, env.tokenHash rawToken = some r.tokenHash
      · obtain ⟨r, hr, hkey⟩ := hany
        have hidle : Idle clock r := not_not.mp fun hnot ↦ hrow ⟨r, hr, hkey, hnot⟩
        exact ⟨_, by rw [authenticate_eq h.wellKept hyear hr hkey, if_pos hidle]⟩
      · exact authenticate_eq_error fun r hr hkey ↦ hany ⟨r, hr, hkey⟩
    obtain ⟨error, herror⟩ := herror
    rw [stepOp, herror]

/-- A filter by the rows that a revocation does not name. -/
theorem deletes_of_filter {op : SessionOp} {P : SessionRow → Prop} [DecidablePred P]
    (hP : ∀ r, Revokes op r ↔ P r)
    (h : stepOp env s clock op = { s with rows := s.rows.filter (fun r ↦ ¬P r) }) :
    Deletes env s ⟨clock, op⟩ := by
  refine ⟨fun r ↦ ¬P r, ?_, fun r _ hkeep ↦ .inl ?_, fun r _ hr ↦ ?_⟩
  · rw [step, h]
  · exact (hP r).mpr (not_not.mp (of_decide_eq_false hkeep))
  · exact decide_eq_false (not_not.mpr ((hP r).mp hr))

/-- The three things that an event can do. -/
theorem step_cases (h : Sound env s) (ha : Admissible env s e) :
    Deletes env s e ∨ Creates env s e ∨ Uses env s e := by
  obtain ⟨clock, op⟩ := e
  cases op with
  | create rawToken userId label kind => exact (step_create h ha).imp id .inl
  | authenticate rawToken => exact (step_authenticate h ha.2.1).imp id .inr
  | revoke tokenHash =>
    exact .inl (deletes_of_filter (P := fun r ↦ r.tokenHash = tokenHash) (fun _ ↦ Iff.rfl) rfl)
  | revokeAllForUser userId =>
    exact .inl (deletes_of_filter (P := fun r ↦ r.userId = userId) (fun _ ↦ Iff.rfl) rfl)
  | revokeAllForUserExcept userId current =>
    exact .inl (deletes_of_filter (P := fun r ↦ r.userId = userId ∧ r.tokenHash ≠ current)
      (fun _ ↦ Iff.rfl) rfl)
  | deleteBatch now =>
    refine .inl ⟨_, rfl, fun r hr hkeep ↦ .inr ?_, fun r _ hr ↦ hr.elim⟩
    have hdeleted := not_not.mp (of_decide_eq_false hkeep)
    exact idle_of_isPrunable (h.wellKept.years r hr) ha.2.2 ha.2.1 hdeleted.1

theorem le_refresh : r.lastUsedAt ≤ (refresh now r).lastUsedAt := by
  unfold refresh
  split_ifs with hfresh
  · exact le_rfl
  · have hinterval : 0 ≤ touchInterval := by decide
    rw [UtcInstant.le_iff]
    dsimp only
    omega

/-- The persisted last use is at most an interval behind. -/
theorem refresh_lag (h : r.lastUsedAt ≤ now) : (refresh now r).lastUsedAt ≤ now ∧
    now.nanos < (refresh now r).lastUsedAt.nanos + touchInterval := by
  unfold refresh
  split_ifs with hfresh
  · exact ⟨h, hfresh⟩
  · have hinterval : 0 < touchInterval := by decide
    exact ⟨le_rfl, by dsimp only; omega⟩

theorem mem_useRow {r' : SessionRow} : r' ∈ useRow tokenHash now rows ↔
    ∃ r ∈ rows, (if r.tokenHash = tokenHash then refresh now r else r) = r' := List.mem_map

theorem Sound.step (h : Sound env s) (ha : Admissible env s e) : Sound env (step env s e) := by
  have hclock : ∀ tokenHash u, s.lastUse tokenHash = some u → u ≤ e.clock :=
    fun tokenHash u hu ↦ (h.clock tokenHash u hu).trans ha.1
  have hupdated : ∀ tokenHash tokenHash' u,
      Function.update s.lastUse tokenHash' (some e.clock) tokenHash = some u → u ≤ e.clock := by
    intro tokenHash tokenHash' u hu
    rw [Function.update_apply] at hu
    split_ifs at hu
    · exact (Option.some.inj hu).ge
    · exact hclock tokenHash u hu
  rcases step_cases h ha with ⟨keep, heq, -, -⟩ | ⟨r, hnew, huser, hlast, -, heq⟩ |
    ⟨r, hr, -, -, heq⟩
  · rw [heq]
    have hsub : ∀ r ∈ s.rows.filter keep, r ∈ s.rows := fun r hr ↦ (List.mem_filter.mp hr).1
    refine ⟨⟨h.wellKept.keys.sublist (List.filter_sublist.map _), fun r hr ↦ ?_, fun r hr ↦ ?_⟩,
      fun r hr ↦ h.issued r (hsub r hr), fun r hr ↦ h.used r (hsub r hr), h.usedIssued, hclock⟩
    · exact h.wellKept.users r (hsub r hr)
    · exact h.wellKept.years r (hsub r hr)
  · rw [heq]
    have hother : ∀ r' ∈ s.rows, r'.tokenHash ≠ r.tokenHash :=
      fun r' hr' hkey ↦ hnew (hkey ▸ h.issued r' hr')
    refine ⟨⟨?_, ?_, ?_⟩, ?_, ?_, ?_, fun tokenHash u ↦ hupdated tokenHash _ u⟩
    · rw [List.map_append]
      refine List.nodup_append'.mpr ⟨h.wellKept.keys, List.nodup_singleton _, ?_⟩
      rintro key hkey hsingle
      obtain ⟨r', hr', rfl⟩ := List.mem_map.mp hkey
      exact hother r' hr' (List.mem_singleton.mp hsingle)
    · exact List.forall_mem_append.mpr ⟨h.wellKept.users, List.forall_mem_singleton.mpr huser⟩
    · exact List.forall_mem_append.mpr ⟨h.wellKept.years,
        List.forall_mem_singleton.mpr (hlast ▸ ha.2.1)⟩
    · exact List.forall_mem_append.mpr ⟨fun r' hr' ↦ List.mem_cons_of_mem _ (h.issued r' hr'),
        List.forall_mem_singleton.mpr List.mem_cons_self⟩
    · refine List.forall_mem_append.mpr ⟨fun r' hr' ↦ ?_, List.forall_mem_singleton.mpr ?_⟩
      · dsimp only
        rw [Function.update_of_ne (hother r' hr')]
        exact h.used r' hr'
      · refine ⟨e.clock, Function.update_self _ _ _, hlast.le, ?_⟩
        have hinterval : 0 < touchInterval := by decide
        rw [hlast]
        omega
    · intro tokenHash u hu
      dsimp only at hu
      rw [Function.update_apply] at hu
      split_ifs at hu with hkey
      · exact hkey ▸ List.mem_cons_self
      · exact List.mem_cons_of_mem _ (h.usedIssued tokenHash u hu)
  · rw [heq]
    refine ⟨h.wellKept.useRow ha.2.1, ?_, ?_, ?_, fun tokenHash u ↦ hupdated tokenHash _ u⟩
    · intro r' hr'
      obtain ⟨r₀, hr₀, rfl⟩ := mem_useRow.mp hr'
      split_ifs
      · rw [refresh_tokenHash]
        exact h.issued r₀ hr₀
      · exact h.issued r₀ hr₀
    · intro r' hr'
      obtain ⟨r₀, hr₀, rfl⟩ := mem_useRow.mp hr'
      obtain ⟨u, hu, hle, hlag⟩ := h.used r₀ hr₀
      split_ifs with hkey
      · refine ⟨e.clock, ?_, refresh_lag (hle.trans (hclock _ u hu))⟩
        dsimp only
        rw [refresh_tokenHash, hkey, Function.update_self]
      · refine ⟨u, ?_, hle, hlag⟩
        dsimp only
        rwa [Function.update_of_ne hkey]
    · intro tokenHash u hu
      dsimp only at hu
      rw [Function.update_apply] at hu
      split_ifs at hu with hkey
      · exact hkey ▸ h.issued r hr
      · exact h.usedIssued tokenHash u hu

/-- A run from no sessions. -/
theorem sound_run {es : List SessionEvent} (h : Sound env s)
    (hes : Along (step env) (Admissible env) s es) : Sound env (run (step env) s es) :=
  run_preserves (fun _ _ hs ha ↦ hs.step ha) h hes

end Steps

section Lifetimes

variable {es : List SessionEvent} {r' : SessionRow}

theorem Idle.mono (h : Idle now r) (hle : now ≤ t) : Idle t r := ⟨h.1, h.2.trans hle⟩

theorem lastUsedAt_le_step (h : Sound env s) (ha : Admissible env s e) (hr : r ∈ s.rows)
    (hr' : r' ∈ (step env s e).rows) (hkey : r'.tokenHash = r.tokenHash) :
    r.lastUsedAt ≤ r'.lastUsedAt := by
  rcases step_cases h ha with ⟨keep, heq, -, -⟩ | ⟨new, hnew, -, -, -, heq⟩ | ⟨used, -, -, -, heq⟩
  · rw [heq] at hr'
    rw [h.wellKept.unique hr (List.mem_filter.mp hr').1 hkey]
  · rw [heq] at hr'
    rcases List.mem_append.mp hr' with hold | hsingle
    · rw [h.wellKept.unique hr hold hkey]
    · rw [List.mem_singleton.mp hsingle] at hkey
      exact absurd (hkey ▸ h.issued r hr) hnew
  · rw [heq] at hr'
    obtain ⟨r₀, hr₀, rfl⟩ := mem_useRow.mp hr'
    split_ifs at hkey ⊢
    · rw [refresh_tokenHash] at hkey
      rw [← h.wellKept.unique hr hr₀ hkey]
      exact le_refresh
    · rw [h.wellKept.unique hr hr₀ hkey]

/-- Only a revocation or its idleness ends a session. -/
theorem row_step (h : Sound env s) (ha : Admissible env s e) (hr : r ∈ s.rows)
    (hrevoked : ¬Revokes e.op r) (hidle : ¬Idle e.clock r) :
    ∃ r' ∈ (step env s e).rows, r'.tokenHash = r.tokenHash ∧ r'.kind = r.kind := by
  rcases step_cases h ha with ⟨keep, heq, hdeleted, -⟩ | ⟨new, -, -, -, -, heq⟩ | ⟨used, -, -, -, heq⟩
  · rw [heq]
    have hkeep : keep r = true := by
      by_contra hnot
      exact (hdeleted r hr (eq_false_of_ne_true hnot)).elim hrevoked hidle
    exact ⟨r, List.mem_filter.mpr ⟨hr, hkeep⟩, rfl, rfl⟩
  · rw [heq]
    exact ⟨r, List.mem_append_left _ hr, rfl, rfl⟩
  · rw [heq]
    refine ⟨_, mem_useRow.mpr ⟨r, hr, rfl⟩, ?_⟩
    split_ifs
    · exact ⟨refresh_tokenHash, refresh_kind⟩
    · exact ⟨rfl, rfl⟩

/-- No session of the token is revoked, and its last use is less than the idle period without the
touch interval ago. -/
def Attended (tokenHash : String) (s : SessionState) (e : SessionEvent) : Prop :=
  (∀ r ∈ s.rows, r.tokenHash = tokenHash → ¬Revokes e.op r) ∧
    ∀ u, s.lastUse tokenHash = some u → e.clock.nanos + touchInterval < u.nanos + idlePeriod

theorem not_idle_of_recent (h : Sound env s) (hr : r ∈ s.rows) (hu : s.lastUse r.tokenHash = some u)
    (hrecent : t.nanos + touchInterval < u.nanos + idlePeriod) : ¬Idle t r := by
  obtain ⟨u', hu', -, hlag⟩ := h.used r hr
  obtain rfl := Option.some.inj (hu.symm.trans hu')
  rintro ⟨-, hidle⟩
  omega

theorem attended_run (h : Sound env s) (hrow : ∃ r ∈ s.rows, r.tokenHash = tokenHash)
    (hes : Along (step env) (fun s e ↦ Admissible env s e ∧ Attended tokenHash s e) s es) :
    ∃ r ∈ (run (step env) s es).rows, r.tokenHash = tokenHash := by
  refine (run_preserves (P := fun s ↦ Sound env s ∧ ∃ r ∈ s.rows, r.tokenHash = tokenHash) ?_
    ⟨h, hrow⟩ hes).2
  rintro s e ⟨hs, r, hr, hkey⟩ ⟨ha, hkept, hrecent⟩
  obtain ⟨u, hu, -, -⟩ := hs.used r hr
  have hidle := not_idle_of_recent hs hr hu (hrecent u (hkey ▸ hu))
  obtain ⟨r', hr', hkey', -⟩ := row_step hs ha hr (hkept r hr hkey) hidle
  exact ⟨hs.step ha, r', hr', hkey'.trans hkey⟩

/-- A token that was used, whose sessions are those of a browser. -/
structure Unused (env : Environment) (tokenHash : String) (u : UtcInstant) (s : SessionState) :
    Prop where
  sound : Sound env s
  lastUse : s.lastUse tokenHash = some u
  browser : ∀ r ∈ s.rows, r.tokenHash = tokenHash → r.kind = .browser

theorem Unused.idle (h : Unused env tokenHash u s) (hr : r ∈ s.rows) (hkey : r.tokenHash = tokenHash)
    (ht : u.nanos + idlePeriod ≤ t.nanos) : Idle t r := by
  obtain ⟨u', hu', hle, -⟩ := h.sound.used r hr
  obtain rfl := Option.some.inj (h.lastUse.symm.trans (hkey ▸ hu'))
  rw [UtcInstant.le_iff] at hle
  exact ⟨h.browser r hr hkey, by omega⟩

theorem unused_run (h : Unused env tokenHash u s)
    (hes : Along (step env)
      (fun s e ↦ Admissible env s e ∧ u.nanos + idlePeriod ≤ e.clock.nanos) s es) :
    Unused env tokenHash u (run (step env) s es) := by
  refine run_preserves ?_ h hes
  rintro s e hs ⟨ha, hlate⟩
  rcases step_cases hs.sound ha with ⟨keep, heq, -, -⟩ | ⟨new, hnew, -, -, -, heq⟩ |
    ⟨used, hused, hidle, -, heq⟩
  · refine ⟨hs.sound.step ha, by rw [heq]; exact hs.lastUse, fun r hr hkey ↦ ?_⟩
    rw [heq] at hr
    exact hs.browser r (List.mem_filter.mp hr).1 hkey
  · have hne : tokenHash ≠ new.tokenHash := by
      rintro rfl
      exact hnew (hs.sound.usedIssued _ u hs.lastUse)
    refine ⟨hs.sound.step ha, ?_, fun r hr hkey ↦ ?_⟩
    · rw [heq]
      dsimp only
      rw [Function.update_of_ne hne]
      exact hs.lastUse
    · rw [heq] at hr
      rcases List.mem_append.mp hr with hold | hsingle
      · exact hs.browser r hold hkey
      · exact absurd (hkey.symm.trans (congrArg _ (List.mem_singleton.mp hsingle))) hne
  · have hne : tokenHash ≠ used.tokenHash := fun hkey ↦ hidle (hs.idle hused hkey.symm hlate)
    refine ⟨hs.sound.step ha, ?_, fun r hr hkey ↦ ?_⟩
    · rw [heq]
      dsimp only
      rw [Function.update_of_ne hne]
      exact hs.lastUse
    · rw [heq] at hr
      obtain ⟨r₀, hr₀, rfl⟩ := mem_useRow.mp hr
      split_ifs at hkey ⊢
      · rw [refresh_tokenHash] at hkey
        rw [refresh_kind]
        exact hs.browser r₀ hr₀ hkey
      · exact hs.browser r₀ hr₀ hkey

/-- An issued token without a session. -/
structure Revoked (env : Environment) (tokenHash : String) (s : SessionState) : Prop where
  sound : Sound env s
  issued : tokenHash ∈ s.issued
  gone : ∀ r ∈ s.rows, r.tokenHash ≠ tokenHash

theorem revoked_step (h : Sound env s) (ha : Admissible env s e) (hr : r ∈ s.rows)
    (hrevokes : Revokes e.op r) : Revoked env r.tokenHash (step env s e) := by
  rcases step_cases h ha with ⟨keep, heq, -, hdeleted⟩ | ⟨new, -, -, -, hnot, -⟩ |
    ⟨used, -, -, hnot, -⟩
  · refine ⟨h.step ha, by rw [heq]; exact h.issued r hr, fun r' hr' hkey ↦ ?_⟩
    rw [heq] at hr'
    obtain ⟨hr', hkeep⟩ := List.mem_filter.mp hr'
    rw [h.wellKept.unique hr hr' hkey, hdeleted r hr hrevokes] at hkeep
    cases hkeep
  · exact absurd hrevokes (hnot r)
  · exact absurd hrevokes (hnot r)

theorem revoked_run (h : Revoked env tokenHash s)
    (hes : Along (step env) (Admissible env) s es) :
    Revoked env tokenHash (run (step env) s es) := by
  refine run_preserves ?_ h hes
  intro s e hs ha
  rcases step_cases hs.sound ha with ⟨keep, heq, -, -⟩ | ⟨new, hnew, -, -, -, heq⟩ |
    ⟨used, -, -, -, heq⟩
  · refine ⟨hs.sound.step ha, by rw [heq]; exact hs.issued, fun r hr ↦ ?_⟩
    rw [heq] at hr
    exact hs.gone r (List.mem_filter.mp hr).1
  · refine ⟨hs.sound.step ha, by rw [heq]; exact List.mem_cons_of_mem _ hs.issued, fun r hr hkey ↦ ?_⟩
    rw [heq] at hr
    rcases List.mem_append.mp hr with hold | hsingle
    · exact hs.gone r hold hkey
    · rw [List.mem_singleton.mp hsingle] at hkey
      exact hnew (hkey ▸ hs.issued)
  · refine ⟨hs.sound.step ha, by rw [heq]; exact hs.issued, fun r hr hkey ↦ ?_⟩
    rw [heq] at hr
    obtain ⟨r₀, hr₀, rfl⟩ := mem_useRow.mp hr
    split_ifs at hkey
    · rw [refresh_tokenHash] at hkey
      exact hs.gone r₀ hr₀ hkey
    · exact hs.gone r₀ hr₀ hkey

/-- A machine's session lasts until it is revoked. -/
theorem lasting_run {kind : SessionKind} (h : Sound env s) (hkind : kind ≠ .browser)
    (hrow : ∃ r ∈ s.rows, r.tokenHash = tokenHash ∧ r.kind = kind)
    (hes : Along (step env) (fun s e ↦ Admissible env s e ∧
      ∀ r ∈ s.rows, r.tokenHash = tokenHash → ¬Revokes e.op r) s es) :
    ∃ r ∈ (run (step env) s es).rows, r.tokenHash = tokenHash ∧ r.kind = kind := by
  refine (run_preserves (P := fun s ↦ Sound env s ∧
    ∃ r ∈ s.rows, r.tokenHash = tokenHash ∧ r.kind = kind) ?_ ⟨h, hrow⟩ hes).2
  rintro s e ⟨hs, r, hr, hkey, rfl⟩ ⟨ha, hkept⟩
  obtain ⟨r', hr', hkey', hkind'⟩ :=
    row_step hs ha hr (hkept r hr hkey) fun hidle ↦ hkind hidle.1
  exact ⟨hs.step ha, r', hr', hkey'.trans hkey, hkind'⟩

end Lifetimes

section Prune

variable {cutoff : UtcInstant}

theorem mem_deleteBatch : r ∈ deleteBatch rows cutoff ↔
    r ∈ rows ∧ ¬(isPrunable cutoff r = true ∧ r.tokenHash ∈ pruneBatch rows cutoff) := by
  rw [deleteBatch, List.mem_filter, decide_eq_true_iff]

/-- A batch deletes a row as long as one is expired. -/
theorem deleteBatch_length_lt (h : ∃ r ∈ rows, isPrunable cutoff r = true) :
    (deleteBatch rows cutoff).length < rows.length := by
  have hmem : ∃ key, key ∈ pruneBatch rows cutoff := by
    obtain ⟨r, hr, hprunable⟩ := h
    have hkey : r.tokenHash ∈ (rows.filter (isPrunable cutoff)).map SessionRow.tokenHash :=
      List.mem_map_of_mem (List.mem_filter.mpr ⟨hr, hprunable⟩)
    have hsorted := (List.mem_insertionSort (fun a b : String ↦ a.toList ≤ b.toList)).mpr hkey
    refine List.exists_mem_of_ne_nil _ fun hnil ↦ ?_
    rcases List.take_eq_nil_iff.mp hnil with hzero | hempty
    · exact absurd hzero (by decide)
    · rw [hempty] at hsorted
      exact List.not_mem_nil hsorted
  obtain ⟨key, hkey⟩ := hmem
  obtain ⟨r, hr, rfl⟩ := List.mem_map.mp
    ((List.mem_insertionSort _).mp (List.mem_of_mem_take hkey))
  obtain ⟨hr, hprunable⟩ := List.mem_filter.mp hr
  refine lt_of_le_of_ne (List.length_filter_le _ _) fun heq ↦ ?_
  have hall := List.length_filter_eq_length_iff.mp heq r hr
  exact of_decide_eq_true hall ⟨hprunable, hkey⟩

/-- The loop leaves the rows that are not expired. -/
theorem pruneLoop_rows {fuel pruned : ℕ} (h : rows.length < fuel) :
    ∀ r, r ∈ (pruneLoop cutoff fuel rows pruned).1 ↔ r ∈ rows ∧ isPrunable cutoff r = false := by
  induction fuel generalizing rows pruned with
  | zero => exact absurd h (Nat.not_lt_zero _)
  | succ fuel ih =>
    intro r
    by_cases hexpired : ∃ r ∈ rows, isPrunable cutoff r = true
    · have hlt := deleteBatch_length_lt hexpired
      have hbatch : ¬rows.length - (deleteBatch rows cutoff).length = 0 := by omega
      have hloop : pruneLoop cutoff (fuel + 1) rows pruned = pruneLoop cutoff fuel
          (deleteBatch rows cutoff) (pruned + (rows.length - (deleteBatch rows cutoff).length)) :=
        if_neg hbatch
      rw [hloop, ih (by omega), mem_deleteBatch]
      constructor
      · exact fun ⟨⟨hr, _⟩, hkept⟩ ↦ ⟨hr, hkept⟩
      · rintro ⟨hr, hkept⟩
        refine ⟨⟨hr, fun hdeleted ↦ ?_⟩, hkept⟩
        rw [hkept] at hdeleted
        cases hdeleted.1
    · have hself : deleteBatch rows cutoff = rows := by
        refine List.filter_eq_self.mpr fun r hr ↦ decide_eq_true fun hdeleted ↦ ?_
        exact hexpired ⟨r, hr, hdeleted.1⟩
      have hloop : pruneLoop cutoff (fuel + 1) rows pruned = (rows, pruned) :=
        if_pos (by rw [hself, Nat.sub_self])
      rw [hloop]
      refine ⟨fun hr ↦ ⟨hr, ?_⟩, And.left⟩
      exact eq_false_of_ne_true fun hprunable ↦ hexpired ⟨r, hr, hprunable⟩

theorem pruneExpiredBrowserSessions_rows : r ∈ (pruneExpiredBrowserSessions rows now).1 ↔
    r ∈ rows ∧ isPrunable (sessionIdleCutoff now) r = false :=
  pruneLoop_rows (Nat.lt_succ_self _) r

end Prune

/-- How long sessions live, in every run. -/
theorem session_lifetime (env : Environment) (start : UtcInstant) (es : List SessionEvent)
    (hes : Along (step env) (Admissible env) (.empty start) es) :
    let s := run (step env) (.empty start) es
    (∀ rawToken t, 0 ≤ year t → (Accepts env s.rows rawToken t ↔
      ∃ r ∈ s.rows, env.tokenHash rawToken = some r.tokenHash ∧
        ¬(r.kind = .browser ∧ r.lastUsedAt.nanos + idlePeriod ≤ t.nanos))) ∧
    (∀ r ∈ s.rows, ∃ u, s.lastUse r.tokenHash = some u ∧ r.lastUsedAt ≤ u ∧
      u.nanos < r.lastUsedAt.nanos + touchInterval) ∧
    (∀ e, Admissible env s e → ∀ r ∈ s.rows, ∀ r' ∈ (step env s e).rows,
      r'.tokenHash = r.tokenHash → r.lastUsedAt ≤ r'.lastUsedAt) ∧
    (∀ tokenHash es', (∃ r ∈ s.rows, r.tokenHash = tokenHash) →
      Along (step env) (fun s e ↦ Admissible env s e ∧ Attended tokenHash s e) s es' →
      ∀ rawToken u t, env.tokenHash rawToken = some tokenHash →
        (run (step env) s es').lastUse tokenHash = some u → 0 ≤ year t →
        t.nanos + touchInterval < u.nanos + idlePeriod →
        Accepts env (run (step env) s es').rows rawToken t) ∧
    (∀ tokenHash u es', s.lastUse tokenHash = some u →
      (∀ r ∈ s.rows, r.tokenHash = tokenHash → r.kind = .browser) →
      Along (step env) (fun s e ↦ Admissible env s e ∧ u.nanos + idlePeriod ≤ e.clock.nanos) s es' →
      ∀ rawToken t, env.tokenHash rawToken = some tokenHash → 0 ≤ year t →
        u.nanos + idlePeriod ≤ t.nanos → ¬Accepts env (run (step env) s es').rows rawToken t) ∧
    (∀ now clock, Admissible env s ⟨clock, .deleteBatch now⟩ → ∀ r ∈ s.rows,
      (r ∉ (step env s ⟨clock, .deleteBatch now⟩).rows ∨
        r ∉ (pruneExpiredBrowserSessions s.rows now).1) → ∀ t, clock ≤ t →
          r.kind = .browser ∧ r.lastUsedAt.nanos + idlePeriod ≤ t.nanos) ∧
    (∀ now, ∀ r ∈ (pruneExpiredBrowserSessions s.rows now).1, r ∈ s.rows ∧
      ¬(r.kind = .browser ∧ r.lastUsedAt ≤ sessionIdleCutoff now)) ∧
    (∀ tokenHash kind es', kind ≠ .browser → (∃ r ∈ s.rows, r.tokenHash = tokenHash ∧ r.kind = kind) →
      Along (step env) (fun s e ↦ Admissible env s e ∧
        ∀ r ∈ s.rows, r.tokenHash = tokenHash → ¬Revokes e.op r) s es' →
      ∀ rawToken t, env.tokenHash rawToken = some tokenHash → 0 ≤ year t →
        Accepts env (run (step env) s es').rows rawToken t) ∧
    (∀ e, Admissible env s e → ∀ r ∈ s.rows, Revokes e.op r → ∀ es',
      Along (step env) (Admissible env) (step env s e) es' →
      ∀ rawToken t, env.tokenHash rawToken = some r.tokenHash → 0 ≤ year t →
        ¬Accepts env (run (step env) (step env s e) es').rows rawToken t) := by
  intro s
  have hs : Sound env s := sound_run sound_empty hes
  refine ⟨fun rawToken t ht ↦ accepts_iff hs.wellKept ht, hs.used, ?_, ?_, ?_, ?_, ?_, ?_, ?_⟩
  · exact fun e ha r hr r' hr' hkey ↦ lastUsedAt_le_step hs ha hr hr' hkey
  · intro tokenHash es' hrow hes' rawToken u t htoken hu ht hrecent
    have hs' := sound_run hs (hes'.mono fun _ _ h ↦ h.1)
    obtain ⟨r, hr, rfl⟩ := attended_run hs hrow hes'
    exact (accepts_iff hs'.wellKept ht).mpr ⟨r, hr, htoken, not_idle_of_recent hs' hr hu hrecent⟩
  · intro tokenHash u es' hu hbrowser hes' rawToken t htoken ht hlate haccepts
    have hunused := unused_run ⟨hs, hu, hbrowser⟩ hes'
    obtain ⟨r, hr, hkey, hidle⟩ := (accepts_iff hunused.sound.wellKept ht).mp haccepts
    have hkey' := Option.some.inj (hkey.symm.trans htoken)
    exact hidle (hunused.idle hr hkey' hlate)
  · intro now clock ha r hr hgone t hle
    have hprunable : isPrunable (sessionIdleCutoff now) r = true := by
      by_contra hkept
      rcases hgone with hgone | hgone
      · exact hgone (mem_deleteBatch.mpr ⟨hr, fun hdeleted ↦ hkept hdeleted.1⟩)
      · exact hgone (pruneExpiredBrowserSessions_rows.mpr ⟨hr, eq_false_of_ne_true hkept⟩)
    exact (idle_of_isPrunable (hs.wellKept.years r hr) ha.2.2 ha.2.1 hprunable).mono hle
  · intro now r hr
    obtain ⟨hr, hkept⟩ := pruneExpiredBrowserSessions_rows.mp hr
    refine ⟨hr, fun hexpired ↦ ?_⟩
    rw [(isPrunable_iff (hs.wellKept.years r hr)).mpr hexpired] at hkept
    cases hkept
  · intro tokenHash kind es' hkind hrow hes' rawToken t htoken ht
    have hs' := sound_run hs (hes'.mono fun _ _ h ↦ h.1)
    obtain ⟨r, hr, rfl, rfl⟩ := lasting_run hs hkind hrow hes'
    exact (accepts_iff hs'.wellKept ht).mpr ⟨r, hr, htoken, fun hidle ↦ hkind hidle.1⟩
  · intro e ha r hr hrevokes es' hes' rawToken t htoken ht haccepts
    have hrevoked := revoked_run (revoked_step hs ha hr hrevokes) hes'
    obtain ⟨r', hr', hkey, -⟩ := (accepts_iff hrevoked.sound.wellKept ht).mp haccepts
    exact hrevoked.gone r' hr' (Option.some.inj (hkey.symm.trans htoken))

/-- One user, whose tokens are their own hashes. -/
def loneUser : Environment := ⟨fun _ ↦ some "ada", some, id⟩

def epoch : UtcInstant := .epoch

theorem new_session_accepted :
    Accepts loneUser
      (run (step loneUser) (.empty epoch) [⟨epoch, .create "token" 1 "laptop" .browser⟩]).rows
      "token" epoch := by
  have hyear : 0 ≤ year epoch := by decide
  have hrun : Along (step loneUser) (Admissible loneUser) (.empty epoch)
      [⟨epoch, .create "token" 1 "laptop" .browser⟩] :=
    ⟨⟨le_rfl, hyear, fun _ _ ↦ List.not_mem_nil⟩, trivial⟩
  refine ((session_lifetime loneUser epoch _ hrun).1 "token" epoch hyear).mpr ?_
  exact ⟨⟨"token", 1, "laptop", .browser, epoch, epoch⟩, List.mem_cons_self, rfl, by decide⟩

/-- An hour before the year -1 begins, and an hour after. -/
def beforeNewYear : UtcInstant := ⟨(-719893 * 86400 - 3600) * 1000000000, by decide, by decide⟩

def afterNewYear : UtcInstant := ⟨(-719893 * 86400 + 3600) * 1000000000, by decide, by decide⟩

/-- Two hours pass over the turn of a year before year 0, whose texts are ordered the other way: the
authentication succeeds, and its use is not persisted. -/
theorem touch_lost_before_year_zero :
    ∃ s : SessionState, s = run (step loneUser) (.empty beforeNewYear)
        [⟨beforeNewYear, .create "token" 1 "laptop" .browser⟩, ⟨afterNewYear, .authenticate "token"⟩] ∧
      s.rows.map SessionRow.lastUsedAt = [beforeNewYear] ∧ s.lastUse "token" = some afterNewYear ∧
      ¬afterNewYear.nanos < beforeNewYear.nanos + touchInterval := by
  refine ⟨_, rfl, ?_, ?_, by decide⟩
  · decide
  · decide

end Jaunder.Storage.SessionLifetime
