import Jaunder.Common.SqliteTime
import Jaunder.Foundation.Outcome
import Jaunder.Foundation.Run

namespace Jaunder.Storage.Sessions

open Foundation.Outcome Foundation.Run
open Jaunder.Common.SqliteTime Jaunder.Common.Time

inductive SessionKind
  | browser
  | machine
  | unknown
deriving DecidableEq

structure SessionRow where
  tokenHash : String
  userId : ℤ
  label : String
  kind : SessionKind
  createdAt : UtcInstant
  lastUsedAt : UtcInstant
deriving DecidableEq

structure SessionRecord where
  tokenHash : String
  userId : ℤ
  username : String
  label : String
  kind : SessionKind
  createdAt : UtcInstant
  lastUsedAt : UtcInstant

structure SessionAuthentication where
  record : SessionRecord
  touched : Bool

inductive SessionAuthError
  | invalidToken
  | sessionNotFound
deriving DecidableEq

/-- The names in `users`, the hash of a raw token, and the lossy reading of a stored label. -/
structure Environment where
  username : ℤ → Option String
  tokenHash : String → Option String
  label : String → String

def browserSessionIdleSeconds : ℕ := 2592000

def sessionTouchFreshnessSeconds : ℕ := 60

/-- `saturating_sub` of a whole number of seconds. -/
def saturatingSub (t : UtcInstant) (seconds : ℕ) : UtcInstant :=
  (t.checkedSub seconds).getD .timestampMin

def sessionIdleCutoff (now : UtcInstant) : UtcInstant := saturatingSub now browserSessionIdleSeconds

def sessionTouchCutoff (now : UtcInstant) : UtcInstant :=
  saturatingSub now sessionTouchFreshnessSeconds

section Statements

variable (env : Environment) (rows : List SessionRow)

/-- The row of a token, joined with its user. -/
def selectSession (tokenHash : String) : Option SessionRow :=
  rows.find? (fun r ↦ r.tokenHash = tokenHash ∧ (env.username r.userId).isSome)

/-- `UPDATE sessions SET last_used_at`; the column compares as text. -/
def touchSession (tokenHash : String) (now staleBefore expiredAtOrBefore : UtcInstant) :
    List SessionRow :=
  rows.map (fun r ↦
    if r.tokenHash = tokenHash ∧ sqliteText r.lastUsedAt ≤ sqliteText staleBefore ∧
        (r.kind ≠ .browser ∨ sqliteText expiredAtOrBefore < sqliteText r.lastUsedAt) then
      { r with lastUsedAt := now }
    else r)

def touchAndLoad (tokenHash : String) (now : UtcInstant) :
    Option (SessionRow × Bool) × List SessionRow :=
  match selectSession env rows tokenHash with
  | none => (none, rows)
  | some row =>
    let staleBefore := sessionTouchCutoff now
    let expiredAtOrBefore := sessionIdleCutoff now
    if row.kind = .browser ∧ row.lastUsedAt ≤ expiredAtOrBefore then (none, rows)
    else if staleBefore < row.lastUsedAt then (some (row, false), rows)
    else
      let rows := touchSession rows tokenHash now staleBefore expiredAtOrBefore
      ((selectSession env rows tokenHash).map (fun row ↦ (row, true)), rows)

def createSession (tokenHash : String) (userId : ℤ) (label : String) (kind : SessionKind)
    (now : UtcInstant) : Option (List SessionRow) :=
  if rows.any (fun r ↦ r.tokenHash = tokenHash) ∨ (env.username userId).isNone then none
  else some (rows ++ [⟨tokenHash, userId, label, kind, now, now⟩])

def sessionRecordFromRow (row : SessionRow) : SessionRecord :=
  ⟨row.tokenHash, row.userId, (env.username row.userId).getD "", env.label row.label, row.kind,
    row.createdAt, row.lastUsedAt⟩

def authenticate (rawToken : String) (now : UtcInstant) :
    Except SessionAuthError SessionAuthentication × List SessionRow :=
  match env.tokenHash rawToken with
  | none => (.error .invalidToken, rows)
  | some tokenHash =>
    let (loaded, rows) := touchAndLoad env rows tokenHash now
    match loaded with
    | none => (.error .sessionNotFound, rows)
    | some (row, touched) => (.ok ⟨sessionRecordFromRow env row, touched⟩, rows)

def revokeSession (tokenHash : String) : List SessionRow :=
  rows.filter (fun r ↦ r.tokenHash ≠ tokenHash)

def revokeAllForUser (userId : ℤ) : List SessionRow := rows.filter (fun r ↦ r.userId ≠ userId)

def revokeAllForUserExcept (userId : ℤ) (currentTokenHash : String) : List SessionRow :=
  rows.filter (fun r ↦ ¬(r.userId = userId ∧ r.tokenHash ≠ currentTokenHash))

def isPrunable (cutoff : UtcInstant) (r : SessionRow) : Bool :=
  r.kind = .browser ∧ sqliteText r.lastUsedAt ≤ sqliteText cutoff

def pruneBatchSize : ℕ := 500

/-- `SELECT token_hash … ORDER BY token_hash LIMIT 500` -/
def pruneBatch (cutoff : UtcInstant) : List String :=
  (((rows.filter (isPrunable cutoff)).map SessionRow.tokenHash).insertionSort
    (fun a b ↦ a.toList ≤ b.toList)).take pruneBatchSize

/-- One statement of the loop of `prune_expired_browser_sessions`. -/
def deleteBatch (cutoff : UtcInstant) : List SessionRow :=
  rows.filter (fun r ↦ ¬(isPrunable cutoff r ∧ r.tokenHash ∈ pruneBatch rows cutoff))

end Statements

/-- The loop; each round but the last deletes a row, so `rows.length + 1` rounds are enough. -/
def pruneLoop (cutoff : UtcInstant) : ℕ → List SessionRow → ℕ → List SessionRow × ℕ
  | 0, rows, pruned => (rows, pruned)
  | fuel + 1, rows, pruned =>
    let batch := rows.length - (deleteBatch rows cutoff).length
    if batch = 0 then (rows, pruned)
    else pruneLoop cutoff fuel (deleteBatch rows cutoff) (pruned + batch)

def pruneExpiredBrowserSessions (rows : List SessionRow) (now : UtcInstant) : List SessionRow × ℕ :=
  pruneLoop (sessionIdleCutoff now) (rows.length + 1) rows 0

section Runs

inductive SessionOp
  | create (rawToken : String) (userId : ℤ) (label : String) (kind : SessionKind)
  | authenticate (rawToken : String)
  | revoke (tokenHash : String)
  | revokeAllForUser (userId : ℤ)
  | revokeAllForUserExcept (userId : ℤ) (currentTokenHash : String)
  | deleteBatch (now : UtcInstant)

/-- An operation and what the clock reads in its transaction. -/
structure SessionEvent where
  clock : UtcInstant
  op : SessionOp

/-- The rows of `sessions`, with the last reading of the clock, the hashes of all issued tokens, and
when each token was last used: at its creation or at an authentication that succeeded. -/
structure SessionState where
  rows : List SessionRow
  clock : UtcInstant
  issued : List String
  lastUse : String → Option UtcInstant

variable (env : Environment)

def SessionState.empty (clock : UtcInstant) : SessionState := ⟨[], clock, [], fun _ ↦ none⟩

def SessionState.use (s : SessionState) (tokenHash : String) (rows : List SessionRow)
    (clock : UtcInstant) : SessionState :=
  { s with rows := rows, lastUse := Function.update s.lastUse tokenHash (some clock) }

def stepOp (s : SessionState) (clock : UtcInstant) : SessionOp → SessionState
  | .create rawToken userId label kind =>
    match env.tokenHash rawToken with
    | none => s
    | some tokenHash =>
      match createSession env s.rows tokenHash userId label kind clock with
      | none => s
      | some rows => { s.use tokenHash rows clock with issued := tokenHash :: s.issued }
  | .authenticate rawToken =>
    match authenticate env s.rows rawToken clock with
    | (.error _, rows) => { s with rows := rows }
    | (.ok authentication, rows) => s.use authentication.record.tokenHash rows clock
  | .revoke tokenHash => { s with rows := revokeSession s.rows tokenHash }
  | .revokeAllForUser userId => { s with rows := revokeAllForUser s.rows userId }
  | .revokeAllForUserExcept userId current =>
    { s with rows := revokeAllForUserExcept s.rows userId current }
  | .deleteBatch now => { s with rows := deleteBatch s.rows (sessionIdleCutoff now) }

def step (s : SessionState) (e : SessionEvent) : SessionState :=
  { stepOp env s e.clock e.op with clock := e.clock }

/-- The clock does not go back and reads years from 0 on, new tokens are new, and a prune has read
the clock before. -/
def Admissible (s : SessionState) (e : SessionEvent) : Prop :=
  s.clock ≤ e.clock ∧ 0 ≤ year e.clock ∧
    match e.op with
    | .create rawToken _ _ _ => ∀ tokenHash, env.tokenHash rawToken = some tokenHash →
      tokenHash ∉ s.issued
    | .deleteBatch now => now ≤ e.clock
    | _ => True

end Runs

end Jaunder.Storage.Sessions
