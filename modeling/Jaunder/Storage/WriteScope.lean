import Mathlib.Data.List.Basic
import Mathlib.Tactic

namespace Jaunder.Storage.WriteScope

/-- What becomes of one transaction: its commit is acknowledged, or the acknowledgement is lost
with the writes in the database or not, or it is rolled back with an error. -/
inductive Commit
  | confirmed
  | indeterminate (applied : Bool)
  | failed
deriving DecidableEq

def Commit.applies : Commit → Bool
  | .confirmed => true
  | .indeterminate applied => applied
  | .failed => false

/-- Whether `require_confirmed_mutation` lets the caller go on. -/
def Commit.isConfirmed : Commit → Bool
  | .confirmed => true
  | .indeterminate _ => false
  | .failed => false

theorem Commit.applies_of_isConfirmed {c : Commit} (h : c.isConfirmed = true) : c.applies = true := by
  cases c with
  | confirmed => rfl
  | indeterminate applied => exact absurd h (by simp [Commit.isConfirmed])
  | failed => exact absurd h (by simp [Commit.isConfirmed])

end Jaunder.Storage.WriteScope
