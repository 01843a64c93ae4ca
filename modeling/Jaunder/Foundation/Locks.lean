import Mathlib.Data.List.Basic
import Mathlib.Logic.Function.Basic

namespace Foundation.Locks

variable {κ ι : Type}

/-- Who holds each lock of a family. -/
abbrev Holders (κ ι : Type) : Type := κ → Option ι

section Acquire

variable [DecidableEq κ] {locks locks' : Holders κ ι} {i j : ι} {k k' : κ}

/-- A lock is granted while nobody holds it. -/
def acquire (locks : Holders κ ι) (i : ι) (k : κ) : Option (Holders κ ι) :=
  if (locks k).isNone then some (Function.update locks k (some i)) else none

theorem acquire_eq_some (h : acquire locks i k = some locks') :
    locks k = none ∧ locks' = Function.update locks k (some i) := by
  unfold acquire at h
  split_ifs at h with hfree
  exact ⟨Option.isNone_iff_eq_none.mp hfree, (Option.some.inj h).symm⟩

theorem acquire_self (h : acquire locks i k = some locks') : locks' k = some i := by
  rw [(acquire_eq_some h).2, Function.update_self]

theorem acquire_of_held (h : acquire locks i k = some locks') (hheld : locks k' = some j) :
    locks' k' = some j := by
  obtain ⟨hfree, rfl⟩ := acquire_eq_some h
  have hne : k' ≠ k := by
    rintro rfl
    rw [hfree] at hheld
    cases hheld
  rw [Function.update_of_ne hne, hheld]

end Acquire

section Release

variable [DecidableEq ι] {locks : Holders κ ι} {i j : ι} {k : κ}

def release (locks : Holders κ ι) (i : ι) : Holders κ ι :=
  fun k ↦ if locks k = some i then none else locks k

theorem release_of_held (hne : j ≠ i) (hheld : locks k = some j) :
    release locks i k = some j := by
  have hother : locks k ≠ some i := by
    rw [hheld]
    exact fun h ↦ hne (Option.some.inj h)
  rw [release, if_neg hother, hheld]

end Release

end Foundation.Locks
