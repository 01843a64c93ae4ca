import Mathlib.Order.Lattice
import Mathlib.Order.Basic
import Mathlib.Tactic

namespace Jaunder.Common.Time

def nanosPerSecond : ℤ := 1000000000

/-- An instant of `jiff::Timestamp`, as nanoseconds since the Unix epoch. The bounds are
`-009999-01-02T01:59:59Z` and `9999-12-30T22:00:00.999999999Z`. -/
@[ext]
structure UtcInstant where
  nanos : ℤ
  lower : -377705023201000000000 ≤ nanos
  upper : nanos ≤ 253402207200999999999
deriving DecidableEq

namespace UtcInstant

instance : LinearOrder UtcInstant := LinearOrder.lift' UtcInstant.nanos (fun _ _ h ↦ UtcInstant.ext h)

variable {a b : UtcInstant}

theorem le_iff : a ≤ b ↔ a.nanos ≤ b.nanos := Iff.rfl

theorem lt_iff : a < b ↔ a.nanos < b.nanos := Iff.rfl

def ofNanos? (n : ℤ) : Option UtcInstant :=
  if h : -377705023201000000000 ≤ n ∧ n ≤ 253402207200999999999 then some ⟨n, h.1, h.2⟩ else none

theorem ofNanos?_eq_some {n : ℤ} : ofNanos? n = some a ↔ a.nanos = n := by
  unfold ofNanos?
  split
  · rw [Option.some_inj, UtcInstant.ext_iff]
    exact eq_comm
  · rename_i hn
    refine iff_of_false (by simp) (fun ha ↦ hn ?_)
    rw [← ha]
    exact ⟨a.lower, a.upper⟩

/-- Whole seconds since the epoch; like jiff's, the division rounds towards zero. -/
def asSecond (t : UtcInstant) : ℤ := t.nanos.tdiv nanosPerSecond

def subsecNanosecond (t : UtcInstant) : ℤ := t.nanos.tmod nanosPerSecond

theorem nanos_eq (t : UtcInstant) :
    t.nanos = nanosPerSecond * t.asSecond + t.subsecNanosecond :=
  (Int.mul_tdiv_add_tmod t.nanos nanosPerSecond).symm

theorem eq_of_parts (hs : a.asSecond = b.asSecond)
    (hn : a.subsecNanosecond = b.subsecNanosecond) : a = b :=
  UtcInstant.ext (by rw [nanos_eq a, nanos_eq b, hs, hn])

theorem asSecond_bounds (t : UtcInstant) :
    -377705023201 ≤ t.asSecond ∧ t.asSecond ≤ 253402207200 :=
  ⟨Int.tdiv_le_tdiv (c := nanosPerSecond) (by decide) t.lower,
    Int.tdiv_le_tdiv (c := nanosPerSecond) (by decide) t.upper⟩

theorem subsecNanosecond_bounds (t : UtcInstant) :
    -nanosPerSecond < t.subsecNanosecond ∧ t.subsecNanosecond < nanosPerSecond :=
  ⟨Int.lt_tmod_of_pos t.nanos (by decide), Int.tmod_lt_of_pos t.nanos (by decide)⟩

/-- `Timestamp::from_second` of the instant's own whole seconds, which is always representable. -/
def wholeSeconds (t : UtcInstant) : UtcInstant where
  nanos := nanosPerSecond * t.asSecond
  lower := by
    have h := asSecond_bounds t
    simp only [nanosPerSecond]
    omega
  upper := by
    have h := asSecond_bounds t
    simp only [nanosPerSecond]
    omega

@[simp] theorem wholeSeconds_nanos (t : UtcInstant) :
    t.wholeSeconds.nanos = nanosPerSecond * t.asSecond := rfl

@[simp] theorem wholeSeconds_asSecond (t : UtcInstant) : t.wholeSeconds.asSecond = t.asSecond :=
  Int.mul_tdiv_cancel_left _ (by decide)

theorem asSecond_mono (h : a ≤ b) : a.asSecond ≤ b.asSecond :=
  Int.tdiv_le_tdiv (by decide) h

theorem wholeSeconds_mono (h : a ≤ b) : a.wholeSeconds ≤ b.wholeSeconds :=
  Int.mul_le_mul_of_nonneg_left (asSecond_mono h) (by decide)

theorem wholeSeconds_lt_iff : a.wholeSeconds < b.wholeSeconds ↔ a.asSecond < b.asSecond := by
  rw [lt_iff, wholeSeconds_nanos, wholeSeconds_nanos]
  simp only [nanosPerSecond]
  omega

/-- `Timestamp::checked_sub` of a whole number of seconds. -/
def checkedSub (t : UtcInstant) (seconds : ℕ) : Option UtcInstant :=
  ofNanos? (t.nanos - nanosPerSecond * seconds)

theorem checkedSub_eq_some {seconds : ℕ} :
    a.checkedSub seconds = some b ↔ b.nanos = a.nanos - nanosPerSecond * seconds :=
  ofNanos?_eq_some

def epoch : UtcInstant := ⟨0, by decide, by decide⟩

def secondAfterEpoch : UtcInstant := ⟨1000000000, by decide, by decide⟩

def timestampMin : UtcInstant := ⟨-377705023201000000000, by decide, by decide⟩

def timestampMax : UtcInstant := ⟨253402207200999999999, by decide, by decide⟩

/-- `checked_add` of a duration in nanoseconds, or `Timestamp::MAX`. -/
def saturatingAdd (t : UtcInstant) (nanos : ℕ) : UtcInstant :=
  (ofNanos? (t.nanos + nanos)).getD timestampMax

end UtcInstant

end Jaunder.Common.Time
