import Jaunder.Common.SqliteTime
import Jaunder.Foundation.Sql

namespace Jaunder.Storage.Dialect

open Foundation.Sql
open Jaunder.Common.SqliteTime Jaunder.Common.Time

/-- How a database stores instants: the ordered values that its timestamp columns compare by, what
a column default of the current time stores, and the value that a bind carries. -/
structure Backend where
  Stored : Type
  order : LinearOrder Stored
  stored : UtcInstant → Stored
  defaulted : UtcInstant → Stored
  bind : UtcInstant → Value

instance (b : Backend) : LinearOrder b.Stored := b.order

def sqlite : Backend :=
  ⟨List Char, inferInstance, sqliteText, currentTimestamp,
    fun t ↦ .text (String.ofList (sqliteText t))⟩

/-- The timestamp column orders the instant against every other as time does. -/
def Backend.Keeps (b : Backend) (t : UtcInstant) : Prop :=
  ∀ u, b.stored t ≤ b.stored u ↔ t ≤ u

theorem Backend.Keeps.lt_iff {b : Backend} {t : UtcInstant} (h : b.Keeps t) (u : UtcInstant) :
    b.stored u < b.stored t ↔ u < t := by
  rw [← not_le, ← not_le, h u]

theorem sqlite_keeps {t : UtcInstant} (h : 0 ≤ year t) : sqlite.Keeps t :=
  fun _ ↦ sqliteText_le_iff (Or.inl h)

end Jaunder.Storage.Dialect
