import Jaunder.Storage.Posts.Lifecycle

namespace Jaunder.Storage.Posts.AudienceEquality

open Foundation.Outcome Foundation.UniqueIndex
open Jaunder.Common.Visibility
open Jaunder.Storage.Posts.Lifecycle Jaunder.Storage.Posts.Tables

/-- How many rows say again what another row says. -/
def repeated (rows : List AudienceRow) : ℕ := rows.length - rows.dedup.length

/-- How many rows a replacement brings that are not stored. -/
def added (existing rows : List AudienceRow) : ℕ :=
  (rows.dedup.filter (fun row ↦ row ∉ existing)).length

variable {d : Dialect} {s : PostTables} {existing rows : List AudienceRow}
  {desired : List AudienceTarget}

theorem length_eq (rows : List AudienceRow) : rows.length = rows.dedup.length + repeated rows := by
  have hle := (List.dedup_sublist rows).length_le
  rw [repeated]
  omega

end Jaunder.Storage.Posts.AudienceEquality
