import Jaunder.Common.Time
import Jaunder.Foundation.RankedPrefix

namespace Jaunder.Host.Window

open Foundation.RankedPrefix
open Jaunder.Common.Time

/-- `min_items` is a positive `i64` and `min_days` a positive `u32`. -/
@[ext]
structure HybridWindow where
  minItems : ℕ
  minDays : ℕ
  minItems_pos : 1 ≤ minItems
  minItems_lt : minItems < 2 ^ 63
  minDays_pos : 1 ≤ minDays
  minDays_lt : minDays < 2 ^ 32

instance : DecidableEq HybridWindow :=
  fun a b ↦ decidable_of_iff (a.minItems = b.minItems ∧ a.minDays = b.minDays) HybridWindow.ext_iff.symm

/-- There is no cutoff when it predates all representable instants. -/
def HybridWindow.cutoffDate (w : HybridWindow) (now : UtcInstant) : Option UtcInstant :=
  now.checkedSub (w.minDays * 86400)

def inAgeWindow (cutoff : Option UtcInstant) (publishedAt : UtcInstant) : Bool :=
  cutoff.all (fun cutoff ↦ cutoff ≤ publishedAt)

/-- The loop of `select` over the posts from index `i` on; it returns the end of the prefix. -/
def selectEnd {α : Type} (publishedAt : α → UtcInstant) (minItems : ℕ) (cutoff : Option UtcInstant) :
    ℕ → List α → ℕ
  | i, [] => i
  | i, p :: posts =>
    if i < minItems || inAgeWindow cutoff (publishedAt p) then
      selectEnd publishedAt minItems cutoff (i + 1) posts
    else i

def HybridWindow.select {α : Type} (w : HybridWindow) (publishedAt : α → UtcInstant)
    (posts : List α) (now : UtcInstant) : List α :=
  posts.take (selectEnd publishedAt w.minItems (w.cutoffDate now) 0 posts)

theorem select_prefix {α : Type} (w : HybridWindow) (publishedAt : α → UtcInstant)
    (posts : List α) (now : UtcInstant) : w.select publishedAt posts now <+: posts :=
  List.take_prefix _ _

end Jaunder.Host.Window
