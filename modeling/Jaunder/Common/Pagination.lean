import Mathlib.Tactic

namespace Jaunder.Common.Pagination

/-- `PageSize`: what a reader sees of a listing at a time. -/
structure PageSize where
  value : ℕ
  lower : 1 ≤ value
  upper : value ≤ 50
deriving DecidableEq

namespace PageSize

instance : Inhabited PageSize := ⟨⟨50, by decide, by decide⟩⟩

def clamped (n : ℕ) : PageSize := ⟨max 1 (min n 50), le_max_left _ _, by omega⟩

/-- The rows to fetch for one page: an extra one shows that there are more. -/
def fetchLimit (n : PageSize) : ℕ := n.value + 1

def pageLen (n : PageSize) : ℕ := n.value

def hasMore (n : PageSize) (fetched : ℕ) : Bool := n.pageLen < fetched

theorem pageLen_pos (n : PageSize) : 0 < n.pageLen := n.lower

theorem pageLen_clamped_one : (clamped 1).pageLen = 1 := rfl

end PageSize

end Jaunder.Common.Pagination
