import Mathlib.Data.List.Basic
import Mathlib.Tactic

namespace Foundation.RecursiveQuery

variable {α β : Type} {next : α → Option α} {a b c : α} {rows rows' : List α}

/-- A recursive query whose recursive terms give at most one row for a row: the rows that it takes
from its queue, or `none` when the queue is not empty yet. -/
def recursiveQuery (next : α → Option α) : ℕ → α → Option (List α)
  | 0, _ => none
  | fuel + 1, row =>
    match next row with
    | none => some [row]
    | some row' => (recursiveQuery next fuel row').map (row :: ·)

/-- The rows that are taken on the way from one row to another. -/
inductive Steps (next : α → Option α) : α → List α → α → Prop
  | refl (a : α) : Steps next a [] a
  | head {a b c : α} {rows : List α} (first : next a = some b) (rest : Steps next b rows c) :
      Steps next a (a :: rows) c

theorem Steps.one (h : next a = some b) : Steps next a [a] b := .head h (.refl b)

theorem Steps.trans (h : Steps next a rows b) (h' : Steps next b rows' c) :
    Steps next a (rows ++ rows') c := by
  induction h with
  | refl a => exact h'
  | head first rest ih => exact .head first (ih h')

/-- A chain of rows that ends is the whole answer. -/
theorem Steps.recursiveQuery (h : Steps next a rows b) (hend : next b = none) {fuel : ℕ}
    (hfuel : rows.length < fuel) : recursiveQuery next fuel a = some (rows ++ [b]) := by
  induction h generalizing fuel with
  | refl a =>
    obtain ⟨n, rfl⟩ := Nat.exists_eq_add_of_lt hfuel
    rw [RecursiveQuery.recursiveQuery, hend]
    rfl
  | @head a b c rows first rest ih =>
    obtain ⟨n, rfl⟩ := Nat.exists_eq_add_of_lt hfuel
    have hrest : RecursiveQuery.recursiveQuery next ((a :: rows).length + n) b =
        some (rows ++ [c]) := by
      refine ih hend ?_
      rw [List.length_cons]
      omega
    rw [RecursiveQuery.recursiveQuery, first]
    dsimp only
    rw [hrest]
    rfl

end Foundation.RecursiveQuery
