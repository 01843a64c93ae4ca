import Mathlib.Data.List.Pairwise
import Mathlib.Tactic

namespace Foundation.UniqueIndex

variable {α β : Type} {clash : α → α → Bool} {rows new out : List α}

/-- The rows of a table with a unique index: no row clashes with a later one. -/
def Unique (clash : α → α → Bool) (rows : List α) : Prop :=
  rows.Pairwise (fun a b ↦ clash a b = false)

/-- `INSERT` under the index. -/
def insertRow (clash : α → α → Bool) (rows : List α) (row : α) : Option (List α) :=
  if rows.any (clash · row) then none else some (rows ++ [row])

def insertRows (clash : α → α → Bool) (rows new : List α) : Option (List α) :=
  new.foldlM (insertRow clash) rows

theorem unique_append : Unique clash (rows ++ new) ↔
    Unique clash rows ∧ Unique clash new ∧ ∀ a ∈ rows, ∀ b ∈ new, clash a b = false :=
  List.pairwise_append

theorem insertRows_eq_some_iff (h : Unique clash rows) :
    insertRows clash rows new = some out ↔ out = rows ++ new ∧ Unique clash (rows ++ new) := by
  induction new generalizing rows with
  | nil =>
    rw [List.append_nil, insertRows, List.foldlM_nil]
    constructor
    · rintro ⟨⟩
      exact ⟨rfl, h⟩
    · rintro ⟨rfl, -⟩
      rfl
  | cons row new ih =>
    have hstep : insertRows clash rows (row :: new) =
        (insertRow clash rows row).bind (insertRows clash · new) := rfl
    have hassoc : rows ++ row :: new = rows ++ [row] ++ new := by simp
    rw [hstep, insertRow]
    by_cases hclash : rows.any (clash · row) = true
    · rw [if_pos hclash]
      obtain ⟨a, ha, hc⟩ := List.any_eq_true.mp hclash
      constructor
      · intro hnone
        cases hnone
      · rintro ⟨-, hunique⟩
        have hfree := (unique_append.mp hunique).2.2 a ha row List.mem_cons_self
        rw [hfree] at hc
        cases hc
    · rw [if_neg hclash, Option.bind_some, hassoc]
      refine ih ?_
      rw [unique_append]
      refine ⟨h, List.pairwise_singleton _ _, fun a ha b hb ↦ ?_⟩
      rw [List.mem_singleton.mp hb]
      exact Bool.eq_false_iff.mpr (fun hc ↦ hclash (List.any_eq_true.mpr ⟨a, ha, hc⟩))

/-- The rows that an empty table takes in are the ones without a clash. -/
theorem insertRows_nil_eq_some_iff :
    insertRows clash [] new = some out ↔ out = new ∧ Unique clash new :=
  insertRows_eq_some_iff List.Pairwise.nil

theorem insertRows_nil (h : Unique clash new) : insertRows clash [] new = some new :=
  insertRows_nil_eq_some_iff.mpr ⟨rfl, h⟩

/-- A query that one row answers finds this row. -/
theorem find?_eq_some_of_unique {p : α → Bool} {a : α} (ha : a ∈ rows) (hp : p a = true)
    (honly : ∀ b ∈ rows, p b = true → b = a) : rows.find? p = some a := by
  cases hfind : rows.find? p with
  | none => exact absurd hp (List.find?_eq_none.mp hfind a ha)
  | some b => rw [honly b (List.mem_of_find?_eq_some hfind) (List.find?_some hfind)]

theorem Unique.mono {clash' : α → α → Bool} (h : Unique clash rows)
    (himp : ∀ a ∈ rows, ∀ b ∈ rows, clash a b = false → clash' a b = false) : Unique clash' rows :=
  h.imp_of_mem (fun ha hb hab ↦ himp _ ha _ hb hab)

theorem unique_of_nodup {key : α → β} (h : (rows.map key).Nodup)
    (hclash : ∀ a b, key a ≠ key b → clash a b = false) : Unique clash rows :=
  (List.pairwise_map.mp h).imp (fun {a b} hab ↦ hclash a b hab)

theorem Unique.count_le_one [DecidableEq α] (h : Unique clash rows) {a : α}
    (hself : clash a a = true) : rows.count a ≤ 1 := by
  by_contra hcount
  have hpair : (List.replicate 2 a).Sublist rows :=
    List.replicate_sublist_iff.mpr (by omega)
  have hfree : clash a a = false := by simpa using h.sublist hpair
  rw [hfree] at hself
  cases hself

end Foundation.UniqueIndex
