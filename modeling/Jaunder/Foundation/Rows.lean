import Mathlib.Data.List.Nodup
import Mathlib.Data.List.Perm.Subperm
import Mathlib.Tactic

namespace Foundation.Rows

/-- A table whose rows carry ids that are handed out once, in increasing order. -/
structure IdTable (α : Type) where
  rows : List (ℕ × α)
  next : ℕ
  ids_lt : ∀ r ∈ rows, r.1 < next
  key : (rows.map Prod.fst).Nodup

namespace IdTable

variable {α : Type} (t : IdTable α)

def empty (first : ℕ) : IdTable α := ⟨[], first, by simp, by simp⟩

def get? (id : ℕ) : Option α := (t.rows.find? (fun r ↦ r.1 = id)).map Prod.snd

def insert (a : α) : IdTable α where
  rows := t.rows ++ [(t.next, a)]
  next := t.next + 1
  ids_lt := by
    intro r hr
    rcases List.mem_append.mp hr with hold | hnew
    · exact (t.ids_lt r hold).trans (Nat.lt_succ_self _)
    · rw [List.mem_singleton.mp hnew]
      exact Nat.lt_succ_self _
  key := by
    rw [List.map_append, List.nodup_append]
    refine ⟨t.key, by simp, fun id hid id' hid' ↦ ?_⟩
    obtain ⟨r, hr, rfl⟩ := List.mem_map.mp hid
    obtain rfl : id' = t.next := by simpa using hid'
    exact (t.ids_lt r hr).ne

def insertAll (as : List α) : IdTable α := as.foldl insert t

/-- `UPDATE … WHERE id IN (ids)`. -/
def update (ids : List ℕ) (f : α → α) : IdTable α where
  rows := t.rows.map (fun r ↦ if r.1 ∈ ids then (r.1, f r.2) else r)
  next := t.next
  ids_lt := by
    intro r hr
    obtain ⟨r', hr', rfl⟩ := List.mem_map.mp hr
    have hlt := t.ids_lt r' hr'
    split
    · exact hlt
    · exact hlt
  key := by
    have hfst : (t.rows.map (fun r ↦ if r.1 ∈ ids then (r.1, f r.2) else r)).map Prod.fst =
        t.rows.map Prod.fst := by
      rw [List.map_map]
      refine List.map_congr_left (fun r _ ↦ ?_)
      simp only [Function.comp_apply]
      split <;> rfl
    rw [hfst]
    exact t.key

/-- `DELETE … WHERE id IN (ids)`. -/
def delete (ids : List ℕ) : IdTable α where
  rows := t.rows.filter (fun r ↦ r.1 ∉ ids)
  next := t.next
  ids_lt := fun r hr ↦ t.ids_lt r (List.mem_filter.mp hr).1
  key := t.key.sublist (List.filter_sublist.map _)

variable {t} {id : ℕ} {ids : List ℕ} {a : α} {f : α → α}

theorem get?_eq_some : t.get? id = some a ↔ (id, a) ∈ t.rows := by
  rw [get?, Option.map_eq_some_iff]
  constructor
  · rintro ⟨r, hr, rfl⟩
    have hid : r.1 = id := by simpa using List.find?_some hr
    rw [← hid]
    exact List.mem_of_find?_eq_some hr
  · intro hmem
    cases hfind : t.rows.find? (fun r ↦ r.1 = id) with
    | none =>
      have hall := List.find?_eq_none.mp hfind (id, a) hmem
      exact absurd (decide_eq_true rfl) hall
    | some r =>
      have hid : r.1 = id := by simpa using List.find?_some hfind
      have heq := List.inj_on_of_nodup_map t.key (List.mem_of_find?_eq_some hfind) hmem hid
      exact ⟨r, rfl, congrArg Prod.snd heq⟩

theorem lt_next (h : t.get? id = some a) : id < t.next := t.ids_lt _ (get?_eq_some.mp h)

theorem get?_update : (t.update ids f).get? id = if id ∈ ids then (t.get? id).map f else t.get? id := by
  refine Option.ext (fun b ↦ ?_)
  rw [get?_eq_some]
  constructor
  · intro hmem
    obtain ⟨r, hr, heq⟩ := List.mem_map.mp hmem
    have hget := get?_eq_some.mpr (show (r.1, r.2) ∈ t.rows from hr)
    by_cases hid : r.1 ∈ ids
    · rw [if_pos hid, Prod.mk.injEq] at heq
      rw [← heq.1, if_pos hid, hget, ← heq.2]
      rfl
    · rw [if_neg hid] at heq
      have hr' : r.1 = id ∧ r.2 = b := by rw [heq]; exact ⟨rfl, rfl⟩
      rw [← hr'.1, if_neg hid, hget, hr'.2]
  · intro hget
    by_cases hid : id ∈ ids
    · rw [if_pos hid, Option.map_eq_some_iff] at hget
      obtain ⟨a, ha, rfl⟩ := hget
      exact List.mem_map.mpr ⟨(id, a), get?_eq_some.mp ha, if_pos hid⟩
    · rw [if_neg hid] at hget
      exact List.mem_map.mpr ⟨(id, b), get?_eq_some.mp hget, if_neg hid⟩

theorem get?_delete : (t.delete ids).get? id = if id ∈ ids then none else t.get? id := by
  refine Option.ext (fun b ↦ ?_)
  rw [get?_eq_some, delete, List.mem_filter]
  by_cases hid : id ∈ ids
  · simp [hid]
  · simp [hid, get?_eq_some]

theorem get?_insert : (t.insert a).get? id = if id = t.next then some a else t.get? id := by
  refine Option.ext (fun b ↦ ?_)
  rw [get?_eq_some, insert, List.mem_append, List.mem_singleton, Prod.mk.injEq]
  by_cases hid : id = t.next
  · have hnone : (id, b) ∉ t.rows := fun hmem ↦ (hid ▸ (t.ids_lt _ hmem)).ne rfl
    simp [hid, hid ▸ hnone, eq_comm]
  · simp [hid, get?_eq_some]

/-- A row after a batch of insertions is an old one or has a new id and an inserted value. -/
theorem get?_insertAll {as : List α} (h : (t.insertAll as).get? id = some a) :
    t.get? id = some a ∨ (t.next ≤ id ∧ a ∈ as) := by
  induction as generalizing t with
  | nil => exact Or.inl h
  | cons b as ih =>
    rcases ih h with hold | ⟨hnew, hmem⟩
    · rw [get?_insert] at hold
      by_cases hid : id = t.next
      · rw [if_pos hid, Option.some_inj] at hold
        exact Or.inr ⟨hid.ge, hold ▸ List.mem_cons_self⟩
      · rw [if_neg hid] at hold
        exact Or.inl hold
    · exact Or.inr ⟨(Nat.le_succ _).trans hnew, List.mem_cons_of_mem _ hmem⟩

theorem get?_insertAll_of_some {as : List α} (h : t.get? id = some a) :
    (t.insertAll as).get? id = some a := by
  induction as generalizing t with
  | nil => exact h
  | cons b as ih =>
    refine ih ?_
    rw [get?_insert, if_neg (lt_next h).ne, h]

/-- When as many rows as ids are counted, every id belongs to a counted row. -/
theorem exists_of_count {P : α → Bool}
    (h : (t.rows.filter (fun r ↦ P r.2 ∧ r.1 ∈ ids)).length = ids.length) (hid : id ∈ ids) :
    ∃ a, t.get? id = some a ∧ P a = true := by
  set counted := (t.rows.filter (fun r ↦ P r.2 ∧ r.1 ∈ ids)).map Prod.fst with hcounted
  have hnodup : counted.Nodup := t.key.sublist (List.filter_sublist.map _)
  have hsub : counted ⊆ ids := by
    intro id' hid'
    obtain ⟨r, hr, rfl⟩ := List.mem_map.mp hid'
    exact (of_decide_eq_true (List.mem_filter.mp hr).2).2
  have hperm : counted.Perm ids := by
    refine (List.subperm_of_subset hnodup hsub).perm_of_length_le ?_
    rw [hcounted, List.length_map, h]
  obtain ⟨r, hr, rfl⟩ := List.mem_map.mp (hperm.mem_iff.mpr hid)
  obtain ⟨hrow, hP⟩ := List.mem_filter.mp hr
  exact ⟨r.2, get?_eq_some.mpr hrow, (of_decide_eq_true hP).1⟩

/-- As many rows are counted as ids are given just when the ids are distinct and each counts. -/
theorem count_eq_iff (ids : List ℕ) {P : α → Bool} :
    (t.rows.filter (fun r ↦ P r.2 ∧ r.1 ∈ ids)).length = ids.length ↔
      ids.Nodup ∧ ∀ id ∈ ids, ∃ a, t.get? id = some a ∧ P a = true := by
  have hnodup : ((t.rows.filter (fun r ↦ P r.2 ∧ r.1 ∈ ids)).map Prod.fst).Nodup :=
    t.key.sublist (List.filter_sublist.map _)
  have hmem {id : ℕ} : id ∈ (t.rows.filter (fun r ↦ P r.2 ∧ r.1 ∈ ids)).map Prod.fst ↔
      id ∈ ids ∧ ∃ a, t.get? id = some a ∧ P a = true := by
    rw [List.mem_map]
    constructor
    · rintro ⟨r, hr, rfl⟩
      obtain ⟨hrow, hboth⟩ := List.mem_filter.mp hr
      obtain ⟨hP, hid⟩ := of_decide_eq_true hboth
      exact ⟨hid, r.2, get?_eq_some.mpr hrow, hP⟩
    · rintro ⟨hid, a, ha, hP⟩
      exact ⟨(id, a), List.mem_filter.mpr ⟨get?_eq_some.mp ha, decide_eq_true ⟨hP, hid⟩⟩, rfl⟩
  constructor
  · intro h
    have hsub : (t.rows.filter (fun r ↦ P r.2 ∧ r.1 ∈ ids)).map Prod.fst ⊆ ids :=
      fun id hid ↦ (hmem.mp hid).1
    have hperm := (List.subperm_of_subset hnodup hsub).perm_of_length_le
      (by rw [List.length_map, h])
    exact ⟨hperm.nodup_iff.mp hnodup, fun id hid ↦ exists_of_count h hid⟩
  · rintro ⟨hids, hall⟩
    rw [← List.length_map (f := Prod.fst)]
    exact ((List.perm_ext_iff_of_nodup hnodup hids).mpr (fun id ↦
      hmem.trans ⟨And.left, fun hid ↦ ⟨hid, hall id hid⟩⟩)).length_eq

end IdTable

end Foundation.Rows
