import Mathlib.Data.List.Infix
import Mathlib.Logic.Relation
import Mathlib.Tactic.Common

namespace Foundation.TreeWalks

open Relation

/-- An ordered forest by the parent and the previous sibling of a node. -/
structure Forest (ν : Type) where
  parent : ν → Option ν
  previous : ν → Option ν
  sibling : ∀ {a b : ν}, previous b = some a → parent b = parent a

inductive Move
  | stay
  | child
  | descendant
  | nextSibling
  | laterSibling
deriving DecidableEq

section Forests

variable {ν : Type} (t : Forest ν)

def ChildOf (a b : ν) : Prop := t.parent b = some a

def After (a b : ν) : Prop := t.previous b = some a

/-- A node or one of those under it. -/
def Below : ν → ν → Prop := ReflTransGen (ChildOf t)

def StrictlyBelow : ν → ν → Prop := TransGen (ChildOf t)

def Moved : Move → ν → ν → Prop
  | .stay => fun a b ↦ b = a
  | .child => ChildOf t
  | .descendant => StrictlyBelow t
  | .nextSibling => After t
  | .laterSibling => TransGen (After t)

/-- The moves in their order, from one node to another. -/
def Walk : List Move → ν → ν → Prop
  | [], a, b => b = a
  | m :: ms, a, b => ∃ c, Moved t m a c ∧ Walk ms c b

variable {t} {m : Move} {ms ms' : List Move} {a b c : ν}

theorem walk_append : Walk t (ms ++ ms') a b ↔ ∃ c, Walk t ms a c ∧ Walk t ms' c b := by
  induction ms generalizing a with
  | nil =>
    refine ⟨fun h ↦ ⟨a, rfl, h⟩, ?_⟩
    rintro ⟨_, rfl, h⟩
    exact h
  | cons m ms ih =>
    constructor
    · rintro ⟨d, hm, h⟩
      obtain ⟨c, hc, hb⟩ := ih.mp h
      exact ⟨c, ⟨d, hm, hc⟩, hb⟩
    · rintro ⟨c, ⟨d, hm, hc⟩, hb⟩
      exact ⟨d, hm, ih.mpr ⟨c, hc, hb⟩⟩

theorem walk_singleton : Walk t [m] a b ↔ Moved t m a b := by
  constructor
  · rintro ⟨_, hm, rfl⟩
    exact hm
  · exact fun hm ↦ ⟨b, hm, rfl⟩

/-- Siblings stand under the same nodes. -/
theorem StrictlyBelow.after (h : StrictlyBelow t a b) (hafter : After t b c) : StrictlyBelow t a c := by
  obtain ⟨d, hd, hchild⟩ := TransGen.tail'_iff.mp h
  exact TransGen.tail' hd ((t.sibling hafter).trans hchild)

theorem StrictlyBelow.moved (h : StrictlyBelow t a b) (hm : Moved t m b c) : StrictlyBelow t a c := by
  cases m with
  | stay =>
    obtain rfl := hm
    exact h
  | child => exact TransGen.tail h hm
  | descendant => exact TransGen.trans h hm
  | nextSibling => exact h.after hm
  | laterSibling =>
    induction hm with
    | single hafter => exact h.after hafter
    | tail _ hafter ih => exact ih.after hafter

theorem StrictlyBelow.walk (h : StrictlyBelow t a b) (hwalk : Walk t ms b c) : StrictlyBelow t a c := by
  induction ms generalizing b with
  | nil =>
    obtain rfl := hwalk
    exact h
  | cons m ms ih =>
    obtain ⟨d, hm, hwalk⟩ := hwalk
    exact ih (h.moved hm) hwalk

/-- The first move away from the start goes to a sibling. -/
def sidesteps : List Move → Bool
  | [] => false
  | .stay :: ms => sidesteps ms
  | .child :: _ => false
  | .descendant :: _ => false
  | .nextSibling :: _ => true
  | .laterSibling :: _ => true

theorem below_of_walk (hms : sidesteps ms = false) (hwalk : Walk t ms a b) : Below t a b := by
  induction ms generalizing a with
  | nil =>
    obtain rfl := hwalk
    exact ReflTransGen.refl
  | cons m ms ih =>
    obtain ⟨c, hm, hwalk⟩ := hwalk
    cases m with
    | stay =>
      obtain rfl := hm
      exact ih hms hwalk
    | child =>
      have hbelow : StrictlyBelow t a c := TransGen.single hm
      exact (hbelow.walk hwalk).to_reflTransGen
    | descendant => exact (StrictlyBelow.walk hm hwalk).to_reflTransGen
    | nextSibling => cases hms
    | laterSibling => cases hms

end Forests

section Offspring

/-- The forest in which every node has infinitely many children; a node is the list of its positions,
the last first. -/
def offspring : Forest (List ℕ) where
  parent
    | [] => none
    | _ :: p => some p
  previous
    | (n + 1) :: p => some (n :: p)
    | _ => none
  sibling {a b} h := by
    rcases b with _ | ⟨_ | n, p⟩
    · cases h
    · cases h
    · cases h
      rfl

variable {n : ℕ} {p x y : List ℕ} {m : Move} {ms : List Move}

theorem childOf_offspring : ChildOf offspring x (n :: x) := rfl

theorem after_offspring : After offspring (n :: p) ((n + 1) :: p) := rfl

theorem suffix_of_below (h : Below offspring x y) : x <:+ y := by
  induction h with
  | refl => exact List.suffix_rfl
  | @tail y z _ hchild ih =>
    cases z with
    | nil => cases hchild
    | cons n z =>
      cases hchild
      exact ih.trans (List.suffix_cons n y)

/-- Every walk can go on from a node that has siblings. -/
theorem exists_walk (ms : List Move) (n : ℕ) (p : List ℕ) : ∃ x, Walk offspring ms (n :: p) x := by
  induction ms generalizing n p with
  | nil => exact ⟨n :: p, rfl⟩
  | cons m ms ih =>
    cases m with
    | stay =>
      obtain ⟨x, hx⟩ := ih n p
      exact ⟨x, n :: p, rfl, hx⟩
    | child =>
      obtain ⟨x, hx⟩ := ih 0 (n :: p)
      exact ⟨x, 0 :: n :: p, childOf_offspring, hx⟩
    | descendant =>
      obtain ⟨x, hx⟩ := ih 0 (n :: p)
      exact ⟨x, 0 :: n :: p, TransGen.single childOf_offspring, hx⟩
    | nextSibling =>
      obtain ⟨x, hx⟩ := ih (n + 1) p
      exact ⟨x, (n + 1) :: p, after_offspring, hx⟩
    | laterSibling =>
      obtain ⟨x, hx⟩ := ih (n + 1) p
      exact ⟨x, (n + 1) :: p, TransGen.single after_offspring, hx⟩

/-- Under a later sibling. -/
def Beyond (n : ℕ) (p x : List ℕ) : Prop := ∃ k, n < k ∧ Below offspring (k :: p) x

theorem Beyond.after (h : Beyond n p x) (hafter : After offspring x y) : Beyond n p y := by
  obtain ⟨k, hk, hbelow⟩ := h
  rcases reflTransGen_iff_eq_or_transGen.mp hbelow with rfl | hstrict
  · rcases y with _ | ⟨_ | j, q⟩
    · cases hafter
    · cases hafter
    · cases hafter
      exact ⟨k + 1, Nat.lt_succ_of_lt hk, ReflTransGen.refl⟩
  · exact ⟨k, hk, (StrictlyBelow.after hstrict hafter).to_reflTransGen⟩

theorem Beyond.below (h : Beyond n p x) (hbelow : Below offspring x y) : Beyond n p y := by
  obtain ⟨k, hk, h⟩ := h
  exact ⟨k, hk, h.trans hbelow⟩

theorem Beyond.moved (h : Beyond n p x) (hm : Moved offspring m x y) : Beyond n p y := by
  cases m with
  | stay =>
    obtain rfl := hm
    exact h
  | child => exact h.below (ReflTransGen.single hm)
  | descendant => exact h.below (TransGen.to_reflTransGen hm)
  | nextSibling => exact h.after hm
  | laterSibling =>
    induction hm with
    | single hafter => exact h.after hafter
    | tail _ hafter ih => exact ih.after hafter

theorem Beyond.walk (h : Beyond n p x) (hwalk : Walk offspring ms x y) : Beyond n p y := by
  induction ms generalizing x with
  | nil =>
    obtain rfl := hwalk
    exact h
  | cons m ms ih =>
    obtain ⟨z, hm, hwalk⟩ := hwalk
    exact ih (h.moved hm) hwalk

theorem beyond_of_after (h : After offspring (n :: p) y) : Beyond n p y := by
  rcases y with _ | ⟨_ | j, q⟩
  · cases h
  · cases h
  · cases h
    exact ⟨n + 1, Nat.lt_succ_self n, ReflTransGen.refl⟩

theorem beyond_of_walk (hms : sidesteps ms = true) (hwalk : Walk offspring ms (n :: p) x) :
    Beyond n p x := by
  induction ms with
  | nil => cases hms
  | cons m ms ih =>
    obtain ⟨y, hm, hwalk⟩ := hwalk
    cases m with
    | stay =>
      obtain rfl := hm
      exact ih hms hwalk
    | child => cases hms
    | descendant => cases hms
    | nextSibling => exact (beyond_of_after hm).walk hwalk
    | laterSibling =>
      refine Beyond.walk ?_ hwalk
      clear hwalk
      induction hm with
      | single hafter => exact beyond_of_after hafter
      | tail _ hafter ih => exact ih.after hafter

theorem Beyond.not_below (h : Beyond n p x) : ¬Below offspring (n :: p) x := by
  intro hbelow
  obtain ⟨k, hk, hbeyond⟩ := h
  have hsuffix := List.suffix_of_suffix_length_le (suffix_of_below hbeyond) (suffix_of_below hbelow)
    (le_of_eq rfl)
  have heq := (List.cons.inj (hsuffix.eq_of_length rfl)).1
  exact absurd heq (Nat.ne_of_gt hk)

end Offspring

/-- The walks stay under their start exactly when the first move away from it is not to a sibling. -/
theorem forall_below_iff {ms : List Move} :
    (∀ (ν : Type) (t : Forest ν) (a b : ν), Walk t ms a b → Below t a b) ↔ sidesteps ms = false := by
  constructor
  · intro h
    by_contra hms
    rw [Bool.not_eq_false] at hms
    obtain ⟨x, hx⟩ := exists_walk ms 0 []
    exact (beyond_of_walk hms hx).not_below (h _ offspring _ _ hx)
  · exact fun hms ν t a b ↦ below_of_walk hms

end Foundation.TreeWalks
