import Mathlib.Data.List.Basic
import Mathlib.Tactic

namespace Foundation.Sql

inductive Value
  | null
  | int (n : ℤ)
  | text (s : String)
deriving DecidableEq

/-- Comparison with NULL is unknown, which is `none`. -/
def Value.eq3 : Value → Value → Option Bool
  | .null, _ => none
  | _, .null => none
  | a, b => some (a = b)

def and3 : Option Bool → Option Bool → Option Bool
  | some true, b => b
  | some false, _ => some false
  | none, some false => some false
  | none, _ => none

def or3 : Option Bool → Option Bool → Option Bool
  | some false, b => b
  | some true, _ => some true
  | none, some true => some true
  | none, _ => none

theorem eq3_eq_true {a b : Value} : a.eq3 b = some true ↔ a = b ∧ a ≠ .null := by
  cases a <;> cases b <;> simp [Value.eq3]

theorem and3_eq_true {a b : Option Bool} : and3 a b = some true ↔ a = some true ∧ b = some true := by
  rcases a with _ | _ | _ <;> rcases b with _ | _ | _ <;> simp [and3]

theorem or3_eq_true {a b : Option Bool} : or3 a b = some true ↔ a = some true ∨ b = some true := by
  rcases a with _ | _ | _ <;> rcases b with _ | _ | _ <;> simp [or3]

abbrev Row := String → Value

abbrev Tables := String → List Row

/-- The rows that the labels of the enclosing queries stand for. -/
abbrev Env := String → Row

def Env.bind (env : Env) (label : String) (row : Row) : Env :=
  fun a ↦ if a = label then row else env a

@[simp] theorem Env.bind_same (env : Env) (label : String) (row : Row) :
    env.bind label row label = row := if_pos rfl

theorem Env.bind_other (env : Env) {label other : String} (row : Row) (h : other ≠ label) :
    env.bind label row other = env other := if_neg h

inductive Expr
  | column (label name : String)
  | placeholder (n : ℕ)
  | literal (s : String)
  /-- `(SELECT result FROM table WHERE key = 'text')` -/
  | lookup (result table key text : String)

/-- Predicates of a WHERE clause. The tables of an EXISTS are joined on its first predicate and
filtered by its second one. -/
inductive Pred
  | eq (a b : Expr)
  | and (p q : Pred)
  | or (p q : Pred)
  | existsFrom (tables : List (String × String)) (on filter : Pred)

def Expr.eval (tables : Tables) (args : List Value) (env : Env) : Expr → Value
  | .column label name => env label name
  | .placeholder n => args.getD (n - 1) .null
  | .literal s => .text s
  | .lookup result table key text =>
    (((tables table).find? (fun row ↦ row key = .text text)).map (fun row ↦ row result)).getD .null

/-- Does some choice of one row from each joined table satisfy the condition? -/
def anyJoined (tables : Tables) : List (String × String) → Env → (Env → Bool) → Bool
  | [], env, accept => accept env
  | (table, label) :: rest, env, accept =>
    (tables table).any (fun row ↦ anyJoined tables rest (env.bind label row) accept)

def Pred.eval (tables : Tables) (args : List Value) : Pred → Env → Option Bool
  | .eq a b, env => (a.eval tables args env).eq3 (b.eval tables args env)
  | .and p q, env => and3 (p.eval tables args env) (q.eval tables args env)
  | .or p q, env => or3 (p.eval tables args env) (q.eval tables args env)
  | .existsFrom from_ on filter, env =>
    some (anyJoined tables from_ env (fun env ↦
      on.eval tables args env = some true && filter.eval tables args env = some true))

/-- A WHERE clause keeps a row only when its predicate is true; unknown filters like false. -/
def Pred.Holds (tables : Tables) (args : List Value) (p : Pred) (env : Env) : Prop :=
  p.eval tables args env = some true

instance (tables : Tables) (args : List Value) (p : Pred) (env : Env) :
    Decidable (p.Holds tables args env) := inferInstanceAs (Decidable (_ = _))

section Holds

variable {tables : Tables} {args : List Value} {env : Env}

theorem eval_column {label name : String} :
    (Expr.column label name).eval tables args env = env label name := rfl

theorem eval_literal {s : String} : (Expr.literal s).eval tables args env = .text s := rfl

theorem eval_placeholder {n : ℕ} :
    (Expr.placeholder n).eval tables args env = args.getD (n - 1) .null := rfl

theorem holds_eq {a b : Expr} : (Pred.eq a b).Holds tables args env ↔
    a.eval tables args env = b.eval tables args env ∧ a.eval tables args env ≠ .null := eq3_eq_true

theorem holds_and {p q : Pred} : (Pred.and p q).Holds tables args env ↔
    p.Holds tables args env ∧ q.Holds tables args env := and3_eq_true

theorem holds_or {p q : Pred} : (Pred.or p q).Holds tables args env ↔
    p.Holds tables args env ∨ q.Holds tables args env := or3_eq_true

theorem anyJoined_nil {accept : Env → Bool} :
    anyJoined tables [] env accept = true ↔ accept env = true := Iff.rfl

theorem anyJoined_cons {table label : String} {rest : List (String × String)}
    {accept : Env → Bool} : anyJoined tables ((table, label) :: rest) env accept = true ↔
      ∃ row ∈ tables table, anyJoined tables rest (env.bind label row) accept = true := by
  rw [anyJoined, List.any_eq_true]

theorem holds_existsFrom {from_ : List (String × String)} {on filter : Pred} :
    (Pred.existsFrom from_ on filter).Holds tables args env ↔
      anyJoined tables from_ env (fun env ↦
        decide (on.Holds tables args env) && decide (filter.Holds tables args env)) = true :=
  Option.some_inj

end Holds

def Expr.placeholders : Expr → List ℕ
  | .placeholder n => [n]
  | _ => []

/-- The numbers of the placeholders in the order in which the text of the predicate shows them. -/
def Pred.placeholders : Pred → List ℕ
  | .eq a b => a.placeholders ++ b.placeholders
  | .and p q => p.placeholders ++ q.placeholders
  | .or p q => p.placeholders ++ q.placeholders
  | .existsFrom _ on filter => on.placeholders ++ filter.placeholders

section Join

variable {α β : Type} {l : List α} {P : α → Bool}

/-- Joining on a condition that at most one row meets neither loses nor repeats the other side. -/
theorem filter_map_const_of_unique (hnodup : l.Nodup)
    (hunique : ∀ a ∈ l, ∀ b ∈ l, P a → P b → a = b) (c : β) :
    (l.filter P).map (fun _ ↦ c) = if l.any P then [c] else [] := by
  cases hrows : l.filter P with
  | nil =>
    have hany : l.any P = false := by
      rw [List.any_eq_false]
      exact List.filter_eq_nil_iff.mp hrows
    rw [hany, List.map_nil]
    rfl
  | cons a rows =>
    have hmem : ∀ b ∈ a :: rows, b ∈ l ∧ P b := fun b hb ↦ List.mem_filter.mp (hrows ▸ hb)
    have ha := hmem a List.mem_cons_self
    have hrest : rows = [] := by
      rw [List.eq_nil_iff_forall_not_mem]
      intro b hb
      have hb' := hmem b (List.mem_cons_of_mem a hb)
      have hcons := hrows ▸ hnodup.filter P
      obtain rfl := hunique a ha.1 b hb'.1 ha.2 hb'.2
      exact (List.nodup_cons.mp hcons).1 hb
    have hany : l.any P = true := List.any_eq_true.mpr ⟨a, ha⟩
    rw [hrest, hany, List.map_singleton]
    rfl

theorem filter_eq_singleton (hnodup : l.Nodup)
    (hunique : ∀ a ∈ l, ∀ b ∈ l, P a → P b → a = b) {a : α} (ha : a ∈ l) (hP : P a) :
    l.filter P = [a] := by
  have hmap : l.filter P = (l.filter P).map (fun _ ↦ a) := by
    conv_lhs => rw [← List.map_id (l.filter P)]
    refine List.map_congr_left (fun b hb ↦ ?_)
    obtain ⟨hb, hPb⟩ := List.mem_filter.mp hb
    exact hunique b hb a ha hPb hP
  rw [hmap, filter_map_const_of_unique hnodup hunique, List.any_eq_true.mpr ⟨a, ha, hP⟩]
  rfl

theorem flatMap_ite_singleton (c : β) :
    l.flatMap (fun a ↦ if P a then [c] else []) = (l.filter P).map (fun _ ↦ c) := by
  induction l with
  | nil => rfl
  | cons a l ih =>
    rw [List.flatMap_cons, ih, List.filter_cons]
    split_ifs with ha
    · rfl
    · rfl

theorem flatMap_ite_self : l.flatMap (fun a ↦ if P a then [a] else []) = l.filter P := by
  induction l with
  | nil => rfl
  | cons a l ih =>
    rw [List.flatMap_cons, ih, List.filter_cons]
    split_ifs with ha
    · rfl
    · rfl

end Join

end Foundation.Sql
