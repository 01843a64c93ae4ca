import Mathlib.Data.List.Basic
import Mathlib.Tactic

namespace Foundation.QuotedLists

/-- How far the quoted string is that a reader is in. -/
structure Quotes where
  quoted : Bool
  escaped : Bool
deriving DecidableEq

def Quotes.outside : Quotes := ⟨false, false⟩

def Quotes.next (q : Quotes) (c : Char) : Quotes :=
  if q.escaped then { q with escaped := false }
  else if q.quoted ∧ c = '\\' then { q with escaped := true }
  else if c = '"' then { q with quoted := !q.quoted }
  else q

def Quotes.after (q : Quotes) (s : List Char) : Quotes := s.foldl Quotes.next q

/-- Every quoted string of the text ends in it. -/
def Closed (s : List Char) : Prop := Quotes.outside.after s = .outside

/-- A closed text whose delimiters are all inside quoted strings. -/
structure Sealed (d : Char) (s : List Char) : Prop where
  closed : Closed s
  inside : ∀ x y, s = x ++ d :: y → ¬Closed x

/-- The pieces of a text between the delimiters outside quoted strings; the first characters of the
first piece have been read. -/
def cut (d : Char) (q : Quotes) (piece : List Char) : List Char → Option (List (List Char))
  | [] => if q = .outside then some [piece] else none
  | c :: s =>
    if q = .outside ∧ c = d then (cut d .outside [] s).map (piece :: ·)
    else cut d (q.next c) (piece ++ [c]) s

variable {d c : Char} {q : Quotes} {piece a b s : List Char} {pieces : List (List Char)}

theorem next_outside (hd : d ≠ '"') : Quotes.outside.next d = .outside := by
  rw [Quotes.outside, Quotes.next]
  dsimp only
  rw [if_neg Bool.false_ne_true, if_neg (fun h ↦ Bool.false_ne_true h.1), if_neg hd]

theorem after_cons (q : Quotes) (c : Char) (s : List Char) : q.after (c :: s) = (q.next c).after s :=
  rfl

theorem after_append (q : Quotes) (a b : List Char) : q.after (a ++ b) = (q.after a).after b :=
  List.foldl_append

/-- A delimiter at which no quoted string is open separates what is on its sides. -/
theorem cut_append (hd : d ≠ '"') (h : q.after a = .outside) :
    cut d q piece (a ++ d :: b) =
      (cut d q piece a).bind (fun xs ↦ (cut d .outside [] b).map (xs ++ ·)) := by
  induction a generalizing q piece with
  | nil =>
    change q = .outside at h
    have hends : q = .outside ∧ d = d := ⟨h, rfl⟩
    rw [List.nil_append, cut, cut, if_pos h, if_pos hends]
    rfl
  | cons c a ih =>
    rw [after_cons] at h
    rw [List.cons_append, cut, cut]
    split_ifs with hc
    · rw [hc.1, hc.2, next_outside hd] at h
      rw [ih h]
      cases cut d .outside [] a with
      | none => rfl
      | some xs =>
        cases cut d .outside [] b with
        | none => rfl
        | some ys => rfl
    · exact ih h

theorem cut_of_sealed (h : q.after s = .outside)
    (hinside : ∀ x y, s = x ++ d :: y → q.after x ≠ .outside) :
    cut d q piece s = some [piece ++ s] := by
  induction s generalizing q piece with
  | nil =>
    change q = .outside at h
    rw [cut, if_pos h, List.append_nil]
  | cons c s ih =>
    have hc : ¬(q = .outside ∧ c = d) := by
      rintro ⟨hq, rfl⟩
      exact hinside [] s rfl hq
    rw [cut, if_neg hc, ih h, List.append_assoc, List.singleton_append]
    intro x y heq
    exact hinside (c :: x) y (congrArg (List.cons c) heq)

theorem Sealed.cut (h : Sealed d s) : cut d .outside [] s = some [s] :=
  cut_of_sealed h.closed h.inside

theorem cut_intercalate (hd : d ≠ '"') (hne : pieces ≠ []) (h : ∀ p ∈ pieces, Sealed d p) :
    cut d .outside [] ([d].intercalate pieces) = some pieces := by
  induction pieces with
  | nil => exact absurd rfl hne
  | cons p pieces ih =>
    obtain ⟨hp, hrest⟩ := List.forall_mem_cons.mp h
    cases pieces with
    | nil =>
      rw [List.intercalate_singleton]
      exact hp.cut
    | cons p' pieces =>
      rw [List.intercalate_cons_cons, List.append_assoc, List.singleton_append,
        cut_append hd hp.closed, hp.cut, Option.bind_some, ih (List.cons_ne_nil _ _) hrest]
      rfl

theorem cut_eq_some (h : cut d q piece s = some pieces) :
    ∃ first rest, pieces = (piece ++ first) :: rest ∧ s = [d].intercalate (first :: rest) ∧
      q.after first = .outside ∧ (∀ x y, first = x ++ d :: y → q.after x ≠ .outside) ∧
      ∀ p ∈ rest, Sealed d p := by
  induction s generalizing q piece pieces with
  | nil =>
    rw [cut] at h
    split_ifs at h with hq
    refine ⟨[], [], ?_, rfl, hq, fun x y heq ↦ ?_, fun p hp ↦ absurd hp List.not_mem_nil⟩
    · rw [List.append_nil, Option.some.inj h]
    · exact absurd heq.symm (List.append_ne_nil_of_right_ne_nil x (List.cons_ne_nil d y))
  | cons c s ih =>
    rw [cut] at h
    split_ifs at h with hc
    · obtain ⟨pieces', hpieces', rfl⟩ := Option.map_eq_some_iff.mp h
      obtain ⟨first, rest, rfl, rfl, hclosed, hinside, hrest⟩ := ih hpieces'
      refine ⟨[], first :: rest, ?_, ?_, hc.1, fun x y heq ↦ ?_, ?_⟩
      · rw [List.append_nil, List.nil_append]
      · rw [hc.2, List.intercalate_cons_cons]
        rfl
      · exact absurd heq.symm (List.append_ne_nil_of_right_ne_nil x (List.cons_ne_nil d y))
      · exact List.forall_mem_cons.mpr ⟨⟨hclosed, hinside⟩, hrest⟩
    · obtain ⟨first, rest, rfl, rfl, hclosed, hinside, hrest⟩ := ih h
      refine ⟨c :: first, rest, ?_, ?_, hclosed, fun x y heq ↦ ?_, hrest⟩
      · rw [List.append_assoc, List.singleton_append]
      · cases rest with
        | nil => rw [List.intercalate_singleton, List.intercalate_singleton]
        | cons p rest => rw [List.intercalate_cons_cons, List.intercalate_cons_cons]; rfl
      · cases x with
        | nil =>
          obtain ⟨rfl, -⟩ := List.cons.inj heq
          exact fun hq ↦ hc ⟨hq, rfl⟩
        | cons e x =>
          obtain ⟨rfl, hfirst⟩ := List.cons.inj heq
          exact hinside x y hfirst

/-- The pieces of a text are closed, and the text is made of them. -/
theorem cut_eq_some_iff (hd : d ≠ '"') : cut d .outside [] s = some pieces ↔
    pieces ≠ [] ∧ s = [d].intercalate pieces ∧ ∀ p ∈ pieces, Sealed d p := by
  constructor
  · intro h
    obtain ⟨first, rest, rfl, rfl, hclosed, hinside, hrest⟩ := cut_eq_some h
    rw [List.nil_append]
    exact ⟨List.cons_ne_nil _ _, rfl, List.forall_mem_cons.mpr ⟨⟨hclosed, hinside⟩, hrest⟩⟩
  · rintro ⟨hne, rfl, hsealed⟩
    exact cut_intercalate hd hne hsealed

end Foundation.QuotedLists
