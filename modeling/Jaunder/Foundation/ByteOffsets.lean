import Mathlib.Data.List.DropRight
import Mathlib.Tactic

namespace Foundation.ByteOffsets

/-- The number of bytes of a text in UTF-8. -/
def byteLen : List Char → ℕ
  | [] => 0
  | c :: s => c.utf8Size + byteLen s

def charIndicesFrom : ℕ → List Char → List (ℕ × Char)
  | _, [] => []
  | i, c :: s => (i, c) :: charIndicesFrom (i + c.utf8Size) s

/-- `str::char_indices`. -/
def charIndices (s : List Char) : List (ℕ × Char) := charIndicesFrom 0 s

/-- The two parts of a text at a byte, which is neither inside a character nor after the end. -/
def splitAt : ℕ → List Char → Option (List Char × List Char)
  | n, [] => if n = 0 then some ([], []) else none
  | n, c :: s =>
    if n = 0 then some ([], c :: s)
    else if c.utf8Size ≤ n then
      (splitAt (n - c.utf8Size) s).map (fun parts ↦ (c :: parts.1, parts.2))
    else none

def sliceTo (n : ℕ) (s : List Char) : Option (List Char) := (splitAt n s).map Prod.fst

def sliceFrom (n : ℕ) (s : List Char) : Option (List Char) := (splitAt n s).map Prod.snd

variable {s a b : List Char} {c : Char} {n : ℕ}

@[simp] theorem byteLen_nil : byteLen [] = 0 := rfl

@[simp] theorem byteLen_cons (c : Char) (s : List Char) :
    byteLen (c :: s) = c.utf8Size + byteLen s := rfl

@[simp] theorem byteLen_append (a b : List Char) : byteLen (a ++ b) = byteLen a + byteLen b := by
  induction a with
  | nil => exact (Nat.zero_add _).symm
  | cons c a ih => rw [List.cons_append, byteLen_cons, byteLen_cons, ih, Nat.add_assoc]

theorem byteLen_eq_zero (h : byteLen a = 0) : a = [] := by
  cases a with
  | nil => rfl
  | cons c a =>
    have hpos := c.utf8Size_pos
    rw [byteLen_cons] at h
    omega

/-- A text is cut where some first characters of it end. -/
theorem splitAt_append (a b : List Char) : splitAt (byteLen a) (a ++ b) = some (a, b) := by
  induction a with
  | nil => cases b <;> rfl
  | cons c a ih =>
    have hpos := c.utf8Size_pos
    rw [List.cons_append, splitAt, if_neg (by rw [byteLen_cons]; omega),
      if_pos (by rw [byteLen_cons]; omega), byteLen_cons, Nat.add_sub_cancel_left, ih]
    rfl

theorem splitAt_eq_some (h : splitAt n s = some (a, b)) : s = a ++ b ∧ byteLen a = n := by
  induction s generalizing n a with
  | nil =>
    rw [splitAt] at h
    split_ifs at h with hn
    cases h
    exact ⟨rfl, hn.symm⟩
  | cons c s ih =>
    rw [splitAt] at h
    split_ifs at h with hn hsize
    · cases h
      exact ⟨rfl, hn.symm⟩
    · obtain ⟨⟨rest, more⟩, hrest, heq⟩ := Option.map_eq_some_iff.mp h
      cases heq
      obtain ⟨rfl, hlen⟩ := ih hrest
      refine ⟨rfl, ?_⟩
      rw [byteLen_cons, hlen]
      omega

theorem sliceTo_append (a b : List Char) : sliceTo (byteLen a) (a ++ b) = some a := by
  rw [sliceTo, splitAt_append]
  rfl

theorem sliceFrom_append (a b : List Char) : sliceFrom (byteLen a) (a ++ b) = some b := by
  rw [sliceFrom, splitAt_append]
  rfl

theorem charIndicesFrom_append (i : ℕ) (a b : List Char) :
    charIndicesFrom i (a ++ b) = charIndicesFrom i a ++ charIndicesFrom (i + byteLen a) b := by
  induction a generalizing i with
  | nil => rfl
  | cons c a ih =>
    rw [List.cons_append, charIndicesFrom, ih, charIndicesFrom, byteLen_cons, Nat.add_assoc]
    rfl

section Find

variable {β : Type} {kind : Char → Bool} {f : ℕ → Char → β}

/-- The value at a character of a kind. -/
def at? (kind : Char → Bool) (f : ℕ → Char → β) (entry : ℕ × Char) : Option β :=
  if kind entry.2 then some (f entry.1 entry.2) else none

theorem findSome?_none {i : ℕ} (h : ∀ d ∈ b, kind d = false) :
    (charIndicesFrom i b).findSome? (at? kind f) = none := by
  induction b generalizing i with
  | nil => rfl
  | cons d b ih =>
    obtain ⟨hd, hb⟩ := List.forall_mem_cons.mp h
    rw [charIndicesFrom, List.findSome?_cons, at?, hd, if_neg Bool.false_ne_true]
    exact ih hb

theorem findSome?_reverse_none {i : ℕ} (h : ∀ d ∈ b, kind d = false) :
    (charIndicesFrom i b).reverse.findSome? (at? kind f) = none := by
  rw [List.findSome?_eq_none_iff]
  intro entry hentry
  exact List.findSome?_eq_none_iff.mp (findSome?_none h) entry (List.mem_reverse.mp hentry)

/-- The first character of a kind is found at the byte where what is before it ends. -/
theorem findSome?_first (ha : ∀ d ∈ a, kind d = false) (hc : kind c = true) (b : List Char) :
    (charIndices (a ++ c :: b)).findSome? (at? kind f) = some (f (byteLen a) c) := by
  rw [charIndices, charIndicesFrom_append, List.findSome?_append, findSome?_none ha,
    charIndicesFrom, List.findSome?_cons, at?, if_pos hc, Nat.zero_add]
  rfl

/-- So is the last one. -/
theorem findSome?_last (a : List Char) (hc : kind c = true) (hb : ∀ d ∈ b, kind d = false) :
    (charIndices (a ++ c :: b)).reverse.findSome? (at? kind f) = some (f (byteLen a) c) := by
  rw [charIndices, charIndicesFrom_append, List.reverse_append, List.findSome?_append,
    charIndicesFrom, List.reverse_cons, List.findSome?_append, findSome?_reverse_none hb,
    List.findSome?_cons, at?, if_pos hc, Nat.zero_add]
  rfl

/-- A text with a character of a kind has a last one. -/
theorem exists_last (h : ∃ c ∈ s, kind c = true) :
    ∃ a c b, s = a ++ c :: b ∧ kind c = true ∧ ∀ d ∈ b, kind d = false := by
  induction s with
  | nil =>
    obtain ⟨c, hc, -⟩ := h
    exact absurd hc List.not_mem_nil
  | cons d s ih =>
    by_cases hs : ∃ c ∈ s, kind c = true
    · obtain ⟨a, c, b, rfl, hc, hb⟩ := ih hs
      exact ⟨d :: a, c, b, rfl, hc, hb⟩
    · obtain ⟨c, hc, hkind⟩ := h
      rcases List.mem_cons.mp hc with rfl | hc
      · refine ⟨[], c, s, rfl, hkind, fun e he ↦ ?_⟩
        exact eq_false_of_ne_true fun hkind' ↦ hs ⟨e, he, hkind'⟩
      · exact absurd ⟨c, hc, hkind⟩ hs

theorem exists_first (h : ∃ c ∈ s, kind c = true) :
    ∃ a c b, s = a ++ c :: b ∧ (∀ d ∈ a, kind d = false) ∧ kind c = true := by
  obtain ⟨c, hc, hkind⟩ := h
  have hne : s.dropWhile (fun d ↦ !kind d) ≠ [] := by
    intro hnil
    have hall := List.dropWhile_eq_nil_iff.mp hnil c hc
    rw [hkind] at hall
    cases hall
  obtain ⟨d, b, hdrop⟩ := List.exists_cons_of_ne_nil hne
  refine ⟨s.takeWhile (fun d ↦ !kind d), d, b, ?_, fun e he ↦ ?_, ?_⟩
  · rw [← hdrop, List.takeWhile_append_dropWhile]
  · have hkept := @List.mem_takeWhile_imp _ (fun d ↦ !kind d) s e he
    exact (Bool.not_eq_true' _).mp hkept
  · have hhead := List.head?_dropWhile_not (fun d ↦ !kind d) s
    rw [hdrop] at hhead
    exact (Bool.not_eq_false' _).mp hhead

end Find

end Foundation.ByteOffsets
