import Mathlib.Data.Nat.Notation
import Mathlib.Data.List.Basic

namespace Jaunder.Common.Etag

/-- A byte of an opaque tag between its quotes. -/
def isOpaqueByte (c : UInt8) : Bool := c = 0x21 ∨ (0x23 ≤ c ∧ c ≤ 0x7e) ∨ 0x80 ≤ c

def isValidEtag (b : List UInt8) : Bool :=
  2 ≤ b.length ∧ b[0]? = some 0x22 ∧ b[b.length - 1]? = some 0x22 ∧
    ((b.drop 1).take (b.length - 2)).all isOpaqueByte

/-- A strong entity tag, as its text. -/
structure ETag where
  value : String
  valid : isValidEtag value.toUTF8.data.toList = true

def ETag.bytes (etag : ETag) : List UInt8 := etag.value.toUTF8.data.toList

/-- The bytes between the quotes. -/
def inner (b : List UInt8) : List UInt8 := (b.drop 1).take (b.length - 2)

theorem inner_of_isValidEtag {b : List UInt8} (h : isValidEtag b = true) :
    b = 0x22 :: inner b ++ [0x22] ∧ (inner b).all isOpaqueByte = true := by
  simp only [isValidEtag, decide_eq_true_eq] at h
  obtain ⟨hlength, hfirst, hlast, hinner⟩ := h
  refine ⟨?_, hinner⟩
  cases b with
  | nil => exact absurd hlength (by simp)
  | cons first rest =>
    obtain rfl : first = 0x22 := by simpa using hfirst
    have hne : rest ≠ [] := by
      rintro rfl
      exact absurd hlength (by simp)
    have hget : rest.getLast hne = 0x22 := by
      rw [List.getLast_eq_getElem]
      obtain ⟨n, hn⟩ : ∃ n, rest.length = n + 1 :=
        Nat.exists_eq_add_one.mpr (List.length_pos_of_ne_nil hne)
      rw [List.length_cons, Nat.add_sub_cancel, hn, List.getElem?_cons_succ] at hlast
      have := (List.getElem?_eq_some_iff.mp hlast).2
      simpa only [hn, Nat.add_sub_cancel] using this
    have hinner : inner (0x22 :: rest) = rest.dropLast := by
      rw [inner, List.drop_succ_cons, List.drop_zero, List.length_cons, List.dropLast_eq_take]
      rfl
    rw [hinner, List.cons_append, ← hget, List.dropLast_append_getLast]

end Jaunder.Common.Etag
