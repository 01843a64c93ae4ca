import Mathlib.Data.List.Basic
import Mathlib.Tactic

namespace Jaunder.Common.Owned

/-- An owned Rust `String`: its allocation never exceeds `isize::MAX` bytes. -/
@[ext]
structure Text where
  value : String
  fits : value.toUTF8.data.toList.length < 2 ^ 63
deriving DecidableEq

def Text.bytes (t : Text) : List UInt8 := t.value.toUTF8.data.toList

theorem Text.bytes_length_lt (t : Text) : t.bytes.length < 2 ^ 63 := t.fits

theorem Text.bytes_inj {s t : Text} (h : s.bytes = t.bytes) : s = t := by
  have hdata : s.value.toUTF8.data = t.value.toUTF8.data := Array.toList_inj.mp h
  exact Text.ext (String.toByteArray_inj.mp (ByteArray.ext hdata))

/-- An owned Rust `Vec` of elements of positive size. -/
@[ext]
structure Vec (α : Type) where
  toList : List α
  fits : toList.length < 2 ^ 63

/-- `collect` into a `Vec`; a list that no allocation holds is cut off. -/
def Vec.collect {α : Type} (l : List α) : Vec α where
  toList := l.take (2 ^ 63 - 1)
  fits := (List.length_take_le _ _).trans_lt (by norm_num)

/-- A composed `String`; a text that no allocation holds aborts the process. -/
def Text.compose (value : String) : Text :=
  if h : value.toUTF8.data.toList.length < 2 ^ 63 then ⟨value, h⟩ else ⟨"", by decide⟩

end Jaunder.Common.Owned
