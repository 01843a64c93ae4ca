import Mathlib.Data.List.Basic
import Mathlib.Tactic

namespace Foundation.Octets

def utf8 (chars : List Char) : List UInt8 := chars.flatMap String.utf8EncodeChar

@[simp] theorem utf8_nil : utf8 [] = [] := rfl

@[simp] theorem utf8_cons (c : Char) (cs : List Char) :
    utf8 (c :: cs) = String.utf8EncodeChar c ++ utf8 cs := rfl

theorem utf8_append (cs ds : List Char) : utf8 (cs ++ ds) = utf8 cs ++ utf8 ds :=
  List.flatMap_append

def isContinuation (b : UInt8) : Bool := 128 ≤ b && b ≤ 191

/-- The second bytes that a first byte of a three- or four-byte sequence admits. -/
def admitsSecond (first second : UInt8) : Bool :=
  (first == 224 && 160 ≤ second && second ≤ 191) ||
  (225 ≤ first && first ≤ 236 && isContinuation second) ||
  (first == 237 && 128 ≤ second && second ≤ 159) ||
  (238 ≤ first && first ≤ 239 && isContinuation second) ||
  (first == 240 && 144 ≤ second && second ≤ 191) ||
  (241 ≤ first && first ≤ 243 && isContinuation second) ||
  (first == 244 && 128 ≤ second && second ≤ 143)

/-- How many bytes one replacement character stands for: the longest prefix of an ill-formed
sequence that could have begun a well-formed one, and at least one byte. -/
def illFormedLength : List UInt8 → ℕ
  | first :: second :: third :: _ =>
    if admitsSecond first second then
      if 240 ≤ first && isContinuation third then 3 else 2
    else 1
  | [first, second] => if admitsSecond first second then 2 else 1
  | _ => 1

/-- Lossy decoding; the counter is the rest of the sequence that was just read. -/
def decodeLossyFrom : ℕ → List UInt8 → List Char
  | _, [] => []
  | skip + 1, _ :: bytes => decodeLossyFrom skip bytes
  | 0, b :: bytes =>
    match (b :: bytes).toByteArray.utf8DecodeChar? 0 with
    | some c => c :: decodeLossyFrom (c.utf8Size - 1) bytes
    | none => '\uFFFD' :: decodeLossyFrom (illFormedLength (b :: bytes) - 1) bytes

def decodeLossy (bytes : List UInt8) : List Char := decodeLossyFrom 0 bytes

theorem decodeLossyFrom_append (skipped rest : List UInt8) :
    decodeLossyFrom skipped.length (skipped ++ rest) = decodeLossyFrom 0 rest := by
  induction skipped with
  | nil => rfl
  | cons b skipped ih => simpa only [List.length_cons, List.cons_append, decodeLossyFrom] using ih

theorem utf8DecodeChar?_encode_append (c : Char) (rest : List UInt8) :
    (String.utf8EncodeChar c ++ rest).toByteArray.utf8DecodeChar? 0 = some c := by
  rw [List.toByteArray_append]
  exact ByteArray.utf8DecodeChar?_utf8EncodeChar_append

theorem decodeLossy_encode_append (c : Char) (rest : List UInt8) :
    decodeLossy (String.utf8EncodeChar c ++ rest) = c :: decodeLossy rest := by
  have hlen := String.length_utf8EncodeChar c
  have hdecode := utf8DecodeChar?_encode_append c rest
  cases hc : String.utf8EncodeChar c with
  | nil => simp [hc, c.utf8Size_pos.ne] at hlen
  | cons b tail =>
    rw [hc, List.length_cons] at hlen
    rw [hc, List.cons_append] at hdecode
    have htail : c.utf8Size - 1 = tail.length := by omega
    rw [decodeLossy, List.cons_append, decodeLossyFrom]
    simp only [hdecode, htail, decodeLossyFrom_append]
    rfl

theorem decodeLossy_utf8 (chars : List Char) : decodeLossy (utf8 chars) = chars := by
  induction chars with
  | nil => rfl
  | cons c chars ih => rw [utf8_cons, decodeLossy_encode_append, ih]

def hexDigit (n : ℕ) : Char := Char.ofNat (if n < 10 then 48 + n else 55 + n)

def hexValue (b : UInt8) : Option ℕ :=
  if 48 ≤ b ∧ b ≤ 57 then some (b.toNat - 48)
  else if 65 ≤ b ∧ b ≤ 70 then some (b.toNat - 55)
  else if 97 ≤ b ∧ b ≤ 102 then some (b.toNat - 87)
  else none

def escape (keep : UInt8 → Bool) (b : UInt8) : List Char :=
  if keep b then [Char.ofNat b.toNat] else ['%', hexDigit (b.toNat / 16), hexDigit (b.toNat % 16)]

def percentEncode (keep : UInt8 → Bool) (bytes : List UInt8) : List Char :=
  bytes.flatMap (escape keep)

/-- A percent sign without two hexadecimal digits behind it stands for itself. -/
def percentDecode : List UInt8 → List UInt8
  | 37 :: high :: low :: rest =>
    match hexValue high, hexValue low with
    | some h, some l => UInt8.ofNat (16 * h + l) :: percentDecode rest
    | _, _ => 37 :: percentDecode (high :: low :: rest)
  | b :: rest => b :: percentDecode rest
  | [] => []

theorem utf8EncodeChar_ascii (n : ℕ) (h : n < 128) :
    String.utf8EncodeChar (Char.ofNat n) = [UInt8.ofNat n] := by
  revert n
  decide

theorem utf8EncodeChar_hexDigit (n : ℕ) (h : n < 16) :
    ∃ b, String.utf8EncodeChar (hexDigit n) = [b] ∧ hexValue b = some n := by
  have hdigit : ∀ n < 16, String.utf8EncodeChar (hexDigit n) = [UInt8.ofNat (hexDigit n).toNat] ∧
      hexValue (UInt8.ofNat (hexDigit n).toNat) = some n := by decide
  exact ⟨_, hdigit n h⟩

theorem percentDecode_cons_ne {b : UInt8} (h : b ≠ 37) (rest : List UInt8) :
    percentDecode (b :: rest) = b :: percentDecode rest := by
  rw [percentDecode]
  rintro _ _ _ rfl
  exact absurd rfl h

variable {keep : UInt8 → Bool}

theorem percentDecode_escape_append (hascii : ∀ b, keep b → b < 128) (hpercent : keep 37 = false)
    (b : UInt8) (rest : List UInt8) :
    percentDecode (utf8 (escape keep b) ++ rest) = b :: percentDecode rest := by
  by_cases hk : keep b
  · have hne : b ≠ 37 := by
      rintro rfl
      simp [hpercent] at hk
    have hb : String.utf8EncodeChar (Char.ofNat b.toNat) = [b] := by
      rw [utf8EncodeChar_ascii b.toNat (hascii b hk), UInt8.ofNat_toNat]
    simp only [escape, hk, if_true, utf8_cons, utf8_nil, hb, List.append_nil, List.cons_append,
      List.nil_append, percentDecode_cons_ne hne]
  · have hlt := b.toNat_lt
    obtain ⟨high, hhigh, hh⟩ := utf8EncodeChar_hexDigit (b.toNat / 16) (by omega)
    obtain ⟨low, hlow, hl⟩ := utf8EncodeChar_hexDigit (b.toNat % 16) (by omega)
    have hpct : String.utf8EncodeChar '%' = [37] := by decide
    simp only [escape, hk, utf8_cons, utf8_nil, hpct, hhigh, hlow, List.append_nil,
      List.cons_append, List.nil_append, Bool.false_eq_true, if_false, percentDecode, hh, hl]
    rw [Nat.div_add_mod, UInt8.ofNat_toNat]

/-- Decoding undoes encoding as long as the kept bytes are ASCII and the percent sign is not
among them. -/
theorem percentDecode_percentEncode (hascii : ∀ b, keep b → b < 128) (hpercent : keep 37 = false)
    (bytes : List UInt8) : percentDecode (utf8 (percentEncode keep bytes)) = bytes := by
  induction bytes with
  | nil => rfl
  | cons b bytes ih =>
    rw [percentEncode, List.flatMap_cons, utf8_append, percentDecode_escape_append hascii hpercent]
    exact congrArg (b :: ·) ih

section Triples

variable {keep : UInt8 → Bool} {bytes rest t : List UInt8} {b : UInt8}

end Triples
end Foundation.Octets
