namespace Jaunder.Common.Hash

def isLowerHex (c : Char) : Bool := ('0' ≤ c ∧ c ≤ '9') ∨ ('a' ≤ c ∧ c ≤ 'f')

/-- A SHA-256 digest, spelled as 64 lowercase hexadecimal digits. -/
structure ContentHash where
  value : String
  canonical : value.toList.length = 64 ∧ value.toList.all isLowerHex = true
deriving DecidableEq

def ContentHash.parse (value : String) : Option ContentHash :=
  if h : value.toList.length = 64 ∧ value.toList.all isLowerHex = true then some ⟨value, h⟩ else none

theorem ContentHash.parse_value (hash : ContentHash) : ContentHash.parse hash.value = some hash :=
  dif_pos hash.canonical

theorem isLowerHex_digit : ∀ d : Fin 10, isLowerHex (Char.ofNat (48 + d)) = true := by decide

instance digits_neZero : @NeZero Nat Zero.ofOfNat0 10 := ⟨by decide⟩

def ContentHash.replicate (d : Fin 10) : ContentHash :=
  ⟨String.ofList (List.replicate 64 (Char.ofNat (48 + d))), by simp [isLowerHex_digit d]⟩

end Jaunder.Common.Hash
