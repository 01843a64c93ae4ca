import Jaunder.Common.Feed
import Mathlib.Data.List.Sort

namespace Jaunder.Common.Tag

open Jaunder.Common.Feed

def isTagStart (c : Char) : Bool := ('a' ≤ c ∧ c ≤ 'z') ∨ ('0' ≤ c ∧ c ≤ '9')

def isTagChar (c : Char) : Bool := isTagStart c ∨ c = '-'

def isTag : List Char → Bool
  | [] => false
  | c :: cs => isTagStart c && cs.all isTagChar

/-- `to_lowercase` where it can spell a tag: besides the ASCII letters only the Kelvin sign has an
ASCII lowercase. -/
def lowercase (c : Char) : Char :=
  if c = Char.ofNat 0x212A then 'k' else if 'A' ≤ c ∧ c ≤ 'Z' then Char.ofNat (c.toNat + 32) else c

/-- A case-preserving label of a tag. -/
structure TagLabel where
  value : String
  valid : isTag (value.toList.map lowercase) = true
deriving DecidableEq

def TagLabel.slug (label : TagLabel) : Tag := String.ofList (label.value.toList.map lowercase)

end Jaunder.Common.Tag
