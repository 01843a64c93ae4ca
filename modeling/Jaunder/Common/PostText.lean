import Jaunder.Common.Tag
import Mathlib.Data.List.DropRight

namespace Jaunder.Common.PostText

open Jaunder.Common.Tag

/-- `char::is_whitespace`. -/
def isWhitespace (c : Char) : Bool :=
  (9 ≤ c.toNat ∧ c.toNat ≤ 13) ∨ c.toNat = 0x20 ∨ c.toNat = 0x85 ∨ c.toNat = 0xA0 ∨
    c.toNat = 0x1680 ∨ (0x2000 ≤ c.toNat ∧ c.toNat ≤ 0x200A) ∨ c.toNat = 0x2028 ∨
    c.toNat = 0x2029 ∨ c.toNat = 0x202F ∨ c.toNat = 0x205F ∨ c.toNat = 0x3000

def trimEnd (s : List Char) : List Char := s.rdropWhile isWhitespace

def trim (s : List Char) : List Char := trimEnd (s.dropWhile isWhitespace)

def nonEmpty (s : List Char) : Option (List Char) :=
  let trimmed := trim s
  if trimmed = [] then none else some trimmed

def boundedNonEmpty (s : List Char) (maxChars : ℕ) : Option (List Char) := do
  let trimmed ← nonEmpty s
  if trimmed.length ≤ maxChars then some trimmed else none

def isLineSeparator (c : Char) : Bool :=
  c ∈ ['\n', '\r', Char.ofNat 0x0B, Char.ofNat 0x0C, Char.ofNat 0x85, Char.ofNat 0x2028,
    Char.ofNat 0x2029]

/-- `PostTitle::from_str`. -/
def postTitle (s : List Char) : Option (List Char) :=
  if s.any isLineSeparator then none else nonEmpty s

def maxPostSummaryChars : ℕ := 500

/-- `PostSummary::from_str`. -/
def postSummary (s : List Char) : Option (List Char) := boundedNonEmpty s maxPostSummaryChars

def maxDisplayNameChars : ℕ := 255

/-- `DisplayName::from_str`. -/
def displayName (s : List Char) : Option (List Char) := boundedNonEmpty s maxDisplayNameChars

/-- The lines of `str::lines`, where the carriage return before a line feed may stay: it is blank. -/
def lines : List Char → List (List Char)
  | [] => []
  | c :: s =>
    if c = '\n' then [] :: lines s
    else
      match lines s with
      | [] => [[c]]
      | line :: rest => (c :: line) :: rest

/-- `PostBody::from_str`: the source is kept as it is. -/
def postBody (s : List Char) : Option (List Char) :=
  if (lines s).all (fun line ↦ trim line = []) then none else some s

/-- `TagLabel::from_str`. -/
def tagLabel (s : List Char) : Option (List Char) :=
  let trimmed := trim s
  if isTag (trimmed.map lowercase) then some trimmed else none

def isUsernameByte (c : Char) : Bool := c.isAlphanum ∨ c = '_' ∨ c = '-'

/-- `Username::from_str`. -/
def username (s : List Char) : Option (List Char) :=
  if s = [] ∨ ¬s.all isUsernameByte then none else some (s.map Char.toLower)

end Jaunder.Common.PostText
