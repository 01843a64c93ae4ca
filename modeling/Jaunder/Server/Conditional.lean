import Jaunder.Common.Time

namespace Jaunder.Server.Conditional

open Jaunder.Common.Time

def maxIgnoredEmptyElements : ℕ := 16

structure EntityTagCondition where
  sawWildcard : Bool
  sawEntityTag : Bool
  matched : Bool
  ignoredEmptyElements : ℕ
deriving DecidableEq

def EntityTagCondition.default : EntityTagCondition := ⟨false, false, false, 0⟩

def EntityTagCondition.emptyElement (c : EntityTagCondition) : Option EntityTagCondition :=
  if c.sawWildcard then none
  else if c.ignoredEmptyElements + 1 ≤ maxIgnoredEmptyElements then
    some { c with ignoredEmptyElements := c.ignoredEmptyElements + 1 }
  else none

def EntityTagCondition.wildcard (c : EntityTagCondition) : Option EntityTagCondition :=
  if c.sawWildcard || c.sawEntityTag || c.ignoredEmptyElements ≠ 0 then none
  else some { c with sawWildcard := true }

def EntityTagCondition.entityTag (opaqueTag currentEtag : List UInt8) (c : EntityTagCondition) :
    Option EntityTagCondition :=
  if c.sawWildcard then none
  else some { c with sawEntityTag := true, matched := c.matched || opaqueTag == currentEtag }

def EntityTagCondition.matches (c : EntityTagCondition) : Bool := c.sawWildcard || c.matched

def isOws (byte : UInt8) : Bool := byte = 0x20 ∨ byte = 0x09

def skipOws (value : List UInt8) (cursor : ℕ) : ℕ :=
  cursor + ((value.drop cursor).takeWhile isOws).length

def isEtagc (byte : UInt8) : Bool := byte = 0x21 ∨ (0x23 ≤ byte ∧ byte ≤ 0x7e) ∨ 0x80 ≤ byte

/-- The number of bytes up to and with the closing quote. -/
def scanTag : List UInt8 → Option ℕ
  | [] => none
  | byte :: rest =>
    if byte = 0x22 then some 1
    else if isEtagc byte then (scanTag rest).map (· + 1)
    else none

/-- `parse_entity_tag`: the quoted tag and the cursor behind it. -/
def parseEntityTag (value : List UInt8) (cursor : ℕ) : Option (List UInt8 × ℕ) :=
  let start := if (value.drop cursor).take 2 = [0x57, 0x2f] then cursor + 2 else cursor
  if value[start]? = some 0x22 then
    (scanTag (value.drop (start + 1))).map (fun n ↦
      ((value.drop start).take (n + 1), start + 1 + n))
  else none

/-- What one field value comes to; `panicked` is an index out of range, or no fuel. -/
inductive FieldValue
  | ok (condition : EntityTagCondition)
  | err
  | panicked
deriving DecidableEq

def FieldValue.ofOption : Option EntityTagCondition → FieldValue
  | some condition => .ok condition
  | none => .err

/-- The loop of `parse_field_value`. -/
def parseFieldValueFrom (value currentEtag : List UInt8) : ℕ → ℕ → EntityTagCondition → FieldValue
  | 0, _, _ => .panicked
  | fuel + 1, cursor, condition =>
    let cursor := skipOws value cursor
    if cursor = value.length then .ofOption condition.emptyElement
    else
      match value[cursor]? with
      | none => .panicked
      | some byte =>
        if byte = 0x2c then
          match condition.emptyElement with
          | none => .err
          | some condition => parseFieldValueFrom value currentEtag fuel (cursor + 1) condition
        else if byte = 0x2a then
          let cursor := skipOws value (cursor + 1)
          if cursor ≠ value.length then .err else .ofOption condition.wildcard
        else
          match parseEntityTag value cursor with
          | none => .err
          | some (opaqueTag, cursor) =>
            match condition.entityTag opaqueTag currentEtag with
            | none => .err
            | some condition =>
              let cursor := skipOws value cursor
              if cursor = value.length then .ok condition
              else
                match value[cursor]? with
                | none => .panicked
                | some byte =>
                  if byte ≠ 0x2c then .err
                  else parseFieldValueFrom value currentEtag fuel (cursor + 1) condition

/-- Each turn of the loop reads a byte at least. -/
def parseFieldValue (value currentEtag : List UInt8) (condition : EntityTagCondition) : FieldValue :=
  parseFieldValueFrom value currentEtag (value.length + 1) 0 condition

/-- The field values of the two conditional headers, in their order in the request. -/
structure RequestHeaders where
  ifNoneMatch : List (List UInt8)
  ifModifiedSince : List (List UInt8)

def matchFieldValues (currentEtag : List UInt8) :
    EntityTagCondition → List (List UInt8) → Option Bool
  | condition, [] => some condition.matches
  | condition, value :: rest =>
    match parseFieldValue value currentEtag condition with
    | .ok condition => matchFieldValues currentEtag condition rest
    | .err => some false
    | .panicked => none

def ifNoneMatchMatches (headers : RequestHeaders) (currentEtag : List UInt8) : Option Bool :=
  matchFieldValues currentEtag .default headers.ifNoneMatch

/-- The HTTP dates: formatting has no result for an instant that they do not reach. -/
structure HttpDate where
  fmt : UtcInstant → Option String
  parse : String → Option UtcInstant

def headerText (bytes : List UInt8) : Option String := String.fromUTF8? ⟨bytes.toArray⟩

def ifModifiedSince (dates : HttpDate) (headers : RequestHeaders) : Option UtcInstant :=
  match headers.ifModifiedSince with
  | [value] => (headerText value).bind dates.parse
  | _ => none

def isNotModified (dates : HttpDate) (headers : RequestHeaders) (currentEtag : List UInt8)
    (lastModified : UtcInstant) : Option Bool :=
  if headers.ifNoneMatch ≠ [] then ifNoneMatchMatches headers currentEtag
  else some ((ifModifiedSince dates headers).any (fun date ↦ lastModified ≤ date))

end Jaunder.Server.Conditional
