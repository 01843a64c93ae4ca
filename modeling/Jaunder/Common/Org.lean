import Jaunder.Common.Render
import Jaunder.Common.Time
import Jaunder.Common.Visibility

namespace Jaunder.Common.Org

open Jaunder.Common.Render Jaunder.Common.Time Jaunder.Common.Visibility

/-- A present empty collection is an instruction, an absent one is not. -/
inductive Presence (α : Type)
  | absent
  | present (value : α)
deriving DecidableEq

inductive PublicationState
  | draft
  | scheduled (at_ : UtcInstant)
  | published (at_ : UtcInstant)
deriving DecidableEq

def PublicationState.publishedAt : PublicationState → Option UtcInstant
  | .draft => none
  | .scheduled at_ => some at_
  | .published at_ => some at_

inductive OrgMetadataError
  | invalid (message : String)
  | metadataOnly
deriving DecidableEq

/-- `JAUNDER_*` properties, compared with the stored post and never applied. -/
structure OrgBookkeeping where
  slug : Option String
  format : Option PostFormat
  postId : Option ℤ
  synced : Option String
  syncedAt : Option UtcInstant
  dateUtc : Option UtcInstant
deriving DecidableEq

def decimalValue (digits : List Char) : Option ℕ :=
  if digits ≠ [] ∧ digits.all (fun c ↦ '0' ≤ c ∧ c ≤ '9') then
    some (digits.foldl (fun n c ↦ 10 * n + (c.toNat - 48)) 0)
  else none

/-- `i64::from_str`. -/
def parseI64 (text : List Char) : Option ℤ :=
  let parsed : Option ℤ := match text with
    | '-' :: digits => (decimalValue digits).map (fun n ↦ -(n : ℤ))
    | '+' :: digits => (decimalValue digits).map Int.ofNat
    | digits => (decimalValue digits).map Int.ofNat
  parsed.filter (fun n ↦ -2 ^ 63 ≤ n ∧ n < 2 ^ 63)

def parseAudience (value : String) : Except OrgMetadataError AudienceTarget :=
  if value = "public" then .ok .public_
  else if value = "subscribers" then .ok .subscribers
  else if value = "private" then .ok .private_
  else match value.toList with
    | 'n' :: 'a' :: 'm' :: 'e' :: 'd' :: ':' :: id =>
      ((parseI64 id).map AudienceTarget.named).elim (.error (.invalid "invalid JAUNDER_AUDIENCE")) .ok
    | _ => .error (.invalid "invalid JAUNDER_AUDIENCE")

def validateAudiences : Presence (List AudienceTarget) → Except OrgMetadataError Unit
  | .absent => .ok ()
  | .present audiences =>
    if .private_ ∈ audiences ∧ audiences.length ≠ 1 then
      .error (.invalid "private audience cannot be combined")
    else .ok ()

def choose {α : Type} : Presence α → Presence α → Presence α
  | .present value, _ => .present value
  | .absent, header => header

/-- The audiences of an Org body whose leading block has these `JAUNDER_AUDIENCE` values. -/
def effectiveAudiences (structured : Presence (List AudienceTarget)) (properties : List String) :
    Except OrgMetadataError (Presence (List AudienceTarget)) := do
  let header ← properties.mapM parseAudience
  let audiences := choose structured (if header = [] then .absent else .present header)
  validateAudiences audiences
  return audiences

end Jaunder.Common.Org
