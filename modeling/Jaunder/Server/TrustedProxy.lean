import Jaunder.Common.PostNaming
import Jaunder.Foundation.ByteOffsets
import Jaunder.Foundation.IpAddress
import Jaunder.Foundation.Outcome
import Jaunder.Foundation.Substrings

namespace Jaunder.Server.TrustedProxy

open Foundation.ByteOffsets Foundation.IpAddress Foundation.Outcome Foundation.Substrings
open Jaunder.Common.PostText
open Jaunder.Common.PostNaming (eqIgnoreAsciiCase)

inductive HeaderFamily
  | forwarded
  | xForwardedFor
deriving DecidableEq

/-- `outOfRange` stands for a slice outside its text, at which the program panics. -/
inductive ChainError
  | malformed
  | overLimit
  | outOfRange
deriving DecidableEq

def maxChainHops : ℕ := 32

def canonicalIp : IpAddr → IpAddr
  | .v6 ip =>
    match ip.toIpv4Mapped with
    | some mapped => .v4 mapped
    | none => .v6 ip
  | .v4 ip => .v4 ip

section Nodes

def isAsciiDigit (c : Char) : Bool := '0' ≤ c ∧ c ≤ '9'

def isObfuscatedChar (c : Char) : Bool :=
  isAsciiDigit c ∨ ('a' ≤ c ∧ c ≤ 'z') ∨ ('A' ≤ c ∧ c ≤ 'Z') ∨ c = '.' ∨ c = '_' ∨ c = '-'

def isValidNodePort (port : List Char) : Bool :=
  (port ≠ [] ∧ port.all isAsciiDigit) ∨
    ∃ obfuscated ∈ stripPrefix ['_'] port, obfuscated ≠ [] ∧ obfuscated.all isObfuscatedChar

/-- `parse().map(canonical_ip).map_err(…)`. -/
def parseAddress (value : List Char) : Except ChainError IpAddr :=
  orError ((IpAddr.parse value).map canonicalIp) .malformed

def parseNode (value : List Char) : Except ChainError IpAddr :=
  let value := trim value
  if value = [] ∨ eqIgnoreAsciiCase value "unknown".toList ∨ value.head? = some '_' ∨ '%' ∈ value then
    .error .malformed
  else
    match IpAddr.parse value with
    | some ip => .ok (canonicalIp ip)
    | none =>
      match stripPrefix ['['] value with
      | some value =>
        match splitOnce [']'] value with
        | none => .error .malformed
        | some (ip, port) =>
          match stripPrefix [':'] port with
          | some port => if isValidNodePort port then parseAddress ip else .error .malformed
          | none => if port = [] then parseAddress ip else .error .malformed
      | none =>
        match rsplitOnce ':' value with
        | none => .error .malformed
        | some (host, port) =>
          if (Ipv4Addr.parse host).isSome ∧ isValidNodePort port then parseAddress host
          else .error .malformed

end Nodes

section Quoting

/-- `&value[start..stop]`. -/
def slice (start stop : ℕ) (value : List Char) : Except ChainError (List Char) :=
  orError ((sliceTo stop value).bind (sliceFrom start)) .outOfRange

structure SplitState where
  values : List (List Char)
  start : ℕ
  quoted : Bool
  escaped : Bool

def splitQuotedStep (value : List Char) (delimiter : Char) (s : SplitState) :
    ℕ × Char → Except ChainError SplitState
  | (offset, character) =>
    if s.escaped then .ok { s with escaped := false }
    else if s.quoted ∧ character = '\\' then .ok { s with escaped := true }
    else if character = '"' then .ok { s with quoted := !s.quoted }
    else if character = delimiter ∧ s.quoted = false then do
      let entry := trim (← slice s.start offset value)
      require (entry ≠ []) .malformed
      return { s with values := s.values ++ [entry], start := offset + character.utf8Size }
    else .ok s

def splitQuoted (value : List Char) (delimiter : Char) : Except ChainError (List (List Char)) := do
  let s ← (charIndices value).foldlM (splitQuotedStep value delimiter) ⟨[], 0, false, false⟩
  require (¬(s.quoted = true ∨ s.escaped = true)) .malformed
  let entry := trim (← slice s.start (byteLen value) value)
  require (entry ≠ []) .malformed
  return s.values ++ [entry]

def unquote (value : List Char) : Except ChainError (List Char) :=
  if value.head? ≠ some '"' ∧ value.getLast? ≠ some '"' then .ok value
  else if byteLen value < 2 ∨ value.head? ≠ some '"' ∨ value.getLast? ≠ some '"' then
    .error .malformed
  else do
    let value ← slice 1 (byteLen value - 1) value
    require ('\\' ∉ value) .malformed
    return value

end Quoting

section Headers

def parseXForwardedFor (value : List Char) : Except ChainError (List IpAddr) :=
  (value.splitOn ',').mapM (fun node ↦ parseNode (trim node))

/-- The loop over the parameters of an element; `node` is the value of `for` so far. -/
def forNode : Option (List Char) → List (List Char) → Except ChainError (Option (List Char))
  | node, [] => .ok node
  | node, parameter :: parameters => do
    let (name, value) ← orError (splitOnce ['='] parameter) .malformed
    if eqIgnoreAsciiCase (trim name) "for".toList then
      let unquoted ← unquote (trim value)
      require (node = none) .malformed
      forNode (some unquoted) parameters
    else forNode node parameters

def parseForwardedElement (element : List Char) : Except ChainError IpAddr := do
  let parameters ← splitQuoted element ';'
  let node ← forNode none parameters
  let node ← orError node .malformed
  parseNode node

def parseForwarded (value : List Char) : Except ChainError (List IpAddr) := do
  let elements ← splitQuoted value ','
  elements.mapM parseForwardedElement

/-- `HeaderValue::to_str`. -/
def toStr (value : List UInt8) : Option (List Char) :=
  if value.all (fun b ↦ (32 ≤ b ∧ b < 127) ∨ b = 9) then
    some (value.map (fun b ↦ Char.ofNat b.toNat))
  else none

def parseFamily : HeaderFamily → List Char → Except ChainError (List IpAddr)
  | .forwarded => parseForwarded
  | .xForwardedFor => parseXForwardedFor

/-- The lines of each family in their order. -/
abbrev Headers : Type := HeaderFamily → List (List UInt8)

def chainLoop (family : HeaderFamily) :
    List IpAddr → List (List UInt8) → Except ChainError (List IpAddr)
  | chain, [] => .ok chain
  | chain, value :: values => do
    let value ← orError (toStr value) .malformed
    let entries ← parseFamily family value
    require ((chain ++ entries).length ≤ maxChainHops) .overLimit
    chainLoop family (chain ++ entries) values

def canonicalChain (headers : Headers) (family : HeaderFamily) :
    Except ChainError (Option (List IpAddr)) :=
  if headers family = [] then .ok none else (chainLoop family [] (headers family)).map some

end Headers

section Resolution

structure SocketAddr where
  ip : IpAddr
  port : Fin 65536

/-- A trusted set with the walk of `axum_client_addr` over it, from a peer along the hops of a
header, which gives an address when the header is its source. -/
structure TrustedProxyConfig where
  isTrustedProxy : IpAddr → Bool
  resolveClientIp : IpAddr → List IpAddr → Option IpAddr

inductive ResolutionOutcome
  | socket
  | forwarded
  | malformed
  | conflict
  | overLimit
  | transportUnavailable
deriving DecidableEq

structure RequestAddress where
  transportPeer : Option SocketAddr
  effectiveClientIp : Option IpAddr
  outcome : ResolutionOutcome

/-- The answer when the two families do not contradict each other. -/
def walkHops (config : TrustedProxyConfig) (transportPeer : SocketAddr) (peerIp : IpAddr)
    (hops : List IpAddr) : RequestAddress :=
  match config.resolveClientIp peerIp hops with
  | some clientIp => ⟨some transportPeer, some clientIp, .forwarded⟩
  | none => ⟨some transportPeer, some peerIp, .socket⟩

/-- Nothing is answered when the program panics. -/
def resolve (config : TrustedProxyConfig) (headers : Headers) :
    Option SocketAddr → Option RequestAddress
  | none => some ⟨none, none, .transportUnavailable⟩
  | some transportPeer =>
    let peerIp := canonicalIp transportPeer.ip
    if config.isTrustedProxy peerIp = false then some ⟨some transportPeer, some peerIp, .socket⟩
    else
      match canonicalChain headers .forwarded, canonicalChain headers .xForwardedFor with
      | .error .outOfRange, _ => none
      | _, .error .outOfRange => none
      | .error .overLimit, _ => some ⟨some transportPeer, some peerIp, .overLimit⟩
      | _, .error .overLimit => some ⟨some transportPeer, some peerIp, .overLimit⟩
      | .error .malformed, _ => some ⟨some transportPeer, some peerIp, .malformed⟩
      | _, .error .malformed => some ⟨some transportPeer, some peerIp, .malformed⟩
      | .ok (some left), .ok (some right) =>
        if left ≠ right then some ⟨some transportPeer, some peerIp, .conflict⟩
        else some (walkHops config transportPeer peerIp left)
      | .ok none, .ok (some hops) => some (walkHops config transportPeer peerIp hops)
      | .ok (some hops), .ok none => some (walkHops config transportPeer peerIp hops)
      | .ok none, .ok none => some ⟨some transportPeer, some peerIp, .socket⟩

end Resolution

end Jaunder.Server.TrustedProxy
