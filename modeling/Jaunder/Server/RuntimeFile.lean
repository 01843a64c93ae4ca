import Jaunder.Foundation.IpAddress
import Jaunder.Server.Document

namespace Jaunder.Server.RuntimeFile

open Foundation.IpAddress Foundation.Json
open Jaunder.Server.Document

section Codec

structure RuntimeProcessIdentity where
  pid : UInt32
  startTime : UInt64
deriving DecidableEq

structure RuntimeRecord where
  process : RuntimeProcessIdentity
  port : UInt16

/-- An address to bind, under the text of its IP. -/
structure SocketAddr where
  ip : String
  port : UInt16
  ip_parses : (IpAddr.parse ip.toList).isSome = true

def fields (addr : SocketAddr) (process : RuntimeProcessIdentity) : Value :=
  .obj [("ip", .str addr.ip), ("pid", .num process.pid.toNat), ("port", .num addr.port.toNat),
    ("start_time", .num process.startTime.toNat)]

/-- What `write_atomic` writes. -/
def body (addr : SocketAddr) (process : RuntimeProcessIdentity) : List Char :=
  Document.toString (fields addr process)

inductive DecodeError
  | json
  | invalid (what : String)
deriving DecidableEq

/-- `value[key]`; the last of equal keys counts. -/
def index (key : String) : Value → Value
  | .obj fields => ((fields.reverse.find? (fun f ↦ f.1 = key)).map Prod.snd).getD .null
  | _ => .null

def asU64 : Value → Option UInt64
  | .num n => if 0 ≤ n ∧ n < 2 ^ 64 then some (UInt64.ofNat n.toNat) else none
  | _ => none

def asStr : Value → Option String
  | .str s => some s
  | _ => none

/-- `u32::try_from`. -/
def toU32 (n : UInt64) : Option UInt32 :=
  if n.toNat < 2 ^ 32 then some (UInt32.ofNat n.toNat) else none

/-- `u16::try_from`. -/
def toU16 (n : UInt64) : Option UInt16 :=
  if n.toNat < 2 ^ 16 then some (UInt16.ofNat n.toNat) else none

/-- `ok_or_else(|| anyhow!("invalid ..."))`. -/
def orInvalid {α : Type} (what : String) (value : Option α) : Except DecodeError α :=
  value.elim (.error (.invalid what)) .ok

def decodeProcessIdentity (value : Value) : Except DecodeError RuntimeProcessIdentity := do
  let pid ← orInvalid "pid" (((asU64 (index "pid" value)).bind toU32).filter (fun pid ↦ pid ≠ 0))
  let startTime ← orInvalid "start-time" (asU64 (index "start_time" value))
  return ⟨pid, startTime⟩

def fromSlice (contents : List Char) : Except DecodeError Value :=
  (parse contents).elim (.error .json) .ok

def decodeRuntimeProcessIdentity (contents : List Char) : Except DecodeError RuntimeProcessIdentity :=
  fromSlice contents >>= decodeProcessIdentity

def decodeRuntimeRecord (contents : List Char) : Except DecodeError RuntimeRecord := do
  let value ← fromSlice contents
  let process ← decodeProcessIdentity value
  let port ← orInvalid "port" ((asU64 (index "port" value)).bind toU16)
  let _ ← orInvalid "ip" ((asStr (index "ip" value)).bind (fun ip ↦ IpAddr.parse ip.toList))
  return ⟨process, port⟩

theorem asU64_num (n : UInt64) : asU64 (.num n.toNat) = some n := by
  have hlt := n.toNat_lt
  have hfit : (0 : ℤ) ≤ (n.toNat : ℤ) ∧ (n.toNat : ℤ) < 2 ^ 64 := by omega
  rw [asU64, if_pos hfit, Int.toNat_natCast, UInt64.ofNat_toNat]

theorem toU32_toUInt64 (pid : UInt32) : (asU64 (.num pid.toNat)).bind toU32 = some pid := by
  have hlt := pid.toNat_lt
  have hnum := asU64_num pid.toUInt64
  rw [UInt32.toNat_toUInt64] at hnum
  rw [hnum, Option.bind_some, toU32, UInt32.toNat_toUInt64, if_pos hlt, UInt32.ofNat_toNat]

theorem toU16_toUInt64 (port : UInt16) : (asU64 (.num port.toNat)).bind toU16 = some port := by
  have hlt := port.toNat_lt
  have hnum := asU64_num port.toUInt64
  rw [UInt16.toNat_toUInt64] at hnum
  rw [hnum, Option.bind_some, toU16, UInt16.toNat_toUInt64, if_pos hlt, UInt16.ofNat_toNat]

variable {addr : SocketAddr} {process : RuntimeProcessIdentity}

theorem index_fields (addr : SocketAddr) (process : RuntimeProcessIdentity) :
    index "ip" (fields addr process) = .str addr.ip ∧
      index "pid" (fields addr process) = .num process.pid.toNat ∧
      index "port" (fields addr process) = .num addr.port.toNat ∧
      index "start_time" (fields addr process) = .num process.startTime.toNat := by
  simp [index, fields]

theorem parse_toString (value : Value) : parse (Document.toString value) = some value :=
  parse_print parseString_escape value

theorem fromSlice_body : fromSlice (body addr process) = .ok (fields addr process) := by
  rw [fromSlice, body, parse_toString, Option.elim_some]

section Fields

variable {value : Value} {pid : UInt32} {startTime : UInt64} {port : UInt16} {ip : String}
  {contents : List Char}

theorem decodeProcessIdentity_eq_ok (hpid : (asU64 (index "pid" value)).bind toU32 = some pid)
    (hne : pid ≠ 0) (hstart : asU64 (index "start_time" value) = some startTime) :
    decodeProcessIdentity value = .ok ⟨pid, startTime⟩ := by
  have hkeep : (some pid).filter (fun pid ↦ pid ≠ 0) = some pid := by
    rw [Option.filter_some, if_pos (decide_eq_true hne)]
  rw [decodeProcessIdentity, hpid, hkeep, hstart]
  rfl

theorem decodeRuntimeProcessIdentity_eq (hvalue : fromSlice contents = .ok value) :
    decodeRuntimeProcessIdentity contents = decodeProcessIdentity value := by
  rw [decodeRuntimeProcessIdentity, hvalue]
  rfl

theorem decodeRuntimeRecord_eq_ok (hvalue : fromSlice contents = .ok value)
    (hidentity : decodeProcessIdentity value = .ok process)
    (hport : (asU64 (index "port" value)).bind toU16 = some port)
    (hip : asStr (index "ip" value) = some ip) (hparse : (IpAddr.parse ip.toList).isSome = true) :
    decodeRuntimeRecord contents = .ok ⟨process, port⟩ := by
  obtain ⟨parsed, hparse⟩ := Option.isSome_iff_exists.mp hparse
  rw [decodeRuntimeRecord, hvalue]
  show (decodeProcessIdentity value >>= _) = _
  rw [hidentity]
  show (orInvalid "port" ((asU64 (index "port" value)).bind toU16) >>= fun port ↦
    orInvalid "ip" ((asStr (index "ip" value)).bind (fun ip ↦ IpAddr.parse ip.toList)) >>= _) = _
  rw [hport, hip, Option.bind_some, hparse]
  rfl

end Fields

theorem decodeProcessIdentity_fields (addr : SocketAddr) (hpid : process.pid ≠ 0) :
    decodeProcessIdentity (fields addr process) = .ok process := by
  obtain ⟨-, hindex, -, hstart⟩ := index_fields addr process
  refine decodeProcessIdentity_eq_ok ?_ hpid ?_
  · rw [hindex, toU32_toUInt64]
  · rw [hstart, asU64_num]

theorem decodeRuntimeProcessIdentity_body (addr : SocketAddr) (hpid : process.pid ≠ 0) :
    decodeRuntimeProcessIdentity (body addr process) = .ok process :=
  (decodeRuntimeProcessIdentity_eq fromSlice_body).trans (decodeProcessIdentity_fields addr hpid)

/-- A record that was written is read back. -/
theorem decodeRuntimeRecord_body (addr : SocketAddr) (hpid : process.pid ≠ 0) :
    decodeRuntimeRecord (body addr process) = .ok ⟨process, addr.port⟩ := by
  obtain ⟨hip, -, hport, -⟩ := index_fields addr process
  refine decodeRuntimeRecord_eq_ok fromSlice_body
    (decodeProcessIdentity_fields addr hpid) ?_ ?_ addr.ip_parses
  · rw [hport, toU16_toUInt64]
  · rw [hip, asStr]

/-- A record names the process whose identity the laxer reader finds. -/
theorem decodeRuntimeProcessIdentity_of_record {contents : List Char} {record : RuntimeRecord}
    (h : decodeRuntimeRecord contents = .ok record) :
    decodeRuntimeProcessIdentity contents = .ok record.process := by
  unfold decodeRuntimeRecord at h
  cases hvalue : fromSlice contents with
  | error e =>
    rw [hvalue] at h
    cases h
  | ok value =>
    rw [hvalue] at h
    rw [decodeRuntimeProcessIdentity_eq hvalue]
    change (decodeProcessIdentity value >>= _) = _ at h
    cases hidentity : decodeProcessIdentity value with
    | error e =>
      rw [hidentity] at h
      cases h
    | ok process =>
      rw [hidentity] at h
      change (orInvalid "port" ((asU64 (index "port" value)).bind toU16) >>= _) = _ at h
      cases hport : (asU64 (index "port" value)).bind toU16 with
      | none =>
        rw [hport] at h
        cases h
      | some port =>
        rw [hport] at h
        change (orInvalid "ip" ((asStr (index "ip" value)).bind _) >>= _) = _ at h
        cases hip : (asStr (index "ip" value)).bind (fun ip ↦ IpAddr.parse ip.toList) with
        | none =>
          rw [hip] at h
          cases h
        | some ip =>
          rw [hip] at h
          cases h
          rfl

end Codec

section Startup

inductive StartupCheck
  | refuse (pid : UInt32)
  | stale
  | proceed
deriving DecidableEq

/-- What a read of the runtime file gives. -/
inductive FileRead
  | notFound
  | unreadable
  | text (contents : List Char)

variable (startTimeOf : UInt32 → Option UInt64)

/-- Whether the process that wrote the record still runs. -/
def holderIsLive (process : RuntimeProcessIdentity) : Bool :=
  match startTimeOf process.pid with
  | some actual => actual = process.startTime
  | none => false

def checkStartupMutex : FileRead → StartupCheck
  | .notFound => .proceed
  | .unreadable => .stale
  | .text contents =>
    match decodeRuntimeProcessIdentity contents with
    | .error _ => .stale
    | .ok process => if holderIsLive startTimeOf process then .refuse process.pid else .stale

variable {startTimeOf}

end Startup

end Jaunder.Server.RuntimeFile
