import Mathlib.Data.List.TakeWhile
import Mathlib.Tactic

namespace Foundation.IpAddress

structure Ipv4Addr where
  octets : Fin 4 → Fin 256
deriving DecidableEq

structure Ipv6Addr where
  segments : Fin 8 → Fin 65536
deriving DecidableEq

inductive IpAddr
  | v4 (address : Ipv4Addr)
  | v6 (address : Ipv6Addr)
deriving DecidableEq

/-- The IPv4 address that is embedded in a mapped IPv6 address. -/
def Ipv6Addr.toIpv4Mapped (a : Ipv6Addr) : Option Ipv4Addr :=
  if (∀ i : Fin 8, i < 5 → a.segments i = 0) ∧ a.segments 5 = 65535 then
    some ⟨![⟨a.segments 6 / 256, by omega⟩, ⟨a.segments 6 % 256, by omega⟩,
      ⟨a.segments 7 / 256, by omega⟩, ⟨a.segments 7 % 256, by omega⟩]⟩
  else none

section Parser

/-- A reader takes some first characters of a text. -/
abbrev Reader (α : Type) : Type := List Char → Option (α × List Char)

def digitValue (c : Char) : ℕ :=
  if '0' ≤ c ∧ c ≤ '9' then c.toNat - 48
  else if 'a' ≤ c ∧ c ≤ 'f' then c.toNat - 87
  else if 'A' ≤ c ∧ c ≤ 'F' then c.toNat - 55
  else 16

/-- `char::to_digit` in a radix up to sixteen. -/
def toDigit (radix : ℕ) (c : Char) : Option ℕ :=
  if digitValue c < radix then some (digitValue c) else none

def isDigit (radix : ℕ) (c : Char) : Bool := (toDigit radix c).isSome

def readGivenChar (given : Char) : Reader Unit
  | [] => none
  | c :: s => if c = given then some ((), s) else none

def numberOf (radix maxDigits bound : ℕ) (allowZeroPrefix : Bool) (digits : List Char) :
    Option (Fin bound) :=
  let value := digits.foldl (fun n c ↦ radix * n + (toDigit radix c).getD 0) 0
  if h : value < bound ∧ digits.length ≤ maxDigits ∧ digits ≠ [] ∧
      (allowZeroPrefix = true ∨ digits.head? ≠ some '0' ∨ digits.length = 1) then
    some ⟨value, h.1⟩
  else none

/-- All the digits that follow, of which there may be so many only. -/
def readNumber (radix maxDigits bound : ℕ) (allowZeroPrefix : Bool) : Reader (Fin bound) := fun s ↦
  (numberOf radix maxDigits bound allowZeroPrefix (s.takeWhile (isDigit radix))).map
    (fun n ↦ (n, s.dropWhile (isDigit radix)))

/-- All but the first of some values have a separator in front. -/
def readSeparator {α : Type} (separator : Char) (first : Bool) (inner : Reader α) : Reader α := fun s ↦
  if first then inner s
  else do
    let (_, s) ← readGivenChar separator s
    inner s

def readOctet (first : Bool) : Reader (Fin 256) :=
  readSeparator '.' first (readNumber 10 3 256 false)

def readIpv4Addr : Reader Ipv4Addr := fun s ↦ do
  let (a, s) ← readOctet true s
  let (b, s) ← readOctet false s
  let (c, s) ← readOctet false s
  let (d, s) ← readOctet false s
  return (⟨![a, b, c, d]⟩, s)

/-- The two groups of an embedded IPv4 address. -/
def Ipv4Addr.groups (a : Ipv4Addr) : List (Fin 65536) :=
  [⟨256 * a.octets 0 + a.octets 1, by omega⟩, ⟨256 * a.octets 2 + a.octets 3, by omega⟩]

def readIpv4Tail (first : Bool) : Reader Ipv4Addr := readSeparator ':' first readIpv4Addr

def readGroup (first : Bool) : Reader (Fin 65536) :=
  readSeparator ':' first (readNumber 16 4 65536 true)

/-- The groups that follow, up to a limit, and whether an IPv4 address ends them. -/
def readGroups : ℕ → Bool → List Char → List (Fin 65536) × Bool × List Char
  | 0, _, s => ([], false, s)
  | limit + 1, first, s =>
    match if 0 < limit then readIpv4Tail first s else none with
    | some (address, s) => (address.groups, true, s)
    | none =>
      match readGroup first s with
      | some (group, s) =>
        let (groups, ipv4, s) := readGroups limit false s
        (group :: groups, ipv4, s)
      | none => ([], false, s)

def Ipv6Addr.ofGroups (groups : List (Fin 65536)) : Ipv6Addr := ⟨fun i ↦ groups.getD i 0⟩

def readIpv6Addr : Reader Ipv6Addr := fun s ↦
  let (head, ipv4, s) := readGroups 8 true s
  if head.length = 8 then some (.ofGroups head, s)
  else if ipv4 then none
  else do
    let (_, s) ← readGivenChar ':' s
    let (_, s) ← readGivenChar ':' s
    let (tail, _, s) := readGroups (8 - (head.length + 1)) true s
    return (.ofGroups (head ++ List.replicate (8 - head.length - tail.length) 0 ++ tail), s)

def readIpAddr : Reader IpAddr := fun s ↦
  match readIpv4Addr s with
  | some (address, s) => some (.v4 address, s)
  | none => (readIpv6Addr s).map (fun (address, s) ↦ (.v6 address, s))

/-- Nothing of the text is left. -/
def parseWith {α : Type} (reader : Reader α) (s : List Char) : Option α :=
  match reader s with
  | some (a, []) => some a
  | _ => none

/-- `IpAddr::from_str`. -/
def IpAddr.parse (s : List Char) : Option IpAddr := parseWith readIpAddr s

/-- `Ipv4Addr::from_str`; no address is longer than 15 bytes. -/
def Ipv4Addr.parse (s : List Char) : Option Ipv4Addr :=
  if s.length ≤ 15 then parseWith readIpv4Addr s else none

end Parser

section Taken

/-- A reader takes only characters of a kind. -/
def Takes {α : Type} (kind : Char → Bool) (reader : Reader α) : Prop :=
  ∀ s a rest, reader s = some (a, rest) → ∃ taken, s = taken ++ rest ∧ ∀ c ∈ taken, kind c = true

/-- The characters of an address. -/
def isAddressChar (c : Char) : Bool := isDigit 16 c || c = '.' || c = ':'

variable {α : Type} {s rest : List Char}

theorem takes_readGivenChar {c : Char} (hc : isAddressChar c = true) :
    Takes isAddressChar (readGivenChar c) := by
  intro s a rest h
  cases s with
  | nil => cases h
  | cons d s =>
    rw [readGivenChar] at h
    split_ifs at h with hd
    obtain ⟨-, rfl⟩ := Prod.mk.inj (Option.some.inj h)
    refine ⟨[d], rfl, fun e he ↦ ?_⟩
    rw [List.mem_singleton.mp he, hd]
    exact hc

theorem isDigit_of_le {radix : ℕ} (hradix : radix ≤ 16) {c : Char} (hc : isDigit radix c = true) :
    isDigit 16 c = true := by
  obtain ⟨d, hd⟩ := Option.isSome_iff_exists.mp hc
  unfold toDigit at hd
  split_ifs at hd with h
  exact Option.isSome_iff_exists.mpr ⟨_, if_pos (lt_of_lt_of_le h hradix)⟩

theorem takes_readNumber {radix maxDigits bound : ℕ} {allowZeroPrefix : Bool} (hradix : radix ≤ 16) :
    Takes isAddressChar (readNumber radix maxDigits bound allowZeroPrefix) := by
  intro s a rest h
  obtain ⟨n, -, heq⟩ := Option.map_eq_some_iff.mp h
  obtain ⟨-, rfl⟩ := Prod.mk.inj heq
  refine ⟨s.takeWhile (isDigit radix), List.takeWhile_append_dropWhile.symm, fun c hc ↦ ?_⟩
  have hdigit := isDigit_of_le hradix (List.mem_takeWhile_imp hc)
  rw [isAddressChar, hdigit, Bool.true_or, Bool.true_or]

theorem taken_append {kind : Char → Bool} {taken taken' : List Char} {s rest rest' : List Char}
    (h : s = taken ++ rest ∧ ∀ c ∈ taken, kind c = true)
    (h' : rest = taken' ++ rest' ∧ ∀ c ∈ taken', kind c = true) :
    s = (taken ++ taken') ++ rest' ∧ ∀ c ∈ taken ++ taken', kind c = true := by
  refine ⟨?_, List.forall_mem_append.mpr ⟨h.2, h'.2⟩⟩
  rw [h.1, h'.1, List.append_assoc]

theorem Takes.readSeparator {inner : Reader α} (h : Takes isAddressChar inner) {separator : Char}
    (hs : isAddressChar separator = true) (first : Bool) :
    Takes isAddressChar (readSeparator separator first inner) := by
  intro s a rest hread
  cases first with
  | true => exact h s a rest hread
  | false =>
    rw [IpAddress.readSeparator, if_neg Bool.false_ne_true] at hread
    obtain ⟨⟨_, s'⟩, hgiven, hread⟩ := Option.bind_eq_some_iff.mp hread
    obtain ⟨taken, htaken⟩ := takes_readGivenChar hs s _ s' hgiven
    obtain ⟨taken', htaken'⟩ := h s' a rest hread
    exact ⟨taken ++ taken', taken_append htaken htaken'⟩

theorem takes_readOctet (first : Bool) : Takes isAddressChar (readOctet first) :=
  (takes_readNumber (by decide)).readSeparator rfl first

theorem takes_readGroup (first : Bool) : Takes isAddressChar (readGroup first) :=
  (takes_readNumber le_rfl).readSeparator rfl first

theorem readIpv4Addr_eq_some {address : Ipv4Addr} (h : readIpv4Addr s = some (address, rest)) :
    ∃ a b c d s₁ s₂ s₃, readOctet true s = some (a, s₁) ∧ readOctet false s₁ = some (b, s₂) ∧
      readOctet false s₂ = some (c, s₃) ∧ readOctet false s₃ = some (d, rest) ∧
      address = ⟨![a, b, c, d]⟩ := by
  obtain ⟨⟨a, s₁⟩, ha, h⟩ := Option.bind_eq_some_iff.mp h
  obtain ⟨⟨b, s₂⟩, hb, h⟩ := Option.bind_eq_some_iff.mp h
  obtain ⟨⟨c, s₃⟩, hc, h⟩ := Option.bind_eq_some_iff.mp h
  obtain ⟨⟨d, s₄⟩, hd, h⟩ := Option.bind_eq_some_iff.mp h
  obtain ⟨rfl, rfl⟩ := Prod.mk.inj (Option.some.inj h)
  exact ⟨a, b, c, d, s₁, s₂, s₃, ha, hb, hc, hd, rfl⟩

theorem takes_readIpv4Addr : Takes isAddressChar readIpv4Addr := by
  intro s address rest h
  obtain ⟨a, b, c, d, s₁, s₂, s₃, ha, hb, hc, hd, -⟩ := readIpv4Addr_eq_some h
  obtain ⟨ta, hta⟩ := takes_readOctet _ _ _ _ ha
  obtain ⟨tb, htb⟩ := takes_readOctet _ _ _ _ hb
  obtain ⟨tc, htc⟩ := takes_readOctet _ _ _ _ hc
  obtain ⟨td, htd⟩ := takes_readOctet _ _ _ _ hd
  exact ⟨_, taken_append (taken_append (taken_append hta htb) htc) htd⟩

theorem takes_readGroups (limit : ℕ) (first : Bool) (s : List Char) :
    ∃ taken, s = taken ++ (readGroups limit first s).2.2 ∧ ∀ c ∈ taken, isAddressChar c = true := by
  have hnone (s : List Char) : s = [] ++ s ∧ ∀ c ∈ ([] : List Char), isAddressChar c = true :=
    ⟨rfl, fun _ hc ↦ absurd hc List.not_mem_nil⟩
  induction limit generalizing first s with
  | zero => exact ⟨[], hnone s⟩
  | succ limit ih =>
    rw [readGroups]
    split
    · rename_i address rest hread
      split_ifs at hread
      exact takes_readIpv4Addr.readSeparator rfl first s address rest hread
    · split
      · rename_i group rest hread
        obtain ⟨taken, htaken⟩ := takes_readGroup first s group rest hread
        obtain ⟨taken', htaken'⟩ := ih false rest
        exact ⟨taken ++ taken', taken_append htaken htaken'⟩
      · exact ⟨[], hnone s⟩

theorem takes_readIpv6Addr : Takes isAddressChar readIpv6Addr := by
  intro s address rest h
  obtain ⟨taken, htaken⟩ := takes_readGroups 8 true s
  unfold readIpv6Addr at h
  dsimp only at h
  split_ifs at h
  · obtain ⟨-, rfl⟩ := Prod.mk.inj (Option.some.inj h)
    exact ⟨taken, htaken⟩
  · obtain ⟨⟨_, s₁⟩, h₁, h⟩ := Option.bind_eq_some_iff.mp h
    obtain ⟨⟨_, s₂⟩, h₂, h⟩ := Option.bind_eq_some_iff.mp h
    obtain ⟨-, rfl⟩ := Prod.mk.inj (Option.some.inj h)
    obtain ⟨taken₁, htaken₁⟩ := takes_readGivenChar rfl _ _ _ h₁
    obtain ⟨taken₂, htaken₂⟩ := takes_readGivenChar rfl _ _ _ h₂
    obtain ⟨taken₃, htaken₃⟩ := takes_readGroups
      (8 - ((readGroups 8 true s).1.length + 1)) true s₂
    exact ⟨_, taken_append (taken_append (taken_append htaken htaken₁) htaken₂) htaken₃⟩

/-- The text of an address is made of digits, dots and colons. -/
theorem isAddressChar_of_parse {address : IpAddr} (h : IpAddr.parse s = some address) :
    ∀ c ∈ s, isAddressChar c = true := by
  unfold IpAddr.parse parseWith at h
  split at h
  · rename_i a hread
    unfold readIpAddr at hread
    split at hread
    · rename_i address' rest hv4
      obtain ⟨-, rfl⟩ := Prod.mk.inj (Option.some.inj hread)
      obtain ⟨taken, rfl, htaken⟩ := takes_readIpv4Addr _ _ _ hv4
      rwa [List.append_nil]
    · obtain ⟨⟨address', rest⟩, hv6, heq⟩ := Option.map_eq_some_iff.mp hread
      obtain ⟨-, rfl⟩ := Prod.mk.inj heq
      obtain ⟨taken, rfl, htaken⟩ := takes_readIpv6Addr _ _ _ hv6
      rwa [List.append_nil]
  · cases h

theorem parse_nil : IpAddr.parse [] = none := rfl

end Taken

section Stop

/-- A reader that has read a text reads it as well when a character of a kind follows. -/
def StopsAt {α : Type} (c : Char) (reader : Reader α) : Prop :=
  ∀ s a rest t, reader s = some (a, rest) → reader (s ++ c :: t) = some (a, rest ++ c :: t)

variable {α : Type} {s t : List Char} {c : Char}

theorem stopsAt_readGivenChar (given : Char) : StopsAt c (readGivenChar given) := by
  intro s a rest t h
  cases s with
  | nil => cases h
  | cons d s =>
    rw [readGivenChar] at h
    split_ifs at h with hd
    obtain ⟨-, rfl⟩ := Prod.mk.inj (Option.some.inj h)
    rw [List.cons_append, readGivenChar, if_pos hd]

theorem takeWhile_append_stop {p : Char → Bool} (hc : p c = false) :
    (s ++ c :: t).takeWhile p = s.takeWhile p := by
  rw [List.takeWhile_append, List.takeWhile_cons_of_neg (by rw [hc]; exact Bool.false_ne_true),
    List.append_nil]
  split_ifs with h
  · exact (List.IsPrefix.eq_of_length (List.takeWhile_prefix p) h).symm
  · rfl

theorem dropWhile_append_stop {p : Char → Bool} (hc : p c = false) :
    (s ++ c :: t).dropWhile p = s.dropWhile p ++ c :: t := by
  rw [List.dropWhile_append, List.dropWhile_cons_of_neg (by rw [hc]; exact Bool.false_ne_true)]
  split_ifs with h
  · rw [List.isEmpty_iff.mp h, List.nil_append]
  · rfl

theorem stopsAt_readNumber {radix maxDigits bound : ℕ} {allowZeroPrefix : Bool}
    (hc : isDigit radix c = false) :
    StopsAt c (readNumber radix maxDigits bound allowZeroPrefix) := by
  intro s a rest t h
  obtain ⟨n, hn, heq⟩ := Option.map_eq_some_iff.mp h
  obtain ⟨rfl, rfl⟩ := Prod.mk.inj heq
  rw [readNumber, takeWhile_append_stop hc, dropWhile_append_stop hc, hn]
  rfl

theorem StopsAt.readSeparator {inner : Reader α} (h : StopsAt c inner) (separator : Char)
    (first : Bool) : StopsAt c (readSeparator separator first inner) := by
  intro s a rest t hread
  cases first with
  | true => exact h s a rest t hread
  | false =>
    rw [IpAddress.readSeparator, if_neg Bool.false_ne_true] at hread ⊢
    obtain ⟨⟨u, s'⟩, hgiven, hread⟩ := Option.bind_eq_some_iff.mp hread
    exact Option.bind_eq_some_iff.mpr ⟨⟨u, s' ++ c :: t⟩,
      stopsAt_readGivenChar separator s u s' t hgiven, h s' a rest t hread⟩

theorem stopsAt_readOctet (hc : isDigit 10 c = false) (first : Bool) :
    StopsAt c (readOctet first) :=
  (stopsAt_readNumber hc).readSeparator '.' first

theorem stopsAt_readIpv4Addr (hc : isDigit 10 c = false) : StopsAt c readIpv4Addr := by
  intro s address rest t h
  obtain ⟨a, b, d, e, s₁, s₂, s₃, ha, hb, hd, he, rfl⟩ := readIpv4Addr_eq_some h
  have hstop := stopsAt_readOctet hc
  unfold readIpv4Addr
  rw [hstop _ _ _ _ t ha]
  dsimp only [Option.bind_eq_bind, Option.bind_some]
  rw [hstop _ _ _ _ t hb]
  dsimp only [Option.bind_some]
  rw [hstop _ _ _ _ t hd]
  dsimp only [Option.bind_some]
  rw [hstop _ _ _ _ t he]
  rfl

theorem readIpv4Addr_of_parse {address : Ipv4Addr} (h : Ipv4Addr.parse s = some address) :
    readIpv4Addr s = some (address, []) := by
  unfold Ipv4Addr.parse at h
  split_ifs at h
  unfold parseWith at h
  split at h
  · rename_i a hread
    rw [hread, Option.some.inj h]
  · cases h

/-- An IPv4 address is an address. -/
theorem parse_of_ipv4 {address : Ipv4Addr} (h : Ipv4Addr.parse s = some address) :
    IpAddr.parse s = some (.v4 address) := by
  unfold IpAddr.parse parseWith readIpAddr
  rw [readIpv4Addr_of_parse h]

/-- With a port it is not. -/
theorem parse_ipv4_port {address : Ipv4Addr} (h : Ipv4Addr.parse s = some address) (port : List Char) :
    IpAddr.parse (s ++ ':' :: port) = none := by
  unfold IpAddr.parse parseWith readIpAddr
  rw [stopsAt_readIpv4Addr rfl _ _ _ port (readIpv4Addr_of_parse h)]
  rfl

end Stop

example : IpAddr.parse "203.0.113.10".toList = some (.v4 ⟨![203, 0, 113, 10]⟩) := by decide

end Foundation.IpAddress
