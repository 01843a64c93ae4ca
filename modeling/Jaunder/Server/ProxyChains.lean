import Jaunder.Common.Keywords
import Jaunder.Foundation.QuotedLists
import Jaunder.Foundation.Trimming
import Jaunder.Server.TrustedProxy

namespace Jaunder.Server.TrustedProxy

open Foundation.ByteOffsets Foundation.IpAddress Foundation.Outcome Foundation.Substrings
open Foundation.QuotedLists Foundation.Trimming
open Jaunder.Common.Keywords (ascii_forall)
open Jaunder.Common.PostText
open Jaunder.Common.PostNaming (eqIgnoreAsciiCase)

section Nodes

/-- The port of a node, a number or an obfuscated one. -/
inductive NodePort : List Char → Prop
  | number {port : List Char} : port ≠ [] → (∀ c ∈ port, isAsciiDigit c = true) → NodePort port
  | obfuscated {name : List Char} : name ≠ [] → (∀ c ∈ name, isObfuscatedChar c = true) →
      NodePort ('_' :: name)

/-- The text of an IP node with its address. -/
inductive NodeText : List Char → IpAddr → Prop
  | bare {text : List Char} {ip : IpAddr} : IpAddr.parse text = some ip →
      NodeText text (canonicalIp ip)
  | bracketed {text : List Char} {ip : IpAddr} : IpAddr.parse text = some ip →
      NodeText ('[' :: text ++ [']']) (canonicalIp ip)
  | bracketedPort {text port : List Char} {ip : IpAddr} : IpAddr.parse text = some ip →
      NodePort port → NodeText ('[' :: text ++ ']' :: ':' :: port) (canonicalIp ip)
  | port {host port : List Char} {ip : Ipv4Addr} : Ipv4Addr.parse host = some ip →
      NodePort port → NodeText (host ++ ':' :: port) (.v4 ip)

/-- A character that a node may hold. -/
def isNodeChar (c : Char) : Bool := isAddressChar c || isObfuscatedChar c || c = '[' || c = ']'

variable {text port value : List Char} {ip : IpAddr} {c : Char}

theorem isDigit_ascii (h : isDigit 16 c = true) : c.toNat < 128 := by
  obtain ⟨d, hd⟩ := Option.isSome_iff_exists.mp h
  unfold toDigit digitValue at hd
  split_ifs at hd with h₁ hlt h₂ hlt h₃ hlt hlt
  · exact lt_of_le_of_lt (show c.toNat ≤ '9'.toNat from h₁.2) (by decide)
  · exact lt_of_le_of_lt (show c.toNat ≤ 'f'.toNat from h₂.2) (by decide)
  · exact lt_of_le_of_lt (show c.toNat ≤ 'F'.toNat from h₃.2) (by decide)
  · exact absurd hlt (lt_irrefl 16)

theorem isAddressChar_ascii (h : isAddressChar c = true) : c.toNat < 128 := by
  rw [isAddressChar, Bool.or_eq_true, Bool.or_eq_true] at h
  rcases h with (h | h) | h
  · exact isDigit_ascii h
  · rw [of_decide_eq_true h]
    decide
  · rw [of_decide_eq_true h]
    decide

theorem isObfuscatedChar_ascii (h : isObfuscatedChar c = true) : c.toNat < 128 := by
  rcases of_decide_eq_true h with h | h | h | rfl | rfl | rfl
  · exact lt_of_le_of_lt (show c.toNat ≤ '9'.toNat from (of_decide_eq_true h).2) (by decide)
  · exact lt_of_le_of_lt (show c.toNat ≤ 'z'.toNat from h.2) (by decide)
  · exact lt_of_le_of_lt (show c.toNat ≤ 'Z'.toNat from h.2) (by decide)
  all_goals decide

theorem isNodeChar_ascii (h : isNodeChar c = true) : c.toNat < 128 := by
  rw [isNodeChar, Bool.or_eq_true, Bool.or_eq_true, Bool.or_eq_true] at h
  rcases h with ((h | h) | h) | h
  · exact isAddressChar_ascii h
  · exact isObfuscatedChar_ascii h
  · rw [of_decide_eq_true h]
    decide
  · rw [of_decide_eq_true h]
    decide

/-- The characters that stand around a node are none of its own. -/
theorem isNodeChar_apart (h : isNodeChar c = true) :
    isWhitespace c = false ∧ c ∉ [',', ';', '=', '"', '\\', '%'] :=
  ascii_forall (P := fun c ↦ isNodeChar c = true →
    isWhitespace c = false ∧ c ∉ [',', ';', '=', '"', '\\', '%']) (by decide) (isNodeChar_ascii h) h

theorem isAddressChar_apart (h : isAddressChar c = true) :
    c.toLower ≠ 'u' ∧ c ∉ ['_', '[', ']'] :=
  ascii_forall (P := fun c ↦ isAddressChar c = true → c.toLower ≠ 'u' ∧ c ∉ ['_', '[', ']'])
    (by decide) (isAddressChar_ascii h) h

theorem isObfuscatedChar_apart (h : isObfuscatedChar c = true) : c ≠ ':' :=
  ascii_forall (P := fun c ↦ isObfuscatedChar c = true → c ≠ ':') (by decide)
    (isObfuscatedChar_ascii h) h

theorem NodePort.obfuscatedChars (h : NodePort port) : ∀ c ∈ port, isObfuscatedChar c = true := by
  cases h with
  | number _ hdigits =>
    intro c hc
    exact decide_eq_true (.inl (hdigits c hc))
  | obfuscated _ hname => exact List.forall_mem_cons.mpr ⟨rfl, hname⟩

theorem isValidNodePort_iff : isValidNodePort port = true ↔ NodePort port := by
  unfold isValidNodePort
  rw [decide_eq_true_iff]
  constructor
  · rintro (⟨hne, hdigits⟩ | ⟨name, hname, hne, hchars⟩)
    · exact .number hne (List.all_eq_true.mp hdigits)
    · rw [stripPrefix_eq_some.mp hname]
      exact .obfuscated hne (List.all_eq_true.mp hchars)
  · rintro (⟨hne, hdigits⟩ | ⟨hne, hchars⟩)
    · exact .inl ⟨hne, List.all_eq_true.mpr hdigits⟩
    · exact .inr ⟨_, stripPrefix_eq_some.mpr rfl, hne, List.all_eq_true.mpr hchars⟩

theorem isNodeChar_of_address (h : isAddressChar c = true) : isNodeChar c = true := by
  rw [isNodeChar, h, Bool.true_or, Bool.true_or, Bool.true_or]

theorem isNodeChar_of_obfuscated (h : isObfuscatedChar c = true) : isNodeChar c = true := by
  rw [isNodeChar, h, Bool.or_true, Bool.true_or, Bool.true_or]

theorem isNodeChar_of_parse (h : IpAddr.parse text = some ip) : ∀ c ∈ text, isNodeChar c = true :=
  fun c hc ↦ isNodeChar_of_address (isAddressChar_of_parse h c hc)

theorem NodePort.nodeChars (h : NodePort port) : ∀ c ∈ port, isNodeChar c = true :=
  fun c hc ↦ isNodeChar_of_obfuscated (h.obfuscatedChars c hc)

theorem NodeText.nodeChars (h : NodeText text ip) : ∀ c ∈ text, isNodeChar c = true := by
  cases h with
  | bare hparse => exact isNodeChar_of_parse hparse
  | bracketed hparse =>
    refine List.forall_mem_append.mpr ⟨List.forall_mem_cons.mpr ⟨rfl, isNodeChar_of_parse hparse⟩, ?_⟩
    exact List.forall_mem_singleton.mpr rfl
  | bracketedPort hparse hport =>
    refine List.forall_mem_append.mpr ⟨List.forall_mem_cons.mpr ⟨rfl, isNodeChar_of_parse hparse⟩, ?_⟩
    exact List.forall_mem_cons.mpr ⟨rfl, List.forall_mem_cons.mpr ⟨rfl, hport.nodeChars⟩⟩
  | port hhost hport =>
    refine List.forall_mem_append.mpr ⟨isNodeChar_of_parse (parse_of_ipv4 hhost), ?_⟩
    exact List.forall_mem_cons.mpr ⟨rfl, hport.nodeChars⟩

/-- A node begins with an address or a bracket. -/
theorem NodeText.head (h : NodeText text ip) :
    ∃ c rest, text = c :: rest ∧ (isAddressChar c = true ∨ c = '[') := by
  have hparse {text : List Char} {ip : IpAddr} (h : IpAddr.parse text = some ip) (more : List Char) :
      ∃ c rest, text ++ more = c :: rest ∧ (isAddressChar c = true ∨ c = '[') := by
    cases text with
    | nil => cases h
    | cons c text =>
      exact ⟨c, text ++ more, rfl, .inl (isAddressChar_of_parse h c List.mem_cons_self)⟩
  cases h with
  | bare h =>
    have hbare := hparse h []
    rwa [List.append_nil] at hbare
  | bracketed h => exact ⟨'[', _, rfl, .inr rfl⟩
  | bracketedPort h hport => exact ⟨'[', _, rfl, .inr rfl⟩
  | port hhost hport => exact hparse (parse_of_ipv4 hhost) _

theorem NodeText.tight (h : NodeText text ip) : Tight isWhitespace text :=
  tight_of_forall (fun c hc ↦ (isNodeChar_apart (h.nodeChars c hc)).1)

/-- The texts that are refused at once are no nodes. -/
theorem NodeText.not_refused (h : NodeText text ip) :
    ¬(text = [] ∨ eqIgnoreAsciiCase text "unknown".toList ∨ text.head? = some '_' ∨ '%' ∈ text) := by
  obtain ⟨c, rest, rfl, hc⟩ := h.head
  have happart : c.toLower ≠ 'u' ∧ c ≠ '_' := by
    rcases hc with hc | rfl
    · have hapart := isAddressChar_apart hc
      exact ⟨hapart.1, fun heq ↦ hapart.2 (heq ▸ List.mem_cons_self)⟩
    · decide
  rintro (hnil | hunknown | hunderscore | hpercent)
  · cases hnil
  · have hlower := of_decide_eq_true hunknown
    exact happart.1 (List.cons.inj hlower).1
  · exact happart.2 (Option.some.inj hunderscore)
  · exact (isNodeChar_apart (h.nodeChars _ hpercent)).2 (by decide)

theorem parseAddress_eq_ok {ip : IpAddr} : parseAddress text = .ok ip ↔
    ∃ address, IpAddr.parse text = some address ∧ canonicalIp address = ip := by
  rw [parseAddress, orError_eq_ok, Option.map_eq_some_iff]

theorem parse_bracket (more : List Char) : IpAddr.parse ('[' :: more) = none := by
  cases h : IpAddr.parse ('[' :: more) with
  | none => rfl
  | some ip =>
    have hbracket := isAddressChar_of_parse h '[' List.mem_cons_self
    cases hbracket

theorem not_mem_of_parse {c : Char} (hc : isAddressChar c = false)
    (h : IpAddr.parse text = some ip) : c ∉ text := by
  intro hmem
  rw [isAddressChar_of_parse h c hmem] at hc
  cases hc

theorem splitOnce_bracket (h : IpAddr.parse text = some ip) (more : List Char) :
    splitOnce [']'] (text ++ ']' :: more) = some (text, more) :=
  splitOnce_singleton_eq_some.mpr ⟨rfl, not_mem_of_parse rfl h⟩

theorem stripPrefix_host {host more : List Char} (h : IpAddr.parse host = some ip) :
    stripPrefix ['['] (host ++ more) = none := by
  cases host with
  | nil => cases h
  | cons c host =>
    have hc : '[' ≠ c := by
      rintro rfl
      exact not_mem_of_parse rfl h List.mem_cons_self
    rw [stripPrefix, if_neg]
    simp [List.isPrefixOf, hc]

theorem stripPrefix_self (c : Char) (s : List Char) : stripPrefix [c] (c :: s) = some s := by
  rw [stripPrefix, if_pos (by simp)]
  rfl

theorem NodeText.parseNode (h : NodeText (trim value) ip) : parseNode value = .ok ip := by
  unfold TrustedProxy.parseNode
  dsimp only
  rw [if_neg h.not_refused]
  generalize trim value = text at h
  cases h with
  | bare hparse => rw [hparse]
  | @bracketed text ip hparse =>
    rw [List.cons_append, parse_bracket]
    dsimp only
    rw [stripPrefix_self]
    dsimp only
    rw [splitOnce_bracket hparse]
    exact parseAddress_eq_ok.mpr ⟨ip, hparse, rfl⟩
  | @bracketedPort text port ip hparse hport =>
    rw [List.cons_append, parse_bracket]
    dsimp only
    rw [stripPrefix_self]
    dsimp only
    rw [splitOnce_bracket hparse]
    dsimp only
    rw [stripPrefix_self]
    dsimp only
    rw [if_pos (isValidNodePort_iff.mpr hport)]
    exact parseAddress_eq_ok.mpr ⟨ip, hparse, rfl⟩
  | @port host port ip hhost hport =>
    have hcolon : ':' ∉ port := fun hmem ↦ isObfuscatedChar_apart (hport.obfuscatedChars _ hmem) rfl
    rw [parse_ipv4_port hhost, stripPrefix_host (parse_of_ipv4 hhost)]
    dsimp only
    rw [rsplitOnce_append hcolon]
    dsimp only
    rw [if_pos ⟨Option.isSome_iff_exists.mpr ⟨ip, hhost⟩, isValidNodePort_iff.mpr hport⟩]
    exact parseAddress_eq_ok.mpr ⟨_, parse_of_ipv4 hhost, rfl⟩

theorem nodeText_of_parseNode (h : parseNode value = .ok ip) : NodeText (trim value) ip := by
  unfold parseNode at h
  dsimp only at h
  generalize trim value = text at h ⊢
  split_ifs at h
  split at h
  · rename_i address hparse
    rw [← Except.ok.inj h]
    exact .bare hparse
  · split at h
    · rename_i inner hstrip
      rw [stripPrefix_eq_some.mp hstrip]
      split at h
      · cases h
      · rename_i address rest hsplit
        obtain ⟨rfl, -⟩ := splitOnce_singleton_eq_some.mp hsplit
        split at h
        · rename_i port hport
          split_ifs at h with hvalid
          obtain ⟨ip', hparse, rfl⟩ := parseAddress_eq_ok.mp h
          rw [stripPrefix_eq_some.mp hport]
          exact .bracketedPort hparse (isValidNodePort_iff.mp hvalid)
        · split_ifs at h with hrest
          obtain ⟨ip', hparse, rfl⟩ := parseAddress_eq_ok.mp h
          rw [hrest]
          exact .bracketed hparse
    · split at h
      · cases h
      · rename_i host port hsplit
        obtain ⟨rfl, -⟩ := rsplitOnce_eq_some hsplit
        split_ifs at h with hvalid
        obtain ⟨ip', hparse, rfl⟩ := parseAddress_eq_ok.mp h
        obtain ⟨address, haddress⟩ := Option.isSome_iff_exists.mp hvalid.1
        rw [parse_of_ipv4 haddress] at hparse
        obtain rfl := Option.some.inj hparse
        exact .port haddress (isValidNodePort_iff.mp hvalid.2)

/-- A node is read exactly when it has an address. -/
theorem parseNode_eq_ok_iff : parseNode value = .ok ip ↔ NodeText (trim value) ip :=
  ⟨nodeText_of_parseNode, NodeText.parseNode⟩

end Nodes

section Splitting

variable {value before piece rest : List Char} {values pieces : List (List Char)} {d : Char}

theorem slice_between (before piece rest : List Char) :
    slice (byteLen before) (byteLen (before ++ piece)) (before ++ piece ++ rest) = .ok piece := by
  rw [slice, sliceTo_append, Option.bind_some, sliceFrom_append]
  rfl

theorem slice_last (before piece : List Char) :
    slice (byteLen before) (byteLen (before ++ piece)) (before ++ piece) = .ok piece := by
  have hbetween := slice_between before piece []
  rwa [List.append_nil] at hbetween

/-- The state of the loop where some quotes are open. -/
def splitState (values : List (List Char)) (start : ℕ) (q : Quotes) : SplitState :=
  ⟨values, start, q.quoted, q.escaped⟩

theorem splitQuotedStep_eq (hd : d ≠ '"') (q : Quotes) (start offset : ℕ) (c : Char) :
    splitQuotedStep value d (splitState values start q) (offset, c) =
      if q = .outside ∧ c = d then do
        let entry ← slice start offset value
        require (trim entry ≠ []) .malformed
        return splitState (values ++ [trim entry]) (offset + c.utf8Size) .outside
      else .ok (splitState values start (q.next c)) := by
  obtain ⟨quoted, escaped⟩ := q
  unfold splitQuotedStep splitState Quotes.next Quotes.outside
  cases escaped with
  | true => simp
  | false =>
    cases quoted with
    | true =>
      by_cases hc : c = '\\'
      · simp [hc]
      · by_cases hquote : c = '"'
        · simp [hquote]
        · simp [hc, hquote]
    | false =>
      by_cases hquote : c = '"'
      · simp [hquote, hd.symm]
      · by_cases hdc : c = d
        · simp [hdc, hd]
        · simp [hquote, hdc]

theorem outside_iff {q : Quotes} : q = .outside ↔ ¬(q.quoted = true ∨ q.escaped = true) := by
  obtain ⟨quoted, escaped⟩ := q
  unfold Quotes.outside
  cases quoted <;> cases escaped <;> decide

/-- What follows the loop. -/
def splitFinish (value : List Char) (s : SplitState) : Except ChainError (List (List Char)) := do
  require (¬(s.quoted = true ∨ s.escaped = true)) .malformed
  let entry ← slice s.start (byteLen value) value
  require (trim entry ≠ []) .malformed
  return s.values ++ [trim entry]

/-- The trimmed pieces, none of which may be empty. -/
def trimmed (values pieces : List (List Char)) : Except ChainError (List (List Char)) :=
  if ∀ p ∈ pieces, trim p ≠ [] then .ok (values ++ pieces.map trim) else .error .malformed

theorem trimmed_cons (p : List Char) : trimmed values (p :: pieces) =
    if trim p ≠ [] then trimmed (values ++ [trim p]) pieces else .error .malformed := by
  unfold trimmed
  split_ifs with hall hp hp hp hp
  · rw [List.map_cons, List.append_assoc, List.singleton_append]
  all_goals simp_all

theorem trimmed_eq_ok {entries : List (List Char)} : trimmed [] pieces = .ok entries ↔
    (∀ p ∈ pieces, trim p ≠ []) ∧ entries = pieces.map trim := by
  unfold trimmed
  split_ifs with hall
  · exact ⟨fun h ↦ ⟨hall, (Except.ok.inj h).symm⟩, fun h ↦ congrArg Except.ok h.2.symm⟩
  · exact ⟨fun h ↦ (by cases h), fun h ↦ absurd h.1 hall⟩

/-- The loop takes the pieces off, of which some are before the place where it is and one is being
read there. -/
theorem splitLoop_eq (hd : d ≠ '"') (q : Quotes) (values : List (List Char))
    (before piece rest : List Char) :
    ((charIndicesFrom (byteLen (before ++ piece)) rest).foldlM
        (splitQuotedStep (before ++ piece ++ rest) d) (splitState values (byteLen before) q) >>=
      splitFinish (before ++ piece ++ rest)) =
    match cut d q piece rest with
    | none => .error .malformed
    | some pieces => trimmed values pieces := by
  induction rest generalizing q values before piece with
  | nil =>
    rw [List.append_nil, charIndicesFrom, List.foldlM_nil]
    change splitFinish (before ++ piece) (splitState values (byteLen before) q) = _
    unfold splitFinish splitState
    dsimp only
    rw [slice_last, cut]
    split_ifs with hq
    · dsimp only
      rw [require_pos (outside_iff.mp hq), trimmed_cons]
      split_ifs with hpiece
      · rw [ok_bind, ok_bind, require_pos hpiece]
        exact congrArg Except.ok (List.append_nil _).symm
      · rw [ok_bind, ok_bind, require_neg hpiece]
        rfl
    · rw [require_neg (fun h ↦ hq (outside_iff.mpr h))]
      rfl
  | cons c rest ih =>
    rw [charIndicesFrom, List.foldlM_cons, splitQuotedStep_eq hd, cut]
    split_ifs with hc
    · have hstep := ih .outside (values ++ [trim piece]) (before ++ piece ++ [c]) []
      rw [List.append_nil, byteLen_append (before ++ piece), byteLen_cons, byteLen_nil, Nat.add_zero,
        List.append_assoc _ [c], List.singleton_append] at hstep
      rw [slice_between, ok_bind]
      by_cases hpiece : trim piece ≠ []
      · rw [require_pos hpiece]
        refine hstep.trans ?_
        cases cut d .outside [] rest with
        | none => rfl
        | some pieces =>
          change trimmed (values ++ [trim piece]) pieces = trimmed values (piece :: pieces)
          rw [trimmed_cons, if_pos hpiece]
      · rw [require_neg hpiece]
        cases cut d .outside [] rest with
        | none => rfl
        | some pieces =>
          change Except.error ChainError.malformed = trimmed values (piece :: pieces)
          rw [trimmed_cons, if_neg hpiece]
    · have hstep := ih (q.next c) values before (piece ++ [c])
      rw [← List.append_assoc, byteLen_append (before ++ piece), byteLen_cons, byteLen_nil,
        Nat.add_zero, List.append_assoc _ [c], List.singleton_append] at hstep
      rw [ok_bind]
      exact hstep

theorem splitQuoted_eq (hd : d ≠ '"') : splitQuoted value d =
    match cut d .outside [] value with
    | none => .error .malformed
    | some pieces => trimmed [] pieces := splitLoop_eq hd .outside [] [] [] value

/-- The entries of a list are what is written between its delimiters outside quoted strings. -/
theorem splitQuoted_eq_ok_iff (hd : d ≠ '"') {entries : List (List Char)} :
    splitQuoted value d = .ok entries ↔ ∃ pieces, pieces ≠ [] ∧ value = [d].intercalate pieces ∧
      (∀ p ∈ pieces, Sealed d p) ∧ (∀ p ∈ pieces, trim p ≠ []) ∧ entries = pieces.map trim := by
  rw [splitQuoted_eq hd]
  constructor
  · intro h
    cases hcut : cut d .outside [] value with
    | none =>
      rw [hcut] at h
      cases h
    | some pieces =>
      rw [hcut] at h
      obtain ⟨hne, hvalue, hsealed⟩ := (cut_eq_some_iff hd).mp hcut
      exact ⟨pieces, hne, hvalue, hsealed, trimmed_eq_ok.mp h⟩
  · rintro ⟨pieces, hne, hvalue, hsealed, htrimmed⟩
    rw [(cut_eq_some_iff hd).mpr ⟨hne, hvalue, hsealed⟩]
    exact trimmed_eq_ok.mpr htrimmed

theorem splitQuoted_ne_outOfRange (hd : d ≠ '"') : splitQuoted value d ≠ .error .outOfRange := by
  rw [splitQuoted_eq hd]
  cases cut d .outside [] value with
  | none => nofun
  | some pieces =>
    change trimmed [] pieces ≠ .error .outOfRange
    unfold trimmed
    split_ifs
    all_goals nofun

/-- A list that is cut at a comma outside quoted strings is two lists. -/
theorem splitQuoted_append (hd : d ≠ '"') {a b : List Char} (ha : Closed a)
    {entries : List (List Char)} : splitQuoted (a ++ d :: b) d = .ok entries ↔
      ∃ xs ys, splitQuoted a d = .ok xs ∧ splitQuoted b d = .ok ys ∧ entries = xs ++ ys := by
  rw [splitQuoted_eq hd, splitQuoted_eq hd, splitQuoted_eq hd, cut_append hd ha]
  cases cut d .outside [] a with
  | none =>
    constructor
    · intro h
      cases h
    · rintro ⟨xs, ys, h, -⟩
      cases h
  | some ps =>
    cases cut d .outside [] b with
    | none =>
      constructor
      · intro h
        cases h
      · rintro ⟨xs, ys, -, h, -⟩
        cases h
    | some qs =>
      change trimmed [] (ps ++ qs) = _ ↔ ∃ xs ys, trimmed [] ps = _ ∧ trimmed [] qs = _ ∧ _
      simp only [trimmed_eq_ok]
      rw [List.forall_mem_append, List.map_append]
      constructor
      · rintro ⟨⟨hps, hqs⟩, rfl⟩
        exact ⟨_, _, ⟨hps, rfl⟩, ⟨hqs, rfl⟩, rfl⟩
      · rintro ⟨xs, ys, ⟨hps, rfl⟩, ⟨hqs, rfl⟩, rfl⟩
        exact ⟨⟨hps, hqs⟩, rfl⟩

end Splitting

section Parameters

variable {value node parameter element : List Char} {parameters : List (List Char)} {ip : IpAddr}

/-- A node as it stands or as a quoted string. -/
inductive Quoting : List Char → List Char → Prop
  | token {node : List Char} : Quoting node node
  | string {node : List Char} : Quoting node ('"' :: node ++ ['"'])

def IsFor (name : List Char) : Prop := eqIgnoreAsciiCase (trim name) "for".toList = true

def OtherParameter (parameter : List Char) : Prop :=
  ∃ name value, parameter = name ++ '=' :: value ∧ '=' ∉ name ∧ ¬IsFor name

def ForParameter (parameter : List Char) (ip : IpAddr) : Prop :=
  ∃ name value node, parameter = name ++ '=' :: value ∧ '=' ∉ name ∧ IsFor name ∧
    Quoting node (trim value) ∧ NodeText (trim node) ip

/-- One parameter of an element is `for`; the others are any. -/
def ForwardedElement (element : List Char) (ip : IpAddr) : Prop :=
  ∃ before parameter after, element = [';'].intercalate (before ++ parameter :: after) ∧
    (∀ p ∈ before ++ parameter :: after, Sealed ';' p) ∧
    (∀ p ∈ before ++ after, OtherParameter (trim p)) ∧ ForParameter (trim parameter) ip

theorem exists_quoted (hhead : value.head? = some '"') (hlast : value.getLast? = some '"')
    (hlen : ¬byteLen value < 2) : ∃ node, value = ['"'] ++ node ++ ['"'] := by
  cases value with
  | nil => cases hhead
  | cons c rest =>
    obtain rfl := Option.some.inj hhead
    cases rest with
    | nil => exact absurd (show byteLen ['"'] < 2 by decide) hlen
    | cons c rest =>
      rw [List.getLast?_cons_cons] at hlast
      obtain ⟨node, hnode⟩ := List.getLast?_eq_some_iff.mp hlast
      exact ⟨node, by rw [hnode]; rfl⟩

theorem unquote_string (node : List Char) : unquote (['"'] ++ node ++ ['"']) =
    if '\\' ∉ node then .ok node else .error .malformed := by
  have hlen : byteLen (['"'] ++ node ++ ['"']) = byteLen (['"'] ++ node) + 1 := by
    rw [byteLen_append (['"'] ++ node)]
    rfl
  have hone : byteLen ['"'] = 1 := rfl
  have hfirst : (['"'] ++ node ++ ['"']).head? = some '"' := rfl
  have hlast : (['"'] ++ node ++ ['"']).getLast? = some '"' := List.getLast?_concat
  have hshort : ¬(byteLen (['"'] ++ node ++ ['"']) < 2 ∨ (['"'] ++ node ++ ['"']).head? ≠ some '"' ∨
      (['"'] ++ node ++ ['"']).getLast? ≠ some '"') := by
    rintro (hlt | hne | hne)
    · rw [hlen, byteLen_append, hone] at hlt
      omega
    · exact hne hfirst
    · exact hne hlast
  rw [unquote, if_neg (fun h ↦ h.1 hfirst), if_neg hshort, hlen, Nat.add_sub_cancel, ← hone,
    slice_between, ok_bind]
  split_ifs with hescape
  · rw [require_neg (not_not.mpr hescape)]
    rfl
  · rw [require_pos hescape]
    rfl

theorem unquote_cases (value : List Char) :
    unquote value = .ok value ∨ unquote value = .error .malformed ∨
      ∃ node, value = ['"'] ++ node ++ ['"'] := by
  by_cases hplain : value.head? ≠ some '"' ∧ value.getLast? ≠ some '"'
  · exact .inl (if_pos hplain)
  · by_cases hshort : byteLen value < 2 ∨ value.head? ≠ some '"' ∨ value.getLast? ≠ some '"'
    · refine .inr (.inl ?_)
      rw [unquote, if_neg hplain, if_pos hshort]
    · obtain ⟨hlen, hhead, hlast⟩ := not_or.mp hshort |>.imp_right not_or.mp
      exact .inr (.inr (exists_quoted (not_not.mp hhead) (not_not.mp hlast) hlen))

theorem quoting_of_unquote (h : unquote value = .ok node) : Quoting node value := by
  rcases unquote_cases value with hplain | herror | ⟨inner, rfl⟩
  · rw [hplain] at h
    rw [Except.ok.inj h]
    exact .token
  · rw [herror] at h
    cases h
  · rw [unquote_string] at h
    split_ifs at h
    rw [Except.ok.inj h]
    exact .string

theorem not_mem_node {c : Char} (hspace : isWhitespace c = false) (hc : isNodeChar c = false)
    (h : NodeText (trim node) ip) : c ∉ node := by
  intro hmem
  have hchar := h.nodeChars c (mem_trimBy hmem hspace)
  rw [hc] at hchar
  cases hchar

theorem Quoting.unquote (h : Quoting node value) (hnode : NodeText (trim node) ip) :
    unquote value = .ok node := by
  have hquote := not_mem_node (c := '"') rfl rfl hnode
  cases h with
  | token =>
    refine if_pos ⟨fun heq ↦ hquote ?_, fun heq ↦ hquote ?_⟩
    · exact List.mem_of_mem_head? heq
    · exact List.mem_of_getLast? heq
  | string =>
    change TrustedProxy.unquote (['"'] ++ node ++ ['"']) = .ok node
    rw [unquote_string, if_pos (not_mem_node rfl rfl hnode)]

theorem unquote_ne_outOfRange : unquote value ≠ .error .outOfRange := by
  rcases unquote_cases value with hplain | herror | ⟨inner, rfl⟩
  · rw [hplain]
    nofun
  · rw [herror]
    nofun
  · rw [unquote_string]
    split_ifs
    all_goals nofun

theorem forNode_cons (node : Option (List Char)) (parameter : List Char)
    (parameters : List (List Char)) {r : Option (List Char)} :
    forNode node (parameter :: parameters) = .ok r ↔
      (OtherParameter parameter ∧ forNode node parameters = .ok r) ∨
      (∃ name value unquoted, parameter = name ++ '=' :: value ∧ '=' ∉ name ∧ IsFor name ∧
        unquote (trim value) = .ok unquoted ∧ node = none ∧
        forNode (some unquoted) parameters = .ok r) := by
  rw [forNode]
  constructor
  · intro h
    obtain ⟨⟨name, value⟩, hsplit, h⟩ := bind_eq_ok.mp h
    obtain ⟨hparameter, hname⟩ := splitOnce_singleton_eq_some.mp (orError_eq_ok.mp hsplit)
    dsimp only at h
    split_ifs at h with hfor
    · obtain ⟨unquoted, hunquote, h⟩ := bind_eq_ok.mp h
      obtain ⟨_, hnone, h⟩ := bind_eq_ok.mp h
      exact .inr ⟨name, value, unquoted, hparameter, hname, hfor, hunquote,
        require_eq_ok.mp hnone, h⟩
    · exact .inl ⟨⟨name, value, hparameter, hname, hfor⟩, h⟩
  · rintro (⟨⟨name, value, hparameter, hname, hfor⟩, h⟩ |
      ⟨name, value, unquoted, hparameter, hname, hfor, hunquote, hnone, h⟩)
    · rw [splitOnce_singleton_eq_some.mpr ⟨hparameter, hname⟩, orError_some, ok_bind]
      exact (if_neg hfor).trans h
    · rw [splitOnce_singleton_eq_some.mpr ⟨hparameter, hname⟩, orError_some, ok_bind]
      refine (if_pos hfor).trans ?_
      rw [hunquote, ok_bind, require_pos hnone, ok_bind]
      exact h

theorem forNode_some {found : List Char} {r : Option (List Char)} :
    forNode (some found) parameters = .ok r ↔
      r = some found ∧ ∀ p ∈ parameters, OtherParameter p := by
  induction parameters with
  | nil =>
    rw [forNode]
    exact ⟨fun h ↦ ⟨(Except.ok.inj h).symm, fun _ hp ↦ absurd hp List.not_mem_nil⟩,
      fun h ↦ congrArg Except.ok h.1.symm⟩
  | cons p parameters ih =>
    rw [forNode_cons, ih, List.forall_mem_cons]
    constructor
    · rintro (⟨hp, hr, hall⟩ | ⟨_, _, _, _, _, _, _, hnone, _⟩)
      · exact ⟨hr, hp, hall⟩
      · cases hnone
    · rintro ⟨hr, hp, hall⟩
      exact .inl ⟨hp, hr, hall⟩

theorem forNode_none : forNode none parameters = .ok (some node) ↔
    ∃ before parameter after name value, parameters = before ++ parameter :: after ∧
      (∀ p ∈ before ++ after, OtherParameter p) ∧ parameter = name ++ '=' :: value ∧ '=' ∉ name ∧
      IsFor name ∧ unquote (trim value) = .ok node := by
  induction parameters with
  | nil =>
    rw [forNode]
    constructor
    · intro h
      cases Except.ok.inj h
    · rintro ⟨before, parameter, after, name, value, h, -⟩
      exact absurd h.symm (List.append_ne_nil_of_right_ne_nil before (List.cons_ne_nil _ _))
  | cons p parameters ih =>
    rw [forNode_cons, ih]
    constructor
    · rintro (⟨hp, before, parameter, after, name, value, rfl, hothers, h⟩ |
        ⟨name, value, unquoted, hparameter, hname, hfor, hunquote, -, h⟩)
      · exact ⟨p :: before, parameter, after, name, value, rfl,
          List.forall_mem_cons.mpr ⟨hp, hothers⟩, h⟩
      · obtain ⟨heq, hothers⟩ := forNode_some.mp h
        rw [← Option.some.inj heq] at hunquote
        exact ⟨[], p, parameters, name, value, rfl, hothers, hparameter, hname, hfor, hunquote⟩
    · rintro ⟨before, parameter, after, name, value, hparameters, hothers, hparameter, hname, hfor,
        hunquote⟩
      cases before with
      | nil =>
        obtain ⟨rfl, rfl⟩ := List.cons.inj hparameters
        exact .inr ⟨name, value, node, hparameter, hname, hfor, hunquote, rfl,
          forNode_some.mpr ⟨rfl, hothers⟩⟩
      | cons p' before =>
        obtain ⟨rfl, rfl⟩ := List.cons.inj hparameters
        obtain ⟨hp, hothers⟩ := List.forall_mem_cons.mp hothers
        exact .inl ⟨hp, before, parameter, after, name, value, rfl, hothers, hparameter, hname, hfor,
          hunquote⟩

theorem append_equals_ne_nil (name value : List Char) : name ++ '=' :: value ≠ [] :=
  List.append_ne_nil_of_right_ne_nil name (List.cons_ne_nil '=' value)

theorem OtherParameter.ne_nil (h : OtherParameter parameter) : parameter ≠ [] := by
  obtain ⟨name, value, rfl, -⟩ := h
  exact append_equals_ne_nil name value

theorem parseForwardedElement_eq_ok_iff :
    parseForwardedElement element = .ok ip ↔ ForwardedElement element ip := by
  constructor
  · intro h
    obtain ⟨parameters, hsplit, h⟩ := bind_eq_ok.mp h
    obtain ⟨node, hfor, h⟩ := bind_eq_ok.mp h
    obtain ⟨node, hnode, hparse⟩ := bind_eq_ok.mp h
    rw [orError_eq_ok.mp hnode] at hfor
    obtain ⟨pieces, -, rfl, hsealed, -, hparameters⟩ :=
      (splitQuoted_eq_ok_iff (by decide)).mp hsplit
    obtain ⟨before, parameter, after, name, value, heq, hothers, hparameter, hname, hfor, hunquote⟩ :=
      forNode_none.mp hfor
    rw [hparameters] at heq
    obtain ⟨before', rest, rfl, rfl, hrest⟩ := List.map_eq_append_iff.mp heq
    obtain ⟨parameter', after', rfl, rfl, rfl⟩ := List.map_eq_cons_iff.mp hrest
    refine ⟨before', parameter', after', rfl, hsealed, fun p hp ↦ ?_, name, value, node, hparameter,
      hname, hfor, quoting_of_unquote hunquote, nodeText_of_parseNode hparse⟩
    rw [← List.map_append] at hothers
    exact hothers (trim p) (List.mem_map_of_mem hp)
  · rintro ⟨before, parameter, after, rfl, hsealed, hothers, name, value, node, hparameter, hname,
      hfor, hquoting, hnode⟩
    have hpieces : before ++ parameter :: after ≠ [] :=
      List.append_ne_nil_of_right_ne_nil before (List.cons_ne_nil _ _)
    have htrim : ∀ p ∈ before ++ parameter :: after, trim p ≠ [] := by
      intro p hp
      rcases List.mem_append.mp hp with hp | hp
      · exact (hothers p (List.mem_append_left _ hp)).ne_nil
      · rcases List.mem_cons.mp hp with rfl | hp
        · rw [hparameter]
          exact append_equals_ne_nil name value
        · exact (hothers p (List.mem_append_right _ hp)).ne_nil
    have hsplit := (splitQuoted_eq_ok_iff (d := ';') (by decide)).mpr
      ⟨_, hpieces, rfl, hsealed, htrim, rfl⟩
    have hforNode : forNode none ((before ++ parameter :: after).map trim) = .ok (some node) := by
      refine forNode_none.mpr ⟨before.map trim, trim parameter, after.map trim, name, value, ?_, ?_,
        hparameter, hname, hfor, hquoting.unquote hnode⟩
      · rw [List.map_append, List.map_cons]
      · rw [← List.map_append]
        intro p hp
        obtain ⟨p', hp', rfl⟩ := List.mem_map.mp hp
        exact hothers p' hp'
    unfold parseForwardedElement
    rw [hsplit, ok_bind, hforNode, ok_bind, orError_some, ok_bind]
    exact hnode.parseNode

end Parameters

end Jaunder.Server.TrustedProxy
