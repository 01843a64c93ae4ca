import Jaunder.Server.ProxyChains

namespace Jaunder.Server.TrustedProxy

open Foundation.IpAddress Foundation.Outcome Foundation.QuotedLists Foundation.Trimming
open Jaunder.Common.PostText

section Lines

variable {value a b : List Char} {ips : List IpAddr} {family : HeaderFamily}

/-- A line of `X-Forwarded-For` is a list of nodes. -/
def XForwardedForLine (value : List Char) (ips : List IpAddr) : Prop :=
  ∃ nodes, nodes ≠ [] ∧ value = [','].intercalate nodes ∧
    List.Forall₂ (fun node ip ↦ NodeText (trim node) ip) nodes ips

/-- A line of `Forwarded` is a list of elements. -/
def ForwardedLine (value : List Char) (ips : List IpAddr) : Prop :=
  ∃ elements, elements ≠ [] ∧ value = [','].intercalate elements ∧
    (∀ e ∈ elements, Sealed ',' e) ∧
    List.Forall₂ (fun e ip ↦ ForwardedElement (trim e) ip) elements ips

def Line : HeaderFamily → List Char → List IpAddr → Prop
  | .forwarded => ForwardedLine
  | .xForwardedFor => XForwardedForLine

theorem mapM_eq_ok_iff {ε α β : Type} {f : α → Except ε β} {as : List α} {bs : List β} :
    as.mapM f = .ok bs ↔ List.Forall₂ (fun a b ↦ f a = .ok b) as bs := by
  induction as generalizing bs with
  | nil =>
    rw [List.mapM_nil, pure_eq_ok, List.forall₂_nil_left_iff]
    exact eq_comm
  | cons a as ih =>
    rw [List.mapM_cons, List.forall₂_cons_left_iff]
    constructor
    · intro h
      obtain ⟨b, hb, h⟩ := bind_eq_ok.mp h
      obtain ⟨bs', hbs', h⟩ := bind_eq_ok.mp h
      exact ⟨b, bs', hb, ih.mp hbs', (pure_eq_ok.mp h).symm⟩
    · rintro ⟨b, bs', hb, hbs', rfl⟩
      rw [hb, ok_bind, ih.mpr hbs', ok_bind]
      rfl

theorem trim_trim (s : List Char) : trim (trim s) = trim s := (tight_trimBy isWhitespace s).trimBy_eq

theorem parseXForwardedFor_eq_ok_iff :
    parseXForwardedFor value = .ok ips ↔ XForwardedForLine value ips := by
  rw [parseXForwardedFor, mapM_eq_ok_iff]
  simp only [parseNode_eq_ok_iff, trim_trim]
  constructor
  · intro h
    exact ⟨value.splitOn ',', List.splitOn_ne_nil _ _, (List.intercalate_splitOn ',').symm, h⟩
  · rintro ⟨nodes, hne, rfl, hnodes⟩
    have hcomma : ∀ node ∈ nodes, ',' ∉ node :=
      ((List.forall₂_and_left _ _).mp (hnodes.imp (fun _ _ h ↦ ⟨not_mem_node rfl rfl h, h⟩))).1
    rwa [List.splitOn_intercalate ',' hcomma hne]

theorem ForwardedElement.ne_nil {element : List Char} {ip : IpAddr}
    (h : ForwardedElement (trim element) ip) : trim element ≠ [] := by
  intro hnil
  rw [hnil] at h
  cases parseForwardedElement_eq_ok_iff.mpr h

theorem parseForwarded_eq_ok_iff : parseForwarded value = .ok ips ↔ ForwardedLine value ips := by
  constructor
  · intro h
    obtain ⟨entries, hsplit, h⟩ := bind_eq_ok.mp h
    obtain ⟨elements, hne, hvalue, hsealed, -, rfl⟩ :=
      (splitQuoted_eq_ok_iff (by decide)).mp hsplit
    rw [mapM_eq_ok_iff, List.forall₂_map_left_iff] at h
    exact ⟨elements, hne, hvalue, hsealed,
      h.imp (fun _ _ ↦ parseForwardedElement_eq_ok_iff.mp)⟩
  · rintro ⟨elements, hne, hvalue, hsealed, hips⟩
    have htrim : ∀ e ∈ elements, trim e ≠ [] :=
      ((List.forall₂_and_left _ _).mp (hips.imp (fun _ _ h ↦ ⟨h.ne_nil, h⟩))).1
    have hsplit := (splitQuoted_eq_ok_iff (d := ',') (by decide)).mpr
      ⟨elements, hne, hvalue, hsealed, htrim, rfl⟩
    rw [parseForwarded, hsplit, ok_bind, mapM_eq_ok_iff, List.forall₂_map_left_iff]
    exact hips.imp (fun _ _ ↦ parseForwardedElement_eq_ok_iff.mpr)

theorem parseFamily_eq_ok_iff : parseFamily family value = .ok ips ↔ Line family value ips := by
  cases family with
  | forwarded => exact parseForwarded_eq_ok_iff
  | xForwardedFor => exact parseXForwardedFor_eq_ok_iff

/-- A comma of a family at which its lists can be cut. -/
def TopLevel : HeaderFamily → List Char → Prop
  | .forwarded, before => Closed before
  | .xForwardedFor, _ => True

theorem mapM_append_eq_ok {ε α β : Type} {f : α → Except ε β} {as as' : List α} {bs : List β} :
    (as ++ as').mapM f = .ok bs ↔
      ∃ xs ys, as.mapM f = .ok xs ∧ as'.mapM f = .ok ys ∧ bs = xs ++ ys := by
  rw [List.mapM_append]
  constructor
  · intro h
    obtain ⟨xs, hxs, h⟩ := bind_eq_ok.mp h
    obtain ⟨ys, hys, h⟩ := bind_eq_ok.mp h
    exact ⟨xs, ys, hxs, hys, (pure_eq_ok.mp h).symm⟩
  · rintro ⟨xs, ys, hxs, hys, rfl⟩
    rw [hxs, ok_bind, hys, ok_bind]
    rfl

/-- A line is what its two halves are one after the other. -/
theorem parseFamily_append (ha : TopLevel family a) :
    parseFamily family (a ++ ',' :: b) = .ok ips ↔
      ∃ xs ys, parseFamily family a = .ok xs ∧ parseFamily family b = .ok ys ∧ ips = xs ++ ys := by
  cases family with
  | forwarded =>
    change parseForwarded _ = _ ↔ ∃ xs ys, parseForwarded _ = _ ∧ parseForwarded _ = _ ∧ _
    constructor
    · intro h
      obtain ⟨entries, hsplit, h⟩ := bind_eq_ok.mp h
      obtain ⟨as, bs, has, hbs, rfl⟩ := (splitQuoted_append (by decide) ha).mp hsplit
      obtain ⟨xs, ys, hxs, hys, rfl⟩ := mapM_append_eq_ok.mp h
      refine ⟨xs, ys, ?_, ?_, rfl⟩
      · rw [parseForwarded, has, ok_bind, hxs]
      · rw [parseForwarded, hbs, ok_bind, hys]
    · rintro ⟨xs, ys, hxs, hys, rfl⟩
      obtain ⟨as, has, hxs⟩ := bind_eq_ok.mp hxs
      obtain ⟨bs, hbs, hys⟩ := bind_eq_ok.mp hys
      rw [parseForwarded, (splitQuoted_append (by decide) ha).mpr ⟨as, bs, has, hbs, rfl⟩, ok_bind]
      exact mapM_append_eq_ok.mpr ⟨xs, ys, hxs, hys, rfl⟩
  | xForwardedFor =>
    change parseXForwardedFor _ = _ ↔ ∃ xs ys, parseXForwardedFor _ = _ ∧ parseXForwardedFor _ = _ ∧ _
    rw [parseXForwardedFor, List.splitOn_append_cons_self]
    exact mapM_append_eq_ok

def isVisible (b : UInt8) : Bool := (32 ≤ b ∧ b < 127) ∨ b = 9

theorem toStr_eq_some {bytes : List UInt8} {text : List Char} : toStr bytes = some text ↔
    (∀ b ∈ bytes, isVisible b = true) ∧ text = bytes.map (fun b ↦ Char.ofNat b.toNat) := by
  change (if bytes.all isVisible = true then some (bytes.map (fun b ↦ Char.ofNat b.toNat)) else none) =
    some text ↔ _
  split_ifs with h
  · exact ⟨fun heq ↦ ⟨List.all_eq_true.mp h, (Option.some.inj heq).symm⟩,
      fun heq ↦ congrArg some heq.2.symm⟩
  · exact ⟨fun heq ↦ (by cases heq), fun heq ↦ absurd (List.all_eq_true.mpr heq.1) h⟩

theorem toStr_append {x y : List UInt8} {text : List Char} :
    toStr (x ++ 44 :: y) = some text ↔
      ∃ a b, toStr x = some a ∧ toStr y = some b ∧ text = a ++ ',' :: b := by
  simp only [toStr_eq_some]
  rw [List.forall_mem_append, List.forall_mem_cons, List.map_append, List.map_cons]
  constructor
  · rintro ⟨⟨hx, -, hy⟩, rfl⟩
    exact ⟨_, _, ⟨hx, rfl⟩, ⟨hy, rfl⟩, rfl⟩
  · rintro ⟨a, b, ⟨hx, rfl⟩, ⟨hy, rfl⟩, rfl⟩
    exact ⟨⟨hx, rfl, hy⟩, rfl⟩

end Lines

section Chains

variable {family : HeaderFamily} {lines lines' : List (List UInt8)} {chain : List IpAddr}

/-- A line of a header with its addresses. -/
def LineOf (family : HeaderFamily) (bytes : List UInt8) (ips : List IpAddr) : Prop :=
  ∃ text, toStr bytes = some text ∧ Line family text ips

/-- The lines of a family name the hops of a chain, of which there are not too many. -/
def Names (family : HeaderFamily) (lines : List (List UInt8)) (chain : List IpAddr) : Prop :=
  ∃ hops, List.Forall₂ (LineOf family) lines hops ∧ chain = hops.flatten ∧ chain.length ≤ maxChainHops

theorem lineOf_iff {bytes : List UInt8} {ips : List IpAddr} : LineOf family bytes ips ↔
    (orError (toStr bytes) .malformed >>= parseFamily family) = .ok ips := by
  constructor
  · rintro ⟨text, htext, hline⟩
    rw [htext, orError_some, ok_bind]
    exact parseFamily_eq_ok_iff.mpr hline
  · intro h
    obtain ⟨text, htext, h⟩ := bind_eq_ok.mp h
    exact ⟨text, orError_eq_ok.mp htext, parseFamily_eq_ok_iff.mp h⟩

theorem chainLoop_eq_ok_iff {before result : List IpAddr} (hbefore : before.length ≤ maxChainHops) :
    chainLoop family before lines = .ok result ↔
      ∃ hops, List.Forall₂ (LineOf family) lines hops ∧ result = before ++ hops.flatten ∧
        result.length ≤ maxChainHops := by
  induction lines generalizing before result with
  | nil =>
    rw [chainLoop]
    constructor
    · intro h
      obtain rfl := Except.ok.inj h
      exact ⟨[], .nil, (List.append_nil _).symm, hbefore⟩
    · rintro ⟨hops, hhops, rfl, -⟩
      rw [List.forall₂_nil_left_iff.mp hhops, List.flatten_nil, List.append_nil]
  | cons bytes lines ih =>
    constructor
    · intro h
      obtain ⟨text, htext, h⟩ := bind_eq_ok.mp h
      obtain ⟨entries, hentries, h⟩ := bind_eq_ok.mp h
      obtain ⟨_, hlimit, h⟩ := bind_eq_ok.mp h
      obtain ⟨hops, hhops, rfl, hresult⟩ := (ih (require_eq_ok.mp hlimit)).mp h
      refine ⟨entries :: hops, .cons ?_ hhops, ?_, hresult⟩
      · exact ⟨text, orError_eq_ok.mp htext, parseFamily_eq_ok_iff.mp hentries⟩
      · rw [List.flatten_cons, List.append_assoc]
    · rintro ⟨hops, hhops, rfl, hresult⟩
      obtain ⟨entries, hops, ⟨text, htext, hline⟩, hrest, rfl⟩ :=
        List.forall₂_cons_left_iff.mp hhops
      have hflatten : before ++ (entries :: hops).flatten = before ++ entries ++ hops.flatten := by
        rw [List.flatten_cons, List.append_assoc]
      rw [hflatten] at hresult ⊢
      have hlimit : (before ++ entries).length ≤ maxChainHops := by
        rw [List.length_append] at hresult
        omega
      rw [chainLoop, htext, orError_some, ok_bind, parseFamily_eq_ok_iff.mpr hline, ok_bind,
        require_pos hlimit, ok_bind]
      exact (ih hlimit).mpr ⟨hops, hrest, rfl, hresult⟩

/-- A chain is accepted exactly when the lines name it. -/
theorem chainLoop_names : chainLoop family [] lines = .ok chain ↔ Names family lines chain :=
  chainLoop_eq_ok_iff (Nat.zero_le _)

/-- The same list with one of its lines cut at a comma. -/
inductive Cut (family : HeaderFamily) : List (List UInt8) → List (List UInt8) → Prop
  | comma {before after : List (List UInt8)} {a b : List UInt8} :
      (∀ text, toStr a = some text → TopLevel family text) →
        Cut family (before ++ (a ++ 44 :: b) :: after) (before ++ a :: b :: after)

/-- Two ways to write a list over header lines. -/
def SameList (family : HeaderFamily) : List (List UInt8) → List (List UInt8) → Prop :=
  Relation.EqvGen (Cut family)

theorem lineOf_append {a b : List UInt8} {ips : List IpAddr}
    (ha : ∀ text, toStr a = some text → TopLevel family text) :
    LineOf family (a ++ 44 :: b) ips ↔
      ∃ xs ys, LineOf family a xs ∧ LineOf family b ys ∧ ips = xs ++ ys := by
  constructor
  · rintro ⟨text, htext, hline⟩
    obtain ⟨x, y, hx, hy, rfl⟩ := toStr_append.mp htext
    obtain ⟨xs, ys, hxs, hys, rfl⟩ :=
      (parseFamily_append (ha x hx)).mp (parseFamily_eq_ok_iff.mpr hline)
    exact ⟨xs, ys, ⟨x, hx, parseFamily_eq_ok_iff.mp hxs⟩, ⟨y, hy, parseFamily_eq_ok_iff.mp hys⟩, rfl⟩
  · rintro ⟨xs, ys, ⟨x, hx, hxs⟩, ⟨y, hy, hys⟩, rfl⟩
    refine ⟨x ++ ',' :: y, toStr_append.mpr ⟨x, y, hx, hy, rfl⟩, parseFamily_eq_ok_iff.mp ?_⟩
    exact (parseFamily_append (ha x hx)).mpr
      ⟨xs, ys, parseFamily_eq_ok_iff.mpr hxs, parseFamily_eq_ok_iff.mpr hys, rfl⟩

theorem forall₂_append_left {α β : Type} {R : α → β → Prop} {xs ys : List α} {zs : List β} :
    List.Forall₂ R (xs ++ ys) zs ↔
      ∃ as bs, List.Forall₂ R xs as ∧ List.Forall₂ R ys bs ∧ zs = as ++ bs := by
  induction xs generalizing zs with
  | nil =>
    constructor
    · exact fun h ↦ ⟨[], zs, .nil, h, rfl⟩
    · rintro ⟨as, bs, has, hbs, rfl⟩
      rwa [List.forall₂_nil_left_iff.mp has]
  | cons x xs ih =>
    rw [List.cons_append, List.forall₂_cons_left_iff]
    constructor
    · rintro ⟨z, zs', hz, hzs, rfl⟩
      obtain ⟨as, bs, has, hbs, rfl⟩ := ih.mp hzs
      exact ⟨z :: as, bs, .cons hz has, hbs, rfl⟩
    · rintro ⟨as, bs, has, hbs, rfl⟩
      obtain ⟨a, as', ha, has', rfl⟩ := List.forall₂_cons_left_iff.mp has
      exact ⟨a, as' ++ bs, ha, ih.mpr ⟨as', bs, has', hbs, rfl⟩, rfl⟩

theorem Cut.names (h : Cut family lines lines') :
    Names family lines chain ↔ Names family lines' chain := by
  obtain @⟨before, after, a, b, ha⟩ := h
  constructor
  · rintro ⟨hops, hhops, rfl, hlimit⟩
    obtain ⟨xs, rest, hxs, hrest, rfl⟩ := forall₂_append_left.mp hhops
    obtain ⟨ips, zs, hips, hzs, rfl⟩ := List.forall₂_cons_left_iff.mp hrest
    obtain ⟨as, bs, has, hbs, rfl⟩ := (lineOf_append ha).mp hips
    refine ⟨xs ++ as :: bs :: zs, ?_, ?_, hlimit⟩
    · exact forall₂_append_left.mpr ⟨xs, as :: bs :: zs, hxs, .cons has (.cons hbs hzs), rfl⟩
    · simp only [List.flatten_append, List.flatten_cons, List.append_assoc]
  · rintro ⟨hops, hhops, rfl, hlimit⟩
    obtain ⟨xs, rest, hxs, hrest, rfl⟩ := forall₂_append_left.mp hhops
    obtain ⟨as, tail, has, htail, rfl⟩ := List.forall₂_cons_left_iff.mp hrest
    obtain ⟨bs, zs, hbs, hzs, rfl⟩ := List.forall₂_cons_left_iff.mp htail
    refine ⟨xs ++ (as ++ bs) :: zs, ?_, ?_, hlimit⟩
    · exact forall₂_append_left.mpr ⟨xs, (as ++ bs) :: zs, hxs,
        .cons ((lineOf_append ha).mpr ⟨as, bs, has, hbs, rfl⟩) hzs, rfl⟩
    · simp only [List.flatten_append, List.flatten_cons, List.append_assoc]

theorem Cut.nil_iff (h : Cut family lines lines') : lines = [] ↔ lines' = [] := by
  obtain @⟨before, after, a, b, -⟩ := h
  constructor
  · exact fun hnil ↦ absurd hnil (List.append_ne_nil_of_right_ne_nil before (List.cons_ne_nil _ _))
  · exact fun hnil ↦ absurd hnil (List.append_ne_nil_of_right_ne_nil before (List.cons_ne_nil _ _))

theorem SameList.nil_iff (h : SameList family lines lines') : lines = [] ↔ lines' = [] := by
  induction h with
  | rel _ _ h => exact h.nil_iff
  | refl _ => exact Iff.rfl
  | symm _ _ _ ih => exact ih.symm
  | trans _ _ _ _ _ ih₁ ih₂ => exact ih₁.trans ih₂

/-- The chain of a list does not depend on how it is cut. -/
theorem SameList.names (h : SameList family lines lines') :
    Names family lines chain ↔ Names family lines' chain := by
  induction h with
  | rel _ _ h => exact h.names
  | refl _ => exact Iff.rfl
  | symm _ _ _ ih => exact ih.symm
  | trans _ _ _ _ _ ih₁ ih₂ => exact ih₁.trans ih₂

end Chains

section Panics

variable {α : Type} {value : List Char} {family : HeaderFamily}

/-- The computation does not panic. -/
abbrev Safe (x : Except ChainError α) : Prop := ErrorsIn (· ≠ .outOfRange) x

theorem safe_parseNode : Safe (parseNode value) := by
  have haddress (text : List Char) : Safe (parseAddress text) := errorsIn_orError nofun
  have herror : Safe (.error .malformed : Except ChainError IpAddr) := errorsIn_error nofun
  unfold parseNode
  dsimp only
  split_ifs
  · exact herror
  · split
    · exact errorsIn_ok _
    · split
      · split
        · exact herror
        · split
          · split_ifs
            · exact haddress _
            · exact herror
          · split_ifs
            · exact haddress _
            · exact herror
      · split
        · exact herror
        · split_ifs
          · exact haddress _
          · exact herror

theorem safe_splitQuoted {d : Char} (hd : d ≠ '"') : Safe (splitQuoted value d) := by
  intro e he heq
  rw [heq] at he
  exact splitQuoted_ne_outOfRange hd he

theorem safe_unquote : Safe (unquote value) := by
  intro e he heq
  rw [heq] at he
  exact unquote_ne_outOfRange he

theorem safe_forNode (node : Option (List Char)) (parameters : List (List Char)) :
    Safe (forNode node parameters) := by
  induction parameters generalizing node with
  | nil => exact errorsIn_ok node
  | cons parameter parameters ih =>
    refine (errorsIn_orError nofun).bind (fun ⟨name, value⟩ _ ↦ ?_)
    dsimp only
    split_ifs
    · exact safe_unquote.bind (fun unquoted _ ↦
        (errorsIn_require nofun).bind (fun _ _ ↦ ih (some unquoted)))
    · exact ih node

theorem safe_parseForwardedElement : Safe (parseForwardedElement value) :=
  (safe_splitQuoted (by decide)).bind fun parameters _ ↦ (safe_forNode none parameters).bind
    fun _ _ ↦ (errorsIn_orError nofun).bind fun _ _ ↦ safe_parseNode

theorem safe_parseFamily : Safe (parseFamily family value) := by
  cases family with
  | forwarded =>
    exact (safe_splitQuoted (by decide)).bind
      fun _ _ ↦ errorsIn_mapM fun _ _ ↦ safe_parseForwardedElement
  | xForwardedFor => exact errorsIn_mapM fun _ _ ↦ safe_parseNode

theorem safe_chainLoop (chain : List IpAddr) (lines : List (List UInt8)) :
    Safe (chainLoop family chain lines) := by
  induction lines generalizing chain with
  | nil => exact errorsIn_ok chain
  | cons bytes lines ih =>
    exact (errorsIn_orError nofun).bind fun _ _ ↦ safe_parseFamily.bind
      fun entries _ ↦ (errorsIn_require nofun).bind fun _ _ ↦ ih (chain ++ entries)

theorem safe_canonicalChain (headers : Headers) (family : HeaderFamily) :
    Safe (canonicalChain headers family) := by
  unfold canonicalChain
  split_ifs
  · exact errorsIn_ok none
  · exact (safe_chainLoop [] (headers family)).map

end Panics

section Resolution

variable {config : TrustedProxyConfig} {headers headers' : Headers} {family : HeaderFamily}
  {peer : SocketAddr} {chain left right : List IpAddr}

theorem canonicalChain_eq_some : canonicalChain headers family = .ok (some chain) ↔
    headers family ≠ [] ∧ Names family (headers family) chain := by
  unfold canonicalChain
  split_ifs with h
  · exact ⟨fun heq ↦ (by cases Except.ok.inj heq), fun hnames ↦ absurd h hnames.1⟩
  · rw [map_eq_ok]
    constructor
    · rintro ⟨chain', hchain, heq⟩
      obtain rfl := Option.some.inj heq
      exact ⟨h, chainLoop_names.mp hchain⟩
    · exact fun hnames ↦ ⟨chain, chainLoop_names.mpr hnames.2, rfl⟩

theorem canonicalChain_eq_none : canonicalChain headers family = .ok none ↔ headers family = [] := by
  unfold canonicalChain
  split_ifs with h
  · exact ⟨fun _ ↦ h, fun _ ↦ rfl⟩
  · rw [map_eq_ok]
    exact ⟨fun ⟨_, _, heq⟩ ↦ (by cases heq), fun hnil ↦ absurd hnil h⟩

/-- The address that a request is attributed to. -/
def effectiveClient (config : TrustedProxyConfig) (headers : Headers) (peer : Option SocketAddr) :
    Option IpAddr :=
  (resolve config headers peer).bind RequestAddress.effectiveClientIp

theorem resolve_untrusted (h : config.isTrustedProxy (canonicalIp peer.ip) = false) :
    resolve config headers (some peer) = some ⟨some peer, some (canonicalIp peer.ip), .socket⟩ :=
  if_pos h

/-- The answer from the chains of the two families. -/
def answer (config : TrustedProxyConfig) (peer : SocketAddr) :
    Option (List IpAddr) → Option (List IpAddr) → RequestAddress
  | some left, some right =>
    if left ≠ right then ⟨some peer, some (canonicalIp peer.ip), .conflict⟩
    else walkHops config peer (canonicalIp peer.ip) left
  | none, some hops => walkHops config peer (canonicalIp peer.ip) hops
  | some hops, none => walkHops config peer (canonicalIp peer.ip) hops
  | none, none => ⟨some peer, some (canonicalIp peer.ip), .socket⟩

theorem resolve_trusted (h : ¬config.isTrustedProxy (canonicalIp peer.ip) = false)
    {forwarded xForwardedFor : Option (List IpAddr)}
    (hforwarded : canonicalChain headers .forwarded = .ok forwarded)
    (hx : canonicalChain headers .xForwardedFor = .ok xForwardedFor) :
    resolve config headers (some peer) = some (answer config peer forwarded xForwardedFor) := by
  unfold resolve
  dsimp only
  rw [if_neg h, hforwarded, hx]
  cases forwarded with
  | none =>
    cases xForwardedFor with
    | none => rfl
    | some right => rfl
  | some left =>
    cases xForwardedFor with
    | none => rfl
    | some right =>
      unfold answer
      dsimp only
      split_ifs
      · rfl
      · rfl

theorem resolve_refused (h : ¬config.isTrustedProxy (canonicalIp peer.ip) = false)
    {e : ChainError} (he : canonicalChain headers family = .error e) :
    ∃ outcome, resolve config headers (some peer) =
      some ⟨some peer, some (canonicalIp peer.ip), outcome⟩ := by
  have hforwarded := safe_canonicalChain headers .forwarded
  have hx := safe_canonicalChain headers .xForwardedFor
  unfold resolve
  dsimp only
  rw [if_neg h]
  generalize hchain : canonicalChain headers .forwarded = forwarded at hforwarded
  generalize hchain' : canonicalChain headers .xForwardedFor = xForwardedFor at hx
  have herror : (∃ e, forwarded = .error e) ∨ ∃ e, xForwardedFor = .error e := by
    cases family with
    | forwarded => exact .inl ⟨e, hchain.symm.trans he⟩
    | xForwardedFor => exact .inr ⟨e, hchain'.symm.trans he⟩
  cases forwarded with
  | error e₁ =>
    have h₁ := hforwarded e₁ rfl
    cases xForwardedFor with
    | error e₂ =>
      have h₂ := hx e₂ rfl
      cases e₁ <;> cases e₂ <;> first | exact ⟨_, rfl⟩ | contradiction
    | ok x => cases e₁ <;> first | exact ⟨_, rfl⟩ | contradiction
  | ok f =>
    cases xForwardedFor with
    | error e₂ =>
      have h₂ := hx e₂ rfl
      cases e₂ <;> first | exact ⟨_, rfl⟩ | contradiction
    | ok x =>
      rcases herror with ⟨e, heq⟩ | ⟨e, heq⟩
      · cases heq
      · cases heq

/-- A request is always answered. -/
theorem resolve_isSome (config : TrustedProxyConfig) (headers : Headers) (peer : Option SocketAddr) :
    ∃ address, resolve config headers peer = some address := by
  cases peer with
  | none => exact ⟨_, rfl⟩
  | some peer =>
    by_cases htrusted : config.isTrustedProxy (canonicalIp peer.ip) = false
    · exact ⟨_, resolve_untrusted htrusted⟩
    · cases hforwarded : canonicalChain headers .forwarded with
      | error e =>
        obtain ⟨outcome, h⟩ := resolve_refused htrusted hforwarded
        exact ⟨_, h⟩
      | ok forwarded =>
        cases hx : canonicalChain headers .xForwardedFor with
        | error e =>
          obtain ⟨outcome, h⟩ := resolve_refused htrusted hx
          exact ⟨_, h⟩
        | ok xForwardedFor => exact ⟨_, resolve_trusted htrusted hforwarded hx⟩

theorem effectiveClient_untrusted (h : config.isTrustedProxy (canonicalIp peer.ip) = false) :
    effectiveClient config headers (some peer) = some (canonicalIp peer.ip) := by
  rw [effectiveClient, resolve_untrusted h]
  rfl

/-- A family whose lines name no chain leaves the peer as the client. -/
theorem effectiveClient_refused (hne : headers family ≠ [])
    (h : ∀ chain, ¬Names family (headers family) chain) :
    effectiveClient config headers (some peer) = some (canonicalIp peer.ip) := by
  by_cases htrusted : config.isTrustedProxy (canonicalIp peer.ip) = false
  · exact effectiveClient_untrusted htrusted
  · cases hchain : canonicalChain headers family with
    | error e =>
      obtain ⟨outcome, hresolve⟩ := resolve_refused htrusted hchain
      rw [effectiveClient, hresolve]
      rfl
    | ok found =>
      cases found with
      | none => exact absurd (canonicalChain_eq_none.mp hchain) hne
      | some chain => exact absurd (canonicalChain_eq_some.mp hchain).2 (h chain)

/-- Two chains that differ leave the peer as the client. -/
theorem effectiveClient_conflict (hleft : canonicalChain headers .forwarded = .ok (some left))
    (hright : canonicalChain headers .xForwardedFor = .ok (some right)) (hne : left ≠ right) :
    effectiveClient config headers (some peer) = some (canonicalIp peer.ip) := by
  by_cases htrusted : config.isTrustedProxy (canonicalIp peer.ip) = false
  · exact effectiveClient_untrusted htrusted
  · rw [effectiveClient, resolve_trusted htrusted hleft hright, answer, if_pos hne]
    rfl

theorem answer_same (config : TrustedProxyConfig) (peer : SocketAddr) (hops : List IpAddr) :
    (answer config peer (some hops) (some hops)).outcome ≠ .conflict := by
  unfold answer walkHops
  dsimp only
  rw [if_neg (not_not.mpr rfl)]
  split
  all_goals nofun

theorem resolve_no_conflict (hleft : canonicalChain headers .forwarded = .ok (some chain))
    (hright : canonicalChain headers .xForwardedFor = .ok (some chain)) {address : RequestAddress}
    (h : resolve config headers (some peer) = some address) : address.outcome ≠ .conflict := by
  by_cases htrusted : config.isTrustedProxy (canonicalIp peer.ip) = false
  · rw [resolve_untrusted htrusted] at h
    rw [← Option.some.inj h]
    nofun
  · rw [resolve_trusted htrusted hleft hright] at h
    rw [← Option.some.inj h]
    exact answer_same config peer chain

/-- Lists that are cut in different ways have the same chain or are both refused. -/
theorem canonicalChain_same (h : SameList family (headers family) (headers' family))
    {found : Option (List IpAddr)} (hfound : canonicalChain headers family = .ok found) :
    canonicalChain headers' family = .ok found := by
  cases found with
  | none => exact canonicalChain_eq_none.mpr (h.nil_iff.mp (canonicalChain_eq_none.mp hfound))
  | some chain =>
    obtain ⟨hne, hnames⟩ := canonicalChain_eq_some.mp hfound
    exact canonicalChain_eq_some.mpr ⟨fun hnil ↦ hne (h.nil_iff.mpr hnil), h.names.mp hnames⟩

theorem SameList.symm {lines lines' : List (List UInt8)} (h : SameList family lines lines') :
    SameList family lines' lines :=
  Relation.EqvGen.symm _ _ h

theorem canonicalChain_error_same (h : SameList family (headers family) (headers' family))
    {e : ChainError} (he : canonicalChain headers family = .error e) :
    ∃ e', canonicalChain headers' family = .error e' := by
  cases hchain : canonicalChain headers' family with
  | error e' => exact ⟨e', rfl⟩
  | ok found =>
    rw [canonicalChain_same h.symm hchain] at he
    cases he

theorem effectiveClient_same
    (h : ∀ family, SameList family (headers family) (headers' family)) :
    effectiveClient config headers (some peer) = effectiveClient config headers' (some peer) := by
  by_cases htrusted : config.isTrustedProxy (canonicalIp peer.ip) = false
  · rw [effectiveClient_untrusted htrusted, effectiveClient_untrusted htrusted]
  · have hrefused {family : HeaderFamily} {e : ChainError}
        (he : canonicalChain headers family = .error e) :
        effectiveClient config headers (some peer) = effectiveClient config headers' (some peer) := by
      obtain ⟨e', he'⟩ := canonicalChain_error_same (h family) he
      obtain ⟨outcome, hresolve⟩ := resolve_refused htrusted he
      obtain ⟨outcome', hresolve'⟩ := resolve_refused htrusted he'
      rw [effectiveClient, effectiveClient, hresolve, hresolve']
      rfl
    cases hforwarded : canonicalChain headers .forwarded with
    | error e => exact hrefused hforwarded
    | ok forwarded =>
      cases hx : canonicalChain headers .xForwardedFor with
      | error e => exact hrefused hx
      | ok xForwardedFor =>
        rw [effectiveClient, effectiveClient, resolve_trusted htrusted hforwarded hx,
          resolve_trusted htrusted (canonicalChain_same (h .forwarded) hforwarded)
            (canonicalChain_same (h .xForwardedFor) hx)]

/-- What a trusted set makes of the forwarding headers of a request. -/
structure Resolution (config : TrustedProxyConfig) : Prop where
  recut : ∀ headers headers' peer, (∀ family, SameList family (headers family) (headers' family)) →
    effectiveClient config headers peer = effectiveClient config headers' peer
  accepted : ∀ headers family chain, canonicalChain headers family = .ok (some chain) ↔
    headers family ≠ [] ∧ Names family (headers family) chain
  agreement : ∀ headers peer chain address, headers .forwarded ≠ [] → headers .xForwardedFor ≠ [] →
    Names .forwarded (headers .forwarded) chain → Names .xForwardedFor (headers .xForwardedFor) chain →
    resolve config headers (some peer) = some address → address.outcome ≠ .conflict
  untrusted : ∀ headers headers' peer, config.isTrustedProxy (canonicalIp peer.ip) = false →
    resolve config headers (some peer) = resolve config headers' (some peer)
  refused : ∀ headers peer family, headers family ≠ [] →
    (∀ chain, ¬Names family (headers family) chain) →
    effectiveClient config headers (some peer) = some (canonicalIp peer.ip)
  conflict : ∀ headers peer left right, canonicalChain headers .forwarded = .ok (some left) →
    canonicalChain headers .xForwardedFor = .ok (some right) → left ≠ right →
    effectiveClient config headers (some peer) = some (canonicalIp peer.ip)
  inRange : ∀ headers peer, ∃ address, resolve config headers peer = some address

theorem proxy_resolution :
    (∀ config, Resolution config) ∧
      (∀ value delimiter, delimiter = ',' ∨ delimiter = ';' →
        splitQuoted value delimiter ≠ .error .outOfRange) ∧
      (∀ value, unquote value ≠ .error .outOfRange) ∧
      ∀ value, parseNode value ≠ .error .outOfRange := by
  refine ⟨fun config ↦ ?_, fun value delimiter hdelimiter ↦ ?_, fun _ ↦ unquote_ne_outOfRange,
    fun value h ↦ safe_parseNode _ h rfl⟩
  · constructor
    · intro headers headers' peer h
      cases peer with
      | none => rfl
      | some peer => exact effectiveClient_same h
    · exact fun headers family chain ↦ canonicalChain_eq_some
    · intro headers peer chain address hforwarded hx hleft hright h
      exact resolve_no_conflict (canonicalChain_eq_some.mpr ⟨hforwarded, hleft⟩)
        (canonicalChain_eq_some.mpr ⟨hx, hright⟩) h
    · intro headers headers' peer h
      rw [resolve_untrusted h, resolve_untrusted h]
    · exact fun headers peer family hne h ↦ effectiveClient_refused hne h
    · exact fun headers peer left right hleft hright hne ↦ effectiveClient_conflict hleft hright hne
    · exact fun headers peer ↦ resolve_isSome config headers peer
  · rcases hdelimiter with rfl | rfl
    · exact splitQuoted_ne_outOfRange (by decide)
    · exact splitQuoted_ne_outOfRange (by decide)

end Resolution

section Escapes

/-- The inside of a quoted string with the text that it stands for. -/
inductive Spells : List Char → List Char → Prop
  | nil : Spells [] []
  | plain {c : Char} {text inside : List Char} : c ≠ '"' → c ≠ '\\' → Spells text inside →
      Spells (c :: text) (c :: inside)
  | pair {c : Char} {text inside : List Char} : Spells text inside →
      Spells (c :: text) ('\\' :: c :: inside)

def escapedNode : List Char := "203.0.113.1\\0".toList

def escapedHeaders : Headers
  | .forwarded => [("for=\"203.0.113.1\\0\"".toUTF8.data.toList)]
  | .xForwardedFor => []

theorem spells_escapedNode : Spells "203.0.113.10".toList escapedNode := by
  have hunescaped (text : List Char) (h : ∀ c ∈ text, c ≠ '"' ∧ c ≠ '\\') {rest inside : List Char}
      (hrest : Spells rest inside) : Spells (text ++ rest) (text ++ inside) := by
    induction text with
    | nil => exact hrest
    | cons c text ih =>
      obtain ⟨hc, htext⟩ := List.forall_mem_cons.mp h
      exact .plain hc.1 hc.2 (ih htext)
  exact hunescaped "203.0.113.1".toList (List.forall_iff_forall_mem.mp (by decide)) (.pair .nil)

/-- A quoted pair in the node is refused, whatever the node is. -/
theorem escaped_node_refused :
    NodeText "203.0.113.10".toList (.v4 ⟨![203, 0, 113, 10]⟩) ∧
      Spells "203.0.113.10".toList escapedNode ∧
      canonicalChain escapedHeaders .forwarded = .error .malformed := by
  have hparse : IpAddr.parse "203.0.113.10".toList = some (.v4 ⟨![203, 0, 113, 10]⟩) := by decide
  exact ⟨.bare hparse, spells_escapedNode, rfl⟩

end Escapes

end Jaunder.Server.TrustedProxy
