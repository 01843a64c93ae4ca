import Jaunder.Common.References
import Jaunder.Foundation.Substrings

namespace Jaunder.Common.MediaUrl

open Foundation.Octets Foundation.Substrings
open Jaunder.Common.Hash Jaunder.Common.Media Jaunder.Common.References

/-- `url::Url` by its components, the host serialized. -/
structure Url where
  scheme : List Char
  username : List Char
  password : Option (List Char)
  host : Option (List Char)
  port : Option ℕ
  path : List Char
  query : Option (List Char)
  fragment : Option (List Char)
deriving DecidableEq

def Url.credentials (url : Url) : List Char :=
  if url.username = [] ∧ url.password = none then []
  else url.username ++ url.password.elim [] (':' :: ·) ++ ['@']

def Url.portText (url : Url) : List Char :=
  url.port.elim [] (fun port ↦ ':' :: Nat.toDigits 10 port)

def Url.authority (url : Url) : List Char :=
  url.host.elim [] (fun host ↦ "//".toList ++ (url.credentials ++ host ++ url.portText))

/-- `String::from(url)` -/
def Url.serialize (url : Url) : List Char :=
  url.scheme ++ ':' :: (url.authority ++ url.path ++ url.query.elim [] ('?' :: ·) ++
    url.fragment.elim [] ('#' :: ·))

def Url.IsHttp (url : Url) : Prop := url.scheme = "http".toList ∨ url.scheme = "https".toList

instance (url : Url) : Decidable url.IsHttp := inferInstanceAs (Decidable (_ ∨ _))

/-- What the URL standard says of a parsed HTTP URL. -/
structure UrlStandard (parse : List Char → Option Url) : Prop where
  serialized : ∀ s url, parse s = some url → url.IsHttp → parse url.serialize = some url
  fragment : ∀ s url, parse s = some url → '#' ∉ s → url.fragment = none
  host : ∀ s url, parse s = some url → url.IsHttp →
    ∃ host, url.host = some host ∧ ∀ c ∈ host, c ≠ '/' ∧ c ≠ '?' ∧ c ≠ '#' ∧ c ≠ '@'
  path : ∀ s url, parse s = some url → url.IsHttp →
    ∃ rest, url.path = '/' :: rest ∧ '?' ∉ rest ∧ '#' ∉ rest
  query : ∀ s url, parse s = some url → url.IsHttp → ∀ query ∈ url.query, '#' ∉ query

def hasUserinfo (input : List Char) (url : Url) : Bool :=
  let authority := (stripPrefix "//".toList input).or ((splitOnce "://".toList input).map Prod.snd)
  url.username ≠ [] ∨ url.password.isSome ∨
    authority.any (fun authority ↦ '@' ∈ authority.takeWhile (fun c ↦ c ≠ '/' ∧ c ≠ '?'))

def isAsciiAlphabetic (c : Char) : Bool := ('a' ≤ c ∧ c ≤ 'z') ∨ ('A' ≤ c ∧ c ≤ 'Z')

def isSchemeCharacter (c : Char) : Bool :=
  isAsciiAlphabetic c ∨ ('0' ≤ c ∧ c ≤ '9') ∨ c = '+' ∨ c = '-' ∨ c = '.'

def hasLeadingUrlScheme (input : List Char) : Bool :=
  match splitOnce [':'] input with
  | none => false
  | some ([], _) => false
  | some (c :: scheme, _) => isAsciiAlphabetic c && scheme.all isSchemeCharacter

/-- `percent_decode_str(segment).decode_utf8()` -/
def percentDecodeUtf8 (segment : List Char) : Option (List Char) :=
  let bytes := percentDecode (utf8 segment)
  if utf8 (decodeLossy bytes) = bytes then some (decodeLossy bytes) else none

def decodedFilename (segment : List Char) : Option Filename := do
  let decoded ← percentDecodeUtf8 segment
  (Filename.fromDecodedSegment (String.ofList decoded)).toOption

def segments (path : List Char) : List (List Char) := (path.dropWhile (· = '/')).splitOn '/'

def parseStoredMediaPath (path : List Char) : Option MediaRef :=
  match segments path with
  | [root, source, p1, p2, hash, encodedFilename] => do
    guard (root = "media".toList)
    let source ← MediaSource.fromStr (String.ofList source)
    let hash ← ContentHash.parse (String.ofList hash)
    guard (p1 = hash.value.toList.take 2 ∧ p2 = (hash.value.toList.drop 2).take 2)
    let filename ← decodedFilename encodedFilename
    return ⟨source, hash, filename⟩
  | _ => none

def parseAtompubMediaPath (path : List Char) : Option MediaRef :=
  match segments path with
  | [root, _, media, hash, encodedFilename] => do
    guard (root = "atompub".toList ∧ media = "media".toList)
    let hash ← ContentHash.parse (String.ofList hash)
    let filename ← decodedFilename encodedFilename
    return ⟨.upload, hash, filename⟩
  | _ => none

def parseMediaPath (path : List Char) : Option MediaRef :=
  (parseStoredMediaPath path).or (parseAtompubMediaPath path)

variable (parse : List Char → Option Url)

def parseMediaUrl (input : String) : Option MediaReference :=
  let fragmentFree := input.toList.takeWhile (· ≠ '#')
  if "//".toList.isPrefixOf fragmentFree then do
    let url ← parse ("http:".toList ++ fragmentFree)
    guard ¬hasUserinfo fragmentFree url
    let media ← parseMediaPath url.path
    return ⟨media, .schemeRelative, String.ofList fragmentFree⟩
  else if hasLeadingUrlScheme fragmentFree then do
    let url ← parse fragmentFree
    guard (url.IsHttp ∧ ¬hasUserinfo fragmentFree url)
    let url := { url with fragment := none }
    let media ← parseMediaPath url.path
    return ⟨media, .absolute, String.ofList url.serialize⟩
  else do
    let media ← parseMediaPath (fragmentFree.takeWhile (· ≠ '?'))
    return ⟨media, .local_, String.ofList fragmentFree⟩

/-- `MediaReferenceForm::from_str` -/
def referenceFormFromStr (s : String) : Option String :=
  match parseMediaUrl parse s with
  | none => none
  | some reference => if reference.referenceForm = s then some reference.referenceForm else none

section Forms

variable {parse} {url : Url} {host rest form s t : List Char} {c : Char} {input form' : String}
  {reference : MediaReference}

theorem takeWhile_ne_eq_self (h : c ∉ s) : s.takeWhile (· ≠ c) = s := by
  refine List.takeWhile_eq_self_iff.mpr fun d hd ↦ decide_eq_true ?_
  rintro rfl
  exact h hd

theorem not_mem_takeWhile_ne : c ∉ s.takeWhile (· ≠ c) := by
  intro hmem
  have hne := List.mem_takeWhile_imp hmem
  exact of_decide_eq_true hne rfl

theorem not_mem_portText {c : Char} (hcolon : c ≠ ':') (hdigit : c.isDigit = false) :
    c ∉ url.portText := by
  rw [Url.portText]
  cases url.port with
  | none => exact List.not_mem_nil
  | some port =>
    refine List.not_mem_cons_of_ne_of_not_mem hcolon fun hmem ↦ ?_
    have hc := Nat.isDigit_of_mem_toDigits (by decide) (by decide) hmem
    rw [hdigit] at hc
    exact absurd hc nofun

theorem credentials_eq_nil (h : hasUserinfo s url = false) : url.credentials = [] := by
  simp only [hasUserinfo, decide_eq_false_iff_not, not_or, not_not] at h
  refine if_pos ⟨h.1, ?_⟩
  cases hpassword : url.password with
  | none => rfl
  | some password => exact absurd h.2.1 (by simp [hpassword])

/-- What stands behind the scheme of an HTTP URL without userinfo. -/
structure Plain (url : Url) (host rest : List Char) : Prop where
  http : url.IsHttp
  authority : url.authority = "//".toList ++ (host ++ url.portText)
  host : ∀ c ∈ host, c ≠ '/' ∧ c ≠ '?' ∧ c ≠ '#' ∧ c ≠ '@'
  path : url.path = '/' :: rest
  noFragment : '#' ∉ rest
  query : ∀ query ∈ url.query, '#' ∉ query
  fragment : url.fragment = none

theorem plain_of_parse (h : UrlStandard parse) (hparse : parse s = some url) (hhttp : url.IsHttp)
    (huserinfo : hasUserinfo t url = false) (hfragment : '#' ∉ s) :
    ∃ host rest, Plain url host rest := by
  obtain ⟨host, hhost, hchars⟩ := h.host s url hparse hhttp
  obtain ⟨rest, hpath, -, hrest⟩ := h.path s url hparse hhttp
  refine ⟨host, rest, hhttp, ?_, hchars, hpath, hrest, h.query s url hparse hhttp,
    h.fragment s url hparse hfragment⟩
  rw [Url.authority, hhost, credentials_eq_nil huserinfo]
  rfl

theorem Plain.serialize_eq (h : Plain url host rest) : url.serialize =
    url.scheme ++ "://".toList ++
      (host ++ url.portText ++ '/' :: (rest ++ url.query.elim [] ('?' :: ·))) := by
  have hfragment : url.fragment.elim [] ('#' :: ·) = ([] : List Char) := by rw [h.fragment]; rfl
  rw [Url.serialize, h.authority, h.path, hfragment]
  simp

theorem Plain.no_fragment (h : Plain url host rest) : '#' ∉ url.serialize := by
  have hscheme : '#' ∉ url.scheme := by
    rcases h.http with hhttp | hhttp
    · rw [hhttp]; decide
    · rw [hhttp]; decide
  have hquery : '#' ∉ url.query.elim [] ('?' :: ·) := by
    cases hq : url.query with
    | none => exact List.not_mem_nil
    | some query =>
      exact List.not_mem_cons_of_ne_of_not_mem (by decide) (h.query query (Option.mem_def.mpr hq))
  have hslashes : '#' ∉ "://".toList := by decide
  have hport : '#' ∉ url.portText := not_mem_portText (by decide) (by decide)
  have hhost : '#' ∉ host := fun hmem ↦ (h.host _ hmem).2.2.1 rfl
  rw [h.serialize_eq]
  simp only [List.mem_append, List.mem_cons, not_or]
  exact ⟨⟨hscheme, hslashes⟩, ⟨hhost, hport⟩, by decide, h.noFragment, hquery⟩

theorem Plain.hasLeadingUrlScheme (h : Plain url host rest) :
    hasLeadingUrlScheme url.serialize = true := by
  have hcolon : ':' ∉ url.scheme := by
    rcases h.http with hhttp | hhttp
    · rw [hhttp]; decide
    · rw [hhttp]; decide
  obtain ⟨back, hsplit⟩ : ∃ back, splitOnce [':'] url.serialize = some (url.scheme, back) := by
    rw [Url.serialize, List.append_cons]
    exact ⟨_, splitOnce_append hcolon _⟩
  rw [MediaUrl.hasLeadingUrlScheme, hsplit]
  rcases h.http with hhttp | hhttp
  · rw [hhttp]; rfl
  · rw [hhttp]; rfl

theorem Plain.hasUserinfo (h : Plain url host rest) (huserinfo : hasUserinfo t url = false) :
    hasUserinfo url.serialize url = false := by
  have hcolon : ':' ∉ url.scheme := by
    rcases h.http with hhttp | hhttp
    · rw [hhttp]; decide
    · rw [hhttp]; decide
  have hbegins : stripPrefix "//".toList url.serialize = none := by
    rcases h.http with hhttp | hhttp
    · rw [Url.serialize, hhttp]; rfl
    · rw [Url.serialize, hhttp]; rfl
  have hsplit : splitOnce "://".toList url.serialize = some (url.scheme,
      host ++ url.portText ++ '/' :: (rest ++ url.query.elim [] ('?' :: ·))) := by
    rw [h.serialize_eq]
    exact splitOnce_append hcolon _
  have hfront : ∀ c ∈ host ++ url.portText, (decide (c ≠ '/' ∧ c ≠ '?')) = true := by
    intro c hc
    rcases List.mem_append.mp hc with hmem | hmem
    · exact decide_eq_true ⟨(h.host c hmem).1, (h.host c hmem).2.1⟩
    · refine decide_eq_true ⟨?_, ?_⟩
      · rintro rfl
        exact not_mem_portText (by decide) (by decide) hmem
      · rintro rfl
        exact not_mem_portText (by decide) (by decide) hmem
  have hat : '@' ∉ host ++ url.portText := by
    rw [List.mem_append, not_or]
    exact ⟨fun hmem ↦ (h.host _ hmem).2.2.2 rfl, not_mem_portText (by decide) (by decide)⟩
  simp only [MediaUrl.hasUserinfo, decide_eq_false_iff_not, not_or] at huserinfo ⊢
  refine ⟨huserinfo.1, huserinfo.2.1, ?_⟩
  rw [hbegins, hsplit, Option.none_or, Option.map_some, Option.any_some,
    List.takeWhile_append_of_pos hfront, List.takeWhile_cons_of_neg (by decide), List.append_nil]
  simpa using hat

/-- A reference form names its reference again. -/
theorem parseMediaUrl_referenceForm (h : UrlStandard parse)
    (hparse : parseMediaUrl parse input = some reference) :
    parseMediaUrl parse reference.referenceForm = some reference := by
  have hfree : '#' ∉ input.toList.takeWhile (· ≠ '#') := not_mem_takeWhile_ne
  rw [parseMediaUrl] at hparse
  generalize input.toList.takeWhile (· ≠ '#') = form at hfree hparse
  have hsame : (String.ofList form).toList.takeWhile (· ≠ '#') = form := by
    rw [String.toList_ofList]
    exact takeWhile_ne_eq_self hfree
  simp only at hparse
  split_ifs at hparse with hrelative hscheme
  · obtain ⟨url, hurl, hrest⟩ := Option.bind_eq_some_iff.mp hparse
    obtain ⟨u, huserinfo, hrest⟩ := Option.bind_eq_some_iff.mp hrest
    obtain ⟨media, hmedia, hreference⟩ := Option.bind_eq_some_iff.mp hrest
    cases hreference
    simp only [parseMediaUrl, hsame, if_pos hrelative]
    exact hparse
  · obtain ⟨url, hurl, hrest⟩ := Option.bind_eq_some_iff.mp hparse
    obtain ⟨u, hguard, hrest⟩ := Option.bind_eq_some_iff.mp hrest
    obtain ⟨media, hmedia, hreference⟩ := Option.bind_eq_some_iff.mp hrest
    cases hreference
    obtain ⟨hhttp, huserinfo⟩ := (Option.guard_eq_some' _).mp hguard
    have huserinfo := Bool.not_eq_true _ ▸ huserinfo
    obtain ⟨host, rest, hplain⟩ := plain_of_parse h hurl hhttp huserinfo hfree
    have hunchanged : { url with fragment := none } = url := by rw [← hplain.fragment]
    rw [hunchanged]
    have hagain : (String.ofList url.serialize).toList.takeWhile (· ≠ '#') = url.serialize := by
      rw [String.toList_ofList]
      exact takeWhile_ne_eq_self hplain.no_fragment
    have hnot : ¬"//".toList.isPrefixOf url.serialize = true := by
      rcases hhttp with hscheme | hscheme
      · rw [Url.serialize, hscheme]; exact nofun
      · rw [Url.serialize, hscheme]; exact nofun
    have hguard : url.IsHttp ∧ ¬hasUserinfo url.serialize url = true :=
      ⟨hhttp, Bool.not_eq_true _ ▸ hplain.hasUserinfo huserinfo⟩
    simp only [parseMediaUrl, hagain, if_neg hnot, if_pos hplain.hasLeadingUrlScheme,
      h.serialized _ url hurl hhttp]
    refine Option.bind_eq_some_iff.mpr ⟨url, rfl, Option.bind_eq_some_iff.mpr ⟨(), if_pos hguard,
      Option.bind_eq_some_iff.mpr ⟨media, hmedia, ?_⟩⟩⟩
    rw [hunchanged]
    rfl
  · obtain ⟨media, hmedia, hreference⟩ := Option.bind_eq_some_iff.mp hparse
    cases hreference
    simp only [parseMediaUrl, hsame, if_neg hrelative, if_neg hscheme]
    exact hparse

/-- Every stored form passes the check of its type. -/
theorem referenceFormFromStr_referenceForm (h : UrlStandard parse)
    (hparse : parseMediaUrl parse input = some reference) :
    referenceFormFromStr parse reference.referenceForm = some reference.referenceForm := by
  rw [referenceFormFromStr, parseMediaUrl_referenceForm h hparse]
  exact if_pos rfl

theorem parseMediaUrl_of_referenceFormFromStr (h : referenceFormFromStr parse input = some form') :
    ∃ reference, parseMediaUrl parse form' = some reference := by
  rw [referenceFormFromStr] at h
  cases hparse : parseMediaUrl parse input with
  | none => simp [hparse] at h
  | some reference =>
    simp only [hparse] at h
    split_ifs at h with hsame
    rw [← Option.some.inj h, hsame]
    exact ⟨reference, hparse⟩

end Forms

end Jaunder.Common.MediaUrl
