import Jaunder.Common.MediaIntake
import Jaunder.Common.MediaUrl

namespace Jaunder.Common.MediaUrl

open Foundation.Octets Foundation.Substrings
open Jaunder.Common.Hash Jaunder.Common.Media Jaunder.Common.References

/-- The bytes that the path percent-encode set of the URL standard leaves alone. -/
def keptInPath (b : UInt8) : Bool :=
  33 ≤ b && b ≤ 126 && b ∉ ([34, 35, 60, 62, 63, 94, 96, 123, 125] : List UInt8)

def encodeInPath (s : List Char) : List Char := percentEncode keptInPath (utf8 s)

def isSingleDot (segment : List Char) : Bool :=
  segment.map Char.toLower ∈ [".".toList, "%2e".toList]

def isDoubleDot (segment : List Char) : Bool :=
  segment.map Char.toLower ∈ ["..".toList, ".%2e".toList, "%2e.".toList, "%2e%2e".toList]

/-- A segment that a slash ends. -/
def closeSegment (closed : List (List Char)) (buffer : List Char) : List (List Char) :=
  if isDoubleDot buffer then closed.dropLast
  else if isSingleDot buffer then closed
  else closed ++ [buffer]

/-- The segment that ends the path. -/
def endPath (closed : List (List Char)) (buffer : List Char) : List (List Char) :=
  if isDoubleDot buffer then closed.dropLast ++ [[]]
  else if isSingleDot buffer then closed ++ [[]]
  else closed ++ [buffer]

def isSlash (c : Char) : Bool := c = '/' ∨ c = '\\'

/-- The path state of the URL standard for an HTTP URL. -/
def pathState (closed : List (List Char)) (buffer : List Char) : List Char → List (List Char)
  | [] => endPath closed buffer
  | c :: rest =>
    if c = '?' then endPath closed buffer
    else if isSlash c then pathState (closeSegment closed buffer) [] rest
    else pathState closed (buffer ++ encodeInPath [c]) rest

def isBlank (c : Char) : Bool := c ≤ ' '

def isTabOrNewline (c : Char) : Bool := c = '\t' ∨ c = '\n' ∨ c = '\x0d'

/-- What the URL standard removes from the text before it parses it. -/
def cleaned (s : List Char) : List Char := (s.rdropWhile isBlank).filter (fun c ↦ ¬isTabOrNewline c)

/-- The path of an HTTP URL whose text goes on with `p` behind the host. -/
def browserPath (p : List Char) : List Char := (pathState [] [] (cleaned p).tail).flatMap ('/' :: ·)

/-- What the URL standard says of HTTP URLs on one host. -/
structure ParsesHost (parse : List Char → Option Url) (host : List Char) : Prop where
  plain : ∀ c ∈ host, c ≠ '/' ∧ c ≠ '?' ∧ c ≠ '#' ∧ c ≠ '@'
  http : ∀ p, p.head? = some '/' → '#' ∉ p → ∃ url, parse ("http://".toList ++ host ++ p) = some url ∧
    url.scheme = "http".toList ∧ url.username = [] ∧ url.password = none ∧ url.path = browserPath p
  https : ∀ p, p.head? = some '/' → '#' ∉ p → ∃ url, parse ("https://".toList ++ host ++ p) = some url ∧
    url.scheme = "https".toList ∧ url.username = [] ∧ url.password = none ∧ url.path = browserPath p

variable (parse : List Char → Option Url)

section Named

variable {parse} {host p q s t : List Char} {url : Url}

/-- The link without its fragment, which `parse_media_url` cuts off first. -/
def fragmentFree (p : List Char) : List Char := p.takeWhile (· ≠ '#')

theorem takeWhile_append_of_not_mem {c : Char} (h : c ∉ s) :
    (s ++ t).takeWhile (· ≠ c) = s ++ t.takeWhile (· ≠ c) := by
  refine List.takeWhile_append_of_pos fun d hd ↦ decide_eq_true ?_
  rintro rfl
  exact h hd

/-- A link to the host carries no userinfo. -/
theorem ParsesHost.hasUserinfo (h : ParsesHost parse host) (s : List Char) (hauthority :
    (stripPrefix "//".toList t).or ((splitOnce "://".toList t).map Prod.snd) = some (host ++ '/' :: s))
    (hname : url.username = []) (hpassword : url.password = none) : hasUserinfo t url = false := by
  have hfront : ∀ c ∈ host, (decide (c ≠ '/' ∧ c ≠ '?')) = true := fun c hc ↦
    decide_eq_true ⟨(h.plain c hc).1, (h.plain c hc).2.1⟩
  have hat : '@' ∉ host := fun hmem ↦ (h.plain _ hmem).2.2.2 rfl
  simp only [MediaUrl.hasUserinfo, decide_eq_false_iff_not, not_or]
  refine ⟨not_not.mpr hname, by simp [hpassword], ?_⟩
  rw [hauthority, Option.any_some, List.takeWhile_append_of_pos hfront,
    List.takeWhile_cons_of_neg (by decide), List.append_nil]
  simpa using hat

theorem ParsesHost.fragmentFree (h : ParsesHost parse host) {front : List Char} (hfront : '#' ∉ front) :
    fragmentFree (front ++ host ++ p) = front ++ host ++ fragmentFree p := by
  refine takeWhile_append_of_not_mem ?_
  rw [List.mem_append, not_or]
  exact ⟨hfront, fun hmem ↦ (h.plain _ hmem).2.2.1 rfl⟩

end Named

end Jaunder.Common.MediaUrl
