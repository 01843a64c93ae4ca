import Mathlib.Data.Int.Notation
import Mathlib.Data.Nat.Notation
import Mathlib.Tactic.TypeStar

namespace Jaunder.Common.Render

inductive PostFormat
  | markdown
  | org
  | html
deriving DecidableEq

/-- A provider with a video identifier that its grammar admits. -/
inductive TrustedProviderEmbed
  | youtube (id : String)
  | vimeo (id : String)
deriving DecidableEq

def providerEmbedHtml (providerClass embedUrl fallbackUrl title fallbackLabel : String) : String :=
  "<figure class=\"j-provider-embed " ++ providerClass ++
    "\"><div class=\"j-provider-embed-frame\"><iframe src=\"" ++ embedUrl ++
    "\" loading=\"lazy\" title=\"" ++ title ++
    "\" allowfullscreen></iframe></div><figcaption><a href=\"" ++ fallbackUrl ++ "\">" ++
    fallbackLabel ++ "</a></figcaption></figure>"

def TrustedProviderEmbed.html : TrustedProviderEmbed → String
  | .youtube id => providerEmbedHtml "j-provider-embed-youtube"
    ("https://www.youtube-nocookie.com/embed/" ++ id) ("https://www.youtube.com/watch?v=" ++ id)
    "YouTube video player" "Watch on YouTube"
  | .vimeo id => providerEmbedHtml "j-provider-embed-vimeo" ("https://player.vimeo.com/video/" ++ id)
    ("https://vimeo.com/" ++ id) "Vimeo video player" "Watch on Vimeo"

/-- `str::split_once` -/
def splitOnce (marker : List Char) : List Char → Option (List Char × List Char)
  | [] => if marker = [] then some ([], []) else none
  | c :: cs =>
    if marker.isPrefixOf (c :: cs) then some ([], (c :: cs).drop marker.length)
    else (splitOnce marker cs).map (fun p ↦ (c :: p.1, p.2))

def isDigits (part : List Char) : Bool := part ≠ [] ∧ part.all Char.isDigit

def parseDigits (part : List Char) : ℕ := part.foldl (fun n c ↦ 10 * n + (c.toNat - '0'.toNat)) 0

/-- The element and the value of an id that belongs to a footnote of the post. -/
def allowedPostFootnoteId (element value : String) (currentPostId : ℤ) : Bool :=
  let rest := if "post-".toList.isPrefixOf value.toList then some (value.toList.drop 5) else none
  let marker := if element = "li" then some "-fn-" else if element = "sup" then some "-fnref-" else none
  (rest.bind (fun rest ↦ marker.bind (fun marker ↦ splitOnce marker.toList rest))).any
    (fun parts ↦ isDigits parts.1 ∧ (parseDigits parts.1 : ℤ) = currentPostId ∧
      (parts.2.splitOn '-').all isDigits ∧
      (parts.2.splitOn '-').length = if element = "li" then 1 else 2)

example : allowedPostFootnoteId "li" "post-42-fn-1" 42 = true := by decide

end Jaunder.Common.Render
