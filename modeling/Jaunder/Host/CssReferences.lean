import Jaunder.Host.ThemeCss

namespace Jaunder.Host.CssReferences

open Foundation.Ledger Foundation.Outcome
open Jaunder.Common.Hash
open Jaunder.Host.ThemeCss

section References

/-- What names a resource in a stylesheet: a URL, or the token list of a declaration with the name of
the custom property that it is for. -/
inductive Part
  | url (url : String)
  | tokens (customName : Option String) (value : List TokenOrValue)

def propertyParts : Property → List Part
  | .unparsed _ value => [.tokens none value]
  | .custom name value => [.tokens (some name) value]
  | .typed _ urls => urls.map .url
  | _ => []

def sourceParts : Source → List Part
  | .url url => [.url url]
  | .local_ _ => []

def fontFaceParts : FontFaceProperty → List Part
  | .source sources => sources.flatMap sourceParts
  | .custom _ value => [.tokens none value]
  | _ => []

mutual

/-- The condition of a rule is only asked for, its resources are not fetched. -/
def ruleParts : CssRule → List Part
  | .style _ declarations rules => declarations.flatMap propertyParts ++ parts rules
  | .media _ rules => parts rules
  | .supports _ rules => parts rules
  | .container _ rules => parts rules
  | .fontFace properties => properties.flatMap fontFaceParts
  | .keyframes _ keyframes => keyframes.flatMap (fun k ↦ k.flatMap propertyParts)
  | .other _ => []

def parts : List CssRule → List Part
  | [] => []
  | rule :: rules => ruleParts rule ++ parts rules

end

mutual

def urlsOfToken : TokenOrValue → List String
  | .token _ => []
  | .url url => [url]
  | .var _ none => []
  | .var _ (some fallback) => urlsOfTokens fallback
  | .env _ none => []
  | .env _ (some fallback) => urlsOfTokens fallback
  | .function _ arguments => urlsOfTokens arguments
  | .unresolvedAlpha _ alpha => urlsOfTokens alpha
  | .lightDark light dark => urlsOfTokens light ++ urlsOfTokens dark
  | .other _ => []

def urlsOfTokens : List TokenOrValue → List String
  | [] => []
  | token :: tokens => urlsOfToken token ++ urlsOfTokens tokens

end

def Part.urls : Part → List String
  | .url address => [address]
  | .tokens _ value => urlsOfTokens value

end References

section Erasure

mutual

/-- A token without the addresses of its URLs. -/
def eraseToken : TokenOrValue → TokenOrValue
  | .token token => .token token
  | .url _ => .url ""
  | .var name none => .var name none
  | .var name (some fallback) => .var name (some (eraseTokens fallback))
  | .env name none => .env name none
  | .env name (some fallback) => .env name (some (eraseTokens fallback))
  | .function name arguments => .function name (eraseTokens arguments)
  | .unresolvedAlpha channels alpha => .unresolvedAlpha channels (eraseTokens alpha)
  | .lightDark light dark => .lightDark (eraseTokens light) (eraseTokens dark)
  | .other text => .other text

def eraseTokens : List TokenOrValue → List TokenOrValue
  | [] => []
  | token :: tokens => eraseToken token :: eraseTokens tokens

end

def Part.erase : Part → Part
  | .url _ => .url ""
  | .tokens customName value => .tokens customName (eraseTokens value)

variable {tokens tokens' : List TokenOrValue} {token : TokenOrValue}

variable {ps ps' : List Part}

end Erasure

end Jaunder.Host.CssReferences
