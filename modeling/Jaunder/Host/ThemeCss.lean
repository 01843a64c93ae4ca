import Jaunder.Common.Hash
import Jaunder.Foundation.Ledger
import Jaunder.Foundation.Outcome

namespace Jaunder.Host.ThemeCss

open Foundation.Ledger Foundation.Outcome
open Jaunder.Common.Hash

section Syntax

inductive Token
  | ident (name : String)
  | string (value : String)
  | other (text : String)
deriving DecidableEq

/-- What a token list of the library holds; `other` stands for resolved colors, dimensions, dashed
identifiers and animation names. -/
inductive TokenOrValue
  | token (token : Token)
  | url (url : String)
  | var (name : String) (fallback : Option (List TokenOrValue))
  | env (name : String) (fallback : Option (List TokenOrValue))
  | function (name : String) (arguments : List TokenOrValue)
  | unresolvedAlpha (channels : String) (alpha : List TokenOrValue)
  | lightDark (light dark : List TokenOrValue)
  | other (text : String)

inductive FontFamily
  | generic (keyword : String)
  | familyName (name : String)
deriving DecidableEq

inductive AnimationName
  | none
  | ident (name : String)
  | string (name : String)
deriving DecidableEq

inductive PropertyId
  | fontFamily
  | font
  | animationName
  | animation
  | other (name : String)
deriving DecidableEq

/-- A declaration: of a `font` its families, of an `animation` its names, and of any other property
that the library understands its URLs. -/
inductive Property
  | unparsed (propertyId : PropertyId) (value : List TokenOrValue)
  | custom (name : String) (value : List TokenOrValue)
  | fontFamily (families : List FontFamily)
  | font (family : List FontFamily)
  | animationName (names : List AnimationName)
  | animation (names : List AnimationName)
  | typed (propertyId : PropertyId) (urls : List String)

inductive Source
  | url (url : String)
  | local_ (name : String)

inductive FontFaceProperty
  | source (sources : List Source)
  | fontFamily (family : FontFamily)
  | custom (name : String) (value : List TokenOrValue)
  | other (name : String)

inductive KeyframesName
  | ident (name : String)
  | custom (name : String)

def KeyframesName.value : KeyframesName → String
  | .ident name => name
  | .custom name => name

inductive Component
  | scope
  | root
  | localName (lowerName : String)
  | descendant
  | combinator (text : String)
  | other (text : String)
deriving DecidableEq

/-- The components of a selector in the order in which it is matched. -/
abbrev Selector : Type := List Component

inductive CssRule
  | style (selectors : List Selector) (declarations : List Property) (rules : List CssRule)
  | media (query : String) (rules : List CssRule)
  | supports (condition : String) (rules : List CssRule)
  | container (condition : List Property) (rules : List CssRule)
  | fontFace (properties : List FontFaceProperty)
  | keyframes (name : KeyframesName) (keyframes : List (List Property))
  | other (text : String)

/-- What the compiler uses of `lightningcss`. -/
structure Lightningcss where
  parse : String → Except String (List CssRule)
  toCss : List CssRule → Except String String
  isAbsolute : String → Bool

end Syntax

/-- The limits of a package on its stylesheet. -/
structure CssLimits where
  maxCssNesting : ℕ
  maxCssRules : ℕ

/-- The errors of a package that its stylesheet gives; `unreachable` stands for a panic. -/
inductive CssError
  | notUtf8
  | css (message : String)
  | url (path : String)
  | limitExceeded (limit : String)
  | unreachable (message : String)
deriving DecidableEq

section Selectors

def Component.isCombinator : Component → Bool
  | .descendant => true
  | .combinator _ => true
  | _ => false

def isDocumentRoot : Component → Bool
  | .root => true
  | .localName lowerName => lowerName = "html" ∨ lowerName = "body"
  | _ => false

/-- The loop that takes document roots off the leftmost compound, which stands last. Each round
removes a component. -/
def mapRoots : ℕ → Selector → Bool → Bool → Selector × Bool × Bool
  | 0, components, mappedRoot, needsDescendant => (components, mappedRoot, needsDescendant)
  | fuel + 1, components, mappedRoot, needsDescendant =>
    let compound := (components.reverse.takeWhile (fun c ↦ ¬c.isCombinator)).reverse
    let earlier := (components.reverse.dropWhile (fun c ↦ ¬c.isCombinator)).reverse
    if compound.any isDocumentRoot then
      let compound := compound.eraseP isDocumentRoot
      if compound = [] ∧ earlier ≠ [] then mapRoots fuel earlier.dropLast true true
      else (earlier ++ compound, true, needsDescendant)
    else (components, mappedRoot, needsDescendant)

/-- Reverses each compound; `run` is the compound that is being read. -/
def reverseCompounds (run : List Component) : List Component → List Component
  | [] => run
  | c :: components =>
    if c.isCombinator then run ++ c :: reverseCompounds [] components
    else reverseCompounds (c :: run) components

/-- `Selector::from` takes components in the order of their serialization. -/
def Selector.from (components : List Component) : Selector :=
  reverseCompounds [] components.reverse

def scopeSelector (boundary selector : Selector) : Except CssError Selector := do
  require (.scope ∉ selector) (.css ":scope cannot be safely isolated")
  let (components, mappedRoot, needsDescendant) :=
    mapRoots (selector.length + 1) selector false false
  require (components.any isDocumentRoot = false)
    (.css "document roots must be a selector prefix")
  let components := reverseCompounds [] components.reverse
  return Selector.from (boundary ++
    (if ¬mappedRoot ∨ needsDescendant then [.descendant] else []) ++ components)

end Selectors

section Rules

variable (limits : CssLimits) (boundary : Selector)

mutual

def validateRule (depth : ℕ) (topLevel : Bool) (count : ℕ) : CssRule → Except CssError (CssRule × ℕ)
  | .style selectors declarations rules => do
    require (count + 1 ≤ limits.maxCssRules) (.limitExceeded "max_css_rules")
    require (rules.isEmpty = true) (.css "native CSS nesting is forbidden")
    return (.style (← selectors.mapM (scopeSelector boundary)) declarations rules, count + 1)
  | .media query rules => do
    require (count + 1 ≤ limits.maxCssRules) (.limitExceeded "max_css_rules")
    require (depth + 1 ≤ limits.maxCssNesting) (.limitExceeded "max_css_nesting")
    let (rules, count) ← validateRuleList (depth + 1) false (count + 1) rules
    return (.media query rules, count)
  | .supports condition rules => do
    require (count + 1 ≤ limits.maxCssRules) (.limitExceeded "max_css_rules")
    require (depth + 1 ≤ limits.maxCssNesting) (.limitExceeded "max_css_nesting")
    let (rules, count) ← validateRuleList (depth + 1) false (count + 1) rules
    return (.supports condition rules, count)
  | .container condition rules => do
    require (count + 1 ≤ limits.maxCssRules) (.limitExceeded "max_css_rules")
    require (depth + 1 ≤ limits.maxCssNesting) (.limitExceeded "max_css_nesting")
    let (rules, count) ← validateRuleList (depth + 1) false (count + 1) rules
    return (.container condition rules, count)
  | .fontFace properties => do
    require (count + 1 ≤ limits.maxCssRules) (.limitExceeded "max_css_rules")
    require (topLevel = true) (.css "@font-face and @keyframes must be top-level")
    return (.fontFace properties, count + 1)
  | .keyframes name keyframes => do
    require (count + 1 ≤ limits.maxCssRules) (.limitExceeded "max_css_rules")
    require (topLevel = true) (.css "@font-face and @keyframes must be top-level")
    return (.keyframes name keyframes, count + 1)
  | .other _ => do
    require (count + 1 ≤ limits.maxCssRules) (.limitExceeded "max_css_rules")
    .error (.css "unsupported at-rule")

/-- The loop of `validate_rules`, once the depth is within its limit. -/
def validateRuleList (depth : ℕ) (topLevel : Bool) (count : ℕ) :
    List CssRule → Except CssError (List CssRule × ℕ)
  | [] => .ok ([], count)
  | rule :: rules => do
    let (rule, count) ← validateRule depth topLevel count rule
    let (rules, count) ← validateRuleList depth topLevel count rules
    return (rule :: rules, count)

end

/-- `validate_rules` of the whole stylesheet, at depth zero -/
def validateRules (rules : List CssRule) : Except CssError (List CssRule) :=
  (validateRuleList limits boundary 0 true 0 rules).map Prod.fst

end Rules

section Names

variable (caseFold : String → String) (namespace_ : String)

def namespaceKeyframes : List CssRule → Keyed String String →
    Except CssError (List CssRule × Keyed String String)
  | [], names => .ok ([], names)
  | .keyframes name keyframes :: rules, names => do
    let renamed := "jaunder-" ++ namespace_ ++ "-" ++ name.value
    require (names.lookup name.value = none) (.css "duplicate @keyframes name")
    let (rules, names) ← namespaceKeyframes rules (names.insert name.value renamed)
    return (.keyframes (.ident renamed) keyframes :: rules, names)
  | rule :: rules, names => do
    let (rules, names) ← namespaceKeyframes rules names
    return (rule :: rules, names)

def isStandardFontDisplay : List TokenOrValue → Bool
  | [.token (.ident keyword)] =>
    ["auto", "block", "swap", "fallback", "optional"].any
      (fun standard ↦ keyword.toList.map Char.toLower = standard.toList)
  | _ => false

def customFontFamilyName : FontFamily → Except CssError String
  | .familyName name => do
    require (name ≠ "") (.css "font-family cannot be empty")
    return name
  | .generic _ => .error (.css "@font-face font-family must be a custom family name")

def fontFamilyFromName (name : String) : Except CssError FontFamily := do
  require (name ≠ "") (.css "font-family cannot be empty")
  return .familyName name

def namespaceFontProperties : List FontFaceProperty → ℕ → Keyed String String →
    Except CssError (List FontFaceProperty × ℕ × Keyed String String)
  | [], declarationCount, names => .ok ([], declarationCount, names)
  | .fontFamily family :: properties, declarationCount, names => do
    require (declarationCount + 1 ≤ 1) (.css "duplicate @font-face font-family declaration")
    let original ← customFontFamilyName family
    let renamed := "jaunder-" ++ namespace_ ++ "-" ++ original
    require (names.lookup (caseFold original) = none) (.css "duplicate @font-face family")
    let family ← fontFamilyFromName renamed
    let (properties, result) ← namespaceFontProperties properties (declarationCount + 1)
      (names.insert (caseFold original) renamed)
    return (.fontFamily family :: properties, result)
  | .custom name value :: properties, declarationCount, names => do
    if name.toList.map Char.toLower = "font-display".toList then
      require (isStandardFontDisplay value = true)
        (.css "@font-face font-display must be exactly one standard keyword")
    else .error (.css "custom-property token streams cannot hide global references")
    let (properties, result) ← namespaceFontProperties properties declarationCount names
    return (.custom name value :: properties, result)
  | property :: properties, declarationCount, names => do
    let (properties, result) ← namespaceFontProperties properties declarationCount names
    return (property :: properties, result)

def namespaceFonts : List CssRule → Keyed String String →
    Except CssError (List CssRule × Keyed String String)
  | [], names => .ok ([], names)
  | .fontFace properties :: rules, names => do
    let (properties, declarationCount, names) ←
      namespaceFontProperties caseFold namespace_ properties 0 names
    require (declarationCount ≠ 0)
      (.css "@font-face requires exactly one font-family declaration")
    let (rules, names) ← namespaceFonts rules names
    return (.fontFace properties :: rules, names)
  | rule :: rules, names => do
    let (rules, names) ← namespaceFonts rules names
    return (rule :: rules, names)

def referencedFamily : List FontFamily → Option String → Except CssError (Option String)
  | [], referenced => .ok referenced
  | .generic _ :: families, referenced => referencedFamily families referenced
  | .familyName name :: families, referenced => do
    let name ← customFontFamilyName (.familyName name)
    require (referenced = none) (.css "font-family reference is ambiguous")
    referencedFamily families (some name)

def replaceFamily (replacement : FontFamily) : List FontFamily → List FontFamily
  | [] => []
  | .familyName _ :: families => replacement :: families
  | .generic keyword :: families => .generic keyword :: replaceFamily replacement families

def rewriteFontFamilies (families : List FontFamily) (names : Keyed String String) :
    Except CssError (List FontFamily) := do
  match ← referencedFamily families none with
  | none => return families
  | some original =>
    let renamed ← orError (names.lookup (caseFold original))
      (.css ("undeclared font-family reference: " ++ original))
    return replaceFamily (← fontFamilyFromName renamed) families

def AnimationName.value : AnimationName → Option String
  | .none => Option.none
  | .ident name => some name
  | .string name => some name

def AnimationName.rename (renamed : String) : AnimationName → AnimationName
  | .none => .none
  | .ident _ => .ident renamed
  | .string _ => .string renamed

def replaceAnimation (renamed : String) : List AnimationName → List AnimationName
  | [] => []
  | name :: names =>
    if name.value.isSome then name.rename renamed :: names
    else name :: replaceAnimation renamed names

def rewriteAnimationNames (keyframes : Keyed String String) (names : List AnimationName) :
    Except CssError (List AnimationName) :=
  match names.filterMap AnimationName.value with
  | [] => .ok names
  | [original] => do
    let renamed ← orError (keyframes.lookup original)
      (.css ("undeclared animation reference: " ++ original))
    return replaceAnimation renamed names
  | _ => .error (.css "animation reference is ambiguous")

end Names

section Visitor

/-- What `AssetUrlVisitor` holds. -/
structure AssetUrlVisitor where
  isAbsolute : String → Bool
  caseFold : String → String
  assetUrls : Keyed String String
  fonts : Keyed String String
  keyframes : Keyed String String

def isGlobalReferenceProperty : PropertyId → Bool
  | .other _ => false
  | _ => true

def isReservedAnchorName (name : String) : Bool :=
  name.toList.map Char.toLower = "anchor-name".toList

variable (v : AssetUrlVisitor)

def visitUrl (url : String) : Except CssError String := do
  require (¬(v.isAbsolute url ∨ "//".toList.isPrefixOf url.toList)) (.url url)
  orError (v.assetUrls.lookup url) (.url url)

mutual

def visitToken : TokenOrValue → Except CssError TokenOrValue
  | .token token => .ok (.token token)
  | .url url => do return .url (← visitUrl v url)
  | .var name none => .ok (.var name none)
  | .var name (some fallback) => do return .var name (some (← visitTokens fallback))
  | .env name none => .ok (.env name none)
  | .env name (some fallback) => do return .env name (some (← visitTokens fallback))
  | .function name arguments => do return .function name (← visitTokens arguments)
  | .unresolvedAlpha channels alpha => do return .unresolvedAlpha channels (← visitTokens alpha)
  | .lightDark light dark => do return .lightDark (← visitTokens light) (← visitTokens dark)
  | .other text => .ok (.other text)

def visitTokens : List TokenOrValue → Except CssError (List TokenOrValue)
  | [] => .ok []
  | token :: tokens => do return (← visitToken token) :: (← visitTokens tokens)

end

def visitProperty : Property → Except CssError Property
  | .unparsed propertyId value => do
    require (isGlobalReferenceProperty propertyId = false)
      (.css "custom-property token streams cannot hide global references")
    return .unparsed propertyId (← visitTokens v value)
  | .custom name value => do
    require (isReservedAnchorName name = false)
      (.css "anchor-name is reserved for Jaunder trusted controls")
    return .custom name (← visitTokens v value)
  | .fontFamily families => do
    return .fontFamily (← rewriteFontFamilies v.caseFold families v.fonts)
  | .font family => do return .font (← rewriteFontFamilies v.caseFold family v.fonts)
  | .animationName names => do return .animationName (← rewriteAnimationNames v.keyframes names)
  | .animation names => do
    let names ← names.mapM (fun name ↦ rewriteAnimationNames v.keyframes [name])
    return .animation names.flatten
  | .typed propertyId urls => do return .typed propertyId (← urls.mapM (visitUrl v))

def visitSource : Source → Except CssError Source
  | .url url => do return .url (← visitUrl v url)
  | .local_ name => .ok (.local_ name)

def visitFontFaceProperty : FontFaceProperty → Except CssError FontFaceProperty
  | .source sources => do return .source (← sources.mapM (visitSource v))
  | .custom name value => do return .custom name (← visitTokens v value)
  | .fontFamily family => .ok (.fontFamily family)
  | .other name => .ok (.other name)

mutual

def visitRule : CssRule → Except CssError CssRule
  | .style selectors declarations rules => do
    return .style selectors (← declarations.mapM (visitProperty v)) (← visitRules rules)
  | .media query rules => do return .media query (← visitRules rules)
  | .supports condition rules => do return .supports condition (← visitRules rules)
  | .container condition rules => do
    return .container (← condition.mapM (visitProperty v)) (← visitRules rules)
  | .fontFace properties => do return .fontFace (← properties.mapM (visitFontFaceProperty v))
  | .keyframes name keyframes => do
    return .keyframes name (← keyframes.mapM (fun k ↦ k.mapM (visitProperty v)))
  | .other text => .ok (.other text)

def visitRules : List CssRule → Except CssError (List CssRule)
  | [] => .ok []
  | rule :: rules => do return (← visitRule rule) :: (← visitRules rules)

end

end Visitor

section Compile

def styleContractSurfaceAttribute : String := "data-jaunder-theme-surface"

def styleContractVersionAttribute : String := "data-jaunder-style-contract"

def styleContractVersionToken : String := "1"

/-- The authored stylesheet after the rule whose selector is the boundary. -/
def stylesheetSource (authoredCss : String) : String :=
  "[" ++ styleContractSurfaceAttribute ++ "][" ++ styleContractVersionAttribute ++ "=\"" ++
    styleContractVersionToken ++ "\"] \x7b\x7d" ++ authoredCss

/-- The first eight bytes of a digest, in hexadecimal. -/
def hexNamespace (digest : ContentHash) : String := String.ofList (digest.value.toList.take 16)

variable (css : Lightningcss) (caseFold : String → String) (sha256 : List UInt8 → ContentHash)

/-- The compiled rules of a parsed stylesheet. -/
def compileRules (limits : CssLimits) (sourceDigest : ContentHash) (assetUrls : Keyed String String)
    (rules : List CssRule) : Except CssError (List CssRule) := do
  match rules with
  | .style selectors _ _ :: rules =>
    let boundary ← orError selectors.head? (.css "could not construct surface selector")
    let rules ← validateRules limits boundary rules
    let (rules, fonts) ← namespaceFonts caseFold (hexNamespace sourceDigest) rules ∅
    let (rules, keyframes) ← namespaceKeyframes (hexNamespace sourceDigest) rules ∅
    visitRules ⟨css.isAbsolute, caseFold, assetUrls, fonts, keyframes⟩ rules
  | _ => .error (.unreachable "injected CSS boundary must parse as a style rule")

end Compile

end Jaunder.Host.ThemeCss
