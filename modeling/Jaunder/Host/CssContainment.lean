import Jaunder.Host.CssReferences

namespace Jaunder.Host.CssContainment

open Foundation.Ledger Foundation.Outcome
open Jaunder.Common.Hash
open Jaunder.Host.ThemeCss Jaunder.Host.CssReferences

/-- An address that the package gives to one of its assets. -/
def Packaged (assetUrls : Keyed String String) (address : String) : Prop :=
  ∃ path, assetUrls.lookup path = some address

section Replacement

variable (v : AssetUrlVisitor)

/-- Other addresses in the same places, all of them of assets. -/
structure Replaced (ps ps' : List Part) : Prop where
  erase : ps'.map Part.erase = ps.map Part.erase
  packaged : ∀ part ∈ ps', ∀ address ∈ part.urls, Packaged v.assetUrls address

variable {v} {ps ps' qs qs' : List Part}

theorem Replaced.nil : Replaced v [] [] where
  erase := rfl
  packaged _ hpart := absurd hpart List.not_mem_nil

theorem Replaced.append (h : Replaced v ps ps') (h' : Replaced v qs qs') :
    Replaced v (ps ++ qs) (ps' ++ qs') where
  erase := by rw [List.map_append, List.map_append, h.erase, h'.erase]
  packaged part hpart := (List.mem_append.mp hpart).elim (h.packaged part) (h'.packaged part)

theorem Replaced.mapM {α : Type} {visit : α → Except CssError α} {f : α → List Part}
    (hvisit : ∀ a a', visit a = .ok a' → Replaced v (f a) (f a')) {as as' : List α}
    (h : as.mapM visit = .ok as') : Replaced v (as.flatMap f) (as'.flatMap f) := by
  induction as generalizing as' with
  | nil =>
    obtain rfl := pure_eq_ok.mp h
    exact .nil
  | cons a as ih =>
    rw [List.mapM_cons] at h
    obtain ⟨a', ha, h⟩ := bind_eq_ok.mp h
    obtain ⟨as', has, h⟩ := bind_eq_ok.mp h
    obtain rfl := pure_eq_ok.mp h
    exact (hvisit a a' ha).append (ih has)

theorem Replaced.tokens {value value' : List TokenOrValue} (name : Option String)
    (h : eraseTokens value' = eraseTokens value)
    (hurls : ∀ address ∈ urlsOfTokens value', Packaged v.assetUrls address) :
    Replaced v [.tokens name value] [.tokens name value'] where
  erase := by rw [List.map_singleton, List.map_singleton, Part.erase, Part.erase, h]
  packaged part hpart := by
    rw [List.mem_singleton.mp hpart]
    exact hurls

theorem visitUrl_eq_ok {url address : String} (h : visitUrl v url = .ok address) :
    Packaged v.assetUrls address := by
  obtain ⟨_, -, h⟩ := bind_eq_ok.mp h
  exact ⟨url, orError_eq_ok.mp h⟩

theorem Replaced.url {url address : String} (h : visitUrl v url = .ok address) :
    Replaced v [.url url] [.url address] where
  erase := rfl
  packaged part hpart other hother := by
    rw [List.mem_singleton.mp hpart] at hother
    rw [List.mem_singleton.mp hother]
    exact visitUrl_eq_ok h

end Replacement

section Visitor

variable {v : AssetUrlVisitor}

mutual

theorem visitToken_eq_ok : ∀ {token token' : TokenOrValue}, visitToken v token = .ok token' →
    eraseToken token' = eraseToken token ∧
      ∀ address ∈ urlsOfToken token', Packaged v.assetUrls address
  | .token _, _, h => by
    obtain rfl := Except.ok.inj h
    exact ⟨rfl, fun _ hmem ↦ absurd hmem List.not_mem_nil⟩
  | .url _, _, h => by
    obtain ⟨address, haddress, h⟩ := bind_eq_ok.mp h
    obtain rfl := pure_eq_ok.mp h
    refine ⟨rfl, fun other hmem ↦ ?_⟩
    rw [List.mem_singleton.mp hmem]
    exact visitUrl_eq_ok haddress
  | .var _ none, _, h => by
    obtain rfl := Except.ok.inj h
    exact ⟨rfl, fun _ hmem ↦ absurd hmem List.not_mem_nil⟩
  | .var _ (some _), _, h => by
    obtain ⟨fallback, hfallback, h⟩ := bind_eq_ok.mp h
    obtain rfl := pure_eq_ok.mp h
    obtain ⟨herase, hurls⟩ := visitTokens_eq_ok hfallback
    exact ⟨by rw [eraseToken, eraseToken, herase], hurls⟩
  | .env _ none, _, h => by
    obtain rfl := Except.ok.inj h
    exact ⟨rfl, fun _ hmem ↦ absurd hmem List.not_mem_nil⟩
  | .env _ (some _), _, h => by
    obtain ⟨fallback, hfallback, h⟩ := bind_eq_ok.mp h
    obtain rfl := pure_eq_ok.mp h
    obtain ⟨herase, hurls⟩ := visitTokens_eq_ok hfallback
    exact ⟨by rw [eraseToken, eraseToken, herase], hurls⟩
  | .function _ _, _, h => by
    obtain ⟨arguments, harguments, h⟩ := bind_eq_ok.mp h
    obtain rfl := pure_eq_ok.mp h
    obtain ⟨herase, hurls⟩ := visitTokens_eq_ok harguments
    exact ⟨by rw [eraseToken, eraseToken, herase], hurls⟩
  | .unresolvedAlpha _ _, _, h => by
    obtain ⟨alpha, halpha, h⟩ := bind_eq_ok.mp h
    obtain rfl := pure_eq_ok.mp h
    obtain ⟨herase, hurls⟩ := visitTokens_eq_ok halpha
    exact ⟨by rw [eraseToken, eraseToken, herase], hurls⟩
  | .lightDark _ _, _, h => by
    obtain ⟨light, hlight, h⟩ := bind_eq_ok.mp h
    obtain ⟨dark, hdark, h⟩ := bind_eq_ok.mp h
    obtain rfl := pure_eq_ok.mp h
    obtain ⟨hl, hlurls⟩ := visitTokens_eq_ok hlight
    obtain ⟨hd, hdurls⟩ := visitTokens_eq_ok hdark
    refine ⟨by rw [eraseToken, eraseToken, hl, hd], fun address hmem ↦ ?_⟩
    exact (List.mem_append.mp hmem).elim (hlurls address) (hdurls address)
  | .other _, _, h => by
    obtain rfl := Except.ok.inj h
    exact ⟨rfl, fun _ hmem ↦ absurd hmem List.not_mem_nil⟩

theorem visitTokens_eq_ok : ∀ {tokens tokens' : List TokenOrValue},
    visitTokens v tokens = .ok tokens' → eraseTokens tokens' = eraseTokens tokens ∧
      ∀ address ∈ urlsOfTokens tokens', Packaged v.assetUrls address
  | [], _, h => by
    obtain rfl := Except.ok.inj h
    exact ⟨rfl, fun _ hmem ↦ absurd hmem List.not_mem_nil⟩
  | _ :: _, _, h => by
    obtain ⟨token, htoken, h⟩ := bind_eq_ok.mp h
    obtain ⟨tokens, htokens, h⟩ := bind_eq_ok.mp h
    obtain rfl := pure_eq_ok.mp h
    obtain ⟨ht, hturls⟩ := visitToken_eq_ok htoken
    obtain ⟨hts, htsurls⟩ := visitTokens_eq_ok htokens
    refine ⟨by rw [eraseTokens, eraseTokens, ht, hts], fun address hmem ↦ ?_⟩
    exact (List.mem_append.mp hmem).elim (hturls address) (htsurls address)

end

theorem Replaced.visitTokens {value value' : List TokenOrValue} (name : Option String)
    (h : visitTokens v value = .ok value') :
    Replaced v [.tokens name value] [.tokens name value'] :=
  .tokens name (visitTokens_eq_ok h).1 (visitTokens_eq_ok h).2

theorem visitProperty_replaced {property property' : Property}
    (h : visitProperty v property = .ok property') :
    Replaced v (propertyParts property) (propertyParts property') := by
  cases property with
  | unparsed propertyId value =>
    obtain ⟨_, -, h⟩ := bind_eq_ok.mp h
    obtain ⟨value', hvalue, h⟩ := bind_eq_ok.mp h
    obtain rfl := pure_eq_ok.mp h
    exact .visitTokens none hvalue
  | custom name value =>
    obtain ⟨_, -, h⟩ := bind_eq_ok.mp h
    obtain ⟨value', hvalue, h⟩ := bind_eq_ok.mp h
    obtain rfl := pure_eq_ok.mp h
    exact .visitTokens (some name) hvalue
  | typed propertyId urls =>
    obtain ⟨urls', hurls, h⟩ := bind_eq_ok.mp h
    obtain rfl := pure_eq_ok.mp h
    rw [propertyParts, propertyParts, List.map_eq_flatMap, List.map_eq_flatMap]
    exact .mapM (fun _ _ ↦ .url) hurls
  | _ =>
    obtain ⟨_, -, h⟩ := bind_eq_ok.mp h
    obtain rfl := pure_eq_ok.mp h
    exact .nil

theorem visitSource_replaced {source source' : Source} (h : visitSource v source = .ok source') :
    Replaced v (sourceParts source) (sourceParts source') := by
  cases source with
  | url url =>
    obtain ⟨address, haddress, h⟩ := bind_eq_ok.mp h
    obtain rfl := pure_eq_ok.mp h
    exact .url haddress
  | local_ name =>
    obtain rfl := Except.ok.inj h
    exact .nil

theorem visitFontFaceProperty_replaced {property property' : FontFaceProperty}
    (h : visitFontFaceProperty v property = .ok property') :
    Replaced v (fontFaceParts property) (fontFaceParts property') := by
  cases property with
  | source sources =>
    obtain ⟨sources', hsources, h⟩ := bind_eq_ok.mp h
    obtain rfl := pure_eq_ok.mp h
    exact .mapM (fun _ _ ↦ visitSource_replaced) hsources
  | custom name value =>
    obtain ⟨value', hvalue, h⟩ := bind_eq_ok.mp h
    obtain rfl := pure_eq_ok.mp h
    exact .visitTokens none hvalue
  | _ =>
    obtain rfl := Except.ok.inj h
    exact .nil

mutual

theorem visitRule_replaced : ∀ {rule rule' : CssRule}, visitRule v rule = .ok rule' →
    Replaced v (ruleParts rule) (ruleParts rule')
  | .style _ _ _, _, h => by
    obtain ⟨declarations, hdeclarations, h⟩ := bind_eq_ok.mp h
    obtain ⟨rules, hrules, h⟩ := bind_eq_ok.mp h
    obtain rfl := pure_eq_ok.mp h
    exact (Replaced.mapM (fun _ _ ↦ visitProperty_replaced) hdeclarations).append
      (visitRules_replaced hrules)
  | .media _ _, _, h => by
    obtain ⟨rules, hrules, h⟩ := bind_eq_ok.mp h
    obtain rfl := pure_eq_ok.mp h
    exact visitRules_replaced hrules
  | .supports _ _, _, h => by
    obtain ⟨rules, hrules, h⟩ := bind_eq_ok.mp h
    obtain rfl := pure_eq_ok.mp h
    exact visitRules_replaced hrules
  | .container _ _, _, h => by
    obtain ⟨_, -, h⟩ := bind_eq_ok.mp h
    obtain ⟨rules, hrules, h⟩ := bind_eq_ok.mp h
    obtain rfl := pure_eq_ok.mp h
    exact visitRules_replaced hrules
  | .fontFace _, _, h => by
    obtain ⟨properties, hproperties, h⟩ := bind_eq_ok.mp h
    obtain rfl := pure_eq_ok.mp h
    exact .mapM (fun _ _ ↦ visitFontFaceProperty_replaced) hproperties
  | .keyframes _ _, _, h => by
    obtain ⟨keyframes, hkeyframes, h⟩ := bind_eq_ok.mp h
    obtain rfl := pure_eq_ok.mp h
    exact .mapM (fun _ _ ↦ .mapM (fun _ _ ↦ visitProperty_replaced)) hkeyframes
  | .other _, _, h => by
    obtain rfl := Except.ok.inj h
    exact .nil

theorem visitRules_replaced : ∀ {rules rules' : List CssRule}, visitRules v rules = .ok rules' →
    Replaced v (parts rules) (parts rules')
  | [], _, h => by
    obtain rfl := Except.ok.inj h
    exact .nil
  | _ :: _, _, h => by
    obtain ⟨rule, hrule, h⟩ := bind_eq_ok.mp h
    obtain ⟨rules, hrules, h⟩ := bind_eq_ok.mp h
    obtain rfl := pure_eq_ok.mp h
    exact (visitRule_replaced hrule).append (visitRules_replaced hrules)

end

end Visitor

section Stages

variable {limits : CssLimits} {boundary : Selector} {caseFold : String → String}
  {namespace_ : String} {names names' : Keyed String String}

mutual

theorem validateRule_parts {depth count count' : ℕ} {topLevel : Bool} :
    ∀ {rule rule' : CssRule},
      validateRule limits boundary depth topLevel count rule = .ok (rule', count') →
        ruleParts rule' = ruleParts rule
  | .style _ _ _, _, h => by
    obtain ⟨_, -, h⟩ := bind_eq_ok.mp h
    obtain ⟨_, -, h⟩ := bind_eq_ok.mp h
    obtain ⟨selectors, -, h⟩ := bind_eq_ok.mp h
    obtain ⟨rfl, -⟩ := Prod.mk.inj (pure_eq_ok.mp h)
    rfl
  | .media _ _, _, h => by
    obtain ⟨_, -, h⟩ := bind_eq_ok.mp h
    obtain ⟨_, -, h⟩ := bind_eq_ok.mp h
    obtain ⟨⟨rules, _⟩, hrules, h⟩ := bind_eq_ok.mp h
    obtain ⟨rfl, -⟩ := Prod.mk.inj (pure_eq_ok.mp h)
    exact validateRuleList_parts hrules
  | .supports _ _, _, h => by
    obtain ⟨_, -, h⟩ := bind_eq_ok.mp h
    obtain ⟨_, -, h⟩ := bind_eq_ok.mp h
    obtain ⟨⟨rules, _⟩, hrules, h⟩ := bind_eq_ok.mp h
    obtain ⟨rfl, -⟩ := Prod.mk.inj (pure_eq_ok.mp h)
    exact validateRuleList_parts hrules
  | .container _ _, _, h => by
    obtain ⟨_, -, h⟩ := bind_eq_ok.mp h
    obtain ⟨_, -, h⟩ := bind_eq_ok.mp h
    obtain ⟨⟨rules, _⟩, hrules, h⟩ := bind_eq_ok.mp h
    obtain ⟨rfl, -⟩ := Prod.mk.inj (pure_eq_ok.mp h)
    exact validateRuleList_parts hrules
  | .fontFace _, _, h => by
    obtain ⟨_, -, h⟩ := bind_eq_ok.mp h
    obtain ⟨_, -, h⟩ := bind_eq_ok.mp h
    obtain ⟨rfl, -⟩ := Prod.mk.inj (pure_eq_ok.mp h)
    rfl
  | .keyframes _ _, _, h => by
    obtain ⟨_, -, h⟩ := bind_eq_ok.mp h
    obtain ⟨_, -, h⟩ := bind_eq_ok.mp h
    obtain ⟨rfl, -⟩ := Prod.mk.inj (pure_eq_ok.mp h)
    rfl
  | .other _, _, h => by
    obtain ⟨_, -, h⟩ := bind_eq_ok.mp h
    cases h

theorem validateRuleList_parts {depth count count' : ℕ} {topLevel : Bool} :
    ∀ {rules rules' : List CssRule},
      validateRuleList limits boundary depth topLevel count rules = .ok (rules', count') →
        parts rules' = parts rules
  | [], _, h => by
    obtain ⟨rfl, -⟩ := Prod.mk.inj (Except.ok.inj h)
    rfl
  | _ :: _, _, h => by
    obtain ⟨⟨rule, _⟩, hrule, h⟩ := bind_eq_ok.mp h
    obtain ⟨⟨rules, _⟩, hrules, h⟩ := bind_eq_ok.mp h
    obtain ⟨rfl, -⟩ := Prod.mk.inj (pure_eq_ok.mp h)
    rw [parts, parts, validateRule_parts hrule, validateRuleList_parts hrules]

end

end Stages

section Containment

variable {css : Lightningcss} {caseFold : String → String} {sha256 : List UInt8 → ContentHash}
  {limits : CssLimits} {sourceDigest : ContentHash} {assetUrls : Keyed String String}

variable {authoredCss : List UInt8} {out : CompiledCss}

end Containment

section Hero

/-- The value of `--hero` in the two samples. -/
def heroUrl (address : String) : List TokenOrValue := [.url address]

def heroImageSet : List TokenOrValue :=
  [.function "image-set"
    [.token (.string "https://example.test/x.png"), .token (.other " "), .token (.other "1x")]]

def heroRule (selector : Selector) (value : List TokenOrValue) : CssRule :=
  .style [selector] [.custom "--hero" value] []

def boundarySelector : Selector :=
  [.other "[data-jaunder-theme-surface]", .other "[data-jaunder-style-contract=\"1\"]"]

def boundaryRule : CssRule := .style [boundarySelector] [] []

def scopedSelector : Selector := [.other ".a", .descendant] ++ boundarySelector

def authoredUrlCss : String := ".a\x7b--hero:url(hero.png)\x7d"

def authoredImageSetCss : String :=
  ".a\x7b--hero:image-set(\"https://example.test/x.png\" 1x)\x7d"

def compiledCss (value : String) : String :=
  "[data-jaunder-theme-surface][data-jaunder-style-contract=\"1\"] .a\x7b--hero:" ++ value ++ "\x7d"

/-- What the library does on the two samples. -/
def heroParse (code : String) : Except String (List CssRule) :=
  if code = stylesheetSource authoredUrlCss then
    .ok [boundaryRule, heroRule [.other ".a"] (heroUrl "hero.png")]
  else if code = stylesheetSource authoredImageSetCss then
    .ok [boundaryRule, heroRule [.other ".a"] heroImageSet]
  else if code = compiledCss "url(/themes/hero.png)" then
    .ok [heroRule scopedSelector (heroUrl "/themes/hero.png")]
  else if code = compiledCss "image-set(\"https://example.test/x.png\" 1x)" then
    .ok [heroRule scopedSelector heroImageSet]
  else .error "unexpected stylesheet"

def heroToCss : List CssRule → Except String String
  | [.style _ [.custom "--hero" [.url "/themes/hero.png"]] []] =>
    .ok (compiledCss "url(/themes/hero.png)")
  | [.style _ [.custom "--hero" [.function "image-set"
      [.token (.string "https://example.test/x.png"), .token (.other " "),
        .token (.other "1x")]]] []] =>
    .ok (compiledCss "image-set(\"https://example.test/x.png\" 1x)")
  | _ => .error "unexpected stylesheet"

def heroCss : Lightningcss where
  parse := heroParse
  toCss := heroToCss
  isAbsolute url := "https:".toList.isPrefixOf url.toList

def sampleLimits : CssLimits := ⟨4, 10000⟩

end Hero

end Jaunder.Host.CssContainment
