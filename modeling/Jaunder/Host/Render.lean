import Jaunder.Common.References
import Jaunder.Common.Render

namespace Jaunder.Host.Render

open Jaunder.Common.References Jaunder.Common.Render

/-- Authored source with everything that is derived from it. -/
structure PostRenderOutput where
  title : Option String
  renderedTitle : Option String
  body : String
  format : PostFormat
  renderedHtml : String
  media : List MediaReference
  presence : title.isSome = renderedTitle.isSome
deriving DecidableEq

structure RenderOutput where
  html : String
  media : List MediaReference
deriving DecidableEq

inductive HighlightError
  | initialization (language detail : String)
  | engine (detail : String)
deriving DecidableEq

/-- Parser output around the embeds that its shortcode markers stand for. -/
structure Export where
  before : String
  embeds : List (TrustedProviderEmbed × String)
deriving DecidableEq

/-- What crosses the sanitizer. -/
def Export.parts (output : Export) : List String := output.before :: output.embeds.map Prod.snd

/-- The parsers, the sanitizers and the tokenizer: `org` exports under a footnote namespace or
without one, and `clean` follows the policy of one post or the general one. -/
structure Libraries where
  markdown : String → Except HighlightError Export
  org : Option ℤ → String → Except HighlightError Export
  clean : Option ℤ → String → String
  markdownTitle : String → String
  orgTitle : String → String
  sanitizePostTitle : String → String
  extractMediaRefs : String → List MediaReference

variable (L : Libraries)

/-- Every part that comes from the source crosses the sanitizer. -/
def assembleWithMarkers (postId : Option ℤ) (output : Export) : String :=
  L.clean postId output.before ++
    String.join (output.embeds.map (fun part ↦ part.1.html ++ L.clean postId part.2))

def renderMarkdownWithShortcodes (body : String) : Except HighlightError String :=
  (L.markdown body).map (assembleWithMarkers L none)

def renderOrgWithShortcodes (body : String) (postId : Option ℤ) : Except HighlightError String :=
  (L.org postId body).map (assembleWithMarkers L postId)

def render (body : String) : PostFormat → Except HighlightError String
  | .markdown => renderMarkdownWithShortcodes L body
  | .org => renderOrgWithShortcodes L body none
  | .html => .ok (L.clean none body)

def titleSource (title : String) : PostFormat → String
  | .markdown => L.markdownTitle title
  | .org => L.orgTitle title
  | .html => title

def renderTitle (format : PostFormat) (title : String) : String :=
  L.sanitizePostTitle (titleSource L title format)

/-- The body of `render_post_with_identity`. -/
def renderBody (body : String) (format : PostFormat) (postId : Option ℤ) :
    Except HighlightError String :=
  if format = .org then renderOrgWithShortcodes L body postId else render L body format

def renderPostWithIdentity (title : Option String) (body : String) (format : PostFormat)
    (postId : Option ℤ) : Except HighlightError PostRenderOutput := do
  let renderedHtml ← renderBody L body format postId
  return {
    title, body, format, renderedHtml
    renderedTitle := title.map (renderTitle L format)
    media := L.extractMediaRefs renderedHtml
    presence := Option.isSome_map.symm }

def renderPost (title : Option String) (body : String) (format : PostFormat) :
    Except HighlightError PostRenderOutput := renderPostWithIdentity L title body format none

def renderPostScoped (postId : ℤ) (title : Option String) (body : String) (format : PostFormat) :
    Except HighlightError PostRenderOutput := renderPostWithIdentity L title body format (some postId)

def withMedia (body : String) (format : PostFormat) : Except HighlightError RenderOutput := do
  let html ← render L body format
  return ⟨html, L.extractMediaRefs html⟩

end Jaunder.Host.Render
