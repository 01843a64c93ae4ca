import Jaunder.Common.Slug
import Jaunder.Storage.FeedEvents
import Jaunder.Storage.Posts.Lifecycle

namespace Jaunder.Storage.PostService

open Foundation.Outcome
open Jaunder.Common.Feed Jaunder.Common.Render Jaunder.Common.Slug Jaunder.Common.Tag
open Jaunder.Common.Time Jaunder.Common.Visibility
open Jaunder.Host.FeedPath Jaunder.Host.Render
open Jaunder.Storage.FeedEvents Jaunder.Storage.Posts.Lifecycle Jaunder.Storage.Posts.Tables

inductive MutationOutcome (α : Type)
  | confirmed (value : α)
  | commitIndeterminate (value : α)
deriving DecidableEq

structure PostCreation where
  userId : ℤ
  body : String
  title : Option String
  format : PostFormat
  slugOverride : Option String
  publishedAt : Option UtcInstant
  maxAttempts : ℕ
  summary : Option String
  audiences : List AudienceTarget
  tags : List TagLabel
  idempotencyKey : Option String
  expectations : PostBookkeepingExpectation
deriving DecidableEq

/-- `storage` carries the statement that the database refused, if there is one. -/
inductive PerformCreationError
  | invalidTitle
  | emptyPost
  | invalidSlug
  | exhausted (attempts : ℕ)
  | idempotencyConflict (postId : ℤ)
  | bookkeepingMismatch
  | render
  | reservation
  | storage (error : Option DbError)
deriving DecidableEq

/-- The parsers and renderers of bodies: `derive_post_naming`, `canonicalize_body`, and
`render_post_scoped` under an id or `render_post` without one. -/
structure Renderer where
  unicode : Unicode
  derivePostNaming : Option String → String → PostFormat → Option (Option String × String)
  canonicalizeBody : String → PostFormat → Option String
  renderPost : Option ℤ → Option String → String → PostFormat → Option PostRenderOutput

def candidateSlug (u : Unicode) (slugSeed : String) (attempt : ℕ) : Option String :=
  if attempt = 0 then some slugSeed
  else
    let numbered := '-' :: Nat.toDigits 10 attempt
    let base := slugSeed.toList.take (maxSlugChars - numbered.length)
    (fromStr u (base.rdropWhile (· = '-') ++ numbered)).map String.ofList

/-- The title, the slug seed and the body of every attempt. -/
def naming (r : Renderer) (creation : PostCreation) :
    Except PerformCreationError (Option String × String × String) := do
  let (title, derivedSlug) ←
    orError (r.derivePostNaming creation.title creation.body creation.format) .invalidTitle
  let body ← orError (r.canonicalizeBody creation.body creation.format) .emptyPost
  return (title, creation.slugOverride.getD derivedSlug, body)

/-- `render_post_input_for_create`, after an Org post has got its id. -/
def renderPostInput (r : Renderer) (creation : PostCreation) (reservedPostId : Option ℤ)
    (attempt : ℕ) : Except PerformCreationError CreatePostInput := do
  let (title, slugSeed, body) ← naming r creation
  let slug ← orError (candidateSlug r.unicode slugSeed attempt) .invalidSlug
  let rendered ← orError (r.renderPost reservedPostId title body creation.format) .render
  return ⟨creation.userId, reservedPostId, slug, rendered, creation.publishedAt, creation.summary,
    creation.audiences, creation.tags, creation.expectations, creation.idempotencyKey⟩

def isCurrentlyPublic (record : PostRecord) (hasPublicAudience : Bool) (now : UtcInstant) : Bool :=
  hasPublicAudience ∧ record.columns.deletedAt = none ∧
    record.columns.publishedAt.any (fun publishedAt ↦ publishedAt ≤ now)

def affectedPostFeedPaths (previous : Option (PostRecord × Bool)) (current : PostRecord × Bool)
    (now : UtcInstant) : List FeedPath :=
  let previousIsPublic := previous.any (fun p ↦ isCurrentlyPublic p.1 p.2 now)
  if ¬previousIsPublic ∧ ¬isCurrentlyPublic current.1 current.2 now then []
  else
    let tags := previous.elim [] (fun p ↦ p.1.tags) ++ current.1.tags
    affectedFeedUrls current.1.authorUsername (tags.map PostTag.tagSlug).eraseDups

/-- The rows that a create writes: the posts with their mappings, and the feed events. -/
structure Store where
  tables : PostTables
  feedEvents : FeedEventTable

section Create

variable (d : Dialect) (projection : Option String → String → String)

def createPost (s : PostTables) (input : CreatePostInput) (now : UtcInstant) :
    Except CreatePostError (PostRecord × PostTables) := do
  let (postId, s') ← writePostInTx d projection s input now
  let record ← (fetchPost s' postId).mapError .internal
  return (record, s')

/-- The write scope of `create_rendered_post_with_media_ownership`; `clock` is the clock of the
database. -/
def createRenderedPost (s : Store) (input : CreatePostInput) (now clock : UtcInstant) :
    Except CreatePostError (PostRecord × Store) := do
  let (record, tables) ← createPost d projection s.tables input now
  let feedPaths := affectedPostFeedPaths none
    (record, input.audiences.any (fun audience ↦ audience = .public_)) now
  return (record, ⟨tables,
    if feedPaths = [] then s.feedEvents else enqueueMany clock feedPaths s.feedEvents⟩)

end Create

def mapCreatePostAttemptError (error : CreatePostError) (isExpectedSlug : Bool) :
    Except PerformCreationError Unit :=
  match error with
  | .slugConflict => if isExpectedSlug then .error .bookkeepingMismatch else .ok ()
  | .idempotencyConflict postId => .error (.idempotencyConflict postId)
  | .bookkeepingMismatch => .error .bookkeepingMismatch
  | .internal error => .error (.storage (some error))

section Create

variable {d : Dialect} {projection : Option String → String → String} {s s' : Store}
  {input : CreatePostInput} {now clock : UtcInstant} {record : PostRecord}

/-- A create under a key finds no mapping and leaves the mapping of the new post. -/
theorem writePostInTx_keys {tables tables' : PostTables} {identity : ℤ}
    (h : writePostInTx d projection tables input now = .ok (identity, tables')) :
    (∀ key ∈ input.idempotencyKey, ∀ m ∈ tables.idempotencyKeys,
      ¬(m.userId = input.userId ∧ m.key = key)) ∧
    tables'.idempotencyKeys = tables.idempotencyKeys ++
      input.idempotencyKey.toList.map (fun key ↦ ⟨input.userId, key, identity⟩) := by
  obtain ⟨_, hmapping, h⟩ := bind_eq_ok.mp h
  obtain ⟨-, -, h⟩ := bind_eq_ok.mp h
  obtain ⟨-, -, h⟩ := bind_eq_ok.mp h
  obtain ⟨-, -, h⟩ := bind_eq_ok.mp h
  obtain ⟨-, -, h⟩ := bind_eq_ok.mp h
  obtain ⟨audiences, -, h⟩ := bind_eq_ok.mp h
  obtain ⟨rfl, rfl⟩ := Prod.mk.inj (pure_eq_ok.mp h)
  refine ⟨fun key hkey m hm hmatch ↦ ?_, rfl⟩
  rw [Option.mem_def.mp hkey, Option.bind_some] at hmapping
  cases hfind : tables.idempotencyKeys.find? (fun m ↦ m.userId = input.userId ∧ m.key = key) with
  | none => exact List.find?_eq_none.mp hfind m hm (decide_eq_true hmatch)
  | some m' =>
    rw [hfind] at hmapping
    cases hmapping

/-- A conflict names the post of a mapping under the key. -/
def ConflictNamed (tables : PostTables) (input : CreatePostInput) (error : CreatePostError) : Prop :=
  ∀ postId, error = .idempotencyConflict postId →
    ∃ key ∈ input.idempotencyKey, ⟨input.userId, key, postId⟩ ∈ tables.idempotencyKeys

theorem writePostInTx_errors {tables : PostTables} :
    ErrorsIn (ConflictNamed tables input) (writePostInTx d projection tables input now) := by
  refine ErrorsIn.bind ?_ (fun _ _ ↦ ?_)
  · intro error herror postId hconflict
    subst hconflict
    cases hkey : input.idempotencyKey with
    | none =>
      rw [hkey] at herror
      cases herror
    | some key =>
      rw [hkey, Option.bind_some] at herror
      cases hfind : tables.idempotencyKeys.find? (fun m ↦ m.userId = input.userId ∧ m.key = key) with
      | none =>
        rw [hfind] at herror
        cases herror
      | some m =>
        rw [hfind] at herror
        obtain rfl := CreatePostError.idempotencyConflict.inj (Except.error.inj herror)
        have hmatch := List.find?_some hfind
        obtain ⟨huser, hk⟩ := of_decide_eq_true hmatch
        refine ⟨key, rfl, ?_⟩
        rw [← huser, ← hk]
        exact List.mem_of_find?_eq_some hfind
  · refine (errorsIn_require (by simp [ConflictNamed])).bind (fun _ _ ↦ ?_)
    refine (errorsIn_require (by simp [ConflictNamed])).bind (fun _ _ ↦ ?_)
    refine (errorsIn_require (by simp [ConflictNamed])).bind (fun _ _ ↦ ?_)
    refine (errorsIn_require (by simp [ConflictNamed])).bind (fun _ _ ↦ ?_)
    exact (ErrorsIn.mapError (fun _ _ ↦ by simp [ConflictNamed])).bind (fun _ _ ↦ errorsIn_pure _)

theorem createRenderedPost_errors :
    ErrorsIn (ConflictNamed s.tables input) (createRenderedPost d projection s input now clock) := by
  refine ErrorsIn.bind ?_ (fun _ _ ↦ errorsIn_pure _)
  refine writePostInTx_errors.bind (fun _ _ ↦ ?_)
  exact (ErrorsIn.mapError (fun _ _ ↦ by simp [ConflictNamed])).bind (fun _ _ ↦ errorsIn_pure _)

theorem createRenderedPost_ok
    (h : createRenderedPost d projection s input now clock = .ok (record, s')) :
    writePostInTx d projection s.tables input now = .ok (record.postId, s'.tables) := by
  obtain ⟨⟨record', tables⟩, hcreate, h⟩ := bind_eq_ok.mp h
  obtain ⟨⟨postId, tables'⟩, hwrite, hcreate⟩ := bind_eq_ok.mp hcreate
  obtain ⟨record'', hfetch, hcreate⟩ := bind_eq_ok.mp hcreate
  obtain ⟨rfl, rfl⟩ := Prod.mk.inj (pure_eq_ok.mp hcreate)
  obtain ⟨rfl, rfl⟩ := Prod.mk.inj (pure_eq_ok.mp h)
  obtain ⟨_, _, _, _, _, hrecord⟩ := fetchPost_ok (mapError_eq_ok.mp hfetch)
  rw [hrecord]
  exact hwrite

end Create

end Jaunder.Storage.PostService
