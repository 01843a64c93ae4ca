import Jaunder.Common.Org
import Jaunder.Common.References
import Jaunder.Common.Tag
import Jaunder.Foundation.Outcome
import Jaunder.Foundation.UniqueIndex
import Jaunder.Storage.Schema
import Mathlib.Data.List.AList

namespace Jaunder.Storage.Posts.Tables

open Foundation.Outcome Foundation.UniqueIndex
open Jaunder.Common.Feed Jaunder.Common.References Jaunder.Common.Render Jaunder.Common.Tag
open Jaunder.Common.Time Jaunder.Common.Visibility

/-- A row of `post_tags` joined with its row of `tags`. -/
structure PostTag where
  tagDisplay : TagLabel
deriving DecidableEq

def PostTag.tagSlug (t : PostTag) : Tag := t.tagDisplay.slug

/-- A row of `post_audiences` with the name of its kind. -/
structure AudienceRow where
  kind : TargetKind
  audienceId : Option ℤ
deriving DecidableEq

/-- The columns that `posts` and `post_revisions` share. -/
structure PostColumns where
  userId : ℤ
  title : Option String
  renderedTitle : Option String
  slug : String
  body : String
  format : PostFormat
  renderedHtml : String
  createdAt : UtcInstant
  updatedAt : UtcInstant
  publishedAt : Option UtcInstant
  deletedAt : Option UtcInstant
  summary : Option String
deriving DecidableEq

/-- The rows of the child tables that belong to one post or to one revision. -/
structure PostChildren where
  tags : List PostTag
  audiences : List AudienceRow
  media : List MediaReference
deriving DecidableEq

/-- A row of `posts` with its children; the search text is NULL until it is backfilled. -/
structure Post extends PostColumns, PostChildren where
  searchText : Option String
  mutationVersion : ℕ
deriving DecidableEq

structure Revision extends PostColumns, PostChildren where
  revisionId : ℕ
  postId : ℤ
  capturedAt : UtcInstant
deriving DecidableEq

structure IdempotencyMapping where
  userId : ℤ
  key : String
  postId : ℤ
deriving DecidableEq

structure Author where
  userId : ℤ
  username : Username
  displayName : Option String
deriving DecidableEq

structure PostTables where
  users : List Author
  audiences : List Schema.Audience
  posts : AList (fun _ : ℤ ↦ Post)
  lastPostId : ℤ
  revisions : List Revision
  lastRevisionId : ℕ
  idempotencyKeys : List IdempotencyMapping

inductive Constraint
  | posts
  | postAudiences
  | postRevisionTags
  | postRevisionAudiences
  | postMedia
  | idempotencyKeys
deriving DecidableEq

/-- Why the database refuses a statement. -/
inductive DbError
  | rowNotFound
  | uniqueViolation (constraint : Constraint)
  | checkViolation (constraint : Constraint)
  | foreignKeyViolation (constraint : Constraint)
  | protocol
deriving DecidableEq

inductive Dialect
  | sqlite
  | postgres
deriving DecidableEq

/-- Which rows of one post exclude each other in `post_audiences`: NULLs are distinct in the primary
key of SQLite, and PostgreSQL has an index for the rows without an audience. -/
def Dialect.audienceClash : Dialect → AudienceRow → AudienceRow → Bool
  | .sqlite, a, b => a.kind = b.kind ∧ a.audienceId.isSome ∧ a.audienceId = b.audienceId
  | .postgres, a, b =>
    (a.audienceId.isSome ∧ a.audienceId = b.audienceId) ∨
      (a.audienceId = none ∧ b.audienceId = none ∧ a.kind = b.kind)

/-- The two partial indexes of `post_revision_audiences`, on the rows of one revision. -/
def revisionAudienceClash (a b : AudienceRow) : Bool :=
  (a.kind = .named ∧ b.kind = .named ∧ a.audienceId.isSome ∧ a.audienceId = b.audienceId) ∨
    (a.kind ≠ .named ∧ a.kind = b.kind)

/-- The CHECK of `post_revision_audiences`. -/
def revisionAudienceCheck (a : AudienceRow) : Bool := a.kind = .named ↔ a.audienceId.isSome

def revisionTagClash (a b : PostTag) : Bool := a.tagSlug = b.tagSlug

def mediaClash (a b : MediaReference) : Bool := a = b

structure PostRecord where
  postId : ℤ
  authorUsername : Username
  authorDisplayName : Option String
  columns : PostColumns
  tags : List PostTag
deriving DecidableEq

/-- The order of the `tags` subquery. -/
def tagsBySlug (tags : List PostTag) : List PostTag :=
  tags.insertionSort (fun a b ↦ a.tagSlug ≤ b.tagSlug)

def validateRenderedTitlePresence (title renderedTitle : Option String) : Except DbError Unit :=
  require (title.isSome = renderedTitle.isSome) .protocol

def fetchPost (s : PostTables) (postId : ℤ) : Except DbError PostRecord := do
  let p ← orError (s.posts.lookup postId) .rowNotFound
  let u ← orError (s.users.find? (fun u ↦ u.userId = p.userId)) .rowNotFound
  validateRenderedTitlePresence p.title p.renderedTitle
  return ⟨postId, u.username, u.displayName, p.toPostColumns, tagsBySlug p.tags⟩

/-- The partial unique index on the slugs of the undeleted posts of a user. -/
def slugTaken (s : PostTables) (userId : ℤ) (slug : String) (postId : ℤ) : Bool :=
  s.posts.entries.any (fun e ↦
    e.1 ≠ postId ∧ e.2.userId = userId ∧ e.2.slug = slug ∧ e.2.deletedAt = none)

section Fetch

variable {s : PostTables} {postId : ℤ} {p : Post} {record : PostRecord}

theorem fetchPost_ok (h : fetchPost s postId = .ok record) :
    ∃ p u, s.posts.lookup postId = some p ∧
      s.users.find? (fun u ↦ u.userId = p.userId) = some u ∧
      p.title.isSome = p.renderedTitle.isSome ∧
      record = ⟨postId, u.username, u.displayName, p.toPostColumns, tagsBySlug p.tags⟩ := by
  obtain ⟨p, hp, h⟩ := bind_eq_ok.mp h
  obtain ⟨u, hu, h⟩ := bind_eq_ok.mp h
  obtain ⟨_, hpresence, h⟩ := bind_eq_ok.mp h
  exact ⟨p, u, orError_eq_ok.mp hp, orError_eq_ok.mp hu, require_eq_ok.mp hpresence,
    (pure_eq_ok.mp h).symm⟩

/-- The row of an author and a title with its rendering are all that a fetch needs. -/
theorem fetchPost_insert {p' : Post} {posts : AList (fun _ : ℤ ↦ Post)} {s' : PostTables}
    (hp : s.posts.lookup postId = some p) (h : fetchPost s postId = .ok record)
    (huser : p'.userId = p.userId) (hpresence : p'.title.isSome = p'.renderedTitle.isSome)
    (hposts : s'.posts = posts.insert postId p') (husers : s'.users = s.users) :
    ∃ record', fetchPost s' postId = .ok record' := by
  obtain ⟨p'', u, hp'', hu, -, -⟩ := fetchPost_ok h
  obtain rfl := Option.some.inj (hp.symm.trans hp'')
  unfold fetchPost validateRenderedTitlePresence
  simp only [hposts, AList.lookup_insert, husers, huser, hu, orError_some, ok_bind,
    require_pos hpresence]
  exact ⟨_, rfl⟩

end Fetch

end Jaunder.Storage.Posts.Tables
