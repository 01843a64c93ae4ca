import Jaunder.Host.ContentEtag
import Jaunder.Host.Render
import Jaunder.Storage.Posts.Tables

namespace Jaunder.Storage.Posts.Lifecycle

open Foundation.Outcome Foundation.UniqueIndex
open Jaunder.Common.Feed Jaunder.Common.Org Jaunder.Common.References Jaunder.Common.Render
open Jaunder.Common.Tag Jaunder.Common.Time Jaunder.Common.Visibility
open Jaunder.Host.ContentEtag Jaunder.Host.Render
open Jaunder.Storage.Posts.Tables

inductive PublishUpdate
  | unpublish
  | publish (at_ : Option UtcInstant)
deriving DecidableEq

def PublishUpdate.ofState : PublicationState → PublishUpdate
  | .draft => .unpublish
  | .scheduled at_ => .publish (some at_)
  | .published at_ => .publish (some at_)

structure PostBookkeepingExpectation where
  slug : Option String
  format : Option PostFormat
  publishedAt : Option (Option UtcInstant)
  postId : Option ℤ
  contentEtag : Option String
deriving DecidableEq

def PostBookkeepingExpectation.none : PostBookkeepingExpectation :=
  ⟨.none, .none, .none, .none, .none⟩

def PostBookkeepingExpectation.ofBookkeeping (b : OrgBookkeeping) : PostBookkeepingExpectation :=
  ⟨b.slug, b.format, b.dateUtc.map some, b.postId, b.synced⟩

structure CreatePostInput where
  userId : ℤ
  reservedPostId : Option ℤ
  slug : String
  rendered : PostRenderOutput
  publishedAt : Option UtcInstant
  summary : Option String
  audiences : List AudienceTarget
  tags : List TagLabel
  expectations : PostBookkeepingExpectation
  idempotencyKey : Option String
deriving DecidableEq

structure UpdatePostInput where
  slug : String
  rendered : PostRenderOutput
  publish : PublishUpdate
  summary : Option String
  audiences : List AudienceTarget
  tags : Option (List TagLabel)
  requestClock : UtcInstant
  expectations : PostBookkeepingExpectation
deriving DecidableEq

inductive CreatePostError
  | slugConflict
  | bookkeepingMismatch
  | idempotencyConflict (postId : ℤ)
  | internal (error : DbError)
deriving DecidableEq

inductive UpdatePostError
  | notFound
  | unauthorized
  | slugConflict
  | bookkeepingMismatch
  | staleContent
  | internal (error : DbError)
deriving DecidableEq

structure PostMutation where
  record : PostRecord
  previous : PostRecord
  previousHasPublicAudience : Bool
  changed : Bool
deriving DecidableEq

section Children

def audienceTargetRow : AudienceTarget → Option AudienceRow
  | .public_ => some ⟨.public_, none⟩
  | .subscribers => some ⟨.subscribers, none⟩
  | .named id => some ⟨.named, some id⟩
  | .private_ => none

def audienceTargetFromRow (row : AudienceRow) : Option AudienceTarget :=
  match row.kind with
  | .public_ => some .public_
  | .subscribers => some .subscribers
  | .named => row.audienceId.map .named

def kindName : TargetKind → String
  | .public_ => "public"
  | .subscribers => "subscribers"
  | .named => "named"

/-- `ORDER BY tk.name, pa.audience_id` -/
def audienceRowLe (a b : AudienceRow) : Bool :=
  kindName a.kind < kindName b.kind ∨
    kindName a.kind = kindName b.kind ∧ a.audienceId.getD 0 ≤ b.audienceId.getD 0

def getPostAudiences (s : PostTables) (postId : ℤ) : List AudienceTarget :=
  (((s.posts.lookup postId).elim [] (fun p ↦ p.audiences)).insertionSort
    (fun a b ↦ audienceRowLe a b = true)).filterMap audienceTargetFromRow

def audiencesAreEqual (existing : List AudienceRow) (desired : List AudienceTarget) : Bool :=
  let normalized := (desired.filterMap audienceTargetRow).dedup
  existing.length = normalized.length ∧ existing.all (· ∈ normalized)

/-- The rows that replace the deleted ones, inserted one by one. -/
def replacePostAudiences (d : Dialect) (s : PostTables) (audiences : List AudienceTarget) :
    Except DbError (List AudienceRow) := do
  let rows ← orError (insertRows d.audienceClash [] (audiences.filterMap audienceTargetRow))
    (.uniqueViolation .postAudiences)
  require (∀ row ∈ rows, ∀ id ∈ row.audienceId, id ∈ s.audiences.map Schema.Audience.audienceId)
    (.foreignKeyViolation .postAudiences)
  return rows

structure PostTagDiff where
  toAdd : List TagLabel
  toRemove : List Tag

def labelsBySlug (labels : List TagLabel) : List TagLabel :=
  labels.insertionSort (fun a b ↦ a.slug ≤ b.slug)

def postTagDiff (existing : List PostTag) (desired : List TagLabel) : PostTagDiff where
  toAdd := labelsBySlug
    (desired.filter (fun label ↦ label.slug ∉ existing.map PostTag.tagSlug))
  toRemove := (existing.filter (fun tag ↦ tag.tagSlug ∉ desired.map TagLabel.slug)).map PostTag.tagSlug

/-- `ON CONFLICT (post_id, tag_id) DO NOTHING` -/
def insertPostTag (tags : List PostTag) (label : TagLabel) : List PostTag :=
  if label.slug ∈ tags.map PostTag.tagSlug then tags else tags ++ [⟨label⟩]

def insertPostTags (tags : List PostTag) (labels : List TagLabel) : List PostTag :=
  labels.foldl insertPostTag tags

def applyTagDiff (tags : List PostTag) (diff : PostTagDiff) : List PostTag :=
  (insertPostTags tags diff.toAdd).filter (fun tag ↦ tag.tagSlug ∉ diff.toRemove)

/-- `media_reference_rows`: a set of rows. -/
def mediaReferenceRows (media : List MediaReference) : List MediaReference := media.dedup

end Children

/-- Copies the current state of a post with all of its children. -/
def captureCompletePostRevision (s : PostTables) (postId : ℤ) (capturedAt : UtcInstant) :
    Except DbError PostTables := do
  let p ← orError (s.posts.lookup postId) .rowNotFound
  let tags ← orError (insertRows revisionTagClash [] p.tags) (.uniqueViolation .postRevisionTags)
  require (p.audiences.all revisionAudienceCheck) (.checkViolation .postRevisionAudiences)
  let audiences ← orError (insertRows revisionAudienceClash [] p.audiences)
    (.uniqueViolation .postRevisionAudiences)
  let media ← orError (insertRows mediaClash [] p.media) (.uniqueViolation .postMedia)
  let revision : Revision :=
    { p.toPostColumns with
      tags, audiences, media, postId, capturedAt
      revisionId := s.lastRevisionId + 1 }
  return { s with
    revisions := s.revisions ++ [revision]
    lastRevisionId := s.lastRevisionId + 1 }

def hasPublicAudience (p : Post) : Bool := p.audiences.any (fun row ↦ row.kind = .public_)

inductive PostLifecycleChange
  | publish
  | softDelete
  | unpublish
deriving DecidableEq

def PostLifecycleChange.changes (change : PostLifecycleChange) (publishedAt : Option UtcInstant) :
    Bool :=
  match change with
  | .publish => publishedAt.isNone
  | .softDelete => true
  | .unpublish => publishedAt.isSome

def PostLifecycleChange.apply (change : PostLifecycleChange) (now : UtcInstant) (p : Post) : Post :=
  match change with
  | .publish =>
    { p with publishedAt := some now, updatedAt := now, mutationVersion := p.mutationVersion + 1 }
  | .softDelete => { p with deletedAt := some now, mutationVersion := p.mutationVersion + 1 }
  | .unpublish =>
    { p with publishedAt := none, updatedAt := now, mutationVersion := p.mutationVersion + 1 }

/-- `lifecycle_post`: nothing for a post that the user does not own or that is deleted. -/
def lifecyclePost (s : PostTables) (postId userId : ℤ) (change : PostLifecycleChange)
    (now : UtcInstant) : Except DbError (Option (PostMutation × PostTables)) :=
  match s.posts.lookup postId with
  | none => .ok none
  | some p =>
    if p.userId ≠ userId ∨ p.deletedAt.isSome then .ok none
    else do
      let previous ← fetchPost s postId
      if change.changes p.publishedAt then
        let captured ← captureCompletePostRevision s postId now
        let s' := { captured with posts := captured.posts.insert postId (change.apply now p) }
        let record ← fetchPost s' postId
        return some (⟨record, previous, hasPublicAudience p, true⟩, s')
      else return some (⟨previous, previous, hasPublicAudience p, false⟩, s)

/-- `publish_post`, `soft_delete_post` and `unpublish_post` of the store. -/
def changeLifecycle (s : PostTables) (postId userId : ℤ) (change : PostLifecycleChange)
    (now : UtcInstant) : Except UpdatePostError (PostMutation × PostTables) := do
  let mutation ← (lifecyclePost s postId userId change now).mapError .internal
  match mutation with
  | some mutation => return mutation
  | none =>
    let live := (s.posts.lookup postId).any (fun p ↦ p.deletedAt = none)
    .error (if live then .unauthorized else .notFound)

def finalPublishedAt (existing : Option UtcInstant) (publish : PublishUpdate)
    (requestClock : UtcInstant) : Option UtcInstant :=
  match publish with
  | .unpublish => none
  | .publish (some at_) => some at_
  | .publish none => existing.or (some requestClock)

def updateScalarIsNoop (existing : PostColumns) (input : UpdatePostInput) : Bool :=
  existing.title = input.rendered.title ∧
    (existing.publishedAt.isSome ∨ existing.slug = input.slug) ∧
    existing.body = input.rendered.body ∧
    existing.format = input.rendered.format ∧
    existing.renderedTitle = input.rendered.renderedTitle ∧
    existing.renderedHtml = input.rendered.renderedHtml ∧
    existing.summary = input.summary ∧
    existing.publishedAt = finalPublishedAt existing.publishedAt input.publish input.requestClock

/-- The content validator of a stored post. -/
def contentEtag (p : PostColumns) (tags : List TagLabel) (audiences : List AudienceTarget) :
    PostContentEtag :=
  ⟨p.title, p.slug, p.body, p.format, p.summary, tags, audiences, p.publishedAt.isNone⟩

def updateExpectationError (digest : PostContentEtag → String) (postId : ℤ) (existing : PostColumns)
    (tags : List TagLabel) (audiences : List AudienceTarget) (input : UpdatePostInput) :
    Option UpdatePostError :=
  let expected := input.expectations
  let finalSlug := if existing.publishedAt.isSome then existing.slug else input.slug
  let published := finalPublishedAt existing.publishedAt input.publish input.requestClock
  if expected.postId.any (· ≠ postId) then some .bookkeepingMismatch
  else if expected.slug.any (· ≠ finalSlug) ∨ expected.format.any (· ≠ input.rendered.format) ∨
      expected.publishedAt.any (· ≠ published) then some .bookkeepingMismatch
  else if expected.contentEtag.any (· ≠ (contentEtag existing tags audiences).etag digest) then
    some .staleContent
  else none

def createExpectationsMatch (input : CreatePostInput) : Bool :=
  input.expectations.slug.all (· = input.slug) ∧
    input.expectations.format.all (· = input.rendered.format) ∧
    input.expectations.publishedAt.all (· = input.publishedAt)

/-- `RESERVE_POST_ID_SQL` -/
def reservePostId (d : Dialect) (s : PostTables) : ℤ :=
  match d with
  | .sqlite => ((if s.posts.keys = [] then [0] else s.posts.keys).foldl max s.lastPostId) + 1
  | .postgres => s.lastPostId + 1

/-- `reserve_post_ids`, one of them: a write of its own, before an Org body is rendered. -/
def reserve (d : Dialect) (s : PostTables) : PostTables := { s with lastPostId := reservePostId d s }

def createdPost (projection : Option String → String → String) (input : CreatePostInput)
    (now : UtcInstant) (audiences : List AudienceRow) : Post where
  userId := input.userId
  title := input.rendered.title
  renderedTitle := input.rendered.renderedTitle
  slug := input.slug
  searchText := some (projection input.rendered.title input.slug)
  body := input.rendered.body
  format := input.rendered.format
  renderedHtml := input.rendered.renderedHtml
  createdAt := now
  updatedAt := now
  publishedAt := input.publishedAt
  deletedAt := none
  summary := input.summary
  mutationVersion := 1
  tags := insertPostTags [] (labelsBySlug input.tags)
  audiences := audiences
  media := mediaReferenceRows input.rendered.media

def writePostInTx (d : Dialect) (projection : Option String → String → String) (s : PostTables)
    (input : CreatePostInput) (now : UtcInstant) : Except CreatePostError (ℤ × PostTables) := do
  let mapping := input.idempotencyKey.bind (fun key ↦
    s.idempotencyKeys.find? (fun m ↦ m.userId = input.userId ∧ m.key = key))
  (mapping.elim (.ok ()) (fun m ↦ .error (.idempotencyConflict m.postId)) : Except _ Unit)
  let identity := input.reservedPostId.getD (reservePostId d s)
  let lastPostId := if input.reservedPostId.isSome then s.lastPostId else reservePostId d s
  require (identity ∉ s.posts) (.internal (.uniqueViolation .posts))
  require (input.userId ∈ s.users.map Author.userId) (.internal (.foreignKeyViolation .posts))
  require (¬slugTaken s input.userId input.slug identity) .slugConflict
  require (createExpectationsMatch input) .bookkeepingMismatch
  let audiences ← (replacePostAudiences d s input.audiences).mapError .internal
  return (identity, { s with
    posts := s.posts.insert identity (createdPost projection input now audiences)
    lastPostId
    idempotencyKeys := s.idempotencyKeys ++
      (input.idempotencyKey.toList.map (fun key ↦ ⟨input.userId, key, identity⟩)) })

section Rows

variable {d : Dialect} {s s' : PostTables} {audiences : List AudienceTarget} {rows : List AudienceRow}

/-- The rows that the code writes satisfy the CHECK. -/
theorem revisionAudienceCheck_targetRow {target : AudienceTarget} {row : AudienceRow}
    (h : audienceTargetRow target = some row) : revisionAudienceCheck row = true := by
  cases target <;> cases h <;> rfl

theorem replacePostAudiences_ok (h : replacePostAudiences d s audiences = .ok rows) :
    rows = audiences.filterMap audienceTargetRow ∧ Unique d.audienceClash rows := by
  obtain ⟨rows', hrows, h⟩ := bind_eq_ok.mp h
  obtain ⟨-, -, h⟩ := bind_eq_ok.mp h
  obtain rfl := pure_eq_ok.mp h
  obtain ⟨rfl, hunique⟩ := insertRows_nil_eq_some_iff.mp (orError_eq_ok.mp hrows)
  exact ⟨rfl, hunique⟩

theorem check_targetRows {row : AudienceRow} (h : row ∈ audiences.filterMap audienceTargetRow) :
    revisionAudienceCheck row = true := by
  obtain ⟨target, -, hrow⟩ := List.mem_filterMap.mp h
  exact revisionAudienceCheck_targetRow hrow

/-- On rows that satisfy the CHECK the indexes of a revision exclude exactly a repetition. -/
theorem revisionAudienceClash_eq_false {a b : AudienceRow} (ha : revisionAudienceCheck a = true)
    (hb : revisionAudienceCheck b = true) : revisionAudienceClash a b = false ↔ a ≠ b := by
  obtain ⟨k, i⟩ := a
  obtain ⟨k', j⟩ := b
  cases k <;> cases k' <;> cases i <;> cases j <;>
    simp_all [revisionAudienceCheck, revisionAudienceClash]

theorem unique_revisionAudienceClash (h : ∀ row ∈ rows, revisionAudienceCheck row = true) :
    Unique revisionAudienceClash rows ↔ rows.Nodup := by
  constructor
  · intro hunique
    exact hunique.imp_of_mem (fun ha hb hab ↦
      (revisionAudienceClash_eq_false (h _ ha) (h _ hb)).mp hab)
  · intro hnodup
    exact hnodup.imp_of_mem (fun ha hb hab ↦
      (revisionAudienceClash_eq_false (h _ ha) (h _ hb)).mpr hab)

theorem insertPostTag_nodup {tags : List PostTag} {label : TagLabel}
    (h : (tags.map PostTag.tagSlug).Nodup) :
    ((insertPostTag tags label).map PostTag.tagSlug).Nodup := by
  unfold insertPostTag
  split_ifs with hmem
  · exact h
  · rw [List.map_append, List.nodup_append]
    refine ⟨h, by simp, fun a ha b hb ↦ ?_⟩
    rintro rfl
    have hslug : a = label.slug := by simpa [PostTag.tagSlug] using hb
    exact hmem (hslug ▸ ha)

theorem insertPostTags_nodup {labels : List TagLabel} {tags : List PostTag}
    (h : (tags.map PostTag.tagSlug).Nodup) :
    ((insertPostTags tags labels).map PostTag.tagSlug).Nodup := by
  induction labels generalizing tags with
  | nil => exact h
  | cons label labels ih => exact ih (insertPostTag_nodup h)

theorem applyTagDiff_nodup {tags : List PostTag} {diff : PostTagDiff}
    (h : (tags.map PostTag.tagSlug).Nodup) :
    ((applyTagDiff tags diff).map PostTag.tagSlug).Nodup :=
  (insertPostTags_nodup h).sublist (List.filter_sublist.map _)

end Rows

/-- What every write path stores, and every write keeps. -/
structure Stored (projection : Option String → String → String) (p : Post) : Prop where
  presence : p.title.isSome = p.renderedTitle.isSome
  search : p.searchText = some (projection p.title p.slug)
  tags : (p.tags.map PostTag.tagSlug).Nodup
  audiences : ∀ row ∈ p.audiences, revisionAudienceCheck row = true
  media : p.media.Nodup

section Capture

variable {projection : Option String → String → String} {s s' : PostTables} {postId : ℤ} {p : Post}
  {now : UtcInstant}

/-- Two databases with the same current state. -/
structure SameContent (s s' : PostTables) : Prop where
  posts : s'.posts = s.posts
  users : s'.users = s.users
  audiences : s'.audiences = s.audiences

theorem SameContent.refl (s : PostTables) : SameContent s s := ⟨rfl, rfl, rfl⟩

theorem SameContent.trans {s'' : PostTables} (h : SameContent s s') (h' : SameContent s' s'') :
    SameContent s s'' :=
  ⟨h'.posts.trans h.posts, h'.users.trans h.users, h'.audiences.trans h.audiences⟩

theorem capture_ok (h : captureCompletePostRevision s postId now = .ok s') : SameContent s s' := by
  obtain ⟨p, -, h⟩ := bind_eq_ok.mp h
  obtain ⟨tags, -, h⟩ := bind_eq_ok.mp h
  obtain ⟨-, -, h⟩ := bind_eq_ok.mp h
  obtain ⟨audiences, -, h⟩ := bind_eq_ok.mp h
  obtain ⟨media, -, h⟩ := bind_eq_ok.mp h
  obtain rfl := pure_eq_ok.mp h
  exact ⟨rfl, rfl, rfl⟩

theorem fetchPost_congr (h : SameContent s s') : fetchPost s' postId = fetchPost s postId := by
  simp only [fetchPost, h.posts, h.users]

/-- The copy of a post goes through when none of its children repeats. -/
theorem capture_of_children (hp : s.posts.lookup postId = some p)
    (htags : (p.tags.map PostTag.tagSlug).Nodup)
    (hcheck : ∀ row ∈ p.audiences, revisionAudienceCheck row = true) (hrows : p.audiences.Nodup)
    (hmedia : p.media.Nodup) : ∃ s', captureCompletePostRevision s postId now = .ok s' := by
  have htags : insertRows revisionTagClash [] p.tags = some p.tags :=
    insertRows_nil (unique_of_nodup htags (fun a b hab ↦ decide_eq_false hab))
  have haudiences : insertRows revisionAudienceClash [] p.audiences = some p.audiences :=
    insertRows_nil ((unique_revisionAudienceClash hcheck).mpr hrows)
  have hmedia : insertRows mediaClash [] p.media = some p.media :=
    insertRows_nil (hmedia.imp (fun hab ↦ decide_eq_false hab))
  have hcheck : p.audiences.all revisionAudienceCheck = true := List.all_eq_true.mpr hcheck
  unfold captureCompletePostRevision
  simp only [hp, htags, haudiences, hmedia, require_pos hcheck, orError_some, ok_bind]
  exact ⟨_, rfl⟩

/-- The copy of a stored post goes through when its audience rows do not repeat. -/
theorem capture_of_stored (hp : s.posts.lookup postId = some p) (hs : Stored projection p)
    (hrows : p.audiences.Nodup) : ∃ s', captureCompletePostRevision s postId now = .ok s' :=
  capture_of_children hp hs.tags hs.audiences hrows hs.media

/-- A repeated audience row blocks every copy. -/
theorem capture_refused (hp : s.posts.lookup postId = some p) (hs : Stored projection p)
    (hrows : ¬p.audiences.Nodup) : captureCompletePostRevision s postId now =
      .error (.uniqueViolation .postRevisionAudiences) := by
  have htags : insertRows revisionTagClash [] p.tags = some p.tags :=
    insertRows_nil (unique_of_nodup hs.tags (fun a b hab ↦ decide_eq_false hab))
  have haudiences : insertRows revisionAudienceClash [] p.audiences = none := by
    rw [Option.eq_none_iff_forall_ne_some]
    intro out hout
    exact hrows ((unique_revisionAudienceClash hs.audiences).mp
      (insertRows_nil_eq_some_iff.mp hout).2)
  have hcheck : p.audiences.all revisionAudienceCheck = true := List.all_eq_true.mpr hs.audiences
  unfold captureCompletePostRevision
  simp only [hp, htags, haudiences, require_pos hcheck, orError_some, orError_none, ok_bind,
    error_bind]

end Capture

section Writes

variable {projection : Option String → String → String} {d : Dialect} {s s' : PostTables}
  {postId userId : ℤ} {now : UtcInstant}

theorem writePostInTx_ok {input : CreatePostInput} {identity : ℤ}
    (h : writePostInTx d projection s input now = .ok (identity, s')) :
    ∃ audiences, replacePostAudiences d s input.audiences = .ok audiences ∧
      identity = input.reservedPostId.getD (reservePostId d s) ∧ identity ∉ s.posts ∧
      input.userId ∈ s.users.map Author.userId ∧
      slugTaken s input.userId input.slug identity = false ∧
      s'.posts = s.posts.insert identity (createdPost projection input now audiences) ∧
      s'.users = s.users ∧ s'.audiences = s.audiences := by
  obtain ⟨-, -, h⟩ := bind_eq_ok.mp h
  obtain ⟨_, hfresh, h⟩ := bind_eq_ok.mp h
  obtain ⟨_, huser, h⟩ := bind_eq_ok.mp h
  obtain ⟨_, hslug, h⟩ := bind_eq_ok.mp h
  obtain ⟨-, -, h⟩ := bind_eq_ok.mp h
  obtain ⟨audiences, haudiences, h⟩ := bind_eq_ok.mp h
  obtain ⟨rfl, rfl⟩ := Prod.mk.inj (pure_eq_ok.mp h)
  exact ⟨audiences, mapError_eq_ok.mp haudiences, rfl, require_eq_ok.mp hfresh,
    require_eq_ok.mp huser, Bool.eq_false_iff.mpr (require_eq_ok.mp hslug), rfl, rfl, rfl⟩

/-- A lifecycle change is none at all or rewrites the row of an undeleted post of the user. -/
theorem lifecyclePost_ok {change : PostLifecycleChange} {m : PostMutation}
    (h : lifecyclePost s postId userId change now = .ok (some (m, s'))) :
    ∃ p, s.posts.lookup postId = some p ∧ p.userId = userId ∧ p.deletedAt = none ∧
      (m.changed = false ∧ change.changes p.publishedAt = false ∧ s' = s ∨
        m.changed = true ∧ s'.posts = s.posts.insert postId (change.apply now p) ∧
          s'.users = s.users ∧ s'.audiences = s.audiences) := by
  unfold lifecyclePost at h
  cases hp : s.posts.lookup postId with
  | none =>
    rw [hp] at h
    cases h
  | some p =>
    simp only [hp] at h
    split_ifs at h with howner hchange
    · cases h
    · obtain ⟨huser, hdeleted⟩ : p.userId = userId ∧ p.deletedAt = none := by simpa using howner
      obtain ⟨previous, -, h⟩ := bind_eq_ok.mp h
      obtain ⟨captured, hcaptured, h⟩ := bind_eq_ok.mp h
      obtain ⟨record, -, h⟩ := bind_eq_ok.mp h
      obtain ⟨rfl, rfl⟩ := Prod.mk.inj (Option.some.inj (pure_eq_ok.mp h))
      have hsame := capture_ok hcaptured
      exact ⟨p, rfl, huser, hdeleted,
        .inr ⟨rfl, by simp only [hsame.posts], hsame.users, hsame.audiences⟩⟩
    · obtain ⟨huser, hdeleted⟩ : p.userId = userId ∧ p.deletedAt = none := by simpa using howner
      obtain ⟨previous, -, h⟩ := bind_eq_ok.mp h
      obtain ⟨rfl, rfl⟩ := Prod.mk.inj (Option.some.inj (pure_eq_ok.mp h))
      exact ⟨p, rfl, huser, hdeleted, .inl ⟨rfl, Bool.eq_false_iff.mpr hchange, rfl⟩⟩

theorem changeLifecycle_ok {change : PostLifecycleChange} {m : PostMutation}
    (h : changeLifecycle s postId userId change now = .ok (m, s')) :
    lifecyclePost s postId userId change now = .ok (some (m, s')) := by
  obtain ⟨mutation, hm, h⟩ := bind_eq_ok.mp h
  rw [mapError_eq_ok.mp hm]
  cases mutation with
  | none => cases h
  | some mutation => rw [pure_eq_ok.mp h]

theorem updateExpectationError_cases {digest : PostContentEtag → String} {p : PostColumns} {tags : List TagLabel}
    {audiences : List AudienceTarget} {input : UpdatePostInput} {e : UpdatePostError}
    (h : updateExpectationError digest postId p tags audiences input = some e) :
    e = .bookkeepingMismatch ∨ e = .staleContent := by
  unfold updateExpectationError at h
  dsimp only at h
  split_ifs at h <;> cases h <;> simp

end Writes

end Jaunder.Storage.Posts.Lifecycle
