import Jaunder.Storage.Posts.Lifecycle

namespace Jaunder.Storage.Posts.Update

open Foundation.Outcome
open Jaunder.Common.References Jaunder.Common.Tag Jaunder.Common.Time Jaunder.Common.Visibility
open Jaunder.Host.ContentEtag
open Jaunder.Storage.Posts.Lifecycle Jaunder.Storage.Posts.Tables

variable (d : Dialect) (projection : Option String → String → String)
  (digest : PostContentEtag → String)

/-- The updated row; the slug of a published post stays. -/
def updatedPost (p : Post) (input : UpdatePostInput) (diff : PostTagDiff)
    (audiences : List AudienceRow) : Post where
  userId := p.userId
  title := input.rendered.title
  renderedTitle := input.rendered.renderedTitle
  slug := if p.publishedAt.isNone then input.slug else p.slug
  searchText := some (projection input.rendered.title
    (if p.publishedAt.isNone then input.slug else p.slug))
  body := input.rendered.body
  format := input.rendered.format
  renderedHtml := input.rendered.renderedHtml
  createdAt := p.createdAt
  updatedAt := input.requestClock
  publishedAt := finalPublishedAt p.publishedAt input.publish input.requestClock
  deletedAt := p.deletedAt
  summary := input.summary
  mutationVersion := p.mutationVersion + 1
  tags := applyTagDiff p.tags diff
  audiences := audiences
  media := mediaReferenceRows input.rendered.media

def applyPostUpdate (s : PostTables) (postId : ℤ) (p : Post) (input : UpdatePostInput)
    (diff : PostTagDiff) : Except UpdatePostError PostTables := do
  let captured ← (captureCompletePostRevision s postId input.requestClock).mapError .internal
  require (p.publishedAt.isSome ∨ ¬slugTaken s p.userId input.slug postId) .slugConflict
  let audiences ← (replacePostAudiences d s input.audiences).mapError .internal
  return { captured with
    posts := captured.posts.insert postId (updatedPost projection p input diff audiences) }

/-- Would the update leave the post as it is? -/
def updateIsNoop (p : Post) (input : UpdatePostInput) (diff : PostTagDiff) : Bool :=
  updateScalarIsNoop p.toPostColumns input ∧ diff.toAdd = [] ∧ diff.toRemove = [] ∧
    audiencesAreEqual p.audiences input.audiences ∧
    p.media.toFinset = input.rendered.media.toFinset

def updatePost (s : PostTables) (postId editorUserId : ℤ) (input : UpdatePostInput) :
    Except UpdatePostError (PostMutation × PostTables) := do
  let p ← orError (s.posts.lookup postId) .notFound
  require (p.userId = editorUserId ∧ p.deletedAt = none) .unauthorized
  (validateRenderedTitlePresence p.title p.renderedTitle).mapError .internal
  let tags := (tagsBySlug p.tags).map PostTag.tagDisplay
  let currentAudiences := p.audiences.filterMap audienceTargetFromRow
  ((updateExpectationError digest postId p.toPostColumns tags currentAudiences input).elim
    (.ok ()) .error : Except _ Unit)
  let previous ← (fetchPost s postId).mapError .internal
  let diff := postTagDiff previous.tags (input.tags.getD tags)
  if updateIsNoop p input diff then
    return (⟨previous, previous, hasPublicAudience p, false⟩, s)
  else
    let s' ← applyPostUpdate d projection s postId p input diff
    let record ← (fetchPost s' postId).mapError .internal
    return (⟨record, previous, hasPublicAudience p, true⟩, s')

def retaggedPost (p : Post) (diff : PostTagDiff) (now : UtcInstant) : Post :=
  { p with
    tags := applyTagDiff p.tags diff
    updatedAt := now
    mutationVersion := p.mutationVersion + 1 }

inductive TaggingError
  | postNotFound
  | unauthorized
  | internal (error : DbError)
deriving DecidableEq

def setPostTags (s : PostTables) (postId userId : ℤ) (desired : List TagLabel) (now : UtcInstant) :
    Except TaggingError PostTables := do
  let p ← orError ((s.posts.lookup postId).filter (fun p ↦ p.deletedAt = none)) .postNotFound
  require (p.userId = userId) .unauthorized
  let diff := postTagDiff (tagsBySlug p.tags) desired
  if diff.toAdd = [] ∧ diff.toRemove = [] then return s
  else
    let captured ← (captureCompletePostRevision s postId now).mapError .internal
    return { captured with
      posts := captured.posts.insert postId (retaggedPost p diff now) }

section Writes

variable {d : Dialect} {projection : Option String → String → String}
  {digest : PostContentEtag → String} {s s' : PostTables} {postId userId : ℤ}

theorem applyPostUpdate_ok {p : Post} {input : UpdatePostInput} {diff : PostTagDiff}
    (h : applyPostUpdate d projection s postId p input diff = .ok s') :
    ∃ audiences, replacePostAudiences d s input.audiences = .ok audiences ∧
      (p.publishedAt.isSome ∨ ¬slugTaken s p.userId input.slug postId) ∧
      s'.posts = s.posts.insert postId (updatedPost projection p input diff audiences) ∧
      s'.users = s.users ∧ s'.audiences = s.audiences := by
  obtain ⟨captured, hcaptured, h⟩ := bind_eq_ok.mp h
  obtain ⟨_, hslug, h⟩ := bind_eq_ok.mp h
  obtain ⟨audiences, haudiences, h⟩ := bind_eq_ok.mp h
  obtain rfl := pure_eq_ok.mp h
  have hsame := capture_ok (mapError_eq_ok.mp hcaptured)
  exact ⟨audiences, mapError_eq_ok.mp haudiences, require_eq_ok.mp hslug,
    by simp only [hsame.posts], hsame.users, hsame.audiences⟩

/-- An update leaves everything as it is or rewrites the row of an undeleted post of the editor. -/
theorem updatePost_ok {input : UpdatePostInput} {m : PostMutation}
    (h : updatePost d projection digest s postId userId input = .ok (m, s')) :
    ∃ p, s.posts.lookup postId = some p ∧ p.userId = userId ∧ p.deletedAt = none ∧
      (m.changed = false ∧ s' = s ∨ m.changed = true ∧ ∃ diff audiences,
        replacePostAudiences d s input.audiences = .ok audiences ∧
        (p.publishedAt.isSome ∨ ¬slugTaken s p.userId input.slug postId) ∧
        s'.posts = s.posts.insert postId (updatedPost projection p input diff audiences) ∧
        s'.users = s.users ∧ s'.audiences = s.audiences) := by
  obtain ⟨p, hp, h⟩ := bind_eq_ok.mp h
  obtain ⟨_, howner, h⟩ := bind_eq_ok.mp h
  obtain ⟨-, -, h⟩ := bind_eq_ok.mp h
  obtain ⟨-, -, h⟩ := bind_eq_ok.mp h
  obtain ⟨previous, -, h⟩ := bind_eq_ok.mp h
  obtain ⟨huser, hdeleted⟩ := require_eq_ok.mp howner
  refine ⟨p, orError_eq_ok.mp hp, huser, hdeleted, ?_⟩
  dsimp only at h
  split_ifs at h with hnoop
  · obtain ⟨rfl, rfl⟩ := Prod.mk.inj (pure_eq_ok.mp h)
    exact .inl ⟨rfl, rfl⟩
  · obtain ⟨written, hwritten, h⟩ := bind_eq_ok.mp h
    obtain ⟨record, -, h⟩ := bind_eq_ok.mp h
    obtain ⟨rfl, rfl⟩ := Prod.mk.inj (pure_eq_ok.mp h)
    exact .inr ⟨rfl, _, applyPostUpdate_ok hwritten⟩

theorem applyPostUpdate_writes {p : Post} {input : UpdatePostInput} {diff : PostTagDiff}
    {captured : PostTables} {audiences : List AudienceRow}
    (hcapture : captureCompletePostRevision s postId input.requestClock = .ok captured)
    (hslug : p.publishedAt.isSome ∨ ¬slugTaken s p.userId input.slug postId)
    (haudiences : replacePostAudiences d s input.audiences = .ok audiences) :
    applyPostUpdate d projection s postId p input diff = .ok { captured with
      posts := captured.posts.insert postId (updatedPost projection p input diff audiences) } := by
  unfold applyPostUpdate
  rw [hcapture, haudiences, require_pos hslug]
  rfl

theorem updatePost_writes {p : Post} {input : UpdatePostInput} {previous record : PostRecord}
    (hp : s.posts.lookup postId = some p) (howner : p.userId = userId ∧ p.deletedAt = none)
    (hpresence : p.title.isSome = p.renderedTitle.isSome)
    (hexpected : updateExpectationError digest postId p.toPostColumns
      ((tagsBySlug p.tags).map PostTag.tagDisplay) (p.audiences.filterMap audienceTargetFromRow)
      input = none)
    (hprevious : fetchPost s postId = .ok previous)
    (hchanges : updateIsNoop p input (postTagDiff previous.tags
      (input.tags.getD ((tagsBySlug p.tags).map PostTag.tagDisplay))) = false)
    (happly : applyPostUpdate d projection s postId p input (postTagDiff previous.tags
      (input.tags.getD ((tagsBySlug p.tags).map PostTag.tagDisplay))) = .ok s')
    (hrecord : fetchPost s' postId = .ok record) :
    updatePost d projection digest s postId userId input =
      .ok (⟨record, previous, hasPublicAudience p, true⟩, s') := by
  unfold updatePost validateRenderedTitlePresence
  rw [hp, orError_some, ok_bind, require_pos howner, ok_bind, require_pos hpresence]
  simp only [Except.mapError, ok_bind, hexpected, Option.elim_none, hprevious, hchanges, happly,
    hrecord, Bool.false_eq_true, if_false]
  rfl

theorem setPostTags_ok {desired : List TagLabel} {now : UtcInstant}
    (h : setPostTags s postId userId desired now = .ok s') :
    ∃ p, s.posts.lookup postId = some p ∧ p.userId = userId ∧ p.deletedAt = none ∧
      (s' = s ∨ ∃ diff, s'.posts = s.posts.insert postId (retaggedPost p diff now) ∧
        s'.users = s.users ∧ s'.audiences = s.audiences) := by
  obtain ⟨p, hp, h⟩ := bind_eq_ok.mp h
  obtain ⟨_, howner, h⟩ := bind_eq_ok.mp h
  obtain ⟨hlookup, hdeleted⟩ := Option.filter_eq_some_iff.mp (orError_eq_ok.mp hp)
  refine ⟨p, hlookup, require_eq_ok.mp howner, of_decide_eq_true hdeleted, ?_⟩
  dsimp only at h
  split_ifs at h with hnone
  · exact .inl (pure_eq_ok.mp h).symm
  · obtain ⟨captured, hcaptured, h⟩ := bind_eq_ok.mp h
    obtain rfl := pure_eq_ok.mp h
    have hsame := capture_ok (mapError_eq_ok.mp hcaptured)
    exact .inr ⟨postTagDiff (tagsBySlug p.tags) desired, by simp only [hsame.posts], hsame.users,
      hsame.audiences⟩

end Writes

end Jaunder.Storage.Posts.Update
