import Jaunder.Storage.Posts.Update

namespace Jaunder.Storage.Posts.UpdateStatement

open Foundation.Outcome
open Jaunder.Common.Render Jaunder.Common.Tag Jaunder.Common.Time Jaunder.Common.Visibility
open Jaunder.Host.ContentEtag
open Jaunder.Storage.Posts.Lifecycle Jaunder.Storage.Posts.Tables Jaunder.Storage.Posts.Update

/-- The values that `apply_post_update` binds. -/
structure UpdateBinds where
  title : Option String
  slug : String
  renderedTitle : Option String
  body : String
  format : PostFormat
  renderedHtml : String
  publicationClear : Bool
  explicitPublishedAt : Option UtcInstant
  now : UtcInstant
  summary : Option String
  searchText : String

/-- `PostPublicationClear::for_update` -/
def publicationClear : PublishUpdate → Bool
  | .unpublish => true
  | .publish _ => false

def explicitPublishedAt : PublishUpdate → Option UtcInstant
  | .unpublish => none
  | .publish at_ => at_

def updateBinds (projection : Option String → String → String) (existing : PostColumns)
    (input : UpdatePostInput) : UpdateBinds :=
  let searchSlug := if existing.publishedAt.isNone then input.slug else existing.slug
  { title := input.rendered.title
    slug := input.slug
    renderedTitle := input.rendered.renderedTitle
    body := input.rendered.body
    format := input.rendered.format
    renderedHtml := input.rendered.renderedHtml
    publicationClear := publicationClear input.publish
    explicitPublishedAt := explicitPublishedAt input.publish
    now := input.requestClock
    summary := input.summary
    searchText := projection input.rendered.title searchSlug }

/-- `UPDATE posts SET …`: every expression reads the row before the statement. -/
def updateStatement (b : UpdateBinds) (p : Post) : Post :=
  { p with
    title := b.title
    slug := if p.publishedAt = none then b.slug else p.slug
    body := b.body
    format := b.format
    renderedHtml := b.renderedHtml
    renderedTitle := b.renderedTitle
    publishedAt :=
      if b.publicationClear = true then none
      else if b.explicitPublishedAt ≠ none then b.explicitPublishedAt
      else p.publishedAt.or (some b.now)
    updatedAt := b.now
    summary := b.summary
    searchText := some b.searchText
    mutationVersion := p.mutationVersion + 1 }

/-- The columns that an author writes. -/
structure Content where
  title : Option String
  renderedTitle : Option String
  slug : String
  body : String
  format : PostFormat
  renderedHtml : String
  summary : Option String
  publishedAt : Option UtcInstant
deriving DecidableEq

def Content.of (p : PostColumns) : Content :=
  ⟨p.title, p.renderedTitle, p.slug, p.body, p.format, p.renderedHtml, p.summary, p.publishedAt⟩

section Statement

variable {d : Dialect} {projection : Option String → String → String}
  {digest : PostContentEtag → String} {s s' : PostTables} {postId userId : ℤ} {p p' : Post}
  {input : UpdatePostInput} {tags : List TagLabel} {audiences : List AudienceTarget}

/-- The `CASE` of the publication time. -/
theorem finalPublishedAt_eq (existing : Option UtcInstant) (publish : PublishUpdate)
    (now : UtcInstant) : (if publicationClear publish = true then none
      else if explicitPublishedAt publish ≠ none then explicitPublishedAt publish
      else existing.or (some now)) = finalPublishedAt existing publish now := by
  cases publish with
  | unpublish => rfl
  | publish at_ =>
    cases at_ with
    | none => rfl
    | some at_ => rfl

theorem updateStatement_publishedAt :
    (updateStatement (updateBinds projection p.toPostColumns input) p).publishedAt =
      finalPublishedAt p.publishedAt input.publish input.requestClock :=
  finalPublishedAt_eq p.publishedAt input.publish input.requestClock

theorem updateStatement_slug :
    (updateStatement (updateBinds projection p.toPostColumns input) p).slug =
      if p.publishedAt.isSome then p.slug else input.slug := by
  simp only [updateStatement, updateBinds]
  cases p.publishedAt with
  | none => rfl
  | some at_ => rfl

theorem updateStatement_searchText :
    (updateStatement (updateBinds projection p.toPostColumns input) p).searchText =
      some (projection (updateStatement (updateBinds projection p.toPostColumns input) p).title
        (updateStatement (updateBinds projection p.toPostColumns input) p).slug) := by
  rw [updateStatement_slug]
  simp only [updateStatement, updateBinds]
  cases p.publishedAt with
  | none => rfl
  | some at_ => rfl

/-- An update writes what the statement computes, and the children. -/
theorem updatedPost_eq (diff : PostTagDiff) (rows : List AudienceRow) :
    updatedPost projection p input diff rows =
      { updateStatement (updateBinds projection p.toPostColumns input) p with
        tags := applyTagDiff p.tags diff
        audiences := rows
        media := mediaReferenceRows input.rendered.media } := by
  have hpublished : (updateStatement (updateBinds projection p.toPostColumns input) p).publishedAt =
      finalPublishedAt p.publishedAt input.publish input.requestClock := updateStatement_publishedAt
  simp only [updateStatement] at hpublished
  simp only [updatedPost, updateStatement, hpublished]
  simp only [updateBinds, Option.isNone_iff_eq_none]

/-- The prediction that nothing changes, against the statement. -/
theorem updateScalarIsNoop_iff : updateScalarIsNoop p.toPostColumns input = true ↔
    Content.of (updateStatement (updateBinds projection p.toPostColumns input) p).toPostColumns =
      Content.of p.toPostColumns := by
  have hslug : (p.publishedAt.isSome ∨ p.slug = input.slug) ↔
      (if p.publishedAt.isSome then p.slug else input.slug) = p.slug := by
    split_ifs with hpublished
    · exact iff_of_true (.inl hpublished) rfl
    · rw [or_iff_right hpublished]
      exact eq_comm
  simp only [Content.of, updateStatement_publishedAt, updateStatement_slug, Content.mk.injEq,
    ← hslug]
  simp only [updateScalarIsNoop, updateStatement, updateBinds, decide_eq_true_eq]
  constructor
  · rintro ⟨htitle, hslug, hbody, hformat, hrendered, hhtml, hsummary, hpublished⟩
    exact ⟨htitle.symm, hrendered.symm, hslug, hbody.symm, hformat.symm, hhtml.symm, hsummary.symm,
      hpublished.symm⟩
  · rintro ⟨htitle, hrendered, hslug, hbody, hformat, hhtml, hsummary, hpublished⟩
    exact ⟨htitle.symm, hslug, hbody.symm, hformat.symm, hrendered.symm, hhtml.symm, hsummary.symm,
      hpublished.symm⟩

/-- A wrong expectation about what the statement writes. -/
def Mismatch (expected : PostBookkeepingExpectation) (postId : ℤ) (written : PostColumns) : Prop :=
  expected.postId.any (· ≠ postId) = true ∨ expected.slug.any (· ≠ written.slug) = true ∨
    expected.format.any (· ≠ written.format) = true ∨
      expected.publishedAt.any (· ≠ written.publishedAt) = true

instance (expected : PostBookkeepingExpectation) (postId : ℤ) (written : PostColumns) :
    Decidable (Mismatch expected postId written) :=
  inferInstanceAs (Decidable (_ ∨ _))

theorem updateExpectationError_eq :
    updateExpectationError digest postId p.toPostColumns tags audiences input =
      if Mismatch input.expectations postId
          (updateStatement (updateBinds projection p.toPostColumns input) p).toPostColumns then
        some .bookkeepingMismatch
      else if input.expectations.contentEtag.any
          (· ≠ (contentEtag p.toPostColumns tags audiences).etag digest) then some .staleContent
      else none := by
  have hformat : (updateStatement (updateBinds projection p.toPostColumns input) p).format =
      input.rendered.format := rfl
  simp only [updateExpectationError, Mismatch, updateStatement_slug, updateStatement_publishedAt,
    hformat]
  by_cases hid : input.expectations.postId.any (· ≠ postId) = true
  · rw [if_pos hid, if_pos (.inl hid)]
  · rw [if_neg hid]
    simp only [or_iff_right hid]

/-- The row behind an update that was not predicted to change nothing. -/
theorem updatePost_row {m : PostMutation}
    (h : updatePost d projection digest s postId userId input = .ok (m, s'))
    (hp : s.posts.lookup postId = some p) (hp' : s'.posts.lookup postId = some p') :
    m.changed = false ∧ p' = p ∨ m.changed = true ∧ ∃ diff rows, p' =
      { updateStatement (updateBinds projection p.toPostColumns input) p with
        tags := applyTagDiff p.tags diff
        audiences := rows
        media := mediaReferenceRows input.rendered.media } := by
  obtain ⟨q, hq, -, -, ⟨hchanged, rfl⟩ | ⟨hchanged, diff, rows, -, -, hposts, -⟩⟩ := updatePost_ok h
  · exact .inl ⟨hchanged, Option.some.inj (hp'.symm.trans hp)⟩
  · obtain rfl := Option.some.inj (hp.symm.trans hq)
    rw [hposts, AList.lookup_insert] at hp'
    refine .inr ⟨hchanged, diff, rows, ?_⟩
    rw [← Option.some.inj hp', updatedPost_eq]

theorem updatePost_searchText {m : PostMutation}
    (h : updatePost d projection digest s postId userId input = .ok (m, s'))
    (hp : s.posts.lookup postId = some p) (hp' : s'.posts.lookup postId = some p')
    (hsearch : m.changed = false → p.searchText = some (projection p.title p.slug)) :
    p'.searchText = some (projection p'.title p'.slug) := by
  rcases updatePost_row h hp hp' with ⟨hchanged, rfl⟩ | ⟨-, diff, rows, rfl⟩
  · exact hsearch hchanged
  · exact updateStatement_searchText

/-- What the update path predicts is what its statement does. -/
theorem update_predictions (d : Dialect) (projection : Option String → String → String)
    (digest : PostContentEtag → String) :
    (∀ (p : Post) (input : UpdatePostInput), updateScalarIsNoop p.toPostColumns input = true ↔
        Content.of (updateStatement (updateBinds projection p.toPostColumns input) p).toPostColumns =
          Content.of p.toPostColumns) ∧
      (∀ postId (p : Post) tags audiences (input : UpdatePostInput),
        updateExpectationError digest postId p.toPostColumns tags audiences input =
          if Mismatch input.expectations postId
              (updateStatement (updateBinds projection p.toPostColumns input) p).toPostColumns then
            some .bookkeepingMismatch
          else if input.expectations.contentEtag.any
              (· ≠ (contentEtag p.toPostColumns tags audiences).etag digest) then
            some .staleContent
          else none) ∧
      ∀ s s' postId userId (input : UpdatePostInput) m p p',
        updatePost d projection digest s postId userId input = .ok (m, s') →
        s.posts.lookup postId = some p → s'.posts.lookup postId = some p' →
          (m.changed = false ∧ p' = p ∨ m.changed = true ∧ ∃ diff rows, p' =
            { updateStatement (updateBinds projection p.toPostColumns input) p with
              tags := applyTagDiff p.tags diff
              audiences := rows
              media := mediaReferenceRows input.rendered.media }) ∧
          ((m.changed = false → p.searchText = some (projection p.title p.slug)) →
            p'.searchText = some (projection p'.title p'.slug)) :=
  ⟨fun _ _ ↦ updateScalarIsNoop_iff, fun _ _ _ _ _ ↦ updateExpectationError_eq,
    fun _ _ _ _ _ _ _ _ h hp hp' ↦ ⟨updatePost_row h hp hp', updatePost_searchText h hp hp'⟩⟩

end Statement

end Jaunder.Storage.Posts.UpdateStatement
