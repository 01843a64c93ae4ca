import Jaunder.Storage.FeedCache
import Jaunder.Storage.Posts.Refresh

namespace Jaunder.Storage.CodeMigrations.RenderedPosts

open Foundation.Outcome
open Jaunder.Common.Time
open Jaunder.Host.FeedPath Jaunder.Host.Render
open Jaunder.Storage.FeedCache Jaunder.Storage.FeedEvents Jaunder.Storage.PostService
open Jaunder.Storage.Posts.Lifecycle Jaunder.Storage.Posts.Refresh Jaunder.Storage.Posts.Tables

/-- The rows that the rebuild reads and writes. -/
structure RebuildStore extends Store where
  feedCache : FeedCacheTable

/-- The UPDATE of the columns that changed, with `replace_post_media` for a changed body. -/
def rebuiltPost (p : Post) (rendering : PostRenderOutput) : Post where
  toPostColumns := { p.toPostColumns with
    renderedHtml := rendering.renderedHtml
    renderedTitle := rendering.renderedTitle }
  tags := p.tags
  audiences := p.audiences
  media := if rendering.renderedHtml = p.renderedHtml then p.media
    else mediaReferenceRows rendering.media
  searchText := p.searchText
  mutationVersion := p.mutationVersion

/-- The feeds of a published post that the public may read. -/
def publicFeedUrls (s : PostTables) (now : UtcInstant) (p : Post) : List FeedPath :=
  if p.deletedAt = none ∧ p.publishedAt.any (fun at_ ↦ at_ ≤ now) ∧ hasPublicAudience p then
    ((s.users.find? (fun u ↦ u.userId = p.userId)).elim [] (fun u ↦
      affectedFeedUrls u.username ((tagsBySlug p.tags).map PostTag.tagSlug)))
  else []

variable (L : Libraries)

def rebuildNext (now : UtcInstant) (r : PostTables × List FeedPath) (row : ℤ × Post) :
    Except HighlightError (PostTables × List FeedPath) := do
  let rendering ← renderPostScoped L row.1 row.2.title row.2.body row.2.format
  if rendering.renderedHtml = row.2.renderedHtml ∧ rendering.renderedTitle = row.2.renderedTitle then
    return r
  else return (
    { r.1 with posts := r.1.posts.insert row.1 (rebuiltPost row.2 rendering) },
    r.2 ++ publicFeedUrls r.1 now row.2)

/-- `SELECT ... FROM posts ORDER BY post_id` -/
def postRows (s : PostTables) : List (ℤ × Post) :=
  (s.posts.keys.insertionSort (· ≤ ·)).filterMap (fun postId ↦
    (s.posts.lookup postId).map (fun p ↦ (postId, p)))

/-- One transaction with the deletion of the request from `pending_code_migrations`. -/
def rebuildRenderedPosts (now clock : UtcInstant) (s : RebuildStore) :
    Except HighlightError RebuildStore := do
  let (tables, affected) ← (postRows s.tables).foldlM (rebuildNext L now) (s.tables, [])
  let paths := sortedPaths affected
  return {
    tables
    feedCache := fun path ↦ if path ∈ paths then none else s.feedCache path
    feedEvents := enqueueMany clock paths s.feedEvents }

end Jaunder.Storage.CodeMigrations.RenderedPosts
