import Jaunder.Host.FeedPath
import Jaunder.Storage.Syndication

namespace Jaunder.Storage.GoLive

open Foundation.Sql
open Jaunder.Common.Feed Jaunder.Common.Owned Jaunder.Common.SqliteTime Jaunder.Common.Time
open Jaunder.Host.FeedPath
open Jaunder.Storage.Dialect Jaunder.Storage.Schema Jaunder.Storage.Syndication
open Jaunder.Storage.Visibility

def publicAudiencePredicate : Pred :=
  .existsFrom [("post_audiences", "pa"), ("target_kinds", "tk")]
    (.eq (.column "tk" "kind_id") (.column "pa" "target_kind_id"))
    (.and (.eq (.column "pa" "post_id") (.column "p" "post_id"))
      (.eq (.column "tk" "name") (.literal "public")))

def hasPublicAudience (db : Database) (binds : List Value) (p : Post) : Bool :=
  publicAudiencePredicate.Holds (sqlTables db) binds (Env.bind (fun _ _ ↦ .null) "p" (postRow p))

structure GoLivePost where
  username : Username
  tagSlugs : List Common.Feed.Tag

section Queries

variable (b : Backend) (db : Database)

/-- `ORDER BY p.published_at ASC, p.post_id ASC`. -/
def goLiveKey (r : LivePost) : b.Stored ×ₗ ℤ := toLex (b.stored r.publishedAt, r.post.postId.toInt)

def joinAuthor (p : Post) : List (Post × User) :=
  (db.users.filter (fun u ↦ p.userId = u.userId)).map (fun u ↦ (p, u))

/-- `list_posts_gone_live_between`: the posts published after `after` and not after `upto`. -/
def listPostsGoneLiveBetween (after upto : UtcInstant) : List GoLivePost :=
  let rows := (db.posts.flatMap (joinAuthor db)).filterMap (fun row ↦
    (livePost? row.1).map (fun r ↦ (r, row.2)))
  let selected := rows.filter (fun row ↦
    b.stored after < b.stored row.1.publishedAt ∧ b.stored row.1.publishedAt ≤ b.stored upto ∧
      row.1.post.deletedAt = none ∧ hasPublicAudience db [b.bind after, b.bind upto] row.1.post)
  (selected.insertionSort (fun r s ↦ goLiveKey b r.1 ≤ goLiveKey b s.1)).map (fun row ↦
    ⟨row.2.username.value, (tagsOf db row.1.post).map (fun t ↦ t.1.value)⟩)

def surfaceBinds (surface : FeedSurface) (now : UtcInstant) : List Value :=
  match surface with
  | .site => [b.bind now]
  | .user username => [b.bind now, .text username]
  | .siteTag tag => [b.bind now, .text tag]
  | .userTag username tag => [b.bind now, .text username, .text tag]

def maxPublishedAtForSurface (surface : FeedSurface) (now : UtcInstant) : Option UtcInstant :=
  let live := ((surfaceRows db surface).filterMap livePost?).filter (fun r ↦
    b.stored r.publishedAt ≤ b.stored now ∧ r.post.deletedAt = none ∧
      hasPublicAudience db (surfaceBinds b surface now) r.post)
  (live.insertionSort (fun r s ↦ b.stored s.publishedAt ≤ b.stored r.publishedAt)).head?.map
    LivePost.publishedAt

end Queries

/-- A row of `SELECT feed_url, generated_at FROM feed_cache`; a column that does not decode is
`none`. The query for the row's surface runs in a transaction of its own: `posts` is the database
that it reads, `none` when it fails. -/
structure CatchupRead where
  feedUrl : Option FeedPath
  generatedAt : Option UtcInstant
  posts : Option Database

/-- The loop of `feed_urls_needing_catchup`; `none` is an error of the whole scan. -/
def feedUrlsNeedingCatchup (b : Backend) (now : UtcInstant) :
    List CatchupRead → Option (List FeedPath)
  | [] => some []
  | row :: rows =>
    match row.generatedAt with
    | none => none
    | some generatedAt =>
      match row.feedUrl with
      -- an undecodable path is reported and skipped
      | none => feedUrlsNeedingCatchup b now rows
      | some feedPath =>
        match row.posts with
        | none => none
        | some db =>
          let max := maxPublishedAtForSurface b db feedPath.surface now
          (feedUrlsNeedingCatchup b now rows).map (fun needing ↦
            if max.any (fun max ↦ generatedAt < max) then feedPath :: needing else needing)

section Facts

variable {b : Backend} {db : Database}

theorem hasPublicAudience_iff {binds : List Value} {p : Post} :
    hasPublicAudience db binds p = true ↔
      ∃ t ∈ db.postAudiences, t.postId = p.postId ∧ KindNamed db t "public" := by
  rw [hasPublicAudience, decide_eq_true_iff, publicAudiencePredicate]
  simp only [holds_existsFrom, anyJoined_cons, anyJoined_nil, holds_and, holds_eq, eval_column,
    eval_literal, Env.bind, Bool.and_eq_true, decide_eq_true_eq, mem_targets, mem_kinds,
    exists_exists_and_eq_and, KindNamed, String.reduceEq, if_true, if_false, targetRow, lookupRow,
    postRow, Value.int.injEq, Value.text.injEq, ne_eq, reduceCtorEq, not_false_eq_true, and_true]
  constructor
  · rintro ⟨t, ht, k, hk, hkind, hpost, hname⟩
    exact ⟨t, ht, Int64.toInt_inj.mp hpost, k, hk, hkind, hname⟩
  · rintro ⟨t, ht, hpost, k, hk, hkind, hname⟩
    exact ⟨t, ht, k, hk, hkind, congrArg Int64.toInt hpost, hname⟩

theorem mem_listPostsGoneLiveBetween {after upto : UtcInstant} {r : LivePost} {u : User}
    (hr : r.post ∈ db.posts) (hu : u ∈ db.users) (hauthor : r.post.userId = u.userId)
    (hafter : b.stored after < b.stored r.publishedAt)
    (hupto : b.stored r.publishedAt ≤ b.stored upto) (hdeleted : r.post.deletedAt = none)
    (hpublic : ∃ t ∈ db.postAudiences, t.postId = r.post.postId ∧ KindNamed db t "public") :
    ⟨u.username.value, (tagsOf db r.post).map (fun t ↦ t.1.value)⟩ ∈
      listPostsGoneLiveBetween b db after upto := by
  have hjoin : (r.post, u) ∈ db.posts.flatMap (joinAuthor db) := by
    refine List.mem_flatMap.mpr ⟨r.post, hr, List.mem_map.mpr ⟨u, ?_, rfl⟩⟩
    exact List.mem_filter.mpr ⟨hu, decide_eq_true hauthor⟩
  have hrow : (r, u) ∈ (db.posts.flatMap (joinAuthor db)).filterMap (fun row ↦
      (livePost? row.1).map (fun r ↦ (r, row.2))) := by
    refine List.mem_filterMap.mpr ⟨(r.post, u), hjoin, ?_⟩
    rw [livePost?_eq_some.mpr rfl]
    rfl
  rw [listPostsGoneLiveBetween]
  refine List.mem_map.mpr ⟨(r, u), ?_, rfl⟩
  rw [List.mem_insertionSort]
  refine List.mem_filter.mpr ⟨hrow, decide_eq_true ⟨hafter, hupto, hdeleted, ?_⟩⟩
  exact hasPublicAudience_iff.mpr hpublic

/-- A live public post of the surface is no newer than the newest one, in the stored order. -/
theorem le_maxPublishedAtForSurface {surface : FeedSurface} {now : UtcInstant} {r : LivePost}
    (hr : r.post ∈ db.posts) (hsurface : onSurface db surface r.post = true)
    (hnow : b.stored r.publishedAt ≤ b.stored now) (hdeleted : r.post.deletedAt = none)
    (hpublic : ∃ t ∈ db.postAudiences, t.postId = r.post.postId ∧ KindNamed db t "public") :
    ∃ max, maxPublishedAtForSurface b db surface now = some max ∧
      b.stored r.publishedAt ≤ b.stored max := by
  set live := ((surfaceRows db surface).filterMap livePost?).filter (fun r ↦
    b.stored r.publishedAt ≤ b.stored now ∧ r.post.deletedAt = none ∧
      hasPublicAudience db (surfaceBinds b surface now) r.post) with hlive
  have hmem : r ∈ live := by
    rw [hlive, surfaceRows_eq]
    refine List.mem_filter.mpr ⟨List.mem_filterMap.mpr ⟨r.post, ?_, livePost?_eq_some.mpr rfl⟩, ?_⟩
    · exact List.mem_filter.mpr ⟨hr, hsurface⟩
    · exact decide_eq_true ⟨hnow, hdeleted, hasPublicAudience_iff.mpr hpublic⟩
  have htotal : Std.Total (fun r s : LivePost ↦ b.stored s.publishedAt ≤ b.stored r.publishedAt) :=
    ⟨fun _ _ ↦ le_total _ _⟩
  have htrans : IsTrans LivePost (fun r s ↦ b.stored s.publishedAt ≤ b.stored r.publishedAt) :=
    ⟨fun _ _ _ h h' ↦ h'.trans h⟩
  have hpairwise := List.pairwise_insertionSort
    (fun r s : LivePost ↦ b.stored s.publishedAt ≤ b.stored r.publishedAt) live
  have hsorted : r ∈ live.insertionSort (fun r s ↦ b.stored s.publishedAt ≤ b.stored r.publishedAt) :=
    (List.mem_insertionSort _).mpr hmem
  rw [maxPublishedAtForSurface, ← hlive]
  cases hrows : live.insertionSort (fun r s ↦ b.stored s.publishedAt ≤ b.stored r.publishedAt) with
  | nil =>
    rw [hrows] at hsorted
    exact absurd hsorted List.not_mem_nil
  | cons newest rest =>
    rw [hrows] at hsorted hpairwise
    refine ⟨newest.publishedAt, rfl, ?_⟩
    rcases List.mem_cons.mp hsorted with rfl | hrest
    · exact le_rfl
    · exact List.rel_of_pairwise_cons hpairwise hrest

/-- A successful scan has decided every cached path against the newest post of its surface. -/
theorem feedUrlsNeedingCatchup_row {now : UtcInstant} {rows : List CatchupRead}
    {needing : List FeedPath} (h : feedUrlsNeedingCatchup b now rows = some needing)
    {row : CatchupRead} (hrow : row ∈ rows) {path : FeedPath} (hpath : row.feedUrl = some path) :
    ∃ generatedAt db, row.generatedAt = some generatedAt ∧ row.posts = some db ∧
      ((maxPublishedAtForSurface b db path.surface now).any (fun max ↦ generatedAt < max) = true →
        path ∈ needing) := by
  induction rows generalizing needing with
  | nil => exact absurd hrow List.not_mem_nil
  | cons first rows ih =>
    rw [feedUrlsNeedingCatchup] at h
    cases hgenerated : first.generatedAt with
    | none => simp [hgenerated] at h
    | some generatedAt =>
      simp only [hgenerated] at h
      cases hurl : first.feedUrl with
      | none =>
        simp only [hurl] at h
        rcases List.mem_cons.mp hrow with rfl | hrest
        · exact absurd (hurl.symm.trans hpath) (by simp)
        · exact ih h hrest
      | some firstPath =>
        simp only [hurl] at h
        cases hposts : first.posts with
        | none => simp [hposts] at h
        | some db =>
          simp only [hposts, Option.map_eq_some_iff] at h
          obtain ⟨rest, hscan, rfl⟩ := h
          rcases List.mem_cons.mp hrow with rfl | hrest
          · obtain rfl : firstPath = path := Option.some_inj.mp (hurl.symm.trans hpath)
            refine ⟨generatedAt, db, hgenerated, hposts, fun hstale ↦ ?_⟩
            rw [if_pos hstale]
            exact List.mem_cons_self
          · obtain ⟨g, db', hg, hdb', himp⟩ := ih hscan hrest
            refine ⟨g, db', hg, hdb', fun hstale ↦ ?_⟩
            split
            · exact List.mem_cons_of_mem _ (himp hstale)
            · exact himp hstale

theorem carriesTag_of_mem_tagsOf {p : Post} {tag : Common.Feed.Tag}
    (h : tag ∈ (tagsOf db p).map (fun t ↦ t.1.value)) : carriesTag db tag p = true := by
  obtain ⟨entry, hentry, rfl⟩ := List.mem_map.mp h
  rw [tagsOf, List.mem_insertionSort, List.mem_flatMap] at hentry
  obtain ⟨pt, hpt, hentry⟩ := hentry
  obtain ⟨t, ht, rfl⟩ := List.mem_map.mp hentry
  obtain ⟨hpt, hpost⟩ := List.mem_filter.mp hpt
  obtain ⟨ht, htag⟩ := List.mem_filter.mp ht
  refine List.any_eq_true.mpr ⟨pt, hpt, decide_eq_true ⟨(of_decide_eq_true hpost).symm, ?_⟩⟩
  exact List.any_eq_true.mpr ⟨t, ht, decide_eq_true ⟨of_decide_eq_true htag, rfl⟩⟩

end Facts

end Jaunder.Storage.GoLive
