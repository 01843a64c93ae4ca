import Jaunder.Common.Feed
import Jaunder.Host.Window
import Jaunder.Storage.Dialect
import Jaunder.Storage.Visibility
import Mathlib.Data.List.Sort
import Mathlib.Data.Prod.Lex
import Mathlib.Order.WithBot

namespace Jaunder.Storage.Syndication

open Foundation.RankedPrefix Foundation.Sql
open Jaunder.Common.Feed Jaunder.Common.Owned Jaunder.Common.SqliteTime Jaunder.Common.Time
open Jaunder.Host.Window
open Jaunder.Storage.Dialect Jaunder.Storage.Schema Jaunder.Storage.Visibility

/-- A row whose `published_at IS NOT NULL`. -/
structure LivePost where
  post : Post
  publishedAt : UtcInstant
  published : post.publishedAt = some publishedAt
deriving DecidableEq

def livePost? (p : Post) : Option LivePost :=
  match h : p.publishedAt with
  | some publishedAt => some ⟨p, publishedAt, h⟩
  | none => none

structure SyndicationPostRecord where
  post : Post
  author : User
  tags : List (Text × Text)

section Window

variable (b : Backend) (db : Database)

/-- `ORDER BY published_at DESC, post_id DESC`; NULL is the least value. -/
def sortKey (p : Post) : WithBot b.Stored ×ₗ ℤ := toLex (p.publishedAt.map b.stored, p.postId.toInt)

def newestFirst {α : Type} (post : α → Post) (rows : List α) : List α :=
  rows.insertionSort (fun p q ↦ sortKey b (post q) ≤ sortKey b (post p))

def joinUser (name : Username) (p : Post) : List Post :=
  (db.users.filter (fun u ↦ p.userId = u.userId ∧ u.username.value = name)).map (fun _ ↦ p)

def joinTag (tag : Common.Feed.Tag) (p : Post) : List Post :=
  (db.postTags.filter (fun pt ↦ p.postId = pt.postId)).flatMap (fun pt ↦
    (db.tags.filter (fun t ↦ pt.tagId = t.tagId ∧ t.tagSlug.value = tag)).map (fun _ ↦ p))

/-- The joined rows of the ranked CTE, one for each combination of the joined tables. -/
def surfaceRows : FeedSurface → List Post
  | .site => db.posts
  | .user username => db.posts.flatMap (joinUser db username)
  | .siteTag tag => db.posts.flatMap (joinTag db tag)
  | .userTag username tag => (db.posts.flatMap (joinUser db username)).flatMap (joinTag db tag)

/-- The binds in front of the resolution fragment. -/
def leadingBinds (surface : FeedSurface) (now : UtcInstant) (minItems : ℕ)
    (cutoff : Option UtcInstant) : List Value :=
  let now := b.bind now
  let cutoff := cutoff.elim Value.null b.bind
  match surface with
  | .site => [now, .int minItems, cutoff]
  | .user username => [now, .text username, .int minItems, cutoff]
  | .siteTag tag => [now, .text tag, .int minItems, cutoff]
  | .userTag username tag => [now, .text username, .text tag, .int minItems, cutoff]

def resolves (viewer : ViewerIdentity) (before : List Value) (p : Post) : Bool :=
  let (resolution, binds, _) := resolutionWhere viewer (before.length + 1)
  resolution.Holds (sqlTables db) (before ++ binds.values ++ []) (Env.bind (fun _ _ ↦ .null) "p" (postRow p))

def windowCte (surface : FeedSurface) (now : UtcInstant) (minItems : ℕ)
    (cutoff : Option UtcInstant) (viewer : ViewerIdentity) : List LivePost :=
  newestFirst b LivePost.post
    (((surfaceRows db surface).filterMap livePost?).filter (fun r ↦
      r.post.deletedAt = none ∧ b.stored r.publishedAt ≤ b.stored now ∧
        resolves db viewer (leadingBinds b surface now minItems cutoff) r.post))

def tagsOf (p : Post) : List (Text × Text) :=
  ((db.postTags.filter (fun pt ↦ pt.postId = p.postId)).flatMap (fun pt ↦
    (db.tags.filter (fun t ↦ pt.tagId = t.tagId)).map (fun t ↦ (t.tagSlug, pt.tagDisplay)))).insertionSort
      (fun s t ↦ s.1.bytes ≤ t.1.bytes)

/-- `list_published_in_window_rows`: the query of `window_sql` with its binds. -/
def listPublishedInWindowRows (surface : FeedSurface) (now : UtcInstant)
    (cutoff : Option UtcInstant) (minItems : ℕ) (viewer : ViewerIdentity) :
    List SyndicationPostRecord :=
  let ranked := windowCte b db surface now minItems cutoff viewer
  let kept := keepRanked minItems
    (fun r ↦ cutoff.all (fun cutoff ↦ b.stored cutoff ≤ b.stored r.publishedAt)) ranked
  newestFirst b SyndicationPostRecord.post
    (kept.flatMap (fun r ↦ (db.posts.filter (fun p ↦ p.postId = r.post.postId)).flatMap (fun p ↦
      (db.users.filter (fun u ↦ p.userId = u.userId)).map (fun u ↦ ⟨p, u, tagsOf db p⟩))))

def listPublishedInWindow (surface : FeedSurface) (window : HybridWindow) (now : UtcInstant)
    (viewer : ViewerIdentity) : List SyndicationPostRecord :=
  listPublishedInWindowRows b db surface now (window.cutoffDate now) window.minItems viewer

def byAuthor (username : Username) (p : Post) : Bool :=
  db.users.any (fun u ↦ p.userId = u.userId ∧ u.username.value = username)

def carriesTag (tag : Common.Feed.Tag) (p : Post) : Bool :=
  db.postTags.any (fun pt ↦ p.postId = pt.postId ∧
    db.tags.any (fun t ↦ pt.tagId = t.tagId ∧ t.tagSlug.value = tag))

def onSurface : FeedSurface → Post → Bool
  | .site, _ => true
  | .user username, p => byAuthor db username p
  | .siteTag tag, p => carriesTag db tag p
  | .userTag username tag, p => byAuthor db username p && carriesTag db tag p

/-- The posts that a viewer may see on a surface, each once, newest first. -/
def visiblePosts (surface : FeedSurface) (now : UtcInstant) (viewer : ViewerIdentity) :
    List LivePost :=
  newestFirst b LivePost.post ((db.posts.filterMap livePost?).filter (fun r ↦
    onSurface db surface r.post ∧ r.post.deletedAt = none ∧ b.stored r.publishedAt ≤ b.stored now ∧
      resolves db viewer [] r.post))

end Window

section Joins

variable {b : Backend} {db : Database}

theorem livePost?_eq_some {p : Post} {r : LivePost} : livePost? p = some r ↔ r.post = p := by
  unfold livePost?
  constructor
  · intro h
    split at h
    · cases h
      rfl
    · cases h
  · rintro rfl
    split
    · rename_i publishedAt h
      have heq := r.published.symm.trans h
      cases r
      simp_all
    · rename_i h
      exact absurd (r.published.symm.trans h) (by simp)

theorem joinUser_eq (name : Username) (p : Post) :
    joinUser db name p = if byAuthor db name p then [p] else [] := by
  refine filter_map_const_of_unique (List.Nodup.of_map _ db.users_key) (fun u hu v hv h h' ↦ ?_) p
  simp only [decide_eq_true_eq] at h h'
  exact eq_of_key db.users_key hu hv (h.1.symm.trans h'.1)

theorem joinTag_eq (tag : Common.Feed.Tag) (p : Post) :
    joinTag db tag p = if carriesTag db tag p then [p] else [] := by
  have htags : ∀ pt : PostTag,
      (db.tags.filter (fun t ↦ pt.tagId = t.tagId ∧ t.tagSlug.value = tag)).map (fun _ ↦ p) =
        if db.tags.any (fun t ↦ pt.tagId = t.tagId ∧ t.tagSlug.value = tag) then [p] else [] := by
    intro pt
    refine filter_map_const_of_unique (List.Nodup.of_map _ db.tags_key) (fun t ht t' ht' h h' ↦ ?_) p
    simp only [decide_eq_true_eq] at h h'
    exact eq_of_key db.tags_key ht ht' (h.1.symm.trans h'.1)
  rw [joinTag]
  simp only [htags]
  rw [flatMap_ite_singleton, List.filter_filter]
  have hunique : ∀ pt ∈ db.postTags, ∀ pt' ∈ db.postTags,
      (p.postId = pt.postId ∧ db.tags.any (fun t ↦ pt.tagId = t.tagId ∧ t.tagSlug.value = tag)) →
      (p.postId = pt'.postId ∧ db.tags.any (fun t ↦ pt'.tagId = t.tagId ∧ t.tagSlug.value = tag)) →
      pt = pt' := by
    rintro pt hpt pt' hpt' ⟨hpost, htag⟩ ⟨hpost', htag'⟩
    obtain ⟨t, ht, hslug⟩ := List.any_eq_true.mp htag
    obtain ⟨t', ht', hslug'⟩ := List.any_eq_true.mp htag'
    simp only [decide_eq_true_eq] at hslug hslug'
    obtain rfl := eq_of_key db.tag_slug_unique ht ht' (Text.ext (hslug.2.trans hslug'.2.symm))
    exact eq_of_key db.post_tags_unique hpt hpt'
      (Prod.ext (hpost.symm.trans hpost') (hslug.1.trans hslug'.1.symm))
  have hjoin := filter_map_const_of_unique (l := db.postTags)
    (P := fun pt ↦ p.postId = pt.postId ∧
      db.tags.any (fun t ↦ pt.tagId = t.tagId ∧ t.tagSlug.value = tag))
    (List.Nodup.of_map _ db.post_tags_unique)
    (fun pt hpt pt' hpt' h h' ↦ hunique pt hpt pt' hpt' (of_decide_eq_true h) (of_decide_eq_true h')) p
  rw [carriesTag, ← hjoin]
  congr 1
  refine List.filter_congr (fun pt _ ↦ ?_)
  rw [Bool.and_comm, Bool.decide_and, Bool.decide_eq_true]

/-- The joins of the ranked CTE neither lose nor repeat a post of the surface. -/
theorem surfaceRows_eq (surface : FeedSurface) :
    surfaceRows db surface = db.posts.filter (onSurface db surface) := by
  cases surface with
  | site =>
    rw [surfaceRows]
    exact (List.filter_eq_self.mpr (fun _ _ ↦ rfl)).symm
  | user username =>
    rw [surfaceRows, ← flatMap_ite_self]
    exact List.flatMap_congr (fun p _ ↦ joinUser_eq username p)
  | siteTag tag =>
    rw [surfaceRows, ← flatMap_ite_self]
    exact List.flatMap_congr (fun p _ ↦ joinTag_eq tag p)
  | userTag username tag =>
    have huser : db.posts.flatMap (joinUser db username) =
        db.posts.filter (byAuthor db username) := by
      rw [← flatMap_ite_self]
      exact List.flatMap_congr (fun p _ ↦ joinUser_eq username p)
    have htag : ∀ posts : List Post, posts.flatMap (joinTag db tag) =
        posts.filter (carriesTag db tag) := by
      intro posts
      rw [← flatMap_ite_self]
      exact List.flatMap_congr (fun p _ ↦ joinTag_eq tag p)
    rw [surfaceRows, huser, htag, List.filter_filter]
    exact List.filter_congr (fun p _ ↦ Bool.and_comm _ _)

theorem resolves_iff (viewer : ViewerIdentity) (before : List Value) (p : Post) :
    resolves db viewer before p = true ↔ Admits db viewer p Audience.authorUserId := by
  rw [resolves]
  exact decide_eq_true_iff.trans (holds_iff_admits db viewer p before [] _)

theorem resolves_eq (viewer : ViewerIdentity) (before : List Value) (p : Post) :
    resolves db viewer before p = resolves db viewer [] p :=
  Bool.eq_iff_iff.mpr ((resolves_iff viewer before p).trans (resolves_iff viewer [] p).symm)

theorem filterMap_live_filter (posts : List Post) (f : Post → Bool) :
    (posts.filter f).filterMap livePost? = (posts.filterMap livePost?).filter (fun r ↦ f r.post) := by
  rw [List.filterMap_filter, List.filter_filterMap]
  refine List.filterMap_congr (fun p _ ↦ ?_)
  cases hlive : livePost? p with
  | none => simp
  | some r =>
    have hpost := livePost?_eq_some.mp hlive
    by_cases hf : f p <;> simp [Option.filter, hpost, hf]

theorem windowCte_eq (surface : FeedSurface) (now : UtcInstant) (minItems : ℕ)
    (cutoff : Option UtcInstant) (viewer : ViewerIdentity) :
    windowCte b db surface now minItems cutoff viewer = visiblePosts b db surface now viewer := by
  rw [windowCte, visiblePosts, surfaceRows_eq, filterMap_live_filter, List.filter_filter]
  congr 1
  refine List.filter_congr (fun r _ ↦ ?_)
  rw [resolves_eq]
  simp only [Bool.decide_and, Bool.decide_eq_true]
  ac_rfl

end Joins

section Agreement

variable (b : Backend) (db : Database)

theorem newestFirst_pairwise {α : Type} (post : α → Post) (rows : List α) :
    (newestFirst b post rows).Pairwise (fun p q ↦ sortKey b (post q) ≤ sortKey b (post p)) := by
  have htotal : Std.Total (fun p q : α ↦ sortKey b (post q) ≤ sortKey b (post p)) :=
    ⟨fun p q ↦ le_total _ _⟩
  have htrans : IsTrans α (fun p q ↦ sortKey b (post q) ≤ sortKey b (post p)) :=
    ⟨fun _ _ _ h h' ↦ h'.trans h⟩
  exact List.pairwise_insertionSort _ rows

theorem newestFirst_of_pairwise {α : Type} (post : α → Post) {rows : List α}
    (h : rows.Pairwise (fun p q ↦ sortKey b (post q) ≤ sortKey b (post p))) :
    newestFirst b post rows = rows :=
  h.insertionSort_eq

theorem map_newestFirst {α : Type} (post : α → Post) (rows : List α) :
    (newestFirst b post rows).map post = newestFirst b id (rows.map post) :=
  List.map_insertionSort _ _ post rows (fun _ _ _ _ ↦ Iff.rfl)

theorem mem_visiblePosts {surface : FeedSurface} {now : UtcInstant} {viewer : ViewerIdentity}
    {r : LivePost} : r ∈ visiblePosts b db surface now viewer ↔
      r.post ∈ db.posts ∧ onSurface db surface r.post = true ∧ r.post.deletedAt = none ∧
        b.stored r.publishedAt ≤ b.stored now ∧ Admits db viewer r.post Audience.authorUserId := by
  rw [visiblePosts, newestFirst, List.mem_insertionSort, List.mem_filter, List.mem_filterMap]
  simp only [decide_eq_true_eq, resolves_iff, livePost?_eq_some]
  refine and_congr_left (fun _ ↦ ⟨?_, fun h ↦ ⟨r.post, h, rfl⟩⟩)
  rintro ⟨p, hp, rfl⟩
  exact hp

theorem stored_le_of_sortKey_le {r s : LivePost} (h : sortKey b s.post ≤ sortKey b r.post) :
    b.stored s.publishedAt ≤ b.stored r.publishedAt := by
  simp only [sortKey, r.published, s.published, Option.map_some] at h
  rcases (Prod.Lex.le_iff.mp h) with hlt | ⟨heq, -⟩
  · exact (WithBot.coe_lt_coe.mp hlt).le
  · exact (WithBot.coe_inj.mp heq).le

/-- The cutoff test of the query. -/
def storedInWindow (cutoff : Option UtcInstant) (r : LivePost) : Bool :=
  cutoff.all (fun cutoff ↦ b.stored cutoff ≤ b.stored r.publishedAt)

theorem visiblePosts_pairwise (surface : FeedSurface) (now : UtcInstant) (viewer : ViewerIdentity)
    (cutoff : Option UtcInstant) : (visiblePosts b db surface now viewer).Pairwise
      (fun r s ↦ storedInWindow b cutoff s → storedInWindow b cutoff r) := by
  refine (newestFirst_pairwise b LivePost.post _).imp (fun {r s} hle hs ↦ ?_)
  cases cutoff with
  | none => rfl
  | some cutoff =>
    have hcut : b.stored cutoff ≤ b.stored s.publishedAt := of_decide_eq_true hs
    exact decide_eq_true (hcut.trans (stored_le_of_sortKey_le b hle))

theorem joined_posts {r : LivePost} (hr : r.post ∈ db.posts) :
    ((db.posts.filter (fun p ↦ p.postId = r.post.postId)).flatMap (fun p ↦
      (db.users.filter (fun u ↦ p.userId = u.userId)).map
        (fun u ↦ (⟨p, u, tagsOf db p⟩ : SyndicationPostRecord)))).map SyndicationPostRecord.post =
      [r.post] := by
  have hpost : db.posts.filter (fun p ↦ p.postId = r.post.postId) = [r.post] :=
    filter_eq_singleton (List.Nodup.of_map _ db.posts_key)
      (fun p hp q hq h h' ↦ eq_of_key db.posts_key hp hq
        ((of_decide_eq_true h).trans (of_decide_eq_true h').symm)) hr (decide_eq_true rfl)
  obtain ⟨u, hu, hid⟩ := db.posts_user r.post hr
  have huser : db.users.filter (fun u ↦ r.post.userId = u.userId) = [u] :=
    filter_eq_singleton (List.Nodup.of_map _ db.users_key)
      (fun v hv w hw h h' ↦ eq_of_key db.users_key hv hw
        ((of_decide_eq_true h).symm.trans (of_decide_eq_true h'))) hu (decide_eq_true hid.symm)
  rw [hpost, List.flatMap_singleton, huser]
  rfl

/-- The rows of the query are those of the visible posts that rank high enough or are recent
enough in the stored order. -/
theorem listPublishedInWindowRows_posts (surface : FeedSurface) (now : UtcInstant)
    (cutoff : Option UtcInstant) (minItems : ℕ) (viewer : ViewerIdentity) :
    (listPublishedInWindowRows b db surface now cutoff minItems viewer).map
        SyndicationPostRecord.post =
      (keepRanked minItems (storedInWindow b cutoff)
        (visiblePosts b db surface now viewer)).map LivePost.post := by
  have hinitial := keepRanked_initial (n := minItems)
    (visiblePosts_pairwise b db surface now viewer cutoff)
  have hsorted : ((keepRanked minItems (storedInWindow b cutoff)
      (visiblePosts b db surface now viewer)).map LivePost.post).Pairwise
        (fun p q ↦ sortKey b q ≤ sortKey b p) :=
    List.pairwise_map.mpr ((newestFirst_pairwise b LivePost.post _).sublist hinitial.sublist)
  rw [listPublishedInWindowRows, windowCte_eq, map_newestFirst, List.map_flatMap]
  refine Eq.trans ?_ (newestFirst_of_pairwise b id hsorted)
  refine congrArg (newestFirst b id) ?_
  rw [List.map_eq_flatMap]
  exact List.flatMap_congr (fun r hr ↦
    joined_posts db ((mem_visiblePosts b db).mp (hinitial.subset hr)).1)

def newYear2026 : UtcInstant := ⟨1767225600000000000, by decide, by decide⟩

def daysBefore2026 (days : ℕ) : UtcInstant :=
  ⟨1767225600000000000 - 86400000000000 * (days % 1000000 : ℕ), by omega, by omega⟩

def agedPost (id : Int64) (publishedAt : UtcInstant) : Post :=
  ⟨id, 1, none, .compose "hello", .compose "<p>hello</p>", newYear2026, newYear2026,
    some publishedAt, none, none⟩

/-- A post of 2025 and one of 401 BC, both public. -/
def ancientPosts : Database :=
  { adaSite with
    posts := [agedPost 10 (daysBefore2026 886000), agedPost 11 (daysBefore2026 10)]
    postAudiences := [⟨10, 1, none⟩, ⟨11, 1, none⟩]
    posts_key := by decide
    posts_fit := by simp
    posts_user := by decide
    post_audiences_kind := by decide
    post_audiences_audience := by decide }

end Agreement

end Jaunder.Storage.Syndication
