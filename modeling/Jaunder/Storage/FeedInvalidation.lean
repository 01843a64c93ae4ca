import Jaunder.Common.Copyright
import Jaunder.Storage.PostService
import Jaunder.Storage.Posts.BulkRefinement

namespace Jaunder.Storage.FeedInvalidation

open Foundation.Outcome Foundation.Run
open Jaunder.Common.Copyright Jaunder.Common.Feed Jaunder.Common.Tag Jaunder.Common.Time
open Jaunder.Common.Visibility
open Jaunder.Host.ContentEtag Jaunder.Host.FeedPath
open Jaunder.Storage.FeedEvents Jaunder.Storage.PostService
open Jaunder.Storage.Posts.Bulk Jaunder.Storage.Posts.BulkRefinement Jaunder.Storage.Posts.Lifecycle
open Jaunder.Storage.Posts.Runs Jaunder.Storage.Posts.Tables Jaunder.Storage.Posts.Update

/-- The rows that the feeds are made of, with the `content.license` rows of `user_config`, and the
feed events. -/
structure FeedStore extends Store where
  licenses : ℤ → Option ContentLicense

structure SyndicationPostRecord where
  post : PostRecord
  contentLicense : ContentLicense
deriving DecidableEq

section Feeds

variable (s : FeedStore)

/-- `CONTENT_LICENSE_COLUMN` -/
def contentLicense (userId : ℤ) : ContentLicense := (s.licenses userId).getD .allRightsReserved

def syndicationPost (postId : ℤ) (columns : PostColumns) (tags : List PostTag) (u : Author) :
    SyndicationPostRecord :=
  ⟨⟨postId, u.username, u.displayName, columns, tagsBySlug tags⟩, contentLicense s columns.userId⟩

/-- What an anonymous reader of a surface is shown of a post. -/
def shownPost (surface : FeedSurface) (now : UtcInstant) (postId : ℤ) : Option SyndicationPostRecord :=
  (anonymousEntry s.tables surface now postId).bind fun (columns, tags) ↦
    (s.tables.users.find? (fun u ↦ u.userId = columns.userId)).map (syndicationPost s postId columns tags)

/-- `ORDER BY p.published_at DESC, p.post_id DESC` -/
def feedKey (r : SyndicationPostRecord) : WithBot UtcInstant ×ₗ ℤ :=
  toLex (r.post.columns.publishedAt, r.post.postId)

/-- The query of `window_sql` without its window. -/
def visiblePosts (surface : FeedSurface) (now : UtcInstant) : List SyndicationPostRecord :=
  (s.tables.posts.keys.filterMap (shownPost s surface now)).insertionSort
    (fun a b ↦ feedKey b ≤ feedKey a)

end Feeds

section Writes

variable (d : Dialect) (projection : Option String → String → String)
  (digest : PostContentEtag → String)

def enqueueFeedPaths (clock : UtcInstant) (feedPaths : List FeedPath) (t : FeedEventTable) :
    FeedEventTable :=
  if feedPaths = [] then t else enqueueMany clock feedPaths t

/-- The transaction of a write: its rows, and the events of its feed paths. -/
def FeedStore.written (s : FeedStore) (tables : PostTables) (clock : UtcInstant)
    (feedPaths : List FeedPath) : List FeedPath × FeedStore :=
  (feedPaths, { s with tables, feedEvents := enqueueFeedPaths clock feedPaths s.feedEvents })

def hasPublicTarget (audiences : List AudienceTarget) : Bool :=
  audiences.any (fun audience ↦ audience = .public_)

def createPostWithFeedEvents (s : FeedStore) (input : CreatePostInput) (now clock : UtcInstant) :
    Except CreatePostError (List FeedPath × FeedStore) := do
  let (record, store) ← createRenderedPost d projection s.toStore input now clock
  return (affectedPostFeedPaths none (record, hasPublicTarget input.audiences) now,
    { s with toStore := store })

/-- The write scope of `perform_post_update`. -/
def updatePostWithFeedEvents (s : FeedStore) (postId editorUserId : ℤ) (input : UpdatePostInput)
    (clock : UtcInstant) : Except UpdatePostError (List FeedPath × FeedStore) := do
  let (mutation, tables) ← updatePost d projection digest s.tables postId editorUserId input
  return s.written tables clock (if mutation.changed then
    affectedPostFeedPaths (some (mutation.previous, mutation.previousHasPublicAudience))
      (mutation.record, hasPublicTarget input.audiences) input.requestClock
    else [])

/-- `publish_post`, `unpublish_post` and `soft_delete_post` with `enqueue_lifecycle_feed_paths`. -/
def changeLifecycleWithFeedEvents (s : FeedStore) (change : PostLifecycleChange) (postId userId : ℤ)
    (now clock : UtcInstant) : Except UpdatePostError (List FeedPath × FeedStore) := do
  let (mutation, tables) ← changeLifecycle s.tables postId userId change now
  return s.written tables clock (if mutation.changed then
    affectedPostFeedPaths (some (mutation.previous, mutation.previousHasPublicAudience))
      (mutation.record, mutation.previousHasPublicAudience) now
    else [])

def performBulkPostMutation (s : FeedStore) (userId : ℤ) (snapshot : ManagementSelectionSnapshot)
    (operation : BulkPostOperation) (now clock : UtcInstant) :
    Except BulkPostMutationError (List FeedPath × FeedStore) := do
  let (evidence, tables) ← applyBulkPostOperation d s.tables userId snapshot operation now
  return s.written tables clock evidence.feedPaths

/-- The posts of a user that the feeds show. -/
def feedAffectingPosts (s : PostTables) (userId : ℤ) (now : UtcInstant) : List Post :=
  (s.posts.entries.map Sigma.snd).filter (fun p ↦ p.userId = userId ∧ p.publishedAt.any (· ≤ now) ∧
    p.deletedAt = none ∧ hasPublicAudience p)

/-- The distinct tags of the posts that the feeds show, unless there is no such post. -/
def feedAffectingPostTagsForUser (s : PostTables) (userId : ℤ) (now : UtcInstant) :
    Option (List Tag) :=
  let posts := feedAffectingPosts s userId now
  if posts = [] then none
  else some (((posts.flatMap (fun p ↦ p.tags.map PostTag.tagSlug)).dedup).insertionSort (· ≤ ·))

/-- `enqueue_user_feed_events` -/
def userFeedPaths (s : PostTables) (userId : ℤ) (username : Username) (now : UtcInstant) :
    List FeedPath :=
  (feedAffectingPostTagsForUser s userId now).elim [] (affectedFeedUrls username)

def updateProfile (users : List Author) (userId : ℤ) (displayName : Option String) : List Author :=
  users.map (fun u ↦ if u.userId = userId then { u with displayName } else u)

def updateProfileWithFeedEvents (s : FeedStore) (userId : ℤ) (displayName : Option String)
    (now clock : UtcInstant) : Except DbError (List FeedPath × FeedStore) := do
  let user ← orError (s.tables.users.find? (fun u ↦ u.userId = userId)) .rowNotFound
  let tables := { s.tables with users := updateProfile s.tables.users userId displayName }
  return s.written tables clock
    (if user.displayName ≠ displayName then userFeedPaths tables userId user.username now else [])

def updateContentLicenseWithFeedEvents (s : FeedStore) (userId : ℤ) (license : ContentLicense)
    (now clock : UtcInstant) : Except DbError (List FeedPath × FeedStore) := do
  let user ← orError (s.tables.users.find? (fun u ↦ u.userId = userId)) .rowNotFound
  let current := contentLicense s userId
  let s := { s with licenses := Function.update s.licenses userId (some license) }
  return s.written s.tables clock
    (if current ≠ license then userFeedPaths s.tables userId user.username now else [])

/-- The writes that can change a feed; an Org post reserves its id first. -/
inductive FeedWrite
  | reserve
  | create (input : CreatePostInput) (now : UtcInstant)
  | update (postId editorUserId : ℤ) (input : UpdatePostInput)
  | lifecycle (change : PostLifecycleChange) (postId userId : ℤ) (now : UtcInstant)
  | bulk (userId : ℤ) (snapshot : ManagementSelectionSnapshot) (operation : BulkPostOperation)
      (now : UtcInstant)
  | profile (userId : ℤ) (displayName : Option String) (now : UtcInstant)
  | license (userId : ℤ) (license : ContentLicense) (now : UtcInstant)

/-- The request time of a write; a reservation has none. -/
def FeedWrite.RequestedAt : FeedWrite → UtcInstant → Prop
  | .reserve, _ => True
  | .create _ now, t | .lifecycle _ _ _ now, t | .bulk _ _ _ now, t | .profile _ _ now, t
  | .license _ _ now, t => t = now
  | .update _ _ input, t => t = input.requestClock

/-- What a committed write has enqueued, and the rows that it leaves; `clock` is the clock of the
database. -/
def perform (s : FeedStore) (write : FeedWrite) (clock : UtcInstant) :
    Option (List FeedPath × FeedStore) :=
  match write with
  | .reserve => some (s.written (reserve d s.tables) clock [])
  | .create input now => (createPostWithFeedEvents d projection s input now clock).toOption
  | .update postId editorUserId input =>
    (updatePostWithFeedEvents d projection digest s postId editorUserId input clock).toOption
  | .lifecycle change postId userId now =>
    (changeLifecycleWithFeedEvents s change postId userId now clock).toOption
  | .bulk userId snapshot operation now =>
    (performBulkPostMutation d s userId snapshot operation now clock).toOption
  | .profile userId displayName now =>
    (updateProfileWithFeedEvents s userId displayName now clock).toOption
  | .license userId license now =>
    (updateContentLicenseWithFeedEvents s userId license now clock).toOption

/-- A refused write is rolled back. -/
def step (s : FeedStore) (write : FeedWrite × UtcInstant) : FeedStore :=
  ((perform d projection digest s write.1 write.2).map Prod.snd).getD s

end Writes

section Listing

variable {s s' : FeedStore} {surface : FeedSurface} {now : UtcInstant} {postId : ℤ}
  {r : SyndicationPostRecord}

theorem postId_of_shownPost (h : shownPost s surface now postId = some r) :
    r.post.postId = postId ∧ postId ∈ s.tables.posts.keys := by
  obtain ⟨⟨columns, tags⟩, hentry, h⟩ := Option.bind_eq_some_iff.mp h
  obtain ⟨u, -, rfl⟩ := Option.map_eq_some_iff.mp h
  obtain ⟨p, _, hp, -⟩ := anonymousEntry_some hentry
  refine ⟨rfl, AList.mem_keys.mp ?_⟩
  rw [← AList.lookup_isSome, hp]
  rfl

theorem mem_shownPosts : r ∈ s.tables.posts.keys.filterMap (shownPost s surface now) ↔
    ∃ postId, shownPost s surface now postId = some r := by
  rw [List.mem_filterMap]
  constructor
  · rintro ⟨postId, -, h⟩
    exact ⟨postId, h⟩
  · rintro ⟨postId, h⟩
    exact ⟨postId, (postId_of_shownPost h).2, h⟩

theorem shownPosts_nodup : (s.tables.posts.keys.filterMap (shownPost s surface now)).Nodup := by
  refine s.tables.posts.keys_nodup.filterMap fun i j r hi hj ↦ ?_
  rw [← (postId_of_shownPost hi).1, ← (postId_of_shownPost hj).1]

/-- A feed is made of what is shown of each post. -/
theorem visiblePosts_congr
    (h : ∀ postId, shownPost s' surface now postId = shownPost s surface now postId) :
    visiblePosts s' surface now = visiblePosts s surface now := by
  have hperm : (s'.tables.posts.keys.filterMap (shownPost s' surface now)).Perm
      (s.tables.posts.keys.filterMap (shownPost s surface now)) := by
    refine (List.perm_ext_iff_of_nodup shownPosts_nodup shownPosts_nodup).mpr fun r ↦ ?_
    rw [mem_shownPosts, mem_shownPosts]
    exact exists_congr fun postId ↦ by rw [h]
  have htotal : Std.Total (fun a b : SyndicationPostRecord ↦ feedKey b ≤ feedKey a) :=
    ⟨fun _ _ ↦ le_total _ _⟩
  have htrans : IsTrans SyndicationPostRecord (fun a b ↦ feedKey b ≤ feedKey a) :=
    ⟨fun _ _ _ hab hbc ↦ hbc.trans hab⟩
  have hsorted : (visiblePosts s' surface now).Perm (visiblePosts s surface now) :=
    ((List.perm_insertionSort _ _).trans hperm).trans (List.perm_insertionSort _ _).symm
  refine hsorted.eq_of_pairwise (fun a b ha hb hab hba ↦ ?_) (List.pairwise_insertionSort _ _)
    (List.pairwise_insertionSort _ _)
  obtain ⟨i, hi⟩ := mem_shownPosts.mp ((List.mem_insertionSort _).mp ha)
  obtain ⟨j, hj⟩ := mem_shownPosts.mp ((List.mem_insertionSort _).mp hb)
  have hkey : a.post.postId = b.post.postId :=
    congrArg (fun key ↦ (ofLex key).2) (le_antisymm hba hab)
  rw [(postId_of_shownPost hi).1, (postId_of_shownPost hj).1] at hkey
  rw [h, hkey, hj] at hi
  exact (Option.some.inj hi).symm

/-- The posts that a write is about: their rows, or what is shown of their author, change. -/
def Affected (s s' : FeedStore) (postId : ℤ) : Prop :=
  s'.tables.posts.lookup postId ≠ s.tables.posts.lookup postId ∨
    ∃ p, s.tables.posts.lookup postId = some p ∧
      (s'.tables.users.find? (fun u ↦ u.userId = p.userId) ≠
          s.tables.users.find? (fun u ↦ u.userId = p.userId) ∨
        contentLicense s' p.userId ≠ contentLicense s p.userId)

/-- What a transaction owes to the feeds. -/
structure Invalidates (s s' : FeedStore) (now clock : UtcInstant) (feedPaths : List FeedPath) : Prop where
  complete : ∀ path : FeedPath,
    visiblePosts s' path.surface now ≠ visiblePosts s path.surface now → path ∈ feedPaths
  enqueued : s'.feedEvents = enqueueFeedPaths clock feedPaths s.feedEvents
  quiet : (∀ postId, Affected s s' postId →
    shownPost s .site now postId = none ∧ shownPost s' .site now postId = none) → feedPaths = []

end Listing

section Entries

variable {s s' : FeedStore} {tables tables' : PostTables} {surface : FeedSurface} {now : UtcInstant}
  {postId : ℤ} {r : PostRecord × Bool}

theorem shownPost_congr (husers : s'.tables.users = s.tables.users) (hlicenses : s'.licenses = s.licenses)
    (h : anonymousEntry s'.tables surface now postId = anonymousEntry s.tables surface now postId) :
    shownPost s' surface now postId = shownPost s surface now postId := by
  have hsame : syndicationPost s' = syndicationPost s := by
    funext postId columns tags u
    rw [syndicationPost, syndicationPost, contentLicense, contentLicense, hlicenses]
  rw [shownPost, shownPost, h, husers, hsame]

theorem shownPost_eq_none : shownPost s surface now postId = none ↔
    anonymousEntry s.tables surface now postId = none := by
  constructor
  · intro h
    by_contra hentry
    obtain ⟨⟨columns, tags⟩, hentry⟩ := Option.ne_none_iff_exists'.mp hentry
    obtain ⟨p, u, hp, -, -, -, hu, -⟩ := anonymousEntry_some hentry
    have hcolumns : columns.userId = p.userId := by
      obtain ⟨p', hp', hshown⟩ := Option.bind_eq_some_iff.mp hentry
      obtain rfl := Option.some.inj (hp.symm.trans hp')
      split_ifs at hshown
      obtain ⟨rfl, -⟩ := Prod.mk.inj (Option.some.inj hshown)
      rfl
    rw [shownPost, hentry, Option.bind_some] at h
    dsimp only at h
    rw [hcolumns, hu] at h
    cases h
  · intro h
    rw [shownPost, h, Option.bind_none]

theorem onSurface_mono {author : Username} {tags tags' : List Tag} (hsub : ∀ tag ∈ tags, tag ∈ tags')
    (h : onSurface author tags surface = true) : onSurface author tags' surface = true := by
  cases surface with
  | site => rfl
  | siteTag tag => exact decide_eq_true (hsub tag (of_decide_eq_true h))
  | user username => exact h
  | userTag username tag =>
    obtain ⟨hname, htag⟩ := of_decide_eq_true h
    exact decide_eq_true ⟨hname, hsub tag htag⟩

/-- A record that was read of a post, and whether the post is public. -/
def Reads (tables : PostTables) (postId : ℤ) (r : PostRecord × Bool) : Prop :=
  fetchPost tables postId = .ok r.1 ∧
    ∃ p, tables.posts.lookup postId = some p ∧ r.2 = hasPublicAudience p

theorem mem_tagsBySlug {tags : List PostTag} {tag : Tag} :
    tag ∈ (tagsBySlug tags).map PostTag.tagSlug ↔ tag ∈ tags.map PostTag.tagSlug := by
  rw [tagsBySlug, List.mem_map, List.mem_map]
  exact exists_congr fun row ↦ by rw [List.mem_insertionSort]

/-- The flags of a record say where the feeds show its post. -/
theorem anonymousEntry_isSome (h : Reads tables postId r) :
    (anonymousEntry tables surface now postId).isSome = true ↔
      isCurrentlyPublic r.1 r.2 now = true ∧
        onSurface r.1.authorUsername (r.1.tags.map PostTag.tagSlug) surface = true := by
  obtain ⟨hfetch, p, hp, hpublic⟩ := h
  obtain ⟨p', u, hp', hu, -, hrecord⟩ := fetchPost_ok hfetch
  obtain rfl := Option.some.inj (hp.symm.trans hp')
  have hsurface : onSurface r.1.authorUsername (r.1.tags.map PostTag.tagSlug) surface = true ↔
      onSurface u.username (p.tags.map PostTag.tagSlug) surface = true := by
    rw [hrecord]
    exact ⟨onSurface_mono fun _ ↦ mem_tagsBySlug.mp, onSurface_mono fun _ ↦ mem_tagsBySlug.mpr⟩
  have hcurrent : isCurrentlyPublic r.1 r.2 now = true ↔
      hasPublicAudience p = true ∧ p.deletedAt = none ∧ p.publishedAt.any (· ≤ now) = true := by
    rw [hrecord, hpublic]
    exact decide_eq_true_iff
  rw [hsurface, hcurrent, anonymousEntry, hp, Option.bind_some, hu, Option.any_some]
  split_ifs with hshown
  · exact iff_of_true rfl ⟨⟨hshown.2.2.1, hshown.1, hshown.2.1⟩, hshown.2.2.2⟩
  · refine iff_of_false Bool.false_ne_true ?_
    rintro ⟨⟨hpublic, hdeleted, hlive⟩, hsurface⟩
    exact hshown ⟨hdeleted, hlive, hpublic, hsurface⟩

end Entries

section Single

variable {s s' : FeedStore} {tables tables' : PostTables} {postId : ℤ} {now clock : UtcInstant}
  {previous : Option (PostRecord × Bool)} {current : PostRecord × Bool} {path : FeedPath}

/-- One post is written, and read before and afterwards. -/
structure Rewrites (tables tables' : PostTables) (postId : ℤ) (previous : Option (PostRecord × Bool))
    (current : PostRecord × Bool) : Prop where
  users : tables'.users = tables.users
  others : ∀ id, id ≠ postId → tables'.posts.lookup id = tables.posts.lookup id
  before : previous.elim (tables.posts.lookup postId = none) (Reads tables postId)
  after : Reads tables' postId current
  author : ∀ r ∈ previous, r.1.authorUsername = current.1.authorUsername
  changed : tables'.posts.lookup postId ≠ tables.posts.lookup postId

theorem mem_affectedPostFeedPaths
    (hpublic : previous.any (fun r ↦ isCurrentlyPublic r.1 r.2 now) = true ∨
      isCurrentlyPublic current.1 current.2 now = true)
    (hsurface : onSurface current.1.authorUsername
      ((previous.elim [] (fun r ↦ r.1.tags) ++ current.1.tags).map PostTag.tagSlug) path.surface = true) :
    path ∈ affectedPostFeedPaths previous current now := by
  have hshown : ¬(¬previous.any (fun r ↦ isCurrentlyPublic r.1 r.2 now) = true ∧
      ¬isCurrentlyPublic current.1 current.2 now = true) := by
    rintro ⟨hprevious, hcurrent⟩
    exact hpublic.elim hprevious hcurrent
  rw [affectedPostFeedPaths, if_neg hshown]
  exact mem_affected_of_onSurface (onSurface_mono (fun _ ↦ List.mem_eraseDups.mpr) hsurface)

/-- The paths of a written post cover every surface that shows it before or afterwards. -/
theorem Rewrites.complete (h : Rewrites tables tables' postId previous current) {id : ℤ}
    (hne : anonymousEntry tables' path.surface now id ≠ anonymousEntry tables path.surface now id) :
    path ∈ affectedPostFeedPaths previous current now := by
  have hid : id = postId := by
    by_contra hother
    exact hne (anonymousEntry_congr h.users (h.others id hother))
  subst hid
  cases hafter : anonymousEntry tables' path.surface now id with
  | some shown =>
    have hsome : (anonymousEntry tables' path.surface now id).isSome = true := by rw [hafter]; rfl
    obtain ⟨hpublic, hsurface⟩ := (anonymousEntry_isSome h.after).mp hsome
    refine mem_affectedPostFeedPaths (.inr hpublic) (onSurface_mono (fun tag htag ↦ ?_) hsurface)
    rw [List.map_append]
    exact List.mem_append_right _ htag
  | none =>
    have hsome : (anonymousEntry tables path.surface now id).isSome = true := by
      rw [Option.isSome_iff_ne_none]
      rw [hafter] at hne
      exact hne.symm
    have hbefore := h.before
    cases previous with
    | none =>
      rw [anonymousEntry, hbefore] at hsome
      cases hsome
    | some r =>
      obtain ⟨hpublic, hsurface⟩ := (anonymousEntry_isSome hbefore).mp hsome
      rw [h.author r rfl] at hsurface
      refine mem_affectedPostFeedPaths (.inl hpublic) (onSurface_mono (fun tag htag ↦ ?_) hsurface)
      rw [List.map_append]
      exact List.mem_append_left _ htag

/-- A written post that the feeds show neither before nor afterwards owes nothing. -/
theorem Rewrites.quiet (h : Rewrites tables tables' postId previous current)
    (hbefore : anonymousEntry tables .site now postId = none)
    (hafter : anonymousEntry tables' .site now postId = none) :
    affectedPostFeedPaths previous current now = [] := by
  have hcurrent : ¬isCurrentlyPublic current.1 current.2 now = true := by
    intro hpublic
    have hsome : (anonymousEntry tables' .site now postId).isSome = true :=
      (anonymousEntry_isSome h.after).mpr ⟨hpublic, rfl⟩
    rw [hafter] at hsome
    cases hsome
  have hprevious : ¬previous.any (fun r ↦ isCurrentlyPublic r.1 r.2 now) = true := by
    intro hpublic
    cases previous with
    | none => cases hpublic
    | some r =>
      have hsome : (anonymousEntry tables .site now postId).isSome = true :=
        (anonymousEntry_isSome h.before).mpr ⟨hpublic, rfl⟩
      rw [hbefore] at hsome
      cases hsome
  rw [affectedPostFeedPaths, if_pos ⟨hprevious, hcurrent⟩]

theorem Rewrites.invalidates (h : Rewrites s.tables s'.tables postId previous current)
    (hlicenses : s'.licenses = s.licenses)
    (hevents : s'.feedEvents =
      enqueueFeedPaths clock (affectedPostFeedPaths previous current now) s.feedEvents) :
    Invalidates s s' now clock (affectedPostFeedPaths previous current now) where
  complete := by
    intro path hne
    by_contra hmissing
    refine hne (visiblePosts_congr fun id ↦ shownPost_congr h.users hlicenses ?_)
    by_contra hentry
    exact hmissing (h.complete hentry)
  enqueued := hevents
  quiet := by
    intro hhidden
    obtain ⟨hbefore, hafter⟩ := hhidden postId (.inl h.changed)
    exact h.quiet (shownPost_eq_none.mp hbefore) (shownPost_eq_none.mp hafter)

/-- A transaction that changes no row owes nothing. -/
theorem invalidates_of_same (htables : ∀ id, s'.tables.posts.lookup id = s.tables.posts.lookup id)
    (husers : s'.tables.users = s.tables.users) (hlicenses : s'.licenses = s.licenses)
    (hevents : s'.feedEvents = s.feedEvents) : Invalidates s s' now clock [] where
  complete := fun _ hne ↦ absurd (visiblePosts_congr fun id ↦
    shownPost_congr husers hlicenses (anonymousEntry_congr husers (htables id))) hne
  enqueued := hevents
  quiet := fun _ ↦ rfl

end Single

section PostWrites

variable {d : Dialect} {projection : Option String → String → String}
  {digest : PostContentEtag → String} {s s' : FeedStore} {tables tables' : PostTables}
  {feedPaths : List FeedPath} {postId userId : ℤ} {now clock : UtcInstant} {p p' : Post}

theorem hasPublicTarget_eq {audiences : List AudienceTarget} {rows : List AudienceRow}
    (h : replacePostAudiences d tables audiences = .ok rows) :
    hasPublicTarget audiences = rows.any (fun row ↦ row.kind = .public_) := by
  obtain ⟨rfl, -⟩ := replacePostAudiences_ok h
  rw [Bool.eq_iff_iff]
  unfold hasPublicTarget
  rw [List.any_eq_true, List.any_eq_true]
  constructor
  · rintro ⟨target, htarget, hpublic⟩
    obtain rfl := of_decide_eq_true hpublic
    exact ⟨⟨.public_, none⟩, List.mem_filterMap.mpr ⟨.public_, htarget, rfl⟩, rfl⟩
  · rintro ⟨row, hrow, hkind⟩
    obtain ⟨target, htarget, heq⟩ := List.mem_filterMap.mp hrow
    cases target <;> cases heq
    · exact ⟨.public_, htarget, rfl⟩
    · cases hkind
    · cases hkind

/-- A row that is replaced under its author. -/
theorem rewrites_of_insert {previous record : PostRecord} {wasPublic isPublic : Bool}
    (husers : tables'.users = tables.users) (hposts : tables'.posts = tables.posts.insert postId p')
    (hp : tables.posts.lookup postId = some p) (hauthor : p'.userId = p.userId)
    (hversion : p'.mutationVersion ≠ p.mutationVersion) (hprevious : fetchPost tables postId = .ok previous)
    (hrecord : fetchPost tables' postId = .ok record) (hwas : wasPublic = hasPublicAudience p)
    (his : isPublic = hasPublicAudience p') :
    Rewrites tables tables' postId (some (previous, wasPublic)) (record, isPublic) where
  users := husers
  others := fun id hid ↦ by rw [hposts, AList.lookup_insert_ne hid]
  before := ⟨hprevious, p, hp, hwas⟩
  after := ⟨hrecord, p', by rw [hposts, AList.lookup_insert], his⟩
  author := by
    intro r hr
    obtain rfl := Option.some.inj hr
    obtain ⟨q, u, hq, hu, -, rfl⟩ := fetchPost_ok hprevious
    obtain ⟨q', u', hq', hu', -, rfl⟩ := fetchPost_ok hrecord
    rw [hposts, AList.lookup_insert] at hq'
    obtain rfl := Option.some.inj hq'
    obtain rfl := Option.some.inj (hp.symm.trans hq)
    rw [husers, hauthor, hu] at hu'
    rw [Option.some.inj hu']
  changed := by
    rw [hposts, AList.lookup_insert, hp]
    exact fun h ↦ hversion (congrArg Post.mutationVersion (Option.some.inj h))

theorem createRenderedPost_feedEvents {store store' : Store} {input : CreatePostInput}
    {record : PostRecord}
    (h : createRenderedPost d projection store input now clock = .ok (record, store')) :
    fetchPost store'.tables record.postId = .ok record ∧
      store'.feedEvents = enqueueFeedPaths clock
        (affectedPostFeedPaths none (record, hasPublicTarget input.audiences) now) store.feedEvents := by
  obtain ⟨⟨record', tables⟩, hcreate, h⟩ := bind_eq_ok.mp h
  obtain ⟨⟨postId, tables'⟩, -, hcreate⟩ := bind_eq_ok.mp hcreate
  obtain ⟨record'', hfetch, hcreate⟩ := bind_eq_ok.mp hcreate
  obtain ⟨rfl, rfl⟩ := Prod.mk.inj (pure_eq_ok.mp hcreate)
  obtain ⟨rfl, rfl⟩ := Prod.mk.inj (pure_eq_ok.mp h)
  have hfetch := mapError_eq_ok.mp hfetch
  obtain ⟨_, _, _, _, _, hrecord⟩ := fetchPost_ok hfetch
  refine ⟨?_, rfl⟩
  rw [hrecord] at hfetch ⊢
  exact hfetch

theorem create_invalidates {input : CreatePostInput}
    (h : createPostWithFeedEvents d projection s input now clock = .ok (feedPaths, s')) :
    Invalidates s s' now clock feedPaths := by
  obtain ⟨⟨record, store⟩, hcreate, h⟩ := bind_eq_ok.mp h
  obtain ⟨rfl, rfl⟩ := Prod.mk.inj (pure_eq_ok.mp h)
  obtain ⟨hfetch, hevents⟩ := createRenderedPost_feedEvents hcreate
  obtain ⟨rows, hrows, -, hfresh, -, -, hposts, husers, -⟩ :=
    writePostInTx_ok (createRenderedPost_ok hcreate)
  have hnone : s.tables.posts.lookup record.postId = none := AList.lookup_eq_none.mpr hfresh
  have hsome : store.tables.posts.lookup record.postId = some (createdPost projection input now rows) := by
    rw [hposts, AList.lookup_insert]
  have hrewrites : Rewrites s.tables store.tables record.postId none
      (record, hasPublicTarget input.audiences) := by
    refine ⟨husers, fun id hid ↦ by rw [hposts, AList.lookup_insert_ne hid], hnone,
      ⟨hfetch, _, hsome, hasPublicTarget_eq hrows⟩, fun r hr ↦ (by cases hr), ?_⟩
    rw [hsome, hnone]
    nofun
  exact hrewrites.invalidates rfl hevents

theorem updatePost_fetched {input : UpdatePostInput} {m : PostMutation}
    (h : updatePost d projection digest tables postId userId input = .ok (m, tables')) :
    fetchPost tables postId = .ok m.previous ∧
      (∀ p, tables.posts.lookup postId = some p → m.previousHasPublicAudience = hasPublicAudience p) ∧
      (m.changed = true → fetchPost tables' postId = .ok m.record) := by
  obtain ⟨p, hp, h⟩ := bind_eq_ok.mp h
  obtain ⟨-, -, h⟩ := bind_eq_ok.mp h
  obtain ⟨-, -, h⟩ := bind_eq_ok.mp h
  obtain ⟨-, -, h⟩ := bind_eq_ok.mp h
  obtain ⟨previous, hprevious, h⟩ := bind_eq_ok.mp h
  have hprevious := mapError_eq_ok.mp hprevious
  have hp := orError_eq_ok.mp hp
  have hflag (q : Post) (hq : tables.posts.lookup postId = some q) :
      hasPublicAudience p = hasPublicAudience q := by rw [Option.some.inj (hp.symm.trans hq)]
  dsimp only at h
  split_ifs at h with hnoop
  · obtain ⟨rfl, rfl⟩ := Prod.mk.inj (pure_eq_ok.mp h)
    exact ⟨hprevious, hflag, nofun⟩
  · obtain ⟨written, -, h⟩ := bind_eq_ok.mp h
    obtain ⟨record, hrecord, h⟩ := bind_eq_ok.mp h
    obtain ⟨rfl, rfl⟩ := Prod.mk.inj (pure_eq_ok.mp h)
    exact ⟨hprevious, hflag, fun _ ↦ mapError_eq_ok.mp hrecord⟩

theorem update_invalidates {input : UpdatePostInput}
    (h : updatePostWithFeedEvents d projection digest s postId userId input clock = .ok (feedPaths, s')) :
    Invalidates s s' input.requestClock clock feedPaths := by
  obtain ⟨⟨m, tables'⟩, hupdate, h⟩ := bind_eq_ok.mp h
  obtain ⟨rfl, rfl⟩ := Prod.mk.inj (pure_eq_ok.mp h)
  obtain ⟨hprevious, hflag, hrecord⟩ := updatePost_fetched hupdate
  obtain ⟨p, hp, -, -, ⟨hsame, rfl⟩ | ⟨hchanged, diff, rows, hrows, -, hposts, husers, -⟩⟩ :=
    updatePost_ok hupdate
  · rw [hsame, if_neg Bool.false_ne_true]
    exact invalidates_of_same (fun _ ↦ rfl) rfl rfl rfl
  · rw [hchanged, if_pos rfl]
    have hrewrites := rewrites_of_insert husers hposts hp rfl (Nat.succ_ne_self p.mutationVersion)
      hprevious (hrecord hchanged) (hflag p hp) (hasPublicTarget_eq hrows)
    exact hrewrites.invalidates rfl rfl

theorem lifecyclePost_fetched {change : PostLifecycleChange} {m : PostMutation}
    (h : lifecyclePost tables postId userId change now = .ok (some (m, tables'))) :
    fetchPost tables postId = .ok m.previous ∧
      (∀ p, tables.posts.lookup postId = some p → m.previousHasPublicAudience = hasPublicAudience p) ∧
      (m.changed = true → fetchPost tables' postId = .ok m.record) := by
  unfold lifecyclePost at h
  cases hp : tables.posts.lookup postId with
  | none =>
    rw [hp] at h
    cases h
  | some p =>
    have hflag (q : Post) (hq : some p = some q) : hasPublicAudience p = hasPublicAudience q := by
      rw [Option.some.inj hq]
    simp only [hp] at h
    split_ifs at h with howner hchange
    · cases h
    · obtain ⟨previous, hprevious, h⟩ := bind_eq_ok.mp h
      obtain ⟨captured, -, h⟩ := bind_eq_ok.mp h
      obtain ⟨record, hrecord, h⟩ := bind_eq_ok.mp h
      obtain ⟨rfl, rfl⟩ := Prod.mk.inj (Option.some.inj (pure_eq_ok.mp h))
      exact ⟨hprevious, hflag, fun _ ↦ hrecord⟩
    · obtain ⟨previous, hprevious, h⟩ := bind_eq_ok.mp h
      obtain ⟨rfl, rfl⟩ := Prod.mk.inj (Option.some.inj (pure_eq_ok.mp h))
      exact ⟨hprevious, hflag, nofun⟩

theorem lifecycle_invalidates {change : PostLifecycleChange}
    (h : changeLifecycleWithFeedEvents s change postId userId now clock = .ok (feedPaths, s')) :
    Invalidates s s' now clock feedPaths := by
  obtain ⟨⟨m, tables'⟩, hchange, h⟩ := bind_eq_ok.mp h
  obtain ⟨rfl, rfl⟩ := Prod.mk.inj (pure_eq_ok.mp h)
  have hlifecycle := changeLifecycle_ok hchange
  obtain ⟨hprevious, hflag, hrecord⟩ := lifecyclePost_fetched hlifecycle
  obtain ⟨p, hp, -, -, ⟨hsame, -, rfl⟩ | ⟨hchanged, hposts, husers, -⟩⟩ := lifecyclePost_ok hlifecycle
  · rw [hsame, if_neg Bool.false_ne_true]
    exact invalidates_of_same (fun _ ↦ rfl) rfl rfl rfl
  · rw [hchanged, if_pos rfl]
    have hauthor : (change.apply now p).userId = p.userId := by cases change <;> rfl
    have hversion : (change.apply now p).mutationVersion ≠ p.mutationVersion := by
      cases change <;> exact Nat.succ_ne_self p.mutationVersion
    have hpublic : m.previousHasPublicAudience = hasPublicAudience (change.apply now p) := by
      rw [hflag p hp]
      cases change <;> rfl
    have hrewrites := rewrites_of_insert husers hposts hp hauthor hversion hprevious
      (hrecord hchanged) (hflag p hp) hpublic
    exact hrewrites.invalidates rfl rfl

end PostWrites

section Bulk

variable {d : Dialect} {projection : Option String → String → String} {s s' : FeedStore}
  {tables' : PostTables} {userId : ℤ} {snapshot : ManagementSelectionSnapshot}
  {operation : BulkPostOperation} {now clock : UtcInstant} {feedPaths : List FeedPath}

theorem mutationVersion_apply (p : Post) : (operation.apply now p).mutationVersion ≠ p.mutationVersion := by
  cases operation <;> exact Nat.succ_ne_self p.mutationVersion

/-- A bulk operation reports a path only for a post that the feeds show before or afterwards. -/
theorem bulk_quiet (hs : Reached projection s.tables) {evidence : BulkPostMutationEvidence}
    (h : applyBulkPostOperation d s.tables userId snapshot operation now = .ok (evidence, tables'))
    (hhidden : ∀ postId, tables'.posts.lookup postId ≠ s.tables.posts.lookup postId →
      anonymousEntry s.tables .site now postId = none ∧ anonymousEntry tables' .site now postId = none) :
    evidence.feedPaths = [] := by
  obtain ⟨locked, hlocked, husers, -, hlookup⟩ := applyBulkPostOperation_ok h
  by_cases hids : changedIds locked operation = []
  · obtain ⟨locked', hlocked', h⟩ := bind_eq_ok.mp h
    obtain rfl := Except.ok.inj (hlocked.symm.trans hlocked')
    dsimp only at h
    rw [if_pos hids] at h
    rw [← (Prod.mk.inj (pure_eq_ok.mp h)).1]
  obtain ⟨captured, -, -, hpaths, -⟩ := applyBulkPostOperation_parts h hlocked hids
  rw [hpaths]
  by_contra hne
  obtain ⟨path, hpath⟩ := List.exists_mem_of_ne_nil _ hne
  unfold Posts.Bulk.feedPaths at hpath
  obtain ⟨post, hpost, -⟩ := List.mem_flatMap.mp (List.mem_eraseDups.mp hpath)
  obtain ⟨hpost, hsurfacing⟩ := List.mem_filter.mp hpost
  obtain ⟨hchanged, hsurfacing⟩ := of_decide_eq_true hsurfacing
  obtain ⟨hlive, hpublic⟩ := Bool.and_eq_true_iff.mp hsurfacing
  obtain ⟨p, hlocks⟩ := lockSnapshot_ok hlocked hpost
  obtain ⟨p', u, hp', hu, -, hrecord⟩ := fetchPost_ok hlocks.fetched
  obtain rfl := Option.some.inj (hlocks.lookup.symm.trans hp')
  have hafter : tables'.posts.lookup post.record.postId = some (operation.apply now p) := by
    rw [hlookup, if_pos hchanged, hlocks.lookup, Option.map_some]
  have hwritten : tables'.posts.lookup post.record.postId ≠ s.tables.posts.lookup post.record.postId := by
    rw [hafter, hlocks.lookup]
    exact fun heq ↦ mutationVersion_apply p (congrArg Post.mutationVersion (Option.some.inj heq))
  obtain ⟨hbefore, hthen⟩ := hhidden post.record.postId hwritten
  have hlive : p.publishedAt.any (· ≤ now) = true := by
    rw [hrecord] at hlive
    exact hlive
  have hshown (tables : PostTables) (q : Post) (husers : tables.users = s.tables.users)
      (hq : tables.posts.lookup post.record.postId = some q) (hauthor : q.userId = p.userId)
      (hdeleted : q.deletedAt = none) (hlive : q.publishedAt.any (· ≤ now) = true)
      (hpublic : hasPublicAudience q = true) :
      anonymousEntry tables .site now post.record.postId ≠ none := by
    rw [anonymousEntry, hq, Option.bind_some, husers, hauthor, hu,
      if_pos ⟨hdeleted, hlive, hpublic, rfl⟩]
    exact Option.some_ne_none _
  have hstored := hs.stored _ _ hlocks.lookup
  rcases Bool.or_eq_true_iff.mp hpublic with hwas | hwill
  · refine hshown s.tables p rfl hlocks.lookup rfl hlocks.live hlive ?_ hbefore
    have hmem := of_decide_eq_true hwas
    rw [hlocks.audiences] at hmem
    exact (public_mem_intoTarget hstored.audiences).mp hmem
  · cases operation with
    | delete => cases hwill
    | changeAudience audiences =>
      refine hshown tables' _ husers hafter rfl hlocks.live hlive ?_ hthen
      refine List.any_eq_true.mpr ⟨⟨.public_, none⟩, mem_canonicalAudiences.mpr ?_, rfl⟩
      exact List.mem_filterMap.mpr ⟨.public_, of_decide_eq_true hwill, rfl⟩

theorem bulk_invalidates (hs : Reached projection s.tables)
    (h : performBulkPostMutation d s userId snapshot operation now clock = .ok (feedPaths, s')) :
    Invalidates s s' now clock feedPaths := by
  obtain ⟨⟨evidence, tables'⟩, hbulk, h⟩ := bind_eq_ok.mp h
  obtain ⟨rfl, rfl⟩ := Prod.mk.inj (pure_eq_ok.mp h)
  obtain ⟨locked, hlocked, husers, -, hlookup⟩ := applyBulkPostOperation_ok hbulk
  refine ⟨fun path hne ↦ ?_, rfl, fun hhidden ↦ bulk_quiet hs hbulk fun postId hwritten ↦ ?_⟩
  · by_contra hmissing
    refine hne (visiblePosts_congr fun id ↦ shownPost_congr husers rfl ?_)
    by_contra hentry
    exact hmissing (bulk_surfaces hs hbulk hentry)
  · obtain ⟨hbefore, hafter⟩ := hhidden postId (.inl hwritten)
    exact ⟨shownPost_eq_none.mp hbefore, shownPost_eq_none.mp hafter⟩

end Bulk

section Accounts

variable {s s' : FeedStore} {surface : FeedSurface} {userId postId : ℤ} {username : Username}
  {displayName : Option String} {now clock : UtcInstant} {feedPaths : List FeedPath} {p : Post}

theorem shownPost_of_author (hposts : s'.tables.posts = s.tables.posts)
    (hp : s.tables.posts.lookup postId = some p)
    (huser : s'.tables.users.find? (fun u ↦ u.userId = p.userId) =
      s.tables.users.find? (fun u ↦ u.userId = p.userId))
    (hlicense : contentLicense s' p.userId = contentLicense s p.userId) :
    shownPost s' surface now postId = shownPost s surface now postId := by
  have hentry : anonymousEntry s'.tables surface now postId =
      anonymousEntry s.tables surface now postId := by
    rw [anonymousEntry, anonymousEntry, hposts, hp, Option.bind_some, Option.bind_some, huser]
  have hauthor (shown : PostColumns × List PostTag)
      (h : anonymousEntry s.tables surface now postId = some shown) : shown.1.userId = p.userId := by
    rw [anonymousEntry, hp, Option.bind_some] at h
    split_ifs at h
    rw [← Option.some.inj h]
  rw [shownPost, shownPost, hentry]
  cases h : anonymousEntry s.tables surface now postId with
  | none => rfl
  | some shown =>
    have huserId := hauthor shown h
    obtain ⟨columns, tags⟩ := shown
    rw [Option.bind_some, Option.bind_some]
    dsimp only at huserId ⊢
    rw [huserId, huser]
    refine congrArg (Option.map · _) (funext fun u ↦ ?_)
    rw [syndicationPost, syndicationPost, huserId, hlicense]

/-- What is shown of one author changes. -/
structure AuthorChange (s s' : FeedStore) (userId : ℤ) (username : Username) : Prop where
  posts : s'.tables.posts = s.tables.posts
  author : ∃ u, s.tables.users.find? (fun u ↦ u.userId = userId) = some u ∧ u.username = username
  author' : ∃ u, s'.tables.users.find? (fun u ↦ u.userId = userId) = some u ∧ u.username = username
  others : ∀ id, id ≠ userId → s'.tables.users.find? (fun u ↦ u.userId = id) =
      s.tables.users.find? (fun u ↦ u.userId = id) ∧ contentLicense s' id = contentLicense s id

theorem mem_feedAffectingPosts {tables : PostTables} (hp : tables.posts.lookup postId = some p)
    (huser : p.userId = userId) (hlive : p.publishedAt.any (· ≤ now) = true) (hdeleted : p.deletedAt = none)
    (hpublic : hasPublicAudience p = true) : p ∈ feedAffectingPosts tables userId now := by
  refine List.mem_filter.mpr ⟨?_, decide_eq_true ⟨huser, hlive, hdeleted, hpublic⟩⟩
  exact List.mem_map.mpr ⟨⟨postId, p⟩, AList.mem_lookup_iff.mp hp, rfl⟩

/-- The paths of an author cover every surface that shows one of their posts. -/
theorem mem_userFeedPaths {tables : PostTables} {path : FeedPath} (hp : p ∈ feedAffectingPosts tables userId now)
    (hsurface : onSurface username (p.tags.map PostTag.tagSlug) path.surface = true) :
    path ∈ userFeedPaths tables userId username now := by
  have hne : feedAffectingPosts tables userId now ≠ [] := List.ne_nil_of_mem hp
  rw [userFeedPaths, feedAffectingPostTagsForUser, if_neg hne, Option.elim_some]
  refine mem_affected_of_onSurface (onSurface_mono (fun tag htag ↦ ?_) hsurface)
  rw [List.mem_insertionSort, List.mem_dedup]
  exact List.mem_flatMap.mpr ⟨p, hp, htag⟩

theorem AuthorChange.complete (h : AuthorChange s s' userId username) {path : FeedPath}
    (hne : visiblePosts s' path.surface now ≠ visiblePosts s path.surface now) :
    path ∈ userFeedPaths s.tables userId username now := by
  by_contra hmissing
  refine hne (visiblePosts_congr fun id ↦ ?_)
  cases hp : s.tables.posts.lookup id with
  | none =>
    rw [shownPost_eq_none.mpr, shownPost_eq_none.mpr]
    · rw [anonymousEntry, hp, Option.bind_none]
    · rw [anonymousEntry, h.posts, hp, Option.bind_none]
  | some p =>
    by_cases huser : p.userId = userId
    · have hhidden (t : FeedStore) (hposts : t.tables.posts = s.tables.posts)
          (hauthor : ∃ u, t.tables.users.find? (fun u ↦ u.userId = userId) = some u ∧ u.username = username) :
          shownPost t path.surface now id = none := by
        rw [shownPost_eq_none]
        by_contra hentry
        obtain ⟨shown, hentry⟩ := Option.ne_none_iff_exists'.mp hentry
        obtain ⟨q, u, hq, hdeleted, hlive, hpublic, hu, hsurface⟩ := anonymousEntry_some hentry
        rw [hposts] at hq
        obtain rfl := Option.some.inj (hp.symm.trans hq)
        obtain ⟨u', hu', hname⟩ := hauthor
        rw [huser, hu'] at hu
        rw [← Option.some.inj hu, hname] at hsurface
        exact hmissing (mem_userFeedPaths (mem_feedAffectingPosts hp huser hlive hdeleted hpublic) hsurface)
      rw [hhidden s' h.posts h.author', hhidden s rfl h.author]
    · obtain ⟨huser, hlicense⟩ := h.others p.userId huser
      exact shownPost_of_author h.posts hp huser hlicense

theorem AuthorChange.quiet (h : AuthorChange s s' userId username)
    (hhidden : ∀ id p, s.tables.posts.lookup id = some p → p.userId = userId →
      shownPost s .site now id = none) : userFeedPaths s.tables userId username now = [] := by
  have hnone : feedAffectingPosts s.tables userId now = [] := by
    refine List.filter_eq_nil_iff.mpr fun p hp hshown ↦ ?_
    obtain ⟨huser, hlive, hdeleted, hpublic⟩ := of_decide_eq_true hshown
    obtain ⟨⟨id, p⟩, hentry, rfl⟩ := List.mem_map.mp hp
    have hlookup : s.tables.posts.lookup id = some p := AList.mem_lookup_iff.mpr hentry
    obtain ⟨u, hu, -⟩ := h.author
    have hentry := shownPost_eq_none.mp (hhidden id p hlookup huser)
    rw [anonymousEntry, hlookup, Option.bind_some, huser, hu,
      if_pos ⟨hdeleted, hlive, hpublic, rfl⟩] at hentry
    cases hentry
  rw [userFeedPaths, feedAffectingPostTagsForUser, if_pos hnone, Option.elim_none]

theorem AuthorChange.invalidates (h : AuthorChange s s' userId username)
    (hchanged : s'.tables.users.find? (fun u ↦ u.userId = userId) ≠
        s.tables.users.find? (fun u ↦ u.userId = userId) ∨
      contentLicense s' userId ≠ contentLicense s userId)
    (hevents : s'.feedEvents =
      enqueueFeedPaths clock (userFeedPaths s.tables userId username now) s.feedEvents) :
    Invalidates s s' now clock (userFeedPaths s.tables userId username now) where
  complete := fun _ hne ↦ h.complete hne
  enqueued := hevents
  quiet := fun hhidden ↦ h.quiet fun id p hp huser ↦
    (hhidden id (.inr ⟨p, hp, by rw [huser]; exact hchanged⟩)).1

/-- A transaction that changes nothing that is shown owes nothing. -/
theorem invalidates_of_shown (hposts : s'.tables.posts = s.tables.posts)
    (husers : ∀ id, s'.tables.users.find? (fun u ↦ u.userId = id) =
      s.tables.users.find? (fun u ↦ u.userId = id))
    (hlicenses : ∀ id, contentLicense s' id = contentLicense s id)
    (hevents : s'.feedEvents = s.feedEvents) : Invalidates s s' now clock [] where
  complete := by
    refine fun path hne ↦ absurd (visiblePosts_congr fun id ↦ ?_) hne
    cases hp : s.tables.posts.lookup id with
    | none =>
      rw [shownPost_eq_none.mpr, shownPost_eq_none.mpr]
      · rw [anonymousEntry, hp, Option.bind_none]
      · rw [anonymousEntry, hposts, hp, Option.bind_none]
    | some p => exact shownPost_of_author hposts hp (husers p.userId) (hlicenses p.userId)
  enqueued := hevents
  quiet := fun _ ↦ rfl

theorem find?_updateProfile (users : List Author) (id : ℤ) :
    (updateProfile users userId displayName).find? (fun u ↦ u.userId = id) =
      (users.find? (fun u ↦ u.userId = id)).map
        (fun u ↦ if u.userId = userId then { u with displayName } else u) := by
  rw [updateProfile, List.find?_map]
  refine congrArg (Option.map _ <| List.find? · users) (funext fun u ↦ ?_)
  rw [Function.comp_apply]
  split_ifs <;> rfl

theorem find?_updateProfile_ne {users : List Author} {id : ℤ} (h : id ≠ userId) :
    (updateProfile users userId displayName).find? (fun u ↦ u.userId = id) =
      users.find? (fun u ↦ u.userId = id) := by
  rw [find?_updateProfile]
  cases hfound : users.find? (fun u ↦ u.userId = id) with
  | none => rfl
  | some u =>
    have hid := List.find?_some hfound
    have hid : u.userId = id := of_decide_eq_true hid
    rw [Option.map_some, if_neg (hid.trans_ne h)]

theorem find?_updateProfile_self {users : List Author} {user : Author}
    (h : users.find? (fun u ↦ u.userId = userId) = some user) :
    (updateProfile users userId displayName).find? (fun u ↦ u.userId = userId) =
      some { user with displayName } := by
  have hid := List.find?_some h
  have hid : user.userId = userId := of_decide_eq_true hid
  rw [find?_updateProfile, h, Option.map_some, if_pos hid]

theorem profile_invalidates
    (h : updateProfileWithFeedEvents s userId displayName now clock = .ok (feedPaths, s')) :
    Invalidates s s' now clock feedPaths := by
  obtain ⟨user, huser, h⟩ := bind_eq_ok.mp h
  obtain ⟨rfl, rfl⟩ := Prod.mk.inj (pure_eq_ok.mp h)
  have huser := orError_eq_ok.mp huser
  split_ifs with hchanged
  · have hauthor : AuthorChange s (s.written { s.tables with
        users := updateProfile s.tables.users userId displayName } clock
        (userFeedPaths s.tables userId user.username now)).2 userId user.username :=
      ⟨rfl, ⟨user, huser, rfl⟩, ⟨_, find?_updateProfile_self huser, rfl⟩,
        fun _ hother ↦ ⟨find?_updateProfile_ne hother, rfl⟩⟩
    refine hauthor.invalidates (.inl ?_) rfl
    rw [huser]
    refine fun heq ↦ hchanged ?_
    have hsame := (find?_updateProfile_self huser).symm.trans heq
    exact (congrArg Author.displayName (Option.some.inj hsame)).symm
  · refine invalidates_of_shown rfl (fun id ↦ ?_) (fun _ ↦ rfl) rfl
    by_cases hid : id = userId
    · subst hid
      refine (find?_updateProfile_self huser).trans ?_
      rw [huser, ← not_ne_iff.mp hchanged]
    · exact find?_updateProfile_ne hid

theorem license_invalidates {license : ContentLicense}
    (h : updateContentLicenseWithFeedEvents s userId license now clock = .ok (feedPaths, s')) :
    Invalidates s s' now clock feedPaths := by
  obtain ⟨user, huser, h⟩ := bind_eq_ok.mp h
  obtain ⟨rfl, rfl⟩ := Prod.mk.inj (pure_eq_ok.mp h)
  have huser := orError_eq_ok.mp huser
  have hself (t : FeedStore) (ht : t.licenses = Function.update s.licenses userId (some license)) :
      contentLicense t userId = license := by
    rw [contentLicense, ht, Function.update_self]
    rfl
  have hother (t : FeedStore) (ht : t.licenses = Function.update s.licenses userId (some license))
      (id : ℤ) (hid : id ≠ userId) : contentLicense t id = contentLicense s id := by
    rw [contentLicense, ht, Function.update_of_ne hid]
    rfl
  dsimp only
  split_ifs with hchanged
  · refine AuthorChange.invalidates ⟨rfl, ⟨user, huser, rfl⟩, ⟨user, huser, rfl⟩,
      fun id hid ↦ ⟨rfl, hother _ rfl id hid⟩⟩ (.inr ?_) rfl
    rw [hself _ rfl]
    exact hchanged.symm
  · refine invalidates_of_shown rfl (fun _ ↦ rfl) (fun id ↦ ?_) rfl
    by_cases hid : id = userId
    · subst hid
      rw [hself _ rfl]
      exact (not_ne_iff.mp hchanged).symm
    · exact hother _ rfl id hid

end Accounts

section Runs

variable {d : Dialect} {projection : Option String → String → String}
  {digest : PostContentEtag → String} {s s' : FeedStore} {write : FeedWrite} {now clock : UtcInstant}
  {feedPaths : List FeedPath}

theorem toOption_eq_some {ε α : Type} {x : Except ε α} {a : α} (h : x.toOption = some a) : x = .ok a := by
  cases x with
  | error e => cases h
  | ok b => exact congrArg Except.ok (Option.some.inj h)

/-- One write. -/
theorem perform_invalidates (hs : Reached projection s.tables)
    (h : perform d projection digest s write clock = some (feedPaths, s')) (hnow : write.RequestedAt now) :
    Invalidates s s' now clock feedPaths := by
  cases write with
  | reserve =>
    obtain ⟨rfl, rfl⟩ := Prod.mk.inj (Option.some.inj h)
    exact invalidates_of_same (fun _ ↦ rfl) rfl rfl rfl
  | create input t =>
    obtain rfl : now = t := hnow
    exact create_invalidates (toOption_eq_some h)
  | update postId editorUserId input =>
    obtain rfl : now = input.requestClock := hnow
    exact update_invalidates (toOption_eq_some h)
  | lifecycle change postId userId t =>
    obtain rfl : now = t := hnow
    exact lifecycle_invalidates (toOption_eq_some h)
  | bulk userId snapshot operation t =>
    obtain rfl : now = t := hnow
    exact bulk_invalidates hs (toOption_eq_some h)
  | profile userId displayName t =>
    obtain rfl : now = t := hnow
    exact profile_invalidates (toOption_eq_some h)
  | license userId license t =>
    obtain rfl : now = t := hnow
    exact license_invalidates (toOption_eq_some h)

/-- The rows of the posts move as in a run of the store. -/
theorem perform_tables (h : perform d projection digest s write clock = some (feedPaths, s')) :
    s'.tables.posts = s.tables.posts ∨
      ∃ operation, outcome d projection digest s.tables operation = .ok s'.tables := by
  cases write with
  | reserve =>
    obtain ⟨rfl, rfl⟩ := Prod.mk.inj (Option.some.inj h)
    exact .inl rfl
  | create input t =>
    obtain ⟨⟨record, store⟩, hcreate, h⟩ := bind_eq_ok.mp (toOption_eq_some h)
    obtain ⟨rfl, rfl⟩ := Prod.mk.inj (pure_eq_ok.mp h)
    refine .inr ⟨.create input t, ?_⟩
    rw [outcome, createRenderedPost_ok hcreate]
    rfl
  | update postId editorUserId input =>
    obtain ⟨⟨m, tables⟩, hupdate, h⟩ := bind_eq_ok.mp (toOption_eq_some h)
    obtain ⟨rfl, rfl⟩ := Prod.mk.inj (pure_eq_ok.mp h)
    refine .inr ⟨.update postId editorUserId input, ?_⟩
    rw [outcome, hupdate]
    rfl
  | lifecycle change postId userId t =>
    obtain ⟨⟨m, tables⟩, hchange, h⟩ := bind_eq_ok.mp (toOption_eq_some h)
    obtain ⟨rfl, rfl⟩ := Prod.mk.inj (pure_eq_ok.mp h)
    refine .inr ⟨.lifecycle change postId userId t, ?_⟩
    rw [outcome, hchange]
    rfl
  | bulk userId snapshot operation t =>
    obtain ⟨⟨evidence, tables⟩, hbulk, h⟩ := bind_eq_ok.mp (toOption_eq_some h)
    obtain ⟨rfl, rfl⟩ := Prod.mk.inj (pure_eq_ok.mp h)
    refine .inr ⟨.bulk userId snapshot operation t, ?_⟩
    rw [outcome, hbulk]
    rfl
  | profile userId displayName t =>
    obtain ⟨user, -, h⟩ := bind_eq_ok.mp (toOption_eq_some h)
    obtain ⟨rfl, rfl⟩ := Prod.mk.inj (pure_eq_ok.mp h)
    exact .inl rfl
  | license userId license t =>
    obtain ⟨user, -, h⟩ := bind_eq_ok.mp (toOption_eq_some h)
    obtain ⟨rfl, rfl⟩ := Prod.mk.inj (pure_eq_ok.mp h)
    exact .inl rfl

theorem reached_of_posts {tables tables' : PostTables} (hposts : tables'.posts = tables.posts)
    (h : Reached projection tables) : Reached projection tables' := by
  obtain ⟨hstored, hslugs⟩ := h
  unfold AllStored at hstored
  unfold SlugsDistinct at hslugs
  rw [← hposts] at hstored hslugs
  exact ⟨hstored, hslugs⟩

theorem reached_step (h : Reached projection s.tables) (w : FeedWrite × UtcInstant) :
    Reached projection (step d projection digest s w).tables := by
  rw [step]
  cases hperform : perform d projection digest s w.1 w.2 with
  | none => exact h
  | some done =>
    rw [Option.map_some, Option.getD_some]
    rcases perform_tables hperform with hposts | ⟨operation, houtcome⟩
    · exact reached_of_posts hposts h
    · have hstep : Posts.Runs.step d projection digest s.tables operation = done.2.tables := by
        rw [Posts.Runs.step, houtcome]
      rw [← hstep]
      exact h.step

/-- After any writes: a feed that a write changes is among the feeds that it enqueues, and a write
that is about hidden posts only enqueues none. -/
theorem feed_invalidation_complete (hempty : s.tables.posts = ∅) (writes : List (FeedWrite × UtcInstant))
    (hnow : write.RequestedAt now)
    (h : perform d projection digest (run (step d projection digest) s writes) write clock =
      some (feedPaths, s')) :
    Invalidates (run (step d projection digest) s writes) s' now clock feedPaths := by
  have hreached : Reached projection (run (step d projection digest) s writes).tables :=
    run_preserves (P := fun t ↦ Reached projection t.tables) (fun _ w h _ ↦ reached_step h w)
      (reached_of_empty hempty) (along_true s writes)
  exact perform_invalidates hreached h hnow

section Notices

open Jaunder.Storage.Posts.AudienceRows

def noticeFeeds : FeedStore := ⟨⟨noticeTables, .empty 1⟩, fun _ ↦ none⟩

def noticeInput : CreatePostInput :=
  ⟨1, none, "notice", notice, some noticeClock, none, [.public_], [⟨"Shop", by decide⟩], .none, none⟩

def afterNotice : FeedStore :=
  run (step .sqlite noticeProjection noticeDigest) noticeFeeds [(.create noticeInput noticeClock, noticeClock)]

/-- The author of a public notice takes a display name. -/
theorem renamed_author :
    ∃ feedPaths s', perform .sqlite noticeProjection noticeDigest afterNotice
      (.profile 1 (some "Alice") noticeClock) noticeClock = some (feedPaths, s') ∧
      (⟨.userTag "alice" "shop", .atom⟩ : FeedPath) ∈ feedPaths ∧
      Invalidates afterNotice s' noticeClock noticeClock feedPaths := by
  refine ⟨_, _, rfl, by decide +kernel, ?_⟩
  have hnow : (FeedWrite.profile 1 (some "Alice") noticeClock).RequestedAt noticeClock := rfl
  exact feed_invalidation_complete rfl [(.create noticeInput noticeClock, noticeClock)] hnow rfl

end Notices

end Runs

end Jaunder.Storage.FeedInvalidation
