import Jaunder.Common.Pagination
import Jaunder.Foundation.Paging
import Jaunder.Storage.FeedEvents
import Jaunder.Storage.Syndication

namespace Jaunder.Storage.Listings

open Foundation.Paging Foundation.Sql
open Jaunder.Common.Owned Jaunder.Common.Pagination Jaunder.Common.Time
open Jaunder.Storage.Dialect Jaunder.Storage.Schema Jaunder.Storage.Syndication
open Jaunder.Storage.Visibility

/-- The timestamp columns of a post as they are stored. -/
structure Timestamps (b : Backend) where
  createdAt : b.Stored
  updatedAt : b.Stored
  publishedAt : Option b.Stored

/-- The content tables as the listings see them. Ordering and comparing are done on the stored
timestamps; the instants of the rows are what the driver decodes these to. -/
structure StoredPosts (b : Backend) (decode : b.Stored → UtcInstant) where
  db : Database
  stamps : Int64 → Timestamps b
  searchText : Int64 → Option (List Char)
  created : ∀ p ∈ db.posts, p.createdAt = decode (stamps p.postId).createdAt
  updated : ∀ p ∈ db.posts, p.updatedAt = decode (stamps p.postId).updatedAt
  published : ∀ p ∈ db.posts, p.publishedAt = (stamps p.postId).publishedAt.map decode

inductive TimelineOrder
  | newest
  | oldest
deriving DecidableEq

structure PostCursor where
  publishedAt : UtcInstant
  postId : Int64
  order : TimelineOrder
deriving DecidableEq

structure DraftPostCursor where
  createdAt : UtcInstant
  postId : Int64
deriving DecidableEq

structure ScheduledPostCursor where
  publishedAt : UtcInstant
  postId : Int64
deriving DecidableEq

structure CollectionCursor where
  updatedAt : UtcInstant
  postId : Int64
deriving DecidableEq

structure PublishedPageRequest where
  cursor : Option PostCursor
  order : TimelineOrder
  limit : ℕ

def PublishedPageRequest.first (order : TimelineOrder) (limit : ℕ) : PublishedPageRequest :=
  ⟨none, order, limit⟩

def PublishedPageRequest.after (cursor : PostCursor) (limit : ℕ) : PublishedPageRequest :=
  ⟨some cursor, cursor.order, limit⟩

section Queries

variable {b : Backend} {decode : b.Stored → UtcInstant} (s : StoredPosts b decode)

def createdAt (p : Post) : b.Stored := (s.stamps p.postId).createdAt

def updatedAt (p : Post) : b.Stored := (s.stamps p.postId).updatedAt

/-- NULL is the least value of an ordering. -/
def publishedAt (p : Post) : WithBot b.Stored := (s.stamps p.postId).publishedAt

/-- `JOIN users u ON p.user_id = u.user_id` -/
def joinAuthor (p : Post) : List Post :=
  (s.db.users.filter (fun u ↦ p.userId = u.userId)).map (fun _ ↦ p)

def isPublished (now : UtcInstant) (p : Post) : Bool :=
  (s.stamps p.postId).publishedAt.any (· ≤ b.stored now)

/-- `published_at < c OR (published_at = c AND post_id < i)`, or the same with `>`. -/
def publishedClause (order : TimelineOrder) (c : PostCursor) (p : Post) : Bool :=
  (s.stamps p.postId).publishedAt.any (fun publishedAt ↦
    match order with
    | .newest => publishedAt < b.stored c.publishedAt ∨
        (publishedAt = b.stored c.publishedAt ∧ p.postId.toInt < c.postId.toInt)
    | .oldest => b.stored c.publishedAt < publishedAt ∨
        (publishedAt = b.stored c.publishedAt ∧ c.postId.toInt < p.postId.toInt))

def publishedKey (p : Post) : WithBot b.Stored ×ₗ ℤ := toLex (publishedAt s p, p.postId.toInt)

def orderPublished (order : TimelineOrder) (rows : List Post) : List Post :=
  match order with
  | .newest => rows.insertionSort (fun p q ↦ publishedKey s q ≤ publishedKey s p)
  | .oldest => rows.insertionSort (fun p q ↦ publishedKey s p ≤ publishedKey s q)

/-- The binds in front of the resolution fragment. -/
def publishedBinds (leading : List Value) (cursor : Option PostCursor) (now : UtcInstant) :
    List Value :=
  match cursor with
  | some c => leading ++ [b.bind c.publishedAt, b.bind c.publishedAt, .int c.postId.toInt, b.bind now]
  | none => leading ++ [b.bind now]

def resolvesBefore (viewer : ViewerIdentity) (before : List Value) (limit : ℕ) (p : Post) : Bool :=
  let (resolution, binds, _) := resolutionWhere viewer (before.length + 1)
  resolution.Holds (sqlTables s.db) (before ++ binds.values ++ [.int limit])
    (Env.bind (fun _ _ ↦ .null) "p" (postRow p))

/-- The shared shape of the timeline queries over their joined rows. -/
def listPublishedRows (joined : List Post) (leading : List Value) (page : PublishedPageRequest)
    (viewer : ViewerIdentity) (now : UtcInstant) : List Post :=
  (orderPublished s page.order (joined.filter (fun p ↦
    isPublished s now p ∧ p.deletedAt = none ∧ page.cursor.all (publishedClause s page.order · p) ∧
      resolvesBefore s viewer (publishedBinds (b := b) leading page.cursor now) page.limit p))).take page.limit

def listPublishedByUser (username : Common.Feed.Username) (page : PublishedPageRequest)
    (viewer : ViewerIdentity) (now : UtcInstant) : List Post :=
  listPublishedRows s (s.db.posts.flatMap (joinUser s.db username)) [.text username] page viewer now

def listPublished (page : PublishedPageRequest) (viewer : ViewerIdentity) (now : UtcInstant) :
    List Post :=
  listPublishedRows s (s.db.posts.flatMap (joinAuthor s)) [] page viewer now

def tagExists (tagSlug : Common.Feed.Tag) : Bool := s.db.tags.any (fun t ↦ t.tagSlug.value = tagSlug)

/-- `none` stands for `TagNotFound`. -/
def listPostsByTag (tagSlug : Common.Feed.Tag) (page : PublishedPageRequest)
    (viewer : ViewerIdentity) (now : UtcInstant) : Option (List Post) :=
  if tagExists s tagSlug then
    some (listPublishedRows s
      ((s.db.posts.flatMap (joinAuthor s)).flatMap (joinTag s.db tagSlug)) [.text tagSlug] page viewer now)
  else none

def listUserPostsByTag (userId : ℤ) (tagSlug : Common.Feed.Tag) (page : PublishedPageRequest)
    (viewer : ViewerIdentity) (now : UtcInstant) : Option (List Post) :=
  if tagExists s tagSlug then
    some (listPublishedRows s
      (((s.db.posts.flatMap (joinAuthor s)).flatMap (joinTag s.db tagSlug)).filter
        (fun p ↦ p.userId = userId)) [.int userId, .text tagSlug] page viewer now)
  else none

/-- A missing tag has an empty page. -/
def listByTagRows (result : Option (List Post)) : List Post := result.getD []

def listDraftsByUser (userId : ℤ) (cursor : Option DraftPostCursor) (limit : ℕ)
    (now : UtcInstant) : List Post :=
  (((s.db.posts.flatMap (joinAuthor s)).filter (fun p ↦
    p.userId = userId ∧ (s.stamps p.postId).publishedAt.all (b.stored now < ·) ∧
      p.deletedAt = none ∧ cursor.all (fun c ↦ createdAt s p < b.stored c.createdAt ∨
        (createdAt s p = b.stored c.createdAt ∧ p.postId.toInt < c.postId.toInt)))).insertionSort
          (fun p q ↦ toLex (createdAt s q, q.postId.toInt) ≤ toLex (createdAt s p, p.postId.toInt))).take
            limit

def listScheduledByUser (userId : ℤ) (cursor : Option ScheduledPostCursor) (limit : ℕ)
    (now : UtcInstant) : List Post :=
  (((s.db.posts.flatMap (joinAuthor s)).filter (fun p ↦
    p.userId = userId ∧ (s.stamps p.postId).publishedAt.any (b.stored now < ·) ∧
      p.deletedAt = none ∧ cursor.all (fun c ↦ (s.stamps p.postId).publishedAt.any (fun publishedAt ↦
        b.stored c.publishedAt < publishedAt ∨ (publishedAt = b.stored c.publishedAt ∧
          c.postId.toInt < p.postId.toInt))))).insertionSort
            (fun p q ↦ publishedKey s p ≤ publishedKey s q)).take limit

def updatedKey (p : Post) : b.Stored ×ₗ ℤ := toLex (updatedAt s p, p.postId.toInt)

def listCollectionByUser (userId : ℤ) (cursor : Option CollectionCursor) (limit : ℕ) : List Post :=
  (((s.db.posts.flatMap (joinAuthor s)).filter (fun p ↦
    p.userId = userId ∧ p.deletedAt = none ∧
      cursor.all (fun c ↦ updatedKey s p < toLex (b.stored c.updatedAt, c.postId.toInt)))).insertionSort
        (fun p q ↦ updatedKey s q ≤ updatedKey s p)).take limit

end Queries

/-- `text LIKE pattern ESCAPE '\\'` with the case folding of the database. -/
def like (fold : Char → Char) : List Char → List Char → Bool
  | [], text => text.isEmpty
  | '\\' :: c :: pattern, d :: text => fold c = fold d && like fold pattern text
  | '%' :: pattern, [] => like fold pattern []
  | '%' :: pattern, d :: text => like fold pattern (d :: text) || like fold ('%' :: pattern) text
  | '_' :: pattern, _ :: text => like fold pattern text
  | c :: pattern, d :: text => fold c = fold d && like fold pattern text
  | _ :: _, [] => false
termination_by pattern text => pattern.length + text.length

/-- `StoredPostSearchPattern::from_search` -/
def searchPattern (search : List Char) : List Char :=
  '%' :: (search.flatMap (fun c ↦ if c = '\\' ∨ c = '%' ∨ c = '_' then ['\\', c] else [c]) ++ ['%'])

inductive PostManagementStateFilter
  | all
  | draft
  | scheduled
  | published
deriving DecidableEq

inductive PostManagementAudienceFilter
  | all
  | public_
  | subscribers
  | private_
  | named (audienceId : ℤ)
deriving DecidableEq

structure PostManagementRequest where
  state : PostManagementStateFilter
  audience : PostManagementAudienceFilter
  cursor : Option CollectionCursor
  pageSize : PageSize
  now : UtcInstant
  search : Option (List Char)

section Management

variable {b : Backend} {decode : b.Stored → UtcInstant} (s : StoredPosts b decode)
  (fold : Char → Char)

def managementAudienceTarget (kind : String) (audienceId : Option ℤ) (p : Post) : Bool :=
  s.db.postAudiences.any (fun pa ↦ pa.postId = p.postId ∧ pa.audienceId = audienceId ∧
    s.db.targetKinds.any (fun tk ↦ tk.id = pa.targetKindId ∧ tk.name = kind))

def managementState (state : PostManagementStateFilter) (now : UtcInstant) (p : Post) : Bool :=
  match state with
  | .all => true
  | .draft => (s.stamps p.postId).publishedAt.isNone
  | .scheduled => (s.stamps p.postId).publishedAt.any (b.stored now < ·)
  | .published => isPublished s now p

def managementAudience (audience : PostManagementAudienceFilter) (p : Post) : Bool :=
  match audience with
  | .all => true
  | .private_ => !s.db.postAudiences.any (fun pa ↦ pa.postId = p.postId)
  | .public_ => managementAudienceTarget s "public" none p
  | .subscribers => managementAudienceTarget s "subscribers" none p
  | .named audienceId => managementAudienceTarget s "named" (some audienceId) p

/-- `push_management_predicates` without the cursor. -/
def managed (userId : ℤ) (request : PostManagementRequest) (p : Post) : Bool :=
  p.userId = userId ∧ p.deletedAt = none ∧ managementState s request.state request.now p ∧
    managementAudience s request.audience p ∧ request.search.all (fun search ↦
      (s.searchText p.postId).any (like fold (searchPattern search)))

/-- `list_managed_posts` -/
def listManagedPosts (userId : ℤ) (request : PostManagementRequest) : Page Post CollectionCursor :=
  let rows := ((s.db.posts.filter (fun p ↦ managed s fold userId request p ∧
    request.cursor.all (fun c ↦ updatedAt s p < b.stored c.updatedAt ∨
      (updatedAt s p = b.stored c.updatedAt ∧ p.postId.toInt < c.postId.toInt)))).insertionSort
        (fun p q ↦ updatedKey s q ≤ updatedKey s p)).take request.pageSize.fetchLimit
  let hasMore := request.pageSize.hasMore rows.length
  let rows := rows.take request.pageSize.pageLen
  ⟨rows, if hasMore then rows.getLast?.map (fun p ↦ ⟨p.updatedAt, p.postId⟩) else none⟩

end Management

/-- A row of `post_revisions` as far as the history shows it. -/
structure Revision where
  revisionId : Int64
  postId : Int64
  userId : ℤ
  title : Option Text
  slug : Text
  capturedAt : UtcInstant
  deletedAt : Option UtcInstant
  publishedAt : Option UtcInstant
deriving DecidableEq

structure StoredRevisions where
  posts : List Post
  revisions : List Revision
  posts_key : (posts.map Post.postId).Nodup
  revisions_key : (revisions.map Revision.revisionId).Nodup
  revisions_post : ∀ r ∈ revisions, ∃ p ∈ posts, p.postId = r.postId

inductive PostLifecycle
  | draft
  | scheduled
  | published
  | deleted
deriving DecidableEq

def postLifecycle (deletedAt publishedAt : Option UtcInstant) (now : UtcInstant) : PostLifecycle :=
  if deletedAt.isSome then .deleted
  else match publishedAt with
    | none => .draft
    | some publishedAt => if now < publishedAt then .scheduled else .published

structure PostRevisionMetadata where
  revisionId : Int64
  postId : Int64
  title : Option Text
  slug : Text
  capturedAt : UtcInstant
  snapshotLifecycle : PostLifecycle
  currentDeleted : Bool
deriving DecidableEq

structure PostRevisionCursor where
  revisionId : Int64
deriving DecidableEq

section Revisions

variable (s : StoredRevisions)

/-- The bind that stands for no cursor. -/
def lastRevisionId : Int64 := 9223372036854775807

def revisionMetadata (r : Revision) (p : Post) : PostRevisionMetadata where
  revisionId := r.revisionId
  postId := r.postId
  title := r.title
  slug := r.slug
  capturedAt := r.capturedAt
  snapshotLifecycle := postLifecycle r.deletedAt r.publishedAt r.capturedAt
  currentDeleted := p.deletedAt.isSome

def joinPost (r : Revision) : List PostRevisionMetadata :=
  (s.posts.filter (fun p ↦ p.postId = r.postId)).map (revisionMetadata r)

def revisionMetadataRows (userId : ℤ) (postId : Option Int64) (cursor : Option PostRevisionCursor)
    (limit : ℕ) : List PostRevisionMetadata :=
  let after := cursor.elim lastRevisionId PostRevisionCursor.revisionId
  (((s.revisions.filter (fun r ↦ r.userId = userId ∧ postId.all (r.postId = ·) ∧
    r.revisionId.toInt < after.toInt)).flatMap (joinPost s)).insertionSort
      (fun r r' ↦ r'.revisionId.toInt ≤ r.revisionId.toInt)).take limit

def revisionPage (revisions : List PostRevisionMetadata) (pageSize : PageSize) :
    Page PostRevisionMetadata PostRevisionCursor :=
  let hasMore := pageSize.hasMore revisions.length
  let revisions := revisions.take pageSize.pageLen
  ⟨revisions, if hasMore then revisions.getLast?.map (fun r ↦ ⟨r.revisionId⟩) else none⟩

def listOwnedRevisionHistory (userId : ℤ) (cursor : Option PostRevisionCursor)
    (pageSize : PageSize) : Page PostRevisionMetadata PostRevisionCursor :=
  revisionPage (revisionMetadataRows s userId none cursor pageSize.fetchLimit) pageSize

/-- `none` answers for a post that the user does not own. -/
def listPostRevisionHistory (userId : ℤ) (postId : Int64) (cursor : Option PostRevisionCursor)
    (pageSize : PageSize) : Option (Page PostRevisionMetadata PostRevisionCursor) :=
  if s.posts.any (fun p ↦ p.postId = postId ∧ p.userId = userId) then
    some (revisionPage (revisionMetadataRows s userId (some postId) cursor pageSize.fetchLimit)
      pageSize)
  else none

end Revisions

/-- The feed events with their `terminal_at` column as it is stored; every failed event has one,
and a feed URL that decodes. -/
structure StoredEvents (b : Backend) (decode : b.Stored → UtcInstant) where
  events : FeedEvents.FeedEventTable
  terminalAt : ℕ → b.Stored
  terminal : ∀ r ∈ events.rows, r.2.status = .failed → r.2.terminalAt = some (decode (terminalAt r.1))
  feedUrl : ∀ r ∈ events.rows, r.2.status = .failed → r.2.feedUrl.intoFeedPath.isSome

structure FeedEventDeadLetterCursor where
  terminalAt : UtcInstant
  id : ℕ
deriving DecidableEq

structure FeedEventDeadLetter where
  id : ℕ
  feedPath : Host.FeedPath.FeedPath
  phase : FeedEvents.FeedEventPhase
  attempts : ℕ
  terminalAt : UtcInstant
  diagnostic : Option String
deriving DecidableEq

/-- `DeadLetterRow::into_record`; `none` stands for a row that does not decode. -/
def intoRecord (r : ℕ × FeedEvents.FeedEvent) : Option FeedEventDeadLetter := do
  let terminalAt ← r.2.terminalAt
  let feedPath ← r.2.feedUrl.intoFeedPath
  let (attempts, diagnostic) := match r.2.phase with
    | .regeneration => (r.2.regenerationAttempts, r.2.regenerationDiagnostic)
    | .publication => (r.2.publicationAttempts, r.2.publicationDiagnostic)
  some ⟨r.1, feedPath, r.2.phase, attempts, terminalAt, diagnostic⟩

section DeadLetters

variable {b : Backend} {decode : b.Stored → UtcInstant} (s : StoredEvents b decode)

def deadLetterRows (phase : FeedEvents.FeedEventPhase) (cursor : Option FeedEventDeadLetterCursor)
    (limit : ℕ) : List (ℕ × FeedEvents.FeedEvent) :=
  ((s.events.rows.filter (fun r ↦ r.2.status = .failed ∧ r.2.phase = phase ∧
    cursor.all (fun c ↦ s.terminalAt r.1 < b.stored c.terminalAt ∨
      (s.terminalAt r.1 = b.stored c.terminalAt ∧ r.1 < c.id)))).insertionSort
        (fun r r' ↦ toLex (s.terminalAt r'.1, r'.1) ≤ toLex (s.terminalAt r.1, r.1))).take limit

def deadLetters (phase : FeedEvents.FeedEventPhase) (cursor : Option FeedEventDeadLetterCursor)
    (pageSize : PageSize) : Option (Page FeedEventDeadLetter FeedEventDeadLetterCursor) :=
  let rows := deadLetterRows s phase cursor pageSize.fetchLimit
  let hasMore := pageSize.hasMore rows.length
  ((rows.take pageSize.pageLen).mapM intoRecord).map (fun events ↦
    ⟨events, if hasMore then events.getLast?.map (fun e ↦ ⟨e.terminalAt, e.id⟩) else none⟩)

end DeadLetters

end Jaunder.Storage.Listings
