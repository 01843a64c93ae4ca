import Jaunder.Storage.Listings

namespace Jaunder.Server.Listings

open Foundation.Paging Foundation.Sql
open Jaunder.Common.Owned Jaunder.Common.Pagination Jaunder.Common.SqliteTime Jaunder.Common.Time
open Jaunder.Storage.Dialect Jaunder.Storage.Listings Jaunder.Storage.Schema
open Jaunder.Storage.Visibility

section Timeline

variable {b : Backend} {decode : b.Stored → UtcInstant} (s : StoredPosts b decode)

/-- Fails on a row without a publication time. -/
def toPostCursor (post : Post) (order : TimelineOrder) : Option PostCursor :=
  post.publishedAt.map (fun publishedAt ↦ ⟨publishedAt, post.postId, order⟩)

def toScheduledPostCursor (post : Post) : Option ScheduledPostCursor :=
  post.publishedAt.map (fun publishedAt ↦ ⟨publishedAt, post.postId⟩)

/-- `page_from_rows`: a row without a publication time is not rendered. -/
def pageFromRows (rows : List Post) (pageSize : PageSize) (order : TimelineOrder) :
    Option (Page Post PostCursor) :=
  let hasMore := pageSize.hasMore rows.length
  let rows := rows.take pageSize.pageLen
  ((if hasMore then rows.getLast? else none).mapM (toPostCursor · order)).map (fun nextCursor ↦
    ⟨rows.filter (fun p ↦ p.publishedAt.isSome), nextCursor⟩)

/-- Refuses a cursor of the opposite order. -/
def publishedPageRequest (cursor : Option PostCursor) (order : TimelineOrder) (limit : ℕ) :
    Option PublishedPageRequest :=
  match cursor with
  | none => some (.first order limit)
  | some cursor => if cursor.order = order then some (.after cursor limit) else none

/-- The shape of the timeline endpoints around their storage query. -/
def fetchPage (query : PublishedPageRequest → List Post) (order : TimelineOrder)
    (pageSize : PageSize) (cursor : Option PostCursor) : Option (Page Post PostCursor) := do
  let page ← publishedPageRequest cursor order pageSize.fetchLimit
  pageFromRows (query page) pageSize order

def fetchUserPosts (viewer : ViewerIdentity) (username : Common.Feed.Username)
    (order : TimelineOrder) (now : UtcInstant) (pageSize : PageSize) (cursor : Option PostCursor) :
    Option (Page Post PostCursor) :=
  fetchPage (fun page ↦ listPublishedByUser s username page viewer now) order pageSize cursor

def fetchLocalTimeline (order : TimelineOrder) (now : UtcInstant) (pageSize : PageSize)
    (cursor : Option PostCursor) : Option (Page Post PostCursor) :=
  fetchPage (fun page ↦ listPublished s page .anonymous now) order pageSize cursor

def fetchPostsByTag (viewer : ViewerIdentity) (tag : Common.Feed.Tag) (order : TimelineOrder)
    (now : UtcInstant) (pageSize : PageSize) (cursor : Option PostCursor) :
    Option (Page Post PostCursor) :=
  fetchPage (fun page ↦ listByTagRows (listPostsByTag s tag page viewer now)) order pageSize cursor

/-- An unknown author is refused. -/
def fetchUserPostsByTag (viewer : ViewerIdentity) (username : Common.Feed.Username)
    (tag : Common.Feed.Tag) (order : TimelineOrder) (now : UtcInstant) (pageSize : PageSize)
    (cursor : Option PostCursor) : Option (Page Post PostCursor) := do
  let author ← s.db.users.find? (fun u ↦ u.username.value = username)
  fetchPage (fun page ↦ listByTagRows (listUserPostsByTag s author.userId tag page viewer now))
    order pageSize cursor

end Timeline

section Unpublished

variable {b : Backend} {decode : b.Stored → UtcInstant} (s : StoredPosts b decode)

structure PageCursor where
  createdAt : UtcInstant
  postId : Int64
deriving DecidableEq

def listDrafts (userId : ℤ) (now : UtcInstant) (pageSize : PageSize) (cursor : Option PageCursor) :
    Page Post PageCursor :=
  let rows := listDraftsByUser s userId (cursor.map (fun c ↦ ⟨c.createdAt, c.postId⟩))
    pageSize.fetchLimit now
  let hasMore := pageSize.hasMore rows.length
  let rows := rows.take pageSize.pageLen
  ⟨rows, (if hasMore then rows.getLast? else none).map (fun p ↦ ⟨p.createdAt, p.postId⟩)⟩

/-- The timestamp of the wire cursor is a publication time here. -/
def listScheduled (userId : ℤ) (now : UtcInstant) (pageSize : PageSize)
    (cursor : Option PageCursor) : Option (Page Post PageCursor) :=
  let rows := listScheduledByUser s userId (cursor.map (fun c ↦ ⟨c.createdAt, c.postId⟩))
    pageSize.fetchLimit now
  let hasMore := pageSize.hasMore rows.length
  let rows := rows.take pageSize.pageLen
  ((if hasMore then rows.getLast? else none).mapM toScheduledPostCursor).map (fun nextCursor ↦
    ⟨rows, nextCursor.map (fun c ↦ ⟨c.publishedAt, c.postId⟩)⟩)

/-- `collection_get`: both parameters of the next link have to come back. -/
def collectionGet (userId : ℤ) (updatedBefore : Option UtcInstant) (idBefore : Option Int64)
    (limit : PageSize) : Page Post CollectionCursor :=
  let cursor : Option CollectionCursor := match updatedBefore, idBefore with
    | some updatedBefore, some postId => some ⟨updatedBefore, postId⟩
    | _, _ => none
  let records := listCollectionByUser s userId cursor limit.fetchLimit
  let hasMore := limit.hasMore records.length
  let records := if hasMore then records.take limit.pageLen else records
  ⟨records, if hasMore then records.getLast?.map (fun p ↦ ⟨p.updatedAt, p.postId⟩) else none⟩

end Unpublished

section Keysets

variable {b : Backend} {decode : b.Stored → UtcInstant} (s : StoredPosts b decode)

theorem nodup_of_ids {Key : Type} {posts : List Post} (h : (posts.map Post.postId).Nodup)
    (matching : Post → Bool) {key : Post → Key} (hkey : ∀ p q, key p = key q → p.postId = q.postId) :
    ((posts.filter matching).map key).Nodup := by
  have hposts : (posts.filter matching).Nodup := (List.Nodup.of_map _ h).filter _
  refine hposts.map_on (fun p hp q hq heq ↦ ?_)
  exact eq_of_key h (List.mem_of_mem_filter hp) (List.mem_of_mem_filter hq) (hkey p q heq)

theorem postId_of_key {Key : Type} (column : Post → Key) {p q : Post}
    (h : (toLex (column p, p.postId.toInt) : Key ×ₗ ℤ) = toLex (column q, q.postId.toInt)) :
    p.postId = q.postId :=
  Int64.toInt_inj.mp (Prod.ext_iff.mp (toLex_inj.mp h)).2

/-- The posts of a timeline. -/
def onTimeline (on : Post → Bool) (viewer : ViewerIdentity) (now : UtcInstant) (p : Post) : Bool :=
  on p ∧ isPublished s now p ∧ p.deletedAt = none ∧ Storage.Syndication.resolves s.db viewer [] p

def timelineCursor (order : TimelineOrder) (p : Post) : PostCursor :=
  ⟨p.publishedAt.getD p.createdAt, p.postId, order⟩

def newest (matching : Post → Bool) : Keyset Post PostCursor (WithBot b.Stored ×ₗ ℤ)ᵒᵈ where
  rows := s.db.posts.filter matching
  key := fun p ↦ OrderDual.toDual (publishedKey s p)
  cursor := timelineCursor .newest
  bound := fun c ↦ OrderDual.toDual (toLex (↑(b.stored c.publishedAt), c.postId.toInt))
  nodup := nodup_of_ids s.db.posts_key matching
    (fun _ _ h ↦ postId_of_key (publishedAt s) (OrderDual.toDual_inj.mp h))

def oldest (matching : Post → Bool) : Keyset Post PostCursor (WithBot b.Stored ×ₗ ℤ) where
  rows := s.db.posts.filter matching
  key := publishedKey s
  cursor := timelineCursor .oldest
  bound := fun c ↦ toLex (↑(b.stored c.publishedAt), c.postId.toInt)
  nodup := nodup_of_ids s.db.posts_key matching (fun _ _ ↦ postId_of_key (publishedAt s))

def drafts (userId : ℤ) (now : UtcInstant) : Keyset Post PageCursor (b.Stored ×ₗ ℤ)ᵒᵈ where
  rows := s.db.posts.filter (fun p ↦ p.userId = userId ∧
    (s.stamps p.postId).publishedAt.all (b.stored now < ·) ∧ p.deletedAt = none)
  key := fun p ↦ OrderDual.toDual (toLex (createdAt s p, p.postId.toInt))
  cursor := fun p ↦ ⟨p.createdAt, p.postId⟩
  bound := fun c ↦ OrderDual.toDual (toLex (b.stored c.createdAt, c.postId.toInt))
  nodup := nodup_of_ids s.db.posts_key _
    (fun _ _ h ↦ postId_of_key (createdAt s) (OrderDual.toDual_inj.mp h))

def scheduled (userId : ℤ) (now : UtcInstant) :
    Keyset Post PageCursor (WithBot b.Stored ×ₗ ℤ) where
  rows := s.db.posts.filter (fun p ↦ p.userId = userId ∧
    (s.stamps p.postId).publishedAt.any (b.stored now < ·) ∧ p.deletedAt = none)
  key := publishedKey s
  cursor := fun p ↦ ⟨p.publishedAt.getD p.createdAt, p.postId⟩
  bound := fun c ↦ toLex (↑(b.stored c.createdAt), c.postId.toInt)
  nodup := nodup_of_ids s.db.posts_key _ (fun _ _ ↦ postId_of_key (publishedAt s))

/-- The listings that show the last changed post first. -/
def lastChanged (matching : Post → Bool) : Keyset Post CollectionCursor (b.Stored ×ₗ ℤ)ᵒᵈ where
  rows := s.db.posts.filter matching
  key := fun p ↦ OrderDual.toDual (updatedKey s p)
  cursor := fun p ↦ ⟨p.updatedAt, p.postId⟩
  bound := fun c ↦ OrderDual.toDual (toLex (b.stored c.updatedAt, c.postId.toInt))
  nodup := nodup_of_ids s.db.posts_key _
    (fun _ _ h ↦ postId_of_key (updatedAt s) (OrderDual.toDual_inj.mp h))

def inCollection (userId : ℤ) (p : Post) : Bool := p.userId = userId ∧ p.deletedAt = none

theorem joinAuthor_eq {p : Post} (hp : p ∈ s.db.posts) : joinAuthor s p = [p] := by
  obtain ⟨u, hu, hid⟩ := s.db.posts_user p hp
  rw [joinAuthor, filter_eq_singleton (List.Nodup.of_map _ s.db.users_key)
    (fun v hv w hw h h' ↦ eq_of_key s.db.users_key hv hw
      ((of_decide_eq_true h).symm.trans (of_decide_eq_true h'))) hu (decide_eq_true hid.symm)]
  rfl

theorem flatMap_joinAuthor : s.db.posts.flatMap (joinAuthor s) = s.db.posts := by
  conv_rhs => rw [← List.flatMap_singleton' s.db.posts]
  exact List.flatMap_congr (fun p hp ↦ joinAuthor_eq s hp)

theorem resolvesBefore_eq (viewer : ViewerIdentity) (before : List Value) (limit : ℕ) (p : Post) :
    resolvesBefore s viewer before limit p = Storage.Syndication.resolves s.db viewer [] p := by
  rw [Bool.eq_iff_iff, Storage.Syndication.resolves_iff, resolvesBefore]
  exact decide_eq_true_iff.trans (holds_iff_admits s.db viewer p before [.int limit] _)

theorem publishedKey_of_some {p : Post} {publishedAt : b.Stored}
    (h : (s.stamps p.postId).publishedAt = some publishedAt) :
    publishedKey s p = toLex (↑publishedAt, p.postId.toInt) := by
  have hcolumn : Storage.Listings.publishedAt s p = ↑publishedAt := h
  rw [publishedKey, hcolumn]

theorem publishedClause_newest {c : PostCursor} {p : Post} {publishedAt : b.Stored}
    (h : (s.stamps p.postId).publishedAt = some publishedAt) (matching : Post → Bool) :
    publishedClause s .newest c p = (newest s matching).isAfter (some c) p := by
  rw [publishedClause, h, Keyset.isAfter, Option.any_some, Option.all_some, newest]
  simp only [publishedKey_of_some s h, OrderDual.toDual_lt_toDual, Prod.Lex.toLex_lt_toLex,
    WithBot.coe_lt_coe, WithBot.coe_inj]

theorem publishedClause_oldest {c : PostCursor} {p : Post} {publishedAt : b.Stored}
    (h : (s.stamps p.postId).publishedAt = some publishedAt) (matching : Post → Bool) :
    publishedClause s .oldest c p = (oldest s matching).isAfter (some c) p := by
  rw [publishedClause, h, Keyset.isAfter, Option.any_some, Option.all_some, oldest]
  simp only [publishedKey_of_some s h, Prod.Lex.toLex_lt_toLex, WithBot.coe_lt_coe, WithBot.coe_inj,
    eq_comm]

/-- The rows that a timeline query fetches are the next ones of its listing. -/
theorem timeline_filter {on : Post → Bool} {joined : List Post}
    (hjoined : joined = s.db.posts.filter on) (after : Post → Bool) {clause : Post → Bool}
    {before : List Value} {limit : ℕ} {viewer : ViewerIdentity} {now : UtcInstant}
    (hclause : ∀ p, isPublished s now p → clause p = after p) :
    joined.filter (fun p ↦ isPublished s now p ∧ p.deletedAt = none ∧ clause p ∧
        resolvesBefore s viewer before limit p) =
      (s.db.posts.filter (onTimeline s on viewer now)).filter after := by
  rw [hjoined, List.filter_filter, List.filter_filter]
  refine List.filter_congr (fun p _ ↦ ?_)
  rw [resolvesBefore_eq, onTimeline]
  by_cases hpublished : isPublished s now p
  · rw [hclause p hpublished]
    simp only [Bool.decide_and, Bool.decide_eq_true]
    ac_rfl
  · simp [hpublished]

theorem listPublishedRows_newest {on : Post → Bool} {joined : List Post}
    (hjoined : joined = s.db.posts.filter on) (leading : List Value) (cursor : Option PostCursor)
    (limit : ℕ) (viewer : ViewerIdentity) (now : UtcInstant) :
    listPublishedRows s joined leading ⟨cursor, .newest, limit⟩ viewer now =
      ((newest s (onTimeline s on viewer now)).ordered
        ((newest s (onTimeline s on viewer now)).rows.filter
          ((newest s (onTimeline s on viewer now)).isAfter cursor))).take limit := by
  rw [listPublishedRows, timeline_filter s hjoined
    ((newest s (onTimeline s on viewer now)).isAfter cursor)]
  · rfl
  · intro p hpublished
    obtain ⟨publishedAt, hcolumn, -⟩ := (Option.any_eq_true _ _).mp hpublished
    cases cursor with
    | none => rfl
    | some c => exact publishedClause_newest s hcolumn _

theorem listPublishedRows_oldest {on : Post → Bool} {joined : List Post}
    (hjoined : joined = s.db.posts.filter on) (leading : List Value) (cursor : Option PostCursor)
    (limit : ℕ) (viewer : ViewerIdentity) (now : UtcInstant) :
    listPublishedRows s joined leading ⟨cursor, .oldest, limit⟩ viewer now =
      ((oldest s (onTimeline s on viewer now)).ordered
        ((oldest s (onTimeline s on viewer now)).rows.filter
          ((oldest s (onTimeline s on viewer now)).isAfter cursor))).take limit := by
  rw [listPublishedRows, timeline_filter s hjoined
    ((oldest s (onTimeline s on viewer now)).isAfter cursor)]
  · rfl
  · intro p hpublished
    obtain ⟨publishedAt, hcolumn, -⟩ := (Option.any_eq_true _ _).mp hpublished
    cases cursor with
    | none => rfl
    | some c => exact publishedClause_oldest s hcolumn _

theorem getLast?_of_take {Row : Type} {rows : List Row} {n : ℕ} (hpos : 0 < n)
    (hmore : n < rows.length) : ∃ row ∈ rows, (rows.take n).getLast? = some row := by
  have hne : rows.take n ≠ [] := List.ne_nil_of_length_pos (by rw [List.length_take]; omega)
  exact ⟨_, List.mem_of_mem_take (List.getLast_mem hne), List.getLast?_eq_some_getLast hne⟩

/-- A cursor that is projected fallibly from the last row of a page. -/
theorem projected_eq {Row Cursor Wire : Type} {rows : List Row} {project : Row → Option Cursor}
    {wire : Cursor → Wire} {cursor : Row → Wire}
    (hproject : ∀ row ∈ rows, (project row).map wire = some (cursor row)) (pageSize : PageSize) :
    (((if pageSize.hasMore rows.length then (rows.take pageSize.pageLen).getLast? else none).mapM
      project).map (fun next ↦ (⟨rows.take pageSize.pageLen, next.map wire⟩ : Page Row Wire))) =
        some (Page.ofFetched pageSize.pageLen cursor rows) := by
  simp only [Page.ofFetched, PageSize.hasMore, decide_eq_true_eq]
  by_cases hmore : pageSize.pageLen < rows.length
  · obtain ⟨row, hrow, hlast⟩ := getLast?_of_take pageSize.pageLen_pos hmore
    obtain ⟨c, hc, hwire⟩ := Option.map_eq_some_iff.mp (hproject row hrow)
    rw [if_pos hmore, if_pos hmore, hlast, Option.mapM_some, hc, Option.map_some, ← hwire]
    rfl
  · rw [if_neg hmore, if_neg hmore]
    rfl

theorem toPostCursor_eq {p : Post} (h : p.publishedAt.isSome) (order : TimelineOrder) :
    toPostCursor p order = some (timelineCursor order p) := by
  obtain ⟨publishedAt, hpublished⟩ := Option.isSome_iff_exists.mp h
  rw [toPostCursor, timelineCursor, hpublished]
  rfl

theorem pageFromRows_eq {rows : List Post} (hrows : ∀ p ∈ rows, p.publishedAt.isSome)
    (pageSize : PageSize) (order : TimelineOrder) : pageFromRows rows pageSize order =
      some (Page.ofFetched pageSize.pageLen (timelineCursor order) rows) := by
  have hshown : (rows.take pageSize.pageLen).filter (fun p ↦ p.publishedAt.isSome) =
      rows.take pageSize.pageLen :=
    List.filter_eq_self.mpr (fun p hp ↦ hrows p (List.mem_of_mem_take hp))
  rw [pageFromRows, hshown]
  have hproject : ∀ p ∈ rows, (toPostCursor p order).map id = some (timelineCursor order p) := by
    intro p hp
    rw [Option.map_id_fun, id_eq, toPostCursor_eq (hrows p hp)]
  refine Eq.trans ?_ (projected_eq hproject pageSize)
  simp only [Option.map_id_fun, id_eq]

theorem fetchPage_answers {Key : Type} [LinearOrder Key] (k : Keyset Post PostCursor Key)
    {order : TimelineOrder} {query : PublishedPageRequest → List Post}
    (hcursor : k.cursor = timelineCursor order) (hrows : ∀ p ∈ k.rows, p.publishedAt.isSome)
    (hquery : ∀ cursor limit, query ⟨cursor, order, limit⟩ =
      (k.ordered (k.rows.filter (k.isAfter cursor))).take limit) :
    k.Answers PageSize.pageLen (fetchPage query order) := by
  have hpage : ∀ n cursor, pageFromRows (query ⟨cursor, order, n.fetchLimit⟩) n order =
      some (k.page n.pageLen cursor) := by
    intro n cursor
    rw [hquery, pageFromRows_eq, Keyset.page, hcursor]
    · rfl
    · intro p hp
      exact hrows p (List.mem_of_mem_filter ((List.mem_insertionSort _).mp (List.mem_of_mem_take hp)))
  constructor
  · intro n
    exact hpage n none
  · intro n p hp
    have horder : (k.cursor p).order = order := by
      rw [hcursor]
      rfl
    rw [fetchPage, publishedPageRequest, if_pos horder]
    simp only [Option.bind_eq_bind, Option.bind_some, PublishedPageRequest.after, horder]
    exact hpage n _

theorem published_isSome {p : Post} (hp : p ∈ s.db.posts)
    (h : (s.stamps p.postId).publishedAt.isSome) : p.publishedAt.isSome := by
  rw [s.published p hp, Option.isSome_map]
  exact h

theorem onTimeline_published {on : Post → Bool} {viewer : ViewerIdentity} {now : UtcInstant} {p : Post}
    (hp : p ∈ s.db.posts.filter (onTimeline s on viewer now)) : p.publishedAt.isSome := by
  obtain ⟨hpost, htimeline⟩ := List.mem_filter.mp hp
  simp only [onTimeline, decide_eq_true_eq] at htimeline
  exact published_isSome s hpost (Option.isSome_of_any htimeline.2.1)

/-- The listing of a timeline in one of its two directions. -/
def timeline (order : TimelineOrder) (on : Post → Bool) (viewer : ViewerIdentity)
    (now : UtcInstant) : List Post :=
  match order with
  | .newest => (newest s (onTimeline s on viewer now)).listing
  | .oldest => (oldest s (onTimeline s on viewer now)).listing

def TimelineCuts (order : TimelineOrder) (on : Post → Bool) (viewer : ViewerIdentity)
    (now : UtcInstant) : Prop :=
  match order with
  | .newest => (newest s (onTimeline s on viewer now)).Cuts
  | .oldest => (oldest s (onTimeline s on viewer now)).Cuts

theorem complete_iff_cuts {Row Cursor Key : Type} [LinearOrder Key] (k : Keyset Row Cursor Key)
    {request : PageSize → Option Cursor → Option (Page Row Cursor)}
    (hanswers : k.Answers PageSize.pageLen request) : Complete request k.listing ↔ k.Cuts :=
  k.complete_iff PageSize.pageLen_pos PageSize.pageLen_clamped_one hanswers

theorem timeline_complete_iff {on : Post → Bool} {joined : List Post}
    (hjoined : joined = s.db.posts.filter on) (leading : List Value) (order : TimelineOrder)
    (viewer : ViewerIdentity) (now : UtcInstant) :
    Complete (fetchPage (fun page ↦ listPublishedRows s joined leading page viewer now) order)
        (timeline s order on viewer now) ↔ TimelineCuts s order on viewer now := by
  cases order with
  | newest =>
    exact complete_iff_cuts _ (fetchPage_answers _ rfl (fun p ↦ onTimeline_published s)
      (fun cursor limit ↦ listPublishedRows_newest s hjoined leading cursor limit viewer now))
  | oldest =>
    exact complete_iff_cuts _ (fetchPage_answers _ rfl (fun p ↦ onTimeline_published s)
      (fun cursor limit ↦ listPublishedRows_oldest s hjoined leading cursor limit viewer now))

theorem listPublishedRows_nil (leading : List Value) (page : PublishedPageRequest)
    (viewer : ViewerIdentity) (now : UtcInstant) :
    listPublishedRows s [] leading page viewer now = [] := by
  rw [listPublishedRows, List.filter_nil]
  unfold orderPublished
  split
  · exact List.take_nil
  · exact List.take_nil

theorem joinTag_of_missing {tag : Common.Feed.Tag} (h : tagExists s tag = false) (posts : List Post) :
    posts.flatMap (Storage.Syndication.joinTag s.db tag) = [] := by
  refine List.flatMap_eq_nil_iff.mpr (fun p _ ↦ ?_)
  rw [Storage.Syndication.joinTag_eq, if_neg]
  intro hcarries
  obtain ⟨pt, -, htag⟩ := List.any_eq_true.mp hcarries
  obtain ⟨t, ht, hslug⟩ := List.any_eq_true.mp (of_decide_eq_true htag).2
  have hmissing := List.any_eq_false.mp h t ht
  exact hmissing (decide_eq_true (of_decide_eq_true hslug).2)

/-- A missing tag lists what no post carries. -/
theorem listPostsByTag_rows (tag : Common.Feed.Tag) (page : PublishedPageRequest)
    (viewer : ViewerIdentity) (now : UtcInstant) :
    listByTagRows (listPostsByTag s tag page viewer now) = listPublishedRows s
      ((s.db.posts.flatMap (joinAuthor s)).flatMap (Storage.Syndication.joinTag s.db tag))
        [.text tag] page viewer now := by
  cases htag : tagExists s tag with
  | true =>
    rw [listPostsByTag, if_pos htag]
    rfl
  | false =>
    rw [joinTag_of_missing s htag, listPublishedRows_nil, listPostsByTag, htag]
    rfl

theorem listUserPostsByTag_rows (userId : ℤ) (tag : Common.Feed.Tag) (page : PublishedPageRequest)
    (viewer : ViewerIdentity) (now : UtcInstant) :
    listByTagRows (listUserPostsByTag s userId tag page viewer now) = listPublishedRows s
      (((s.db.posts.flatMap (joinAuthor s)).flatMap (Storage.Syndication.joinTag s.db tag)).filter
        (fun p ↦ p.userId = userId)) [.int userId, .text tag] page viewer now := by
  cases htag : tagExists s tag with
  | true =>
    rw [listUserPostsByTag, if_pos htag]
    rfl
  | false =>
    rw [joinTag_of_missing s htag, List.filter_nil, listPublishedRows_nil, listUserPostsByTag, htag]
    rfl

theorem ofFetched_eq {Row Cursor : Type} (pageSize : PageSize) (cursor : Row → Cursor)
    (rows : List Row) : (⟨rows.take pageSize.pageLen, (if pageSize.hasMore rows.length then
      (rows.take pageSize.pageLen).getLast? else none).map cursor⟩ : Page Row Cursor) =
        Page.ofFetched pageSize.pageLen cursor rows := by
  simp only [Page.ofFetched, PageSize.hasMore, decide_eq_true_eq]
  split_ifs
  · rfl
  · rfl

theorem draftRows_eq (userId : ℤ) (now : UtcInstant) (cursor : Option PageCursor) (limit : ℕ) :
    listDraftsByUser s userId (cursor.map (fun c ↦ ⟨c.createdAt, c.postId⟩)) limit now =
      ((drafts s userId now).ordered ((drafts s userId now).rows.filter
        ((drafts s userId now).isAfter cursor))).take limit := by
  have hrows : s.db.posts.filter (fun p ↦ p.userId = userId ∧
      (s.stamps p.postId).publishedAt.all (b.stored now < ·) ∧ p.deletedAt = none ∧
        (cursor.map (fun c ↦ (⟨c.createdAt, c.postId⟩ : DraftPostCursor))).all (fun c ↦
          createdAt s p < b.stored c.createdAt ∨
            (createdAt s p = b.stored c.createdAt ∧ p.postId.toInt < c.postId.toInt))) =
      (drafts s userId now).rows.filter ((drafts s userId now).isAfter cursor) := by
    rw [drafts, List.filter_filter]
    refine List.filter_congr (fun p _ ↦ ?_)
    cases cursor with
    | none => simp [Keyset.isAfter]
    | some c =>
      simp only [Keyset.isAfter, Option.map_some, Option.all_some, OrderDual.toDual_lt_toDual,
        Prod.Lex.toLex_lt_toLex, Bool.decide_and, Bool.decide_eq_true]
      ac_rfl
  rw [listDraftsByUser, flatMap_joinAuthor, hrows]
  rfl

theorem drafts_answers (userId : ℤ) (now : UtcInstant) : (drafts s userId now).Answers
    PageSize.pageLen (fun n cursor ↦ some (listDrafts s userId now n cursor)) := by
  have hpage : ∀ n cursor, listDrafts s userId now n cursor =
      (drafts s userId now).page n.pageLen cursor := by
    intro n cursor
    rw [Keyset.page, ← ofFetched_eq, listDrafts, draftRows_eq]
    rfl
  exact ⟨fun n ↦ congrArg some (hpage n none), fun n p _ ↦ congrArg some (hpage n _)⟩

theorem scheduledRows_eq (userId : ℤ) (now : UtcInstant) (cursor : Option PageCursor) (limit : ℕ) :
    listScheduledByUser s userId (cursor.map (fun c ↦ ⟨c.createdAt, c.postId⟩)) limit now =
      ((scheduled s userId now).ordered ((scheduled s userId now).rows.filter
        ((scheduled s userId now).isAfter cursor))).take limit := by
  have hrows : s.db.posts.filter (fun p ↦ p.userId = userId ∧
      (s.stamps p.postId).publishedAt.any (b.stored now < ·) ∧ p.deletedAt = none ∧
        (cursor.map (fun c ↦ (⟨c.createdAt, c.postId⟩ : ScheduledPostCursor))).all (fun c ↦
          (s.stamps p.postId).publishedAt.any (fun publishedAt ↦
            b.stored c.publishedAt < publishedAt ∨ (publishedAt = b.stored c.publishedAt ∧
              c.postId.toInt < p.postId.toInt)))) =
      (scheduled s userId now).rows.filter ((scheduled s userId now).isAfter cursor) := by
    rw [scheduled, List.filter_filter]
    refine List.filter_congr (fun p _ ↦ ?_)
    cases hcolumn : (s.stamps p.postId).publishedAt with
    | none => simp
    | some publishedAt =>
      cases cursor with
      | none => simp [Keyset.isAfter]
      | some c =>
        simp only [Keyset.isAfter, Option.map_some, Option.all_some, Option.any_some,
          publishedKey_of_some s hcolumn, Prod.Lex.toLex_lt_toLex, WithBot.coe_lt_coe,
          WithBot.coe_inj, Bool.decide_and, Bool.decide_eq_true, @eq_comm _ publishedAt]
        ac_rfl
  rw [listScheduledByUser, flatMap_joinAuthor, hrows]
  rfl

theorem scheduled_answers (userId : ℤ) (now : UtcInstant) : (scheduled s userId now).Answers
    PageSize.pageLen (listScheduled s userId now) := by
  have hpage : ∀ n cursor, listScheduled s userId now n cursor =
      some ((scheduled s userId now).page n.pageLen cursor) := by
    intro n cursor
    rw [listScheduled, scheduledRows_eq, Keyset.page]
    refine projected_eq (fun p hp ↦ ?_) n
    have hmem := List.mem_of_mem_filter ((List.mem_insertionSort _).mp (List.mem_of_mem_take hp))
    obtain ⟨hpost, hscheduled⟩ := List.mem_filter.mp hmem
    simp only [decide_eq_true_eq] at hscheduled
    obtain ⟨publishedAt, hpublished⟩ := Option.isSome_iff_exists.mp
      (published_isSome s hpost (Option.isSome_of_any hscheduled.2.1))
    simp only [toScheduledPostCursor, scheduled, hpublished, Option.map_some, Option.getD_some]
  exact ⟨fun n ↦ hpage n none, fun n p _ ↦ hpage n _⟩

theorem lastChanged_isAfter (matching : Post → Bool) (c : CollectionCursor) (p : Post) :
    (lastChanged s matching).isAfter (some c) p =
      decide (updatedKey s p < toLex (b.stored c.updatedAt, c.postId.toInt)) := by
  rw [Keyset.isAfter, Option.all_some, lastChanged]
  exact decide_eq_decide.mpr OrderDual.toDual_lt_toDual

/-- Truncating only a set that is too long is truncating it. -/
theorem truncated_eq {Row Cursor : Type} (pageSize : PageSize) (cursor : Row → Cursor)
    (records : List Row) :
    (let hasMore := pageSize.hasMore records.length
      let shown := if hasMore then records.take pageSize.pageLen else records
      (⟨shown, if hasMore then shown.getLast?.map cursor else none⟩ : Page Row Cursor)) =
        Page.ofFetched pageSize.pageLen cursor records := by
  simp only [PageSize.hasMore, decide_eq_true_eq, Page.ofFetched]
  split_ifs with hmore
  · rfl
  · rw [List.take_of_length_le (not_lt.mp hmore)]

theorem collectionGet_cursor (userId : ℤ) (cursor : Option CollectionCursor) (limit : PageSize) :
    collectionGet s userId (cursor.map CollectionCursor.updatedAt)
        (cursor.map CollectionCursor.postId) limit =
      let records := listCollectionByUser s userId cursor limit.fetchLimit
      let hasMore := limit.hasMore records.length
      let records := if hasMore then records.take limit.pageLen else records
      ⟨records, if hasMore then records.getLast?.map (fun p ↦ ⟨p.updatedAt, p.postId⟩) else none⟩ := by
  cases cursor with
  | none => rfl
  | some c => rfl

theorem collection_answers (userId : ℤ) :
    (lastChanged s (inCollection userId)).Answers PageSize.pageLen (fun n cursor ↦
      some (collectionGet s userId (cursor.map CollectionCursor.updatedAt)
        (cursor.map CollectionCursor.postId) n)) := by
  have hrows : ∀ cursor : Option CollectionCursor, s.db.posts.filter (fun p ↦ p.userId = userId ∧
      p.deletedAt = none ∧ cursor.all (fun c ↦
        updatedKey s p < toLex (b.stored c.updatedAt, c.postId.toInt))) =
      (lastChanged s (inCollection userId)).rows.filter
        ((lastChanged s (inCollection userId)).isAfter cursor) := by
    intro cursor
    refine Eq.trans (List.filter_congr (fun p _ ↦ ?_)) List.filter_filter.symm
    cases cursor with
    | none => simp [Keyset.isAfter, inCollection]
    | some c =>
      rw [lastChanged_isAfter, inCollection]
      simp only [Option.all_some, Bool.decide_and, Bool.decide_eq_true]
      ac_rfl
  have hpage : ∀ n cursor, collectionGet s userId (cursor.map CollectionCursor.updatedAt)
      (cursor.map CollectionCursor.postId) n =
        (lastChanged s (inCollection userId)).page n.pageLen cursor := by
    intro n cursor
    rw [collectionGet_cursor, listCollectionByUser, flatMap_joinAuthor, hrows, Keyset.page]
    exact truncated_eq n _ _
  exact ⟨fun n ↦ congrArg some (hpage n none), fun n p _ ↦ congrArg some (hpage n _)⟩

theorem managed_answers (fold : Char → Char) (userId : ℤ) (request : PostManagementRequest) :
    (lastChanged s (managed s fold userId request)).Answers PageSize.pageLen (fun n cursor ↦
      some (listManagedPosts s fold userId { request with cursor := cursor, pageSize := n })) := by
  have hrows : ∀ n (cursor : Option CollectionCursor), s.db.posts.filter (fun p ↦
      managed s fold userId { request with cursor := cursor, pageSize := n } p ∧
        cursor.all (fun c ↦ updatedAt s p < b.stored c.updatedAt ∨
          (updatedAt s p = b.stored c.updatedAt ∧ p.postId.toInt < c.postId.toInt))) =
      (lastChanged s (managed s fold userId request)).rows.filter
        ((lastChanged s (managed s fold userId request)).isAfter cursor) := by
    intro n cursor
    refine Eq.trans (List.filter_congr (fun p _ ↦ ?_)) List.filter_filter.symm
    cases cursor with
    | none => simp [Keyset.isAfter, managed]
    | some c =>
      rw [lastChanged_isAfter]
      simp only [updatedKey, Prod.Lex.toLex_lt_toLex, Option.all_some, Bool.decide_and,
        Bool.decide_eq_true, managed]
      ac_rfl
  have hpage : ∀ n cursor,
      listManagedPosts s fold userId { request with cursor := cursor, pageSize := n } =
        (lastChanged s (managed s fold userId request)).page n.pageLen cursor := by
    intro n cursor
    rw [listManagedPosts, hrows, Keyset.page]
    simp only [PageSize.hasMore, decide_eq_true_eq, Page.ofFetched]
    rfl
  exact ⟨fun n ↦ congrArg some (hpage n none), fun n p _ ↦ congrArg some (hpage n _)⟩

end Keysets

section Revisions

variable (s : StoredRevisions)

/-- The revisions of a user's posts, or of one of them, with what their post adds. -/
def revisionRows (userId : ℤ) (postId : Option Int64) : List PostRevisionMetadata :=
  (s.revisions.filter (fun r ↦ r.userId = userId ∧ postId.all (r.postId = ·))).flatMap (joinPost s)

theorem joinPost_eq {r : Revision} (hr : r ∈ s.revisions) :
    ∃ p, joinPost s r = [revisionMetadata r p] := by
  obtain ⟨p, hp, hid⟩ := s.revisions_post r hr
  refine ⟨p, ?_⟩
  rw [joinPost, filter_eq_singleton (List.Nodup.of_map _ s.posts_key)
    (fun q hq q' hq' h h' ↦ eq_of_key s.posts_key hq hq'
      ((of_decide_eq_true h).trans (of_decide_eq_true h').symm)) hp (decide_eq_true hid)]
  rfl

theorem map_revisionId {revisions : List Revision} (h : ∀ r ∈ revisions, r ∈ s.revisions) :
    (revisions.flatMap (joinPost s)).map PostRevisionMetadata.revisionId =
      revisions.map Revision.revisionId := by
  induction revisions with
  | nil => rfl
  | cons r revisions ih =>
    obtain ⟨p, hp⟩ := joinPost_eq s (h r List.mem_cons_self)
    rw [List.flatMap_cons, List.map_append, ih (fun r' hr' ↦ h r' (List.mem_cons_of_mem r hr')), hp]
    rfl

theorem filter_joinPost (q : Int64 → Bool) (revisions : List Revision) :
    (revisions.filter (fun r ↦ q r.revisionId)).flatMap (joinPost s) =
      (revisions.flatMap (joinPost s)).filter (fun m ↦ q m.revisionId) := by
  have hjoin : ∀ r, (joinPost s r).filter (fun m ↦ q m.revisionId) =
      if q r.revisionId then joinPost s r else [] := by
    intro r
    rw [joinPost, List.filter_map]
    split_ifs with hq
    · rw [List.filter_eq_self.mpr]
      exact fun _ _ ↦ hq
    · rw [List.filter_eq_nil_iff.mpr]
      · rfl
      · exact fun _ _ ↦ hq
  rw [List.filter_flatMap, List.flatMap_congr (fun r _ ↦ hjoin r)]
  induction revisions with
  | nil => rfl
  | cons r revisions ih =>
    rw [List.filter_cons, List.flatMap_cons, ← ih]
    split_ifs
    · rfl
    · rfl

def revisions (userId : ℤ) (postId : Option Int64) :
    Keyset PostRevisionMetadata PostRevisionCursor ℤᵒᵈ where
  rows := revisionRows s userId postId
  key := fun r ↦ OrderDual.toDual r.revisionId.toInt
  cursor := fun r ↦ ⟨r.revisionId⟩
  bound := fun c ↦ OrderDual.toDual c.revisionId.toInt
  nodup := by
    have hids : ((revisionRows s userId postId).map PostRevisionMetadata.revisionId).Nodup := by
      rw [revisionRows, map_revisionId s (fun r hr ↦ List.mem_of_mem_filter hr)]
      exact List.Nodup.sublist (List.Sublist.map _ List.filter_sublist) s.revisions_key
    refine (List.Nodup.of_map _ hids).map_on (fun r hr r' hr' heq ↦ ?_)
    exact List.inj_on_of_nodup_map hids hr hr' (Int64.toInt_inj.mp (OrderDual.toDual_inj.mp heq))

theorem revisionMetadataRows_eq (userId : ℤ) (postId : Option Int64)
    (cursor : Option PostRevisionCursor) (limit : ℕ) :
    revisionMetadataRows s userId postId cursor limit =
      ((revisions s userId postId).ordered ((revisions s userId postId).rows.filter (fun r ↦
        r.revisionId.toInt < (cursor.elim lastRevisionId PostRevisionCursor.revisionId).toInt))).take
          limit := by
  have hrows : s.revisions.filter (fun r ↦ r.userId = userId ∧ postId.all (r.postId = ·) ∧
      r.revisionId.toInt < (cursor.elim lastRevisionId PostRevisionCursor.revisionId).toInt) =
      (s.revisions.filter (fun r ↦ r.userId = userId ∧ postId.all (r.postId = ·))).filter (fun r ↦
        r.revisionId.toInt < (cursor.elim lastRevisionId PostRevisionCursor.revisionId).toInt) := by
    rw [List.filter_filter]
    refine List.filter_congr (fun r _ ↦ ?_)
    simp only [Bool.decide_and, Bool.decide_eq_true]
    ac_rfl
  rw [revisionMetadataRows, hrows, filter_joinPost s (fun id ↦
    id.toInt < (cursor.elim lastRevisionId PostRevisionCursor.revisionId).toInt)]
  rfl

theorem lastRevisionId_toInt : lastRevisionId.toInt = 2 ^ 63 - 1 := by decide

theorem toInt_lt_last {id : Int64} (h : id ≠ lastRevisionId) : id.toInt < lastRevisionId.toInt := by
  have hlt := Int64.toInt_lt id
  have hne : id.toInt ≠ lastRevisionId.toInt := fun heq ↦ h (Int64.toInt_inj.mp heq)
  rw [lastRevisionId_toInt] at hne ⊢
  omega

/-- The history pages completely unless a revision has the id that stands for no cursor. -/
theorem revisions_complete_iff (userId : ℤ) (postId : Option Int64) :
    Complete (fun n cursor ↦ some (revisionPage
        (revisionMetadataRows s userId postId cursor n.fetchLimit) n))
        (revisions s userId postId).listing ↔
      ∀ r ∈ revisionRows s userId postId, r.revisionId ≠ lastRevisionId := by
  constructor
  · intro hcomplete r hr heq
    obtain ⟨pages, hwalk, hrows, -⟩ := hcomplete (fun _ ↦ default)
    have hlt : ∀ r ∈ pages.flatMap Page.rows, r.revisionId ≠ lastRevisionId := by
      refine hwalk.forall_rows (fun n cursor page hpage r hr heq ↦ ?_)
      obtain rfl := Option.some_inj.mp hpage
      rw [revisionMetadataRows_eq] at hr
      have hmem := (List.mem_insertionSort _).mp (List.mem_of_mem_take (List.mem_of_mem_take hr))
      have hbelow := of_decide_eq_true (List.mem_filter.mp hmem).2
      rw [heq, lastRevisionId_toInt] at hbelow
      have hlt := Int64.toInt_lt (cursor.elim lastRevisionId PostRevisionCursor.revisionId)
      omega
    rw [hrows] at hlt
    exact hlt r ((revisions s userId postId).mem_listing.mpr hr) heq
  · intro hids
    have hpage : ∀ n cursor, (∀ r ∈ (revisions s userId postId).rows, decide (r.revisionId.toInt <
        (cursor.elim lastRevisionId PostRevisionCursor.revisionId).toInt) =
          (revisions s userId postId).isAfter cursor r) →
        revisionPage (revisionMetadataRows s userId postId cursor n.fetchLimit) n =
          (revisions s userId postId).page n.pageLen cursor := by
      intro n cursor hafter
      rw [revisionMetadataRows_eq, Keyset.page, List.filter_congr hafter, revisionPage]
      simp only [PageSize.hasMore, decide_eq_true_eq, Page.ofFetched]
      rfl
    refine (complete_iff_cuts _ ⟨fun n ↦ congrArg some (hpage n none ?_),
      fun n r _ ↦ congrArg some (hpage n _ ?_)⟩).mpr (fun r _ _ r' _ ↦ Iff.rfl)
    · intro r hr
      exact decide_eq_true (toInt_lt_last (hids r hr))
    · intro r _
      exact decide_eq_decide.mpr OrderDual.toDual_lt_toDual.symm

end Revisions

section DeadLetters

variable {α β : Type} {f : α → Option β}

theorem mapM_eq_filterMap {l : List α} (h : ∀ a ∈ l, (f a).isSome) :
    l.mapM f = some (l.filterMap f) := by
  induction l with
  | nil => rfl
  | cons a l ih =>
    obtain ⟨b, hb⟩ := Option.isSome_iff_exists.mp (h a List.mem_cons_self)
    rw [List.mapM_cons, hb, ih (fun a' ha' ↦ h a' (List.mem_cons_of_mem a ha')),
      List.filterMap_cons_some hb]
    rfl

theorem filterMap_take {l : List α} (h : ∀ a ∈ l, (f a).isSome) (n : ℕ) :
    (l.take n).filterMap f = (l.filterMap f).take n := by
  induction l generalizing n with
  | nil => simp
  | cons a l ih =>
    obtain ⟨b, hb⟩ := Option.isSome_iff_exists.mp (h a List.mem_cons_self)
    cases n with
    | zero => rfl
    | succ n =>
      rw [List.take_succ_cons, List.filterMap_cons_some hb, List.filterMap_cons_some hb,
        List.take_succ_cons, ih (fun a' ha' ↦ h a' (List.mem_cons_of_mem a ha'))]

theorem length_filterMap_of_isSome {l : List α} (h : ∀ a ∈ l, (f a).isSome) :
    (l.filterMap f).length = l.length := by
  rw [List.length_filterMap_eq_countP, List.countP_eq_length]
  exact h

variable {b : Backend} {decode : b.Stored → UtcInstant} (s : StoredEvents b decode)

theorem intoRecord_id {r : ℕ × Storage.FeedEvents.FeedEvent} {e : FeedEventDeadLetter}
    (h : intoRecord r = some e) : e.id = r.1 := by
  obtain ⟨terminalAt, -, h⟩ := Option.bind_eq_some_iff.mp h
  obtain ⟨feedPath, -, h⟩ := Option.bind_eq_some_iff.mp h
  cases hphase : r.2.phase with
  | regeneration =>
    rw [hphase] at h
    cases h
    rfl
  | publication =>
    rw [hphase] at h
    cases h
    rfl

theorem intoRecord_isSome {r : ℕ × Storage.FeedEvents.FeedEvent} (hr : r ∈ s.events.rows)
    (hfailed : r.2.status = .failed) : (intoRecord r).isSome := by
  obtain ⟨feedPath, hpath⟩ := Option.isSome_iff_exists.mp (s.feedUrl r hr hfailed)
  rw [intoRecord, s.terminal r hr hfailed, hpath]
  cases r.2.phase with
  | regeneration => rfl
  | publication => rfl

def isDeadLetter (phase : Storage.FeedEvents.FeedEventPhase) (r : ℕ × Storage.FeedEvents.FeedEvent) : Bool :=
  r.2.status = .failed ∧ r.2.phase = phase

theorem deadLetters_decode (phase : Storage.FeedEvents.FeedEventPhase) :
    ∀ r ∈ s.events.rows.filter (isDeadLetter phase), (intoRecord r).isSome := by
  intro r hr
  obtain ⟨hr, hletter⟩ := List.mem_filter.mp hr
  exact intoRecord_isSome s hr (of_decide_eq_true hletter).1

theorem map_id_intoRecord {rows : List (ℕ × Storage.FeedEvents.FeedEvent)}
    (h : ∀ r ∈ rows, (intoRecord r).isSome) :
    (rows.filterMap intoRecord).map FeedEventDeadLetter.id = rows.map Prod.fst := by
  induction rows with
  | nil => rfl
  | cons r rows ih =>
    obtain ⟨e, he⟩ := Option.isSome_iff_exists.mp (h r List.mem_cons_self)
    rw [List.filterMap_cons_some he, List.map_cons, List.map_cons, intoRecord_id he,
      ih (fun r' hr' ↦ h r' (List.mem_cons_of_mem r hr'))]

theorem filterMap_filter_id (q : ℕ → Bool) (rows : List (ℕ × Storage.FeedEvents.FeedEvent)) :
    (rows.filter (fun r ↦ q r.1)).filterMap intoRecord =
      (rows.filterMap intoRecord).filter (fun e ↦ q e.id) := by
  rw [List.filterMap_filter, List.filter_filterMap]
  refine List.filterMap_congr (fun r _ ↦ ?_)
  cases hrecord : intoRecord r with
  | none => simp
  | some e => simp [Option.filter, intoRecord_id hrecord]

def letters (phase : Storage.FeedEvents.FeedEventPhase) :
    Keyset FeedEventDeadLetter FeedEventDeadLetterCursor (b.Stored ×ₗ ℕ)ᵒᵈ where
  rows := (s.events.rows.filter (isDeadLetter phase)).filterMap intoRecord
  key := fun e ↦ OrderDual.toDual (toLex (s.terminalAt e.id, e.id))
  cursor := fun e ↦ ⟨e.terminalAt, e.id⟩
  bound := fun c ↦ OrderDual.toDual (toLex (b.stored c.terminalAt, c.id))
  nodup := by
    have hids : (((s.events.rows.filter (isDeadLetter phase)).filterMap intoRecord).map
        FeedEventDeadLetter.id).Nodup := by
      rw [map_id_intoRecord (deadLetters_decode s phase)]
      exact List.Nodup.sublist (List.Sublist.map _ List.filter_sublist) s.events.key
    refine (List.Nodup.of_map _ hids).map_on (fun e he e' he' heq ↦ ?_)
    exact List.inj_on_of_nodup_map hids he he'
      (Prod.ext_iff.mp (toLex_inj.mp (OrderDual.toDual_inj.mp heq))).2

/-- The cursor clause of the query. -/
def deadLetterClause (cursor : Option FeedEventDeadLetterCursor) (id : ℕ) : Bool :=
  cursor.all (fun c ↦ s.terminalAt id < b.stored c.terminalAt ∨
    (s.terminalAt id = b.stored c.terminalAt ∧ id < c.id))

theorem letters_isAfter (phase : Storage.FeedEvents.FeedEventPhase)
    (cursor : Option FeedEventDeadLetterCursor) (e : FeedEventDeadLetter) :
    (letters s phase).isAfter cursor e = deadLetterClause s cursor e.id := by
  cases cursor with
  | none => rfl
  | some c =>
    simp only [Keyset.isAfter, letters, deadLetterClause, Option.all_some,
      OrderDual.toDual_lt_toDual, Prod.Lex.toLex_lt_toLex]

theorem deadLetterRows_eq (phase : Storage.FeedEvents.FeedEventPhase)
    (cursor : Option FeedEventDeadLetterCursor) (limit : ℕ) :
    (∀ r ∈ deadLetterRows s phase cursor limit, (intoRecord r).isSome) ∧
      (deadLetterRows s phase cursor limit).filterMap intoRecord =
        ((letters s phase).ordered ((letters s phase).rows.filter
          ((letters s phase).isAfter cursor))).take limit := by
  have hselected : s.events.rows.filter (fun r ↦ r.2.status = .failed ∧ r.2.phase = phase ∧
      cursor.all (fun c ↦ s.terminalAt r.1 < b.stored c.terminalAt ∨
        (s.terminalAt r.1 = b.stored c.terminalAt ∧ r.1 < c.id))) =
      (s.events.rows.filter (isDeadLetter phase)).filter (fun r ↦ deadLetterClause s cursor r.1) := by
    rw [List.filter_filter]
    refine List.filter_congr (fun r _ ↦ ?_)
    simp only [isDeadLetter, deadLetterClause, Bool.decide_and, Bool.decide_eq_true]
    ac_rfl
  rw [deadLetterRows, hselected]
  set selected := (s.events.rows.filter (isDeadLetter phase)).filter
    (fun r ↦ deadLetterClause s cursor r.1) with hset
  set sorted := selected.insertionSort
    (fun r r' ↦ toLex (s.terminalAt r'.1, r'.1) ≤ toLex (s.terminalAt r.1, r.1))
  have hdecode : ∀ r ∈ sorted, (intoRecord r).isSome := by
    intro r hr
    exact deadLetters_decode s phase r (List.mem_of_mem_filter ((List.mem_insertionSort _).mp hr))
  have hfilter : selected.filterMap intoRecord =
      (letters s phase).rows.filter ((letters s phase).isAfter cursor) := by
    rw [hset, filterMap_filter_id (deadLetterClause s cursor)]
    exact List.filter_congr (fun e _ ↦ (letters_isAfter s phase cursor e).symm)
  have hsorted : sorted.filterMap intoRecord = (letters s phase).ordered
      ((letters s phase).rows.filter ((letters s phase).isAfter cursor)) := by
    refine (letters s phase).eq_ordered ?_ (fun e he ↦ List.mem_of_mem_filter he) ?_
    · rw [← hfilter]
      exact (List.perm_insertionSort _ _).filterMap _
    · have htotal : Std.Total (fun r r' : ℕ × Storage.FeedEvents.FeedEvent ↦
          toLex (s.terminalAt r'.1, r'.1) ≤ toLex (s.terminalAt r.1, r.1)) := ⟨fun _ _ ↦ le_total _ _⟩
      have htrans : IsTrans (ℕ × Storage.FeedEvents.FeedEvent) (fun r r' ↦
          toLex (s.terminalAt r'.1, r'.1) ≤ toLex (s.terminalAt r.1, r.1)) :=
        ⟨fun _ _ _ h h' ↦ h'.trans h⟩
      refine (List.pairwise_insertionSort _ selected).filterMap intoRecord ?_
      intro r r' hle e he e' he'
      rw [← intoRecord_id he, ← intoRecord_id he'] at hle
      exact OrderDual.toDual_le_toDual.mpr hle
  refine ⟨fun r hr ↦ hdecode r (List.mem_of_mem_take hr), ?_⟩
  rw [filterMap_take hdecode, hsorted]

theorem deadLetters_answers (phase : Storage.FeedEvents.FeedEventPhase) :
    (letters s phase).Answers PageSize.pageLen (fun n cursor ↦ deadLetters s phase cursor n) := by
  have hpage : ∀ n cursor, deadLetters s phase cursor n =
      some ((letters s phase).page n.pageLen cursor) := by
    intro n cursor
    obtain ⟨hdecode, hrows⟩ := deadLetterRows_eq s phase cursor n.fetchLimit
    have hlength : (deadLetterRows s phase cursor n.fetchLimit).length =
        ((deadLetterRows s phase cursor n.fetchLimit).filterMap intoRecord).length :=
      (length_filterMap_of_isSome hdecode).symm
    rw [deadLetters, mapM_eq_filterMap (fun r hr ↦ hdecode r (List.mem_of_mem_take hr)),
      filterMap_take hdecode, hlength, hrows, Keyset.page]
    simp only [PageSize.hasMore, decide_eq_true_eq, Page.ofFetched]
    rfl
  exact ⟨fun n ↦ hpage n none, fun n e _ ↦ hpage n _⟩

end DeadLetters

section Complete

variable {b : Backend} {decode : b.Stored → UtcInstant}

theorem userPosts_complete_iff (s : StoredPosts b decode) (viewer : ViewerIdentity)
    (username : Common.Feed.Username) (order : TimelineOrder) (now : UtcInstant) :
    Complete (fetchUserPosts s viewer username order now)
        (timeline s order (Storage.Syndication.byAuthor s.db username) viewer now) ↔
      TimelineCuts s order (Storage.Syndication.byAuthor s.db username) viewer now :=
  timeline_complete_iff s (Storage.Syndication.surfaceRows_eq (.user username)) _ order viewer now

theorem localTimeline_complete_iff (s : StoredPosts b decode) (order : TimelineOrder)
    (now : UtcInstant) :
    Complete (fetchLocalTimeline s order now) (timeline s order (fun _ ↦ true) .anonymous now) ↔
      TimelineCuts s order (fun _ ↦ true) .anonymous now := by
  refine timeline_complete_iff s ?_ [] order .anonymous now
  rw [flatMap_joinAuthor]
  exact (List.filter_eq_self.mpr (fun _ _ ↦ rfl)).symm

theorem postsByTag_complete_iff (s : StoredPosts b decode) (viewer : ViewerIdentity)
    (tag : Common.Feed.Tag) (order : TimelineOrder) (now : UtcInstant) :
    Complete (fetchPostsByTag s viewer tag order now)
        (timeline s order (Storage.Syndication.carriesTag s.db tag) viewer now) ↔
      TimelineCuts s order (Storage.Syndication.carriesTag s.db tag) viewer now := by
  have hjoined : (s.db.posts.flatMap (joinAuthor s)).flatMap
      (Storage.Syndication.joinTag s.db tag) =
        s.db.posts.filter (Storage.Syndication.carriesTag s.db tag) := by
    rw [flatMap_joinAuthor]
    exact Storage.Syndication.surfaceRows_eq (.siteTag tag)
  have hfetch : fetchPostsByTag s viewer tag order now = fetchPage (fun page ↦ listPublishedRows s
      ((s.db.posts.flatMap (joinAuthor s)).flatMap (Storage.Syndication.joinTag s.db tag))
        [.text tag] page viewer now) order := by
    funext n cursor
    simp only [fetchPostsByTag, listPostsByTag_rows]
  rw [hfetch]
  exact timeline_complete_iff s hjoined [.text tag] order viewer now

/-- The posts of one user that carry a tag. -/
def ownTagged (s : StoredPosts b decode) (userId : ℤ) (tag : Common.Feed.Tag) (p : Post) : Bool :=
  p.userId = userId ∧ Storage.Syndication.carriesTag s.db tag p

theorem userPostsByTag_complete_iff (s : StoredPosts b decode) (viewer : ViewerIdentity)
    {author : User} (hauthor : author ∈ s.db.users) (tag : Common.Feed.Tag) (order : TimelineOrder)
    (now : UtcInstant) :
    Complete (fetchUserPostsByTag s viewer author.username.value tag order now)
        (timeline s order (ownTagged s author.userId tag) viewer now) ↔
      TimelineCuts s order (ownTagged s author.userId tag) viewer now := by
  have hjoined : ((s.db.posts.flatMap (joinAuthor s)).flatMap
      (Storage.Syndication.joinTag s.db tag)).filter (fun p ↦ p.userId = author.userId) =
        s.db.posts.filter (ownTagged s author.userId tag) := by
    have htagged : s.db.posts.flatMap (Storage.Syndication.joinTag s.db tag) =
        s.db.posts.filter (Storage.Syndication.carriesTag s.db tag) :=
      Storage.Syndication.surfaceRows_eq (.siteTag tag)
    rw [flatMap_joinAuthor, htagged, List.filter_filter]
    refine List.filter_congr (fun p _ ↦ ?_)
    rw [ownTagged, Bool.decide_and, Bool.decide_eq_true]
  have hfind : s.db.users.find? (fun u ↦ u.username.value = author.username.value) = some author := by
    have hsome : (s.db.users.find? (fun u ↦ u.username.value = author.username.value)).isSome :=
      List.find?_isSome.mpr ⟨author, hauthor, decide_eq_true rfl⟩
    obtain ⟨u, hu⟩ := Option.isSome_iff_exists.mp hsome
    have hfound := List.find?_some hu
    have hname := of_decide_eq_true hfound
    rw [hu, eq_of_key s.db.username_unique (List.mem_of_find?_eq_some hu) hauthor (Text.ext hname)]
  have hfetch : fetchUserPostsByTag s viewer author.username.value tag order now =
      fetchPage (fun page ↦ listPublishedRows s (((s.db.posts.flatMap (joinAuthor s)).flatMap
        (Storage.Syndication.joinTag s.db tag)).filter (fun p ↦ p.userId = author.userId))
          [.int author.userId, .text tag] page viewer now) order := by
    funext n cursor
    simp only [fetchUserPostsByTag, hfind, listUserPostsByTag_rows, Option.bind_eq_bind,
      Option.bind_some]
  rw [hfetch]
  exact timeline_complete_iff s hjoined [.int author.userId, .text tag] order viewer now

theorem history_complete_iff (s : StoredRevisions) (userId : ℤ) (postId : Int64)
    (howned : ∃ p ∈ s.posts, p.postId = postId ∧ p.userId = userId) :
    Complete (fun n cursor ↦ listPostRevisionHistory s userId postId cursor n)
        (revisions s userId (some postId)).listing ↔
      ∀ r ∈ revisionRows s userId (some postId), r.revisionId ≠ lastRevisionId := by
  have hany : s.posts.any (fun p ↦ p.postId = postId ∧ p.userId = userId) = true := by
    obtain ⟨p, hp, hid⟩ := howned
    exact List.any_eq_true.mpr ⟨p, hp, decide_eq_true hid⟩
  have hfetch : (fun n cursor ↦ listPostRevisionHistory s userId postId cursor n) =
      fun n cursor ↦ some (revisionPage
        (revisionMetadataRows s userId (some postId) cursor n.fetchLimit) n) := by
    funext n cursor
    rw [listPostRevisionHistory, if_pos hany]
  rw [hfetch]
  exact revisions_complete_iff s userId (some postId)

/-- Every listing reads each of its rows once and in its order, at all page sizes, exactly when the
cursor of each row that has rows behind it, compared as it is bound, separates just these. -/
theorem listings_page_completely (posts : StoredPosts b decode) (history : StoredRevisions)
    (events : StoredEvents b decode) :
    (∀ viewer username order now, Complete (fetchUserPosts posts viewer username order now)
        (timeline posts order (Storage.Syndication.byAuthor posts.db username) viewer now) ↔
      TimelineCuts posts order (Storage.Syndication.byAuthor posts.db username) viewer now) ∧
    (∀ order now, Complete (fetchLocalTimeline posts order now)
        (timeline posts order (fun _ ↦ true) .anonymous now) ↔
      TimelineCuts posts order (fun _ ↦ true) .anonymous now) ∧
    (∀ viewer tag order now, Complete (fetchPostsByTag posts viewer tag order now)
        (timeline posts order (Storage.Syndication.carriesTag posts.db tag) viewer now) ↔
      TimelineCuts posts order (Storage.Syndication.carriesTag posts.db tag) viewer now) ∧
    (∀ viewer, ∀ author ∈ posts.db.users, ∀ tag order now,
      Complete (fetchUserPostsByTag posts viewer author.username.value tag order now)
        (timeline posts order (ownTagged posts author.userId tag) viewer now) ↔
      TimelineCuts posts order (ownTagged posts author.userId tag) viewer now) ∧
    (∀ userId now, Complete (fun n cursor ↦ some (listDrafts posts userId now n cursor))
        (drafts posts userId now).listing ↔ (drafts posts userId now).Cuts) ∧
    (∀ userId now, Complete (listScheduled posts userId now) (scheduled posts userId now).listing ↔
      (scheduled posts userId now).Cuts) ∧
    (∀ userId, Complete (fun n cursor ↦ some (collectionGet posts userId
        (cursor.map CollectionCursor.updatedAt) (cursor.map CollectionCursor.postId) n))
        (lastChanged posts (inCollection userId)).listing ↔
      (lastChanged posts (inCollection userId)).Cuts) ∧
    (∀ fold userId request, Complete (fun n cursor ↦ some (listManagedPosts posts fold userId
        { request with cursor := cursor, pageSize := n }))
        (lastChanged posts (managed posts fold userId request)).listing ↔
      (lastChanged posts (managed posts fold userId request)).Cuts) ∧
    (∀ userId, Complete (fun n cursor ↦ some (listOwnedRevisionHistory history userId cursor n))
        (revisions history userId none).listing ↔
      ∀ r ∈ revisionRows history userId none, r.revisionId ≠ lastRevisionId) ∧
    (∀ userId postId, (∃ p ∈ history.posts, p.postId = postId ∧ p.userId = userId) →
      (Complete (fun n cursor ↦ listPostRevisionHistory history userId postId cursor n)
          (revisions history userId (some postId)).listing ↔
        ∀ r ∈ revisionRows history userId (some postId), r.revisionId ≠ lastRevisionId)) ∧
    (∀ phase, Complete (fun n cursor ↦ deadLetters events phase cursor n)
        (letters events phase).listing ↔ (letters events phase).Cuts) := by
  refine ⟨userPosts_complete_iff posts, localTimeline_complete_iff posts,
    postsByTag_complete_iff posts, fun viewer author hauthor ↦
      userPostsByTag_complete_iff posts viewer hauthor, ?_, ?_, ?_, ?_, ?_, ?_, ?_⟩
  · exact fun userId now ↦ complete_iff_cuts _ (drafts_answers posts userId now)
  · exact fun userId now ↦ complete_iff_cuts _ (scheduled_answers posts userId now)
  · exact fun userId ↦ complete_iff_cuts _ (collection_answers posts userId)
  · exact fun fold userId request ↦ complete_iff_cuts _ (managed_answers posts fold userId request)
  · exact fun userId ↦ revisions_complete_iff history userId none
  · exact history_complete_iff history
  · exact fun phase ↦ complete_iff_cuts _ (deadLetters_answers events phase)

/-- The columns hold what a bind of their instants writes. -/
structure Canonical (s : StoredPosts b decode) : Prop where
  created : ∀ p ∈ s.db.posts, (s.stamps p.postId).createdAt = b.stored p.createdAt
  updated : ∀ p ∈ s.db.posts, (s.stamps p.postId).updatedAt = b.stored p.updatedAt
  published : ∀ p ∈ s.db.posts, (s.stamps p.postId).publishedAt = p.publishedAt.map b.stored

theorem Canonical.publishedKey_eq {s : StoredPosts b decode} (h : Canonical s) {p : Post}
    (hp : p ∈ s.db.posts) (hpublished : p.publishedAt.isSome) : publishedKey s p =
      toLex (↑(b.stored (p.publishedAt.getD p.createdAt)), p.postId.toInt) := by
  obtain ⟨publishedAt, heq⟩ := Option.isSome_iff_exists.mp hpublished
  rw [heq, Option.getD_some]
  exact publishedKey_of_some s (by rw [h.published p hp, heq, Option.map_some])

/-- Timestamps that were all written by binds cut every listing of posts. -/
theorem Canonical.cuts {s : StoredPosts b decode} (h : Canonical s) :
    (∀ order on viewer now, TimelineCuts s order on viewer now) ∧
      (∀ userId now, (drafts s userId now).Cuts) ∧ (∀ userId now, (scheduled s userId now).Cuts) ∧
        ∀ matching, (lastChanged s matching).Cuts := by
  refine ⟨fun order on viewer now ↦ ?_, fun userId now ↦ ?_, fun userId now ↦ ?_, fun matching ↦ ?_⟩
  · cases order with
    | newest =>
      refine (newest s _).cuts_of_bound (fun p hp ↦ ?_)
      have hkey := h.publishedKey_eq (List.mem_of_mem_filter hp) (onTimeline_published s hp)
      exact congrArg OrderDual.toDual hkey.symm
    | oldest =>
      refine (oldest s _).cuts_of_bound (fun p hp ↦ ?_)
      exact (h.publishedKey_eq (List.mem_of_mem_filter hp) (onTimeline_published s hp)).symm
  · refine (drafts s userId now).cuts_of_bound (fun p hp ↦ ?_)
    simp only [drafts, createdAt, h.created p (List.mem_of_mem_filter hp)]
  · refine (scheduled s userId now).cuts_of_bound (fun p hp ↦ ?_)
    obtain ⟨hpost, hscheduled⟩ := List.mem_filter.mp hp
    simp only [decide_eq_true_eq] at hscheduled
    exact (h.publishedKey_eq hpost
      (published_isSome s hpost (Option.isSome_of_any hscheduled.2.1))).symm
  · refine (lastChanged s matching).cuts_of_bound (fun p hp ↦ ?_)
    simp only [lastChanged, updatedKey, updatedAt, h.updated p (List.mem_of_mem_filter hp)]

end Complete

section Samples

def draftPost (id : Int64) : Post :=
  { Storage.Syndication.agedPost id Storage.Syndication.newYear2026 with publishedAt := none }

def twoDrafts : Database :=
  { Storage.Syndication.ancientPosts with
    posts := [draftPost 10, draftPost 11]
    posts_key := by decide
    posts_fit := by simp
    posts_user := by decide }

/-- Two drafts that were changed at the same instant, which is stored in the given form. -/
def draftStore (updatedAt : List Char) :
    StoredPosts sqlite (fun _ ↦ Storage.Syndication.newYear2026) where
  db := twoDrafts
  stamps := fun _ ↦ ⟨sqliteText Storage.Syndication.newYear2026, updatedAt, none⟩
  searchText := fun _ ↦ none
  created := by decide
  updated := by decide
  published := by
    intro p hp
    obtain rfl | rfl : p = draftPost 10 ∨ p = draftPost 11 := by simpa [twoDrafts] using hp
    · rfl
    · rfl

/-- After a migration has changed two posts at once, the second one is on no page. -/
theorem migrated_post_skipped :
    ¬ Complete (fun n cursor ↦ some (collectionGet
        (draftStore (strftimeText Storage.Syndication.newYear2026)) 1
        (cursor.map CollectionCursor.updatedAt) (cursor.map CollectionCursor.postId) n))
      (lastChanged (draftStore (strftimeText Storage.Syndication.newYear2026)) (inCollection 1)).listing := by
  rw [complete_iff_cuts _ (collection_answers _ 1)]
  unfold Keyset.Cuts
  decide +kernel

def draftHistory : StoredRevisions where
  posts := [draftPost 10]
  revisions := [
    ⟨1, 10, 1, none, .compose "hello", Storage.Syndication.newYear2026, none, none⟩,
    ⟨2, 10, 1, none, .compose "hello", Storage.Syndication.newYear2026, none, none⟩]
  posts_key := by decide
  revisions_key := by decide
  revisions_post := by decide

def noEvents : StoredEvents sqlite (fun _ ↦ Storage.Syndication.newYear2026) where
  events := Foundation.Rows.IdTable.empty 1
  terminalAt := fun _ ↦ []
  terminal := by intro r hr; cases hr
  feedUrl := by intro r hr; cases hr

/-- Two drafts of one instant that was bound are both read, as is the history of one of them. -/
theorem drafts_and_history_paged :
    Complete (fun n cursor ↦ some (collectionGet
        (draftStore (sqliteText Storage.Syndication.newYear2026)) 1
        (cursor.map CollectionCursor.updatedAt) (cursor.map CollectionCursor.postId) n))
      (lastChanged (draftStore (sqliteText Storage.Syndication.newYear2026)) (inCollection 1)).listing ∧
    Complete (fetchUserPostsByTag (draftStore (sqliteText Storage.Syndication.newYear2026)) .anonymous
        "ada" "lean" .newest Storage.Syndication.newYear2026) [] ∧
    Complete (fun n cursor ↦ listPostRevisionHistory draftHistory 1 10 cursor n)
      (revisions draftHistory 1 (some 10)).listing := by
  have h := listings_page_completely (draftStore (sqliteText Storage.Syndication.newYear2026))
    draftHistory noEvents
  obtain ⟨-, -, -, htag, -, -, hcollection, -, -, hhistory, -⟩ := h
  have hauthor := htag .anonymous ⟨1, ⟨"ada", by decide⟩, none, .ccBy4_0⟩ List.mem_cons_self "lean"
    .newest Storage.Syndication.newYear2026
  refine ⟨(hcollection 1).mpr ?_, hauthor.mpr ?_, (hhistory 1 10 ?_).mpr ?_⟩
  · unfold Keyset.Cuts
    decide +kernel
  · unfold TimelineCuts Keyset.Cuts
    decide +kernel
  · exact ⟨draftPost 10, List.mem_cons_self, rfl, rfl⟩
  · decide +kernel

end Samples

end Jaunder.Server.Listings
