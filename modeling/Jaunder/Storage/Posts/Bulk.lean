import Jaunder.Host.FeedPath
import Jaunder.Storage.Posts.Lifecycle

namespace Jaunder.Storage.Posts.Bulk

open Foundation.Outcome Foundation.UniqueIndex
open Jaunder.Common.Time Jaunder.Common.Visibility
open Jaunder.Host.FeedPath
open Jaunder.Storage.Posts.Lifecycle Jaunder.Storage.Posts.Tables

structure BulkSelectionTarget where
  postId : ℤ
  mutationVersion : ℕ
deriving DecidableEq

/-- The targets that were confirmed, as `resolve_post_selection` orders them and the executing
request checks again. -/
structure ManagementSelectionSnapshot where
  targets : List BulkSelectionTarget
  ordered : (targets.map BulkSelectionTarget.postId).Pairwise (· < ·)
deriving DecidableEq

inductive BulkPostOperation
  | changeAudience (audiences : List AudienceTarget)
  | delete
deriving DecidableEq

structure BulkPostMutationResult where
  selectedCount : ℕ
  changedCount : ℕ
deriving DecidableEq

structure BulkPostMutationEvidence where
  result : BulkPostMutationResult
  feedPaths : List FeedPath
deriving DecidableEq

inductive BulkPostMutationError
  | snapshotConflict
  | db (error : DbError)
deriving DecidableEq

structure BulkLockedPost where
  record : PostRecord
  mutationVersion : ℕ
  audiences : List AudienceTarget

def kindRank : TargetKind → ℕ
  | .public_ => 0
  | .subscribers => 1
  | .named => 2

def rowLe (a b : AudienceRow) : Bool :=
  kindRank a.kind < kindRank b.kind ∨
    kindRank a.kind = kindRank b.kind ∧ a.audienceId.getD 0 ≤ b.audienceId.getD 0

def canonicalAudiences (audiences : List AudienceTarget) : List AudienceRow :=
  ((audiences.filterMap audienceTargetRow).insertionSort (fun a b ↦ rowLe a b = true)).dedup

/-- `into_targets`: a row that pairs a kind with the wrong audience column is dropped. -/
def intoTarget (row : AudienceRow) : Option AudienceTarget :=
  match row.kind, row.audienceId with
  | .public_, none => some .public_
  | .subscribers, none => some .subscribers
  | .named, some id => some (.named id)
  | _, _ => none

/-- The selected row, when it still has the confirmed version, the owner and no deletion. -/
def lockTarget (s : PostTables) (userId : ℤ) (target : BulkSelectionTarget) :
    Except DbError (Option BulkLockedPost) :=
  match s.posts.lookup target.postId with
  | none => .ok none
  | some p =>
    if p.mutationVersion = target.mutationVersion ∧ p.userId ∈ s.users.map Author.userId ∧
        p.userId = userId ∧ p.deletedAt = none then do
      let record ← fetchPost s target.postId
      return some ⟨record, p.mutationVersion, p.audiences.filterMap intoTarget⟩
    else .ok none

def lockSnapshot (s : PostTables) (userId : ℤ) (snapshot : ManagementSelectionSnapshot) :
    Except BulkPostMutationError (List BulkLockedPost) := do
  let found ← (snapshot.targets.mapM (lockTarget s userId)).mapError .db
  let rows := (found.filterMap id).insertionSort (fun a b ↦ a.record.postId ≤ b.record.postId)
  require (rows.map (fun row ↦ (row.record.postId, row.mutationVersion)) =
    snapshot.targets.map (fun target ↦ (target.postId, target.mutationVersion))) .snapshotConflict
  return rows

def changes (operation : BulkPostOperation) (post : BulkLockedPost) : Bool :=
  match operation with
  | .changeAudience audiences => canonicalAudiences post.audiences ≠ canonicalAudiences audiences
  | .delete => true

def changedIds (locked : List BulkLockedPost) (operation : BulkPostOperation) : List ℤ :=
  (locked.filter (changes operation)).map (fun post ↦ post.record.postId)

def liveAt (record : PostRecord) (now : UtcInstant) : Bool :=
  record.columns.publishedAt.any (· ≤ now)

def feedPaths (locked : List BulkLockedPost) (changed : List ℤ) (operation : BulkPostOperation)
    (now : UtcInstant) : List FeedPath :=
  let desiredPublic := match operation with
    | .changeAudience audiences => .public_ ∈ audiences
    | .delete => false
  let surfacing := locked.filter (fun post ↦ post.record.postId ∈ changed ∧
    (liveAt post.record now && (decide (.public_ ∈ post.audiences) || desiredPublic)))
  (surfacing.flatMap (fun post ↦
    affectedFeedUrls post.record.authorUsername (post.record.tags.map PostTag.tagSlug))).eraseDups

/-- The statements run on batches of rows, each row on its own. -/
def captureRevisions (s : PostTables) (ids : List ℤ) (now : UtcInstant) :
    Except DbError PostTables :=
  ids.foldlM (fun s id ↦ captureCompletePostRevision s id now) s

def updateRows (posts : AList (fun _ : ℤ ↦ Post)) (ids : List ℤ) (f : Post → Post) :
    AList (fun _ : ℤ ↦ Post) :=
  ids.foldl (fun posts id ↦ (posts.lookup id).elim posts (fun p ↦ posts.insert id (f p))) posts

def readdressedPost (p : Post) (rows : List AudienceRow) (now : UtcInstant) : Post :=
  { p with audiences := rows, updatedAt := now, mutationVersion := p.mutationVersion + 1 }

def changeAudiences (d : Dialect) (s : PostTables) (ids : List ℤ) (audiences : List AudienceTarget)
    (now : UtcInstant) : Except DbError PostTables := do
  let rows ← orError (insertRows d.audienceClash [] (canonicalAudiences audiences))
    (.uniqueViolation .postAudiences)
  require (∀ row ∈ rows, ∀ id ∈ row.audienceId, id ∈ s.audiences.map Schema.Audience.audienceId)
    (.foreignKeyViolation .postAudiences)
  return { s with posts := updateRows s.posts ids (fun p ↦ readdressedPost p rows now) }

def deletePosts (s : PostTables) (ids : List ℤ) (now : UtcInstant) : PostTables :=
  { s with posts := updateRows s.posts ids (PostLifecycleChange.softDelete.apply now) }

def applyBulkPostOperation (d : Dialect) (s : PostTables) (userId : ℤ)
    (snapshot : ManagementSelectionSnapshot) (operation : BulkPostOperation) (now : UtcInstant) :
    Except BulkPostMutationError (BulkPostMutationEvidence × PostTables) := do
  let locked ← lockSnapshot s userId snapshot
  let ids := changedIds locked operation
  if ids = [] then return (⟨⟨snapshot.targets.length, 0⟩, []⟩, s)
  else
    let captured ← (captureRevisions s ids now).mapError .db
    let s' ← match operation with
      | .changeAudience audiences => (changeAudiences d captured ids audiences now).mapError .db
      | .delete => .ok (deletePosts captured ids now)
    return (⟨⟨snapshot.targets.length, ids.length⟩, feedPaths locked ids operation now⟩, s')

/-- What an operation does to the row of a changed post. -/
def BulkPostOperation.apply (operation : BulkPostOperation) (now : UtcInstant) (p : Post) : Post :=
  match operation with
  | .changeAudience audiences => readdressedPost p (canonicalAudiences audiences) now
  | .delete => PostLifecycleChange.softDelete.apply now p

theorem mem_canonicalAudiences {audiences : List AudienceTarget} {row : AudienceRow} :
    row ∈ canonicalAudiences audiences ↔ row ∈ audiences.filterMap audienceTargetRow := by
  rw [canonicalAudiences, List.mem_dedup, List.mem_insertionSort]

theorem nodup_canonicalAudiences {audiences : List AudienceTarget} :
    (canonicalAudiences audiences).Nodup := List.nodup_dedup _

theorem check_canonicalAudiences {audiences : List AudienceTarget} {row : AudienceRow}
    (h : row ∈ canonicalAudiences audiences) : revisionAudienceCheck row = true :=
  check_targetRows (mem_canonicalAudiences.mp h)

section Batches

variable {s s' : PostTables} {ids : List ℤ} {now : UtcInstant}

theorem captureRevisions_ok (h : captureRevisions s ids now = .ok s') : SameContent s s' := by
  induction ids generalizing s with
  | nil =>
    obtain rfl := pure_eq_ok.mp h
    exact SameContent.refl s
  | cons id ids ih =>
    obtain ⟨captured, hcaptured, h⟩ := bind_eq_ok.mp h
    exact (capture_ok hcaptured).trans (ih h)

theorem lookup_updateRows {f : Post → Post} {posts : AList (fun _ : ℤ ↦ Post)} (hids : ids.Nodup)
    (id : ℤ) : (updateRows posts ids f).lookup id =
      if id ∈ ids then (posts.lookup id).map f else posts.lookup id := by
  induction ids generalizing posts with
  | nil => rfl
  | cons head ids ih =>
    obtain ⟨hhead, hids⟩ := List.nodup_cons.mp hids
    have hstep : updateRows posts (head :: ids) f =
        updateRows ((posts.lookup head).elim posts (fun p ↦ posts.insert head (f p))) ids f := rfl
    rw [hstep, ih hids]
    by_cases hid : id = head
    · subst hid
      rw [if_neg hhead, if_pos List.mem_cons_self]
      cases hp : posts.lookup id with
      | none => rw [Option.elim_none, hp, Option.map_none]
      | some p => rw [Option.elim_some, AList.lookup_insert, Option.map_some]
    · have hlookup : ((posts.lookup head).elim posts (fun p ↦ posts.insert head (f p))).lookup id =
          posts.lookup id := by
        cases posts.lookup head with
        | none => rfl
        | some p => exact AList.lookup_insert_ne hid
      rw [hlookup]
      simp only [List.mem_cons, hid, false_or]

theorem changeAudiences_ok {d : Dialect} {audiences : List AudienceTarget}
    (h : changeAudiences d s ids audiences now = .ok s') :
    s' = { s with
      posts := updateRows s.posts ids ((BulkPostOperation.changeAudience audiences).apply now) } := by
  obtain ⟨rows, hrows, h⟩ := bind_eq_ok.mp h
  obtain ⟨-, -, h⟩ := bind_eq_ok.mp h
  obtain ⟨rfl, -⟩ := insertRows_nil_eq_some_iff.mp (orError_eq_ok.mp hrows)
  exact (pure_eq_ok.mp h).symm

end Batches

section Operation

variable {d : Dialect} {s s' : PostTables} {userId : ℤ} {snapshot : ManagementSelectionSnapshot}
  {operation : BulkPostOperation} {now : UtcInstant} {locked : List BulkLockedPost}
  {evidence : BulkPostMutationEvidence}

theorem lockSnapshot_keys (h : lockSnapshot s userId snapshot = .ok locked) :
    locked.map (fun post ↦ (post.record.postId, post.mutationVersion)) =
      snapshot.targets.map (fun target ↦ (target.postId, target.mutationVersion)) := by
  obtain ⟨found, -, h⟩ := bind_eq_ok.mp h
  obtain ⟨_, hkeys, h⟩ := bind_eq_ok.mp h
  obtain rfl := pure_eq_ok.mp h
  exact require_eq_ok.mp hkeys

theorem lockSnapshot_ids (h : lockSnapshot s userId snapshot = .ok locked) :
    locked.map (fun post ↦ post.record.postId) =
      snapshot.targets.map BulkSelectionTarget.postId := by
  have hkeys := congrArg (List.map Prod.fst) (lockSnapshot_keys h)
  rwa [List.map_map, List.map_map] at hkeys

theorem lockSnapshot_nodup (h : lockSnapshot s userId snapshot = .ok locked) :
    (locked.map (fun post ↦ post.record.postId)).Nodup := by
  rw [lockSnapshot_ids h]
  exact snapshot.ordered.imp (fun hlt ↦ ne_of_lt hlt)

theorem changedIds_nodup (h : lockSnapshot s userId snapshot = .ok locked) :
    (changedIds locked operation).Nodup :=
  (lockSnapshot_nodup h).sublist (List.filter_sublist.map _)

/-- A bulk operation rewrites the rows of the changed posts and no other row. -/
theorem applyBulkPostOperation_ok
    (h : applyBulkPostOperation d s userId snapshot operation now = .ok (evidence, s')) :
    ∃ locked, lockSnapshot s userId snapshot = .ok locked ∧
      s'.users = s.users ∧ s'.audiences = s.audiences ∧
      ∀ id, s'.posts.lookup id = if id ∈ changedIds locked operation
        then (s.posts.lookup id).map (operation.apply now) else s.posts.lookup id := by
  obtain ⟨locked, hlocked, h⟩ := bind_eq_ok.mp h
  refine ⟨locked, hlocked, ?_⟩
  dsimp only at h
  split_ifs at h with hids
  · obtain ⟨-, rfl⟩ := Prod.mk.inj (pure_eq_ok.mp h)
    refine ⟨rfl, rfl, fun id ↦ ?_⟩
    rw [hids, if_neg List.not_mem_nil]
  · obtain ⟨captured, hcaptured, h⟩ := bind_eq_ok.mp h
    have hsame := captureRevisions_ok (mapError_eq_ok.mp hcaptured)
    have heq : s' = { captured with
        posts := updateRows captured.posts (changedIds locked operation) (operation.apply now) } := by
      cases operation with
      | changeAudience audiences =>
        obtain ⟨written, hwritten, h⟩ := bind_eq_ok.mp h
        obtain ⟨-, rfl⟩ := Prod.mk.inj (pure_eq_ok.mp h)
        exact changeAudiences_ok (mapError_eq_ok.mp hwritten)
      | delete => exact (Prod.mk.inj (pure_eq_ok.mp h)).2.symm
    subst heq
    refine ⟨hsame.users, hsame.audiences, fun id ↦ ?_⟩
    rw [lookup_updateRows (changedIds_nodup hlocked), hsame.posts]

end Operation

end Jaunder.Storage.Posts.Bulk
