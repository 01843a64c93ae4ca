import Jaunder.Common.SqliteTime
import Jaunder.Storage.Posts.Tables
import Mathlib.Data.List.Sort
import Mathlib.Data.Prod.Lex
import Mathlib.Data.String.Basic

namespace Jaunder.Storage.Media

open Foundation.Outcome Foundation.UniqueIndex
open Jaunder.Common.Hash Jaunder.Common.Media Jaunder.Common.References Jaunder.Common.SqliteTime
open Jaunder.Common.Time
open Jaunder.Storage.Posts.Tables

/-- A size in bytes, a non-negative `i64`. -/
@[ext]
structure ByteSize where
  value : ℕ
  fits : value < 2 ^ 63

instance : DecidableEq ByteSize :=
  fun a b ↦ decidable_of_iff (a.value = b.value) ByteSize.ext_iff.symm

def ByteSize.ofNat (n : ℕ) : Option ByteSize := if h : n < 2 ^ 63 then some ⟨n, h⟩ else none

def ByteSize.checkedAdd (a b : ByteSize) : Option ByteSize := ByteSize.ofNat (a.value + b.value)

/-- The limit on the recorded uploads of one user, a positive `i64`. -/
@[ext]
structure UserQuota where
  value : ℕ
  positive : 0 < value
  fits : value < 2 ^ 63

instance : DecidableEq UserQuota :=
  fun a b ↦ decidable_of_iff (a.value = b.value) UserQuota.ext_iff.symm

structure MediaRecord where
  userId : ℤ
  sha256 : ContentHash
  filename : Filename
  source : MediaSource
  contentType : String
  sizeBytes : ByteSize
  sourceUrl : Option String
  createdAt : UtcInstant
deriving DecidableEq

def MediaRecord.media (r : MediaRecord) : MediaRef := ⟨r.source, r.sha256, r.filename⟩

/-- The primary key of `media`. -/
def mediaKeyClash (a b : MediaRecord) : Bool := a.userId = b.userId ∧ a.media = b.media

/-- A row of `theme_role_bindings` or of `theme_header_pool` that names media. -/
structure ThemeMedia where
  userId : ℤ
  media : MediaRef
deriving DecidableEq

structure MediaTables where
  media : List MediaRecord
  posts : PostTables
  themeMedia : List ThemeMedia

inductive CreateMediaError
  | alreadyExists
deriving DecidableEq

def createMedia (t : MediaTables) (record : MediaRecord) : Except CreateMediaError MediaTables := do
  let media ← orError (insertRow mediaKeyClash t.media record) .alreadyExists
  return { t with media := media }

/-- The rows that count towards the quota of a user. -/
def uploadsOf (userId : ℤ) (media : List MediaRecord) : List MediaRecord :=
  media.filter (fun r ↦ r.userId = userId ∧ r.source = .upload)

def uploadBytes (userId : ℤ) (media : List MediaRecord) : ℕ :=
  ((uploadsOf userId media).map (fun r ↦ r.sizeBytes.value)).sum

/-- `SUM` fails when it leaves the range of `i64`. -/
def getUserUploadUsage (t : MediaTables) (userId : ℤ) : Option ByteSize :=
  ByteSize.ofNat (uploadBytes userId t.media)

/-- The retained state of a post that names media. -/
inductive PersistedMediaSubject
  | current
  | revision (revisionId : ℕ)
deriving DecidableEq

def PersistedMediaSubject.kind : PersistedMediaSubject → String
  | .current => "current"
  | .revision _ => "revision"

def PersistedMediaSubject.revisionId : PersistedMediaSubject → ℕ
  | .current => 0
  | .revision revisionId => revisionId

structure PersistedMediaReference where
  postId : ℤ
  subject : PersistedMediaSubject
  reference : MediaReference
deriving DecidableEq

/-- A row of `post_media` joined with the owner of its post. -/
structure OwnedMediaReference extends PersistedMediaReference where
  ownerId : ℤ
deriving DecidableEq

/-- `post_media` joined with `posts`: the current rows and those of the revisions. -/
def postMedia (t : PostTables) : List OwnedMediaReference :=
  t.posts.entries.flatMap (fun e ↦ e.2.media.map (fun m ↦ ⟨⟨e.1, .current, m⟩, e.2.userId⟩)) ++
    t.revisions.flatMap (fun r ↦ ((t.posts.lookup r.postId).elim []
      (fun p ↦ r.media.map (fun m ↦ ⟨⟨r.postId, .revision r.revisionId, m⟩, p.userId⟩))))

def referencesTo (t : MediaTables) (media : MediaRef) : List OwnedMediaReference :=
  (postMedia t.posts).filter (fun r ↦ r.reference.media = media)

def referenceKindName : MediaReferenceKind → String
  | .local_ => "local"
  | .absolute => "absolute"
  | .schemeRelative => "scheme_relative"

/-- The columns that order a snapshot. -/
def snapshotKey (r : OwnedMediaReference) : ℤ ×ₗ String ×ₗ ℕ ×ₗ String ×ₗ String :=
  toLex (r.postId, toLex (r.subject.kind, toLex (r.subject.revisionId,
    toLex (referenceKindName r.reference.kind, r.reference.referenceForm))))

def maxMediaReferenceSnapshot : ℕ := 128

/-- The rows beyond the snapshot are never examined. -/
def listMediaReferences (t : MediaTables) (media : MediaRef) : List PersistedMediaReference :=
  (((referencesTo t media).insertionSort (fun a b ↦ snapshotKey a ≤ snapshotKey b)).take
    maxMediaReferenceSnapshot).map OwnedMediaReference.toPersistedMediaReference

/-- The exact rows that a resolver proved to name another instance's media. -/
abbrev MediaReferenceEvidence : Type := List PersistedMediaReference

/-- What a resolver finds among the rows of one snapshot. -/
def resolveMediaReferenceOwnership (references foreign : List PersistedMediaReference) :
    MediaReferenceEvidence :=
  references.filter (· ∈ foreign)

/-- The references to media that the evidence does not exempt. -/
def liveReferences (t : MediaTables) (evidence : MediaReferenceEvidence) (media : MediaRef) :
    List OwnedMediaReference :=
  (referencesTo t media).filter (fun r ↦ r.toPersistedMediaReference ∉ evidence)

def themeBindings (t : MediaTables) (media : MediaRef) : List ThemeMedia :=
  t.themeMedia.filter (fun b ↦ b.media = media)

def otherOwnerRow (t : MediaTables) (userId : ℤ) (media : MediaRef) : Bool :=
  t.media.any (fun r ↦ r.media = media ∧ r.userId ≠ userId)

/-- The conditions of the guarded `DELETE`. -/
def deletionIsSafe (t : MediaTables) (userId : ℤ) (media : MediaRef)
    (evidence : MediaReferenceEvidence) (forced : Bool) : Bool :=
  (forced ∨ ¬(liveReferences t evidence media).any (fun r ↦ r.ownerId = userId)) ∧
    ¬(themeBindings t media).any (fun b ↦ b.userId = userId) ∧
    ((¬(liveReferences t evidence media).any (fun r ↦ r.ownerId ≠ userId) ∧
        ¬(themeBindings t media).any (fun b ↦ b.userId ≠ userId)) ∨
      otherOwnerRow t userId media)

inductive TryDeleteOutcome
  | deleted
  | missing
  | ownerRetainedHistory (postIds : List ℤ)
  | globalSafety
deriving DecidableEq

/-- The posts of the owner that still name the media, in ascending order. -/
def ownerRetainedPostIds (t : MediaTables) (userId : ℤ) (media : MediaRef)
    (evidence : MediaReferenceEvidence) : List ℤ :=
  ((((liveReferences t evidence media).filter (fun r ↦ r.ownerId = userId)).map
    (fun r ↦ r.postId)).dedup).insertionSort (· ≤ ·)

def hasGlobalMediaSafety (t : MediaTables) (userId : ℤ) (media : MediaRef)
    (evidence : MediaReferenceEvidence) : Bool :=
  (liveReferences t evidence media).any (fun r ↦ r.ownerId ≠ userId) ∧ ¬otherOwnerRow t userId media

def isRowOf (userId : ℤ) (media : MediaRef) (r : MediaRecord) : Bool :=
  r.userId = userId ∧ r.media = media

def tryDeleteMedia (t : MediaTables) (userId : ℤ) (media : MediaRef)
    (evidence : MediaReferenceEvidence) (forced : Bool) : TryDeleteOutcome × MediaTables :=
  if t.media.any (isRowOf userId media) then
    if deletionIsSafe t userId media evidence forced then
      (.deleted, { t with media := t.media.filter (fun r ↦ !isRowOf userId media r) })
    else
      let ownerPostIds := ownerRetainedPostIds t userId media evidence
      if hasGlobalMediaSafety t userId media evidence ∨ ownerPostIds = [] then (.globalSafety, t)
      else (.ownerRetainedHistory ownerPostIds, t)
  else (.missing, t)

/-- May the file of an already deleted entry be unlinked? -/
def mediaEntryIsReclaimable (t : MediaTables) (media : MediaRef)
    (evidence : MediaReferenceEvidence) : Bool :=
  ¬t.media.any (fun r ↦ r.media = media) ∧ liveReferences t evidence media = [] ∧
    themeBindings t media = []

/-- The row that a materialization copies: the earliest, of the lowest user. -/
def materializedFrom (t : MediaTables) (media : MediaRef) : Option MediaRecord :=
  ((t.media.filter (fun r ↦ r.media = media)).insertionSort
    (fun a b ↦ toLex (sqliteText a.createdAt, a.userId) ≤ toLex (sqliteText b.createdAt, b.userId))).head?

def materializeOne (userId : ℤ) (t : MediaTables) (media : MediaRef) : MediaTables :=
  match materializedFrom t media with
  | none => t
  | some source =>
    { t with
      media := (insertRow mediaKeyClash t.media { source with userId := userId }).getD t.media }

def materializeProvenLocalMedia (t : MediaTables) (userId : ℤ) (localMedia : List MediaRef) :
    MediaTables :=
  localMedia.foldl (materializeOne userId) t

variable {t t' : MediaTables} {userId : ℤ} {media : MediaRef} {record : MediaRecord}
  {evidence : MediaReferenceEvidence} {forced : Bool}

section Create

theorem mediaKeyClash_iff {a b : MediaRecord} :
    mediaKeyClash a b = true ↔ a.userId = b.userId ∧ a.media = b.media := decide_eq_true_iff

theorem createMedia_ok (h : createMedia t record = .ok t') :
    t' = { t with media := t.media ++ [record] } := by
  obtain ⟨rows, hrows, h⟩ := bind_eq_ok.mp h
  obtain rfl := pure_eq_ok.mp h
  have hinsert := orError_eq_ok.mp hrows
  unfold insertRow at hinsert
  split_ifs at hinsert
  rw [Option.some.inj hinsert]

theorem createMedia_exists {r : MediaRecord} (hr : r ∈ t.media) (huser : r.userId = record.userId)
    (hmedia : r.media = record.media) : createMedia t record = .error .alreadyExists := by
  have hclash : t.media.any (mediaKeyClash · record) = true :=
    List.any_eq_true.mpr ⟨r, hr, mediaKeyClash_iff.mpr ⟨huser, hmedia⟩⟩
  rw [createMedia, insertRow, if_pos hclash, orError_none, error_bind]

end Create

section Delete

theorem tryDeleteMedia_posts :
    (tryDeleteMedia t userId media evidence forced).2.posts = t.posts := by
  unfold tryDeleteMedia
  dsimp only
  split_ifs <;> rfl

theorem tryDeleteMedia_themeMedia :
    (tryDeleteMedia t userId media evidence forced).2.themeMedia = t.themeMedia := by
  unfold tryDeleteMedia
  dsimp only
  split_ifs <;> rfl

theorem tryDeleteMedia_sublist :
    (tryDeleteMedia t userId media evidence forced).2.media.Sublist t.media := by
  unfold tryDeleteMedia
  dsimp only
  split_ifs
  · exact List.filter_sublist
  all_goals exact .refl _

theorem mediaEntryIsReclaimable_iff : mediaEntryIsReclaimable t media evidence = true ↔
    (∀ r ∈ t.media, r.media ≠ media) ∧ liveReferences t evidence media = [] ∧
      themeBindings t media = [] := by
  unfold mediaEntryIsReclaimable
  rw [decide_eq_true_iff, List.any_eq_true]
  simp only [not_exists, not_and, decide_eq_true_eq, ne_eq]

end Delete

section Materialize

theorem materializedFrom_mem {source : MediaRecord} (h : materializedFrom t media = some source) :
    source ∈ t.media ∧ source.media = media := by
  have hmem := List.mem_of_head? h
  rw [List.mem_insertionSort, List.mem_filter] at hmem
  exact ⟨hmem.1, of_decide_eq_true hmem.2⟩

/-- Materialized rows name media that a row names already. -/
theorem materializeOne_mem {r : MediaRecord} (hr : r ∈ (materializeOne userId t media).media) :
    ∃ r' ∈ t.media, r'.media = r.media := by
  unfold materializeOne at hr
  cases hsource : materializedFrom t media with
  | none =>
    rw [hsource] at hr
    exact ⟨r, hr, rfl⟩
  | some source =>
    rw [hsource] at hr
    obtain ⟨hmem, -⟩ := materializedFrom_mem hsource
    unfold insertRow at hr
    dsimp only at hr
    split_ifs at hr
    · exact ⟨r, hr, rfl⟩
    · rcases List.mem_append.mp hr with hold | hnew
      · exact ⟨r, hold, rfl⟩
      · rw [List.mem_singleton.mp hnew]
        exact ⟨source, hmem, rfl⟩

theorem materialize_mem {localMedia : List MediaRef} {r : MediaRecord}
    (hr : r ∈ (materializeProvenLocalMedia t userId localMedia).media) :
    ∃ r' ∈ t.media, r'.media = r.media := by
  induction localMedia generalizing t with
  | nil => exact ⟨r, hr, rfl⟩
  | cons media localMedia ih =>
    obtain ⟨r', hr', hmedia⟩ := ih hr
    obtain ⟨r'', hr'', hmedia'⟩ := materializeOne_mem hr'
    exact ⟨r'', hr'', hmedia'.trans hmedia⟩

theorem materializeOne_posts : (materializeOne userId t media).posts = t.posts := by
  unfold materializeOne
  cases materializedFrom t media <;> rfl

theorem materialize_posts {localMedia : List MediaRef} :
    (materializeProvenLocalMedia t userId localMedia).posts = t.posts := by
  induction localMedia generalizing t with
  | nil => rfl
  | cons media localMedia ih => exact ih.trans materializeOne_posts

end Materialize

end Jaunder.Storage.Media
