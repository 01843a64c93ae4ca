import Jaunder.Foundation.Locks
import Jaunder.Foundation.Run
import Jaunder.Storage.Media
import Jaunder.Storage.Posts.Runs
import Jaunder.Storage.WriteScope

namespace Jaunder.Storage.MediaManager

open Foundation.Locks Foundation.Run
open Jaunder.Common.Hash Jaunder.Common.Media Jaunder.Common.References Jaunder.Common.Time
open Jaunder.Host.ContentEtag
open Jaunder.Storage.Media Jaunder.Storage.WriteScope
open Jaunder.Storage.Posts.Lifecycle Jaunder.Storage.Posts.Runs Jaunder.Storage.Posts.Tables
open Jaunder.Storage.Posts.Update

/-- What an upload knows after its bytes are prepared and hashed. -/
structure UploadMetadata where
  filename : Filename
  contentType : String
  sha256 : ContentHash
  sizeBytes : ByteSize

def uploadRecord (userId : ℤ) (metadata : UploadMetadata) (createdAt : UtcInstant) :
    MediaRecord where
  userId := userId
  sha256 := metadata.sha256
  filename := metadata.filename
  source := .upload
  contentType := metadata.contentType
  sizeBytes := metadata.sizeBytes
  sourceUrl := none
  createdAt := createdAt

inductive TargetDisposition
  | existingTarget
  | createdHardLink
  | freshRename
deriving DecidableEq

def TargetDisposition.wasCreatedByUpload : TargetDisposition → Bool
  | .existingTarget => false
  | .createdHardLink => true
  | .freshRename => true

/-- The operation that put a file at its path. -/
inductive FileOrigin
  | earlier
  | upload (operation : ℕ)
deriving DecidableEq

structure StoredFile where
  media : MediaRef
  origin : FileOrigin
deriving DecidableEq

def filesAt (files : List StoredFile) (media : MediaRef) : List StoredFile :=
  files.filter (fun f ↦ f.media = media)

def sameDirectory (a b : MediaRef) : Bool := a.source = b.source ∧ a.sha256 = b.sha256

def handleDeduplication (files : List StoredFile) (operation : ℕ) (media : MediaRef) :
    TargetDisposition × List StoredFile :=
  if filesAt files media ≠ [] then (.existingTarget, files)
  else if files.any (fun f ↦ sameDirectory f.media media) then
    (.createdHardLink, ⟨media, .upload operation⟩ :: files)
  else (.freshRename, ⟨media, .upload operation⟩ :: files)

def removeMediaFile (files : List StoredFile) (media : MediaRef) : List StoredFile :=
  files.filter (fun f ↦ f.media ≠ media)

inductive UploadStage
  | received
  | checked (currentUsage : ByteSize)
  | locked (currentUsage : ByteSize)
  | placed (currentUsage : ByteSize) (disposition : TargetDisposition)
  | rejected (disposition : TargetDisposition)

inductive DeleteStage
  | requested
  | resolved (evidence : MediaReferenceEvidence)
  | locked (evidence : MediaReferenceEvidence)
  | deleted (evidence : MediaReferenceEvidence)
  | reclaiming (evidence : MediaReferenceEvidence)
  | reclaimed

/-- What one operation in flight is doing; `pending` are the locks that a post write still has to
take. -/
inductive Activity
  | idle
  | upload (record : MediaRecord) (quota : UserQuota) (stage : UploadStage)
  | delete (userId : ℤ) (media : MediaRef) (forced : Bool) (stage : DeleteStage)
  | post (write : Operation) (localMedia : List MediaRef) (pending : List ContentHash)
  | finished

/-- The database and the media directory, the locks on both, and the operations in flight. -/
structure World where
  tables : MediaTables
  files : List StoredFile
  contentLocks : Holders ContentHash ℕ
  writer : Option ℕ
  activities : ℕ → Activity
  started : ℕ

/-- One step of an operation; `abort` is an error before the next effect. -/
inductive Move
  | checkQuota
  | acquire
  | place
  | register (commit : Commit)
  | remove (succeeds : Bool)
  | resolve (foreign : List PersistedMediaReference)
  | tryDelete (commit : Commit)
  | beginReclaim
  | unlink (succeeds : Bool)
  | write (commit : Commit)
  | finish
  | abort

inductive Event
  | startUpload (userId : ℤ) (metadata : UploadMetadata) (createdAt : UtcInstant)
      (quota : UserQuota)
  | startDelete (userId : ℤ) (media : MediaRef) (forced : Bool)
  | startPost (write : Operation) (localMedia : List MediaRef)
  | bindThemes (themeMedia : List ThemeMedia)
  | advance (operation : ℕ) (move : Move)

def World.setActivity (w : World) (operation : ℕ) (a : Activity) : World :=
  { w with activities := Function.update w.activities operation a }

/-- The end of an operation drops its transaction and its locks. -/
def World.finish (w : World) (operation : ℕ) : World where
  tables := w.tables
  files := w.files
  contentLocks := release w.contentLocks operation
  writer := if w.writer = some operation then none else w.writer
  activities := Function.update w.activities operation .finished
  started := w.started

def World.acquire (w : World) (operation : ℕ) (sha256 : ContentHash) (a : Activity) :
    Option World :=
  (Foundation.Locks.acquire w.contentLocks operation sha256).map (fun locks ↦
    { w.setActivity operation a with contentLocks := locks })

/-- `check_quota` lets an upload go on. -/
def quotaAllows (currentUsage sizeBytes : ByteSize) (quota : UserQuota) : Bool :=
  (currentUsage.checkedAdd sizeBytes).any (fun total ↦ total.value ≤ quota.value)

/-- The tables that the registration leaves; a row that exists already is no error. -/
def registered (t : MediaTables) (record : MediaRecord) : MediaTables :=
  (createMedia t record).toOption.getD t

def checkQuota (w : World) (operation : ℕ) (record : MediaRecord) (quota : UserQuota) : World :=
  match getUserUploadUsage w.tables record.userId with
  | none => w.finish operation
  | some currentUsage =>
    if quotaAllows currentUsage record.sizeBytes quota then
      w.setActivity operation (.upload record quota (.checked currentUsage))
    else w.finish operation

def placeUpload (w : World) (operation : ℕ) (record : MediaRecord) (quota : UserQuota)
    (currentUsage : ByteSize) : World :=
  let placement := handleDeduplication w.files operation record.media
  { w.setActivity operation (.upload record quota (.placed currentUsage placement.1)) with
    files := placement.2 }

/-- The registration scope; a failed one leaves the placed target to its upload. -/
def registerUpload (w : World) (operation : ℕ) (record : MediaRecord) (quota : UserQuota)
    (disposition : TargetDisposition) (commit : Commit) : World :=
  if commit = .failed then w.setActivity operation (.upload record quota (.rejected disposition))
  else
    { w.finish operation with
      tables := if commit.applies then registered w.tables record else w.tables }

/-- Only a target that the upload created itself is cleaned up. -/
def cleanUpTarget (w : World) (operation : ℕ) (record : MediaRecord)
    (disposition : TargetDisposition) (succeeds : Bool) : World :=
  { w.finish operation with
    files := if disposition.wasCreatedByUpload ∧ succeeds then
      removeMediaFile w.files record.media else w.files }

def advanceUpload (w : World) (operation : ℕ) (record : MediaRecord) (quota : UserQuota) :
    UploadStage → Move → Option World
  | .received, .checkQuota => some (checkQuota w operation record quota)
  | .checked currentUsage, .acquire =>
    w.acquire operation record.sha256 (.upload record quota (.locked currentUsage))
  | .checked _, .abort => some (w.finish operation)
  | .locked currentUsage, .place => some (placeUpload w operation record quota currentUsage)
  | .locked _, .abort => some (w.finish operation)
  | .placed _ disposition, .register commit =>
    if w.writer.isSome then none
    else some (registerUpload w operation record quota disposition commit)
  | .placed _ disposition, .abort =>
    some (w.setActivity operation (.upload record quota (.rejected disposition)))
  | .rejected disposition, .remove succeeds =>
    some (cleanUpTarget w operation record disposition succeeds)
  | _, _ => none

def resolveDeletion (w : World) (operation : ℕ) (userId : ℤ) (media : MediaRef) (forced : Bool)
    (foreign : List PersistedMediaReference) : World :=
  w.setActivity operation (.delete userId media forced
    (.resolved (resolveMediaReferenceOwnership (listMediaReferences w.tables media) foreign)))

/-- The transaction of the row; only a confirmed deletion goes on to the file. -/
def deleteRow (w : World) (operation : ℕ) (userId : ℤ) (media : MediaRef) (forced : Bool)
    (evidence : MediaReferenceEvidence) (commit : Commit) : World :=
  let result := tryDeleteMedia w.tables userId media evidence forced
  let tables := if commit.applies then result.2 else w.tables
  if commit = .confirmed ∧ result.1 = .deleted then
    { w.setActivity operation (.delete userId media forced (.deleted evidence)) with
      tables := tables }
  else { w.finish operation with tables := tables }

/-- The reclaim scope stays open while its lease lasts. -/
def beginReclaim (w : World) (operation : ℕ) (userId : ℤ) (media : MediaRef) (forced : Bool)
    (evidence : MediaReferenceEvidence) : World :=
  if mediaEntryIsReclaimable w.tables media evidence then
    { w.setActivity operation (.delete userId media forced (.reclaiming evidence)) with
      writer := some operation }
  else w.finish operation

def unlinkReclaimed (w : World) (operation : ℕ) (userId : ℤ) (media : MediaRef) (forced : Bool)
    (succeeds : Bool) : World :=
  { w.setActivity operation (.delete userId media forced .reclaimed) with
    files := if succeeds then removeMediaFile w.files media else w.files }

def advanceDelete (w : World) (operation : ℕ) (userId : ℤ) (media : MediaRef) (forced : Bool) :
    DeleteStage → Move → Option World
  | .requested, .resolve foreign =>
    some (resolveDeletion w operation userId media forced foreign)
  | .requested, .abort => some (w.finish operation)
  | .resolved evidence, .acquire =>
    w.acquire operation media.sha256 (.delete userId media forced (.locked evidence))
  | .resolved _, .abort => some (w.finish operation)
  | .locked evidence, .tryDelete commit =>
    if w.writer.isSome then none
    else some (deleteRow w operation userId media forced evidence commit)
  | .locked _, .abort => some (w.finish operation)
  | .deleted evidence, .beginReclaim =>
    if w.writer.isSome then none
    else some (beginReclaim w operation userId media forced evidence)
  | .deleted _, .abort => some (w.finish operation)
  | .reclaiming _, .unlink succeeds =>
    some (unlinkReclaimed w operation userId media forced succeeds)
  | .reclaimed, .finish => some (w.finish operation)
  | _, _ => none

section Posts

variable (projection : Option String → String → String) (digest : PostContentEtag → String)

/-- The transaction of a post write: a creation, and an update that changes the post, give the
author the rows of the media proved local. -/
def writePost (t : MediaTables) (write : Operation) (localMedia : List MediaRef) : MediaTables :=
  match write with
  | .create input now =>
    match writePostInTx .sqlite projection t.posts input now with
    | .ok created =>
      materializeProvenLocalMedia { t with posts := created.2 } input.userId localMedia
    | .error _ => t
  | .update postId editorUserId input =>
    match updatePost .sqlite projection digest t.posts postId editorUserId input with
    | .ok updated =>
      if updated.1.changed then
        materializeProvenLocalMedia { t with posts := updated.2 } editorUserId localMedia
      else { t with posts := updated.2 }
    | .error _ => t
  | write => { t with posts := Posts.Runs.step .sqlite projection digest t.posts write }

/-- A creation and an update lock the content that they render, in ascending order. -/
def postLocks : Operation → List ContentHash
  | .create input _ => lockOrder input.rendered.media
  | .update _ _ input => lockOrder input.rendered.media
  | _ => []
where
  lockOrder (media : List MediaReference) : List ContentHash :=
    ((media.map (fun m ↦ m.media.sha256)).dedup).insertionSort (fun a b ↦ a.value ≤ b.value)

def commitPost (w : World) (operation : ℕ) (write : Operation) (localMedia : List MediaRef)
    (commit : Commit) : World :=
  { w.finish operation with
    tables := if commit.applies then writePost projection digest w.tables write localMedia
      else w.tables }

def advancePost (w : World) (operation : ℕ) (write : Operation) (localMedia : List MediaRef) :
    List ContentHash → Move → Option World
  | sha256 :: pending, .acquire => w.acquire operation sha256 (.post write localMedia pending)
  | [], .write commit =>
    if w.writer.isSome then none
    else some (commitPost projection digest w operation write localMedia commit)
  | _, .abort => some (w.finish operation)
  | _, _ => none

def advance (w : World) (operation : ℕ) (move : Move) : Option World :=
  match w.activities operation with
  | .idle => none
  | .upload record quota stage => advanceUpload w operation record quota stage move
  | .delete userId media forced stage => advanceDelete w operation userId media forced stage move
  | .post write localMedia pending =>
    advancePost projection digest w operation write localMedia pending move
  | .finished => none

def World.start (w : World) (a : Activity) : World :=
  { w.setActivity w.started a with started := w.started + 1 }

/-- The references of the theme tables into `media`. -/
def themeMediaExist (t : MediaTables) (themeMedia : List ThemeMedia) : Bool :=
  themeMedia.all (fun b ↦ t.media.any (isRowOf b.userId b.media))

def next (w : World) : Event → Option World
  | .startUpload userId metadata createdAt quota =>
    some (w.start (.upload (uploadRecord userId metadata createdAt) quota .received))
  | .startDelete userId media forced => some (w.start (.delete userId media forced .requested))
  | .startPost write localMedia => some (w.start (.post write localMedia (postLocks write)))
  | .bindThemes themeMedia =>
    if w.writer.isNone ∧ themeMediaExist w.tables themeMedia then
      some { w with tables := { w.tables with themeMedia := themeMedia } }
    else none
  | .advance operation move => advance projection digest w operation move

/-- A step that is not enabled waits. -/
def step (w : World) (e : Event) : World := (next projection digest w e).getD w

end Posts

section Steps

variable (w : World) (operation : ℕ)

/-- The steps of an upload. -/
inductive UploadStep (record : MediaRecord) (quota : UserQuota) : UploadStage → Move → World → Prop
  | checkQuota : UploadStep record quota .received .checkQuota (checkQuota w operation record quota)
  | acquire {currentUsage : ByteSize} {w' : World}
      (h : w.acquire operation record.sha256 (.upload record quota (.locked currentUsage)) =
        some w') :
      UploadStep record quota (.checked currentUsage) .acquire w'
  | unlocked {currentUsage : ByteSize} :
      UploadStep record quota (.checked currentUsage) .abort (w.finish operation)
  | place {currentUsage : ByteSize} : UploadStep record quota (.locked currentUsage) .place
      (placeUpload w operation record quota currentUsage)
  | unplaced {currentUsage : ByteSize} :
      UploadStep record quota (.locked currentUsage) .abort (w.finish operation)
  | register {currentUsage : ByteSize} {disposition : TargetDisposition} {commit : Commit}
      (hwriter : w.writer = none) :
      UploadStep record quota (.placed currentUsage disposition) (.register commit)
        (registerUpload w operation record quota disposition commit)
  | reject {currentUsage : ByteSize} {disposition : TargetDisposition} :
      UploadStep record quota (.placed currentUsage disposition) .abort
        (w.setActivity operation (.upload record quota (.rejected disposition)))
  | cleanUp {disposition : TargetDisposition} {succeeds : Bool} :
      UploadStep record quota (.rejected disposition) (.remove succeeds)
        (cleanUpTarget w operation record disposition succeeds)

/-- The steps of a deletion. -/
inductive DeleteStep (userId : ℤ) (media : MediaRef) (forced : Bool) :
    DeleteStage → Move → World → Prop
  | resolve {foreign : List PersistedMediaReference} :
      DeleteStep userId media forced .requested (.resolve foreign)
        (resolveDeletion w operation userId media forced foreign)
  | acquire {evidence : MediaReferenceEvidence} {w' : World}
      (h : w.acquire operation media.sha256 (.delete userId media forced (.locked evidence)) =
        some w') :
      DeleteStep userId media forced (.resolved evidence) .acquire w'
  | deleteRow {evidence : MediaReferenceEvidence} {commit : Commit} (hwriter : w.writer = none) :
      DeleteStep userId media forced (.locked evidence) (.tryDelete commit)
        (deleteRow w operation userId media forced evidence commit)
  | beginReclaim {evidence : MediaReferenceEvidence} (hwriter : w.writer = none) :
      DeleteStep userId media forced (.deleted evidence) .beginReclaim
        (beginReclaim w operation userId media forced evidence)
  | unlink {evidence : MediaReferenceEvidence} {succeeds : Bool} :
      DeleteStep userId media forced (.reclaiming evidence) (.unlink succeeds)
        (unlinkReclaimed w operation userId media forced succeeds)
  | finish {stage : DeleteStage} {move : Move} :
      DeleteStep userId media forced stage move (w.finish operation)

/-- The steps of a post write. -/
inductive PostStep (projection : Option String → String → String) (digest : PostContentEtag → String)
    (write : Operation) (localMedia : List MediaRef) : List ContentHash → Move → World → Prop
  | acquire {sha256 : ContentHash} {pending : List ContentHash} {w' : World}
      (h : w.acquire operation sha256 (.post write localMedia pending) = some w') :
      PostStep projection digest write localMedia (sha256 :: pending) .acquire w'
  | commit {commit : Commit} (hwriter : w.writer = none) :
      PostStep projection digest write localMedia [] (.write commit)
        (commitPost projection digest w operation write localMedia commit)
  | abort {pending : List ContentHash} :
      PostStep projection digest write localMedia pending .abort (w.finish operation)

variable {w : World} {operation : ℕ} {w' : World} {move : Move}

theorem writer_free {x : World} (hs : (if w.writer.isSome then none else some x) = some w') :
    w.writer = none ∧ w' = x := by
  split_ifs at hs with hwriter
  exact ⟨by simpa using hwriter, (Option.some.inj hs).symm⟩

theorem advanceUpload_step {record : MediaRecord} {quota : UserQuota} {stage : UploadStage}
    (hs : advanceUpload w operation record quota stage move = some w') :
    UploadStep w operation record quota stage move w' := by
  cases stage with
  | received =>
    cases move with
    | checkQuota =>
      cases hs
      exact .checkQuota
    | _ => cases hs
  | checked currentUsage =>
    cases move with
    | acquire => exact .acquire hs
    | abort =>
      cases hs
      exact .unlocked
    | _ => cases hs
  | locked currentUsage =>
    cases move with
    | place =>
      cases hs
      exact .place
    | abort =>
      cases hs
      exact .unplaced
    | _ => cases hs
  | placed currentUsage disposition =>
    cases move with
    | register commit =>
      obtain ⟨hwriter, rfl⟩ := writer_free hs
      exact .register hwriter
    | abort =>
      cases hs
      exact .reject
    | _ => cases hs
  | rejected disposition =>
    cases move with
    | remove succeeds =>
      cases hs
      exact .cleanUp
    | _ => cases hs

theorem advanceDelete_step {userId : ℤ} {media : MediaRef} {forced : Bool} {stage : DeleteStage}
    (hs : advanceDelete w operation userId media forced stage move = some w') :
    DeleteStep w operation userId media forced stage move w' := by
  cases stage with
  | requested =>
    cases move with
    | resolve foreign =>
      cases hs
      exact .resolve
    | abort =>
      cases hs
      exact .finish
    | _ => cases hs
  | resolved evidence =>
    cases move with
    | acquire => exact .acquire hs
    | abort =>
      cases hs
      exact .finish
    | _ => cases hs
  | locked evidence =>
    cases move with
    | tryDelete commit =>
      obtain ⟨hwriter, rfl⟩ := writer_free hs
      exact .deleteRow hwriter
    | abort =>
      cases hs
      exact .finish
    | _ => cases hs
  | deleted evidence =>
    cases move with
    | beginReclaim =>
      obtain ⟨hwriter, rfl⟩ := writer_free hs
      exact .beginReclaim hwriter
    | abort =>
      cases hs
      exact .finish
    | _ => cases hs
  | reclaiming evidence =>
    cases move with
    | unlink succeeds =>
      cases hs
      exact .unlink
    | _ => cases hs
  | reclaimed =>
    cases move with
    | finish =>
      cases hs
      exact .finish
    | _ => cases hs

theorem advancePost_step {projection : Option String → String → String}
    {digest : PostContentEtag → String} {write : Operation} {localMedia : List MediaRef}
    {pending : List ContentHash}
    (hs : advancePost projection digest w operation write localMedia pending move = some w') :
    PostStep w operation projection digest write localMedia pending move w' := by
  cases pending with
  | nil =>
    cases move with
    | write commit =>
      obtain ⟨hwriter, rfl⟩ := writer_free hs
      exact .commit hwriter
    | abort =>
      cases hs
      exact .abort
    | _ => cases hs
  | cons sha256 pending =>
    cases move with
    | acquire => exact .acquire hs
    | abort =>
      cases hs
      exact .abort
    | _ => cases hs

end Steps

section Photo

def photoTaken : UtcInstant := .epoch

def photo : MediaRef := ⟨.upload, .replicate 1, spacedPhoto⟩

/-- Six bytes of a photo. -/
def photoMetadata : UploadMetadata where
  filename := spacedPhoto
  contentType := "image/jpeg"
  sha256 := .replicate 1
  sizeBytes := ⟨6, by decide⟩

def tenBytes : UserQuota := ⟨10, by decide, by decide⟩

def emptyWorld : World where
  tables := ⟨[], ⟨[], [], ∅, 0, [], 0, []⟩, []⟩
  files := []
  contentLocks := fun _ ↦ none
  writer := none
  activities := fun _ ↦ .idle
  started := 0

def plainProjection (title : Option String) (slug : String) : String := title.getD slug

def plainDigest (content : PostContentEtag) : String := content.slug

end Photo

end Jaunder.Storage.MediaManager
