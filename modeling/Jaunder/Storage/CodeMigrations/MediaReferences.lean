import Jaunder.Common.References
import Jaunder.Foundation.Outcome
import Jaunder.Foundation.UniqueIndex

namespace Jaunder.Storage.CodeMigrations.MediaReferences

open Foundation.Outcome Foundation.UniqueIndex
open Jaunder.Common.Hash Jaunder.Common.Media Jaunder.Common.References

/-- `subject_kind` and `revision_id`, which a CHECK ties together. -/
inductive Subject
  | current
  | revision (revisionId : ℕ)
deriving DecidableEq

/-- A row of `post_media`, whose columns are texts. -/
structure MediaRow where
  postId : ℤ
  subject : Subject
  source : String
  sha256 : String
  filename : String
  referenceKind : String
  referenceForm : String
deriving DecidableEq

structure PostRow where
  postId : ℤ
  renderedHtml : String
deriving DecidableEq

/-- The keys of `post_revisions` stand for its rows. -/
structure MediaTables where
  posts : List PostRow
  revisions : List (ℤ × ℕ)
  media : List MediaRow

/-- The keys of the tables, the CHECK on the subject and the triggers on it. -/
structure MediaTables.Admitted (db : MediaTables) : Prop where
  posts : (db.posts.map PostRow.postId).Nodup
  media : db.media.Nodup
  foreign : ∀ row ∈ db.media, row.postId ∈ db.posts.map PostRow.postId
  revision : ∀ row ∈ db.media, ∀ revisionId, row.subject = .revision revisionId →
    0 < revisionId ∧ (row.postId, revisionId) ∈ db.revisions

def currentRow (postId : ℤ) (reference : MediaReference) : MediaRow where
  postId := postId
  subject := .current
  source := reference.media.source.asRef
  sha256 := reference.media.sha256.value
  filename := reference.media.filename.value
  referenceKind := reference.kind.asRef
  referenceForm := reference.referenceForm

/-- `media_reference_rows`: a set of rows. -/
def mediaReferenceRows (candidates : List (ℤ × List MediaReference)) : List MediaRow :=
  (candidates.flatMap (fun (postId, references) ↦ references.map (currentRow postId))).dedup

def MediaRow.isLegacy (row : MediaRow) : Bool := row.referenceKind = "legacy"

/-- `EXISTS (SELECT 1 FROM post_media …)` -/
def hasLegacyRow (media : List MediaRow) (postId : ℤ) : Bool :=
  media.any (fun row ↦ row.postId = postId ∧ row.isLegacy)

def hasLegacyCurrentRow (media : List MediaRow) (postId : ℤ) : Bool :=
  media.any (fun row ↦ row.postId = postId ∧ row.subject = .current ∧ row.isLegacy)

def hasLegacyRevisionRow (media : List MediaRow) (postId : ℤ) : Bool :=
  media.any (fun row ↦ row.postId = postId ∧ row.subject ≠ .current ∧ row.isLegacy)

variable (maxVariables : ℕ)

/-- One statement with six parameters for each row, which the engine refuses above
`maxVariables`. -/
def insertPostMediaRows (media rows : List MediaRow) : Option (List MediaRow) :=
  if rows = [] then some media
  else if 6 * rows.length ≤ maxVariables then insertRows (fun a b ↦ a = b) media rows
  else none

def replaceLegacyPostMedia (media : List MediaRow) (candidates : List (ℤ × List MediaReference)) :
    Option (List MediaRow) :=
  let kept := media.filter
    (fun row ↦ ¬(row.subject = .current ∧ hasLegacyCurrentRow media row.postId))
  insertPostMediaRows maxVariables kept (mediaReferenceRows candidates)

variable (extractMediaRefs : String → List MediaReference)

/-- `backfill_post_media_references`, none when the transaction fails. -/
def backfillPostMediaReferences (db : MediaTables) : Option MediaTables :=
  let posts := (db.posts.filter (fun post ↦ hasLegacyRow db.media post.postId)).insertionSort
    (fun a b ↦ a.postId ≤ b.postId)
  let candidates := posts.map (fun post ↦ (post.postId, extractMediaRefs post.renderedHtml))
  if candidates = [] then some db
  else (replaceLegacyPostMedia maxVariables db.media candidates).map (fun media ↦ { db with media })

section Backfill

variable {maxVariables} {extractMediaRefs} {db db' : MediaTables} {row : MediaRow} {post : PostRow} {postId : ℤ}
  {media : List MediaRow}

theorem hasLegacyRow_iff : hasLegacyRow media postId = true ↔
    hasLegacyCurrentRow media postId = true ∨ hasLegacyRevisionRow media postId = true := by
  simp only [hasLegacyRow, hasLegacyCurrentRow, hasLegacyRevisionRow, List.any_eq_true,
    decide_eq_true_eq, ← exists_or]
  refine exists_congr fun row ↦ ?_
  by_cases hsubject : row.subject = .current
  · simp [hsubject]
  · simp [hsubject]

theorem not_isLegacy_currentRow (reference : MediaReference) :
    (currentRow postId reference).isLegacy = false := by
  have htext : reference.kind.asRef ≠ "legacy" := by cases reference.kind <;> decide
  exact decide_eq_false htext

/-- The rows that the code migration writes. -/
def newRows (extractMediaRefs : String → List MediaReference) (db : MediaTables) : List MediaRow :=
  mediaReferenceRows (((db.posts.filter (fun post ↦ hasLegacyRow db.media post.postId)).insertionSort
    (fun a b ↦ a.postId ≤ b.postId)).map
      (fun post ↦ (post.postId, extractMediaRefs post.renderedHtml)))

def keptRows (db : MediaTables) : List MediaRow :=
  db.media.filter (fun row ↦ ¬(row.subject = .current ∧ hasLegacyCurrentRow db.media row.postId))

theorem mem_newRows : row ∈ newRows extractMediaRefs db ↔ ∃ post ∈ db.posts,
    hasLegacyRow db.media post.postId = true ∧
      row ∈ (extractMediaRefs post.renderedHtml).map (currentRow post.postId) := by
  simp only [newRows, mediaReferenceRows, List.mem_dedup, List.mem_flatMap, List.mem_map,
    List.mem_insertionSort, List.mem_filter]
  constructor
  · rintro ⟨-, ⟨post, ⟨hpost, hlegacy⟩, rfl⟩, hrow⟩
    exact ⟨post, hpost, hlegacy, hrow⟩
  · rintro ⟨post, hpost, hlegacy, hrow⟩
    exact ⟨_, ⟨post, ⟨hpost, hlegacy⟩, rfl⟩, hrow⟩

theorem newRows_current (h : row ∈ newRows extractMediaRefs db) :
    row.subject = .current ∧ row.isLegacy = false := by
  obtain ⟨post, -, -, hrow⟩ := mem_newRows.mp h
  obtain ⟨reference, -, rfl⟩ := List.mem_map.mp hrow
  exact ⟨rfl, not_isLegacy_currentRow reference⟩

theorem mem_keptRows : row ∈ keptRows db ↔ row ∈ db.media ∧
    (row.subject = .current → hasLegacyCurrentRow db.media row.postId = false) := by
  rw [keptRows, List.mem_filter, decide_eq_true_iff, not_and, Bool.not_eq_true]

theorem insertPostMediaRows_eq_some {rows out : List MediaRow}
    (h : Unique (fun a b : MediaRow ↦ decide (a = b)) media) :
    insertPostMediaRows maxVariables media rows = some out ↔ 6 * rows.length ≤ maxVariables ∧
      Unique (fun a b : MediaRow ↦ decide (a = b)) (media ++ rows) ∧ out = media ++ rows := by
  rw [insertPostMediaRows]
  split_ifs with hnone hsmall
  · rw [hnone, List.append_nil]
    constructor
    · rintro ⟨⟩
      exact ⟨Nat.zero_le _, h, rfl⟩
    · rintro ⟨-, -, rfl⟩
      rfl
  · rw [insertRows_eq_some_iff h, and_iff_right hsmall, and_comm]
  · constructor
    · intro hsome
      exact absurd hsome nofun
    · rintro ⟨hle, -⟩
      exact absurd hle hsmall

/-- What the code migration does to the table: it goes through when no new row is kept already. -/
theorem backfill_eq_some (h : db.Admitted) :
    backfillPostMediaReferences maxVariables extractMediaRefs db = some db' ↔
      6 * (newRows extractMediaRefs db).length ≤ maxVariables ∧
        (∀ row ∈ newRows extractMediaRefs db, row ∉ keptRows db) ∧
        db' = { db with media := keptRows db ++ newRows extractMediaRefs db } := by
  have hkept : Unique (fun a b : MediaRow ↦ decide (a = b)) (keptRows db) :=
    (h.media.filter _).imp fun hab ↦ decide_eq_false hab
  have hnew : Unique (fun a b : MediaRow ↦ decide (a = b)) (newRows extractMediaRefs db) :=
    (List.nodup_dedup _).imp fun hab ↦ decide_eq_false hab
  have hunique : Unique (fun a b : MediaRow ↦ decide (a = b))
      (keptRows db ++ newRows extractMediaRefs db) ↔
        ∀ row ∈ newRows extractMediaRefs db, row ∉ keptRows db := by
    rw [unique_append, and_iff_right hkept, and_iff_right hnew]
    constructor
    · intro hfree row hrow hmem
      have hsame := of_decide_eq_false (hfree row hmem row hrow)
      exact hsame rfl
    · intro hfree a ha b hb
      exact decide_eq_false fun heq ↦ hfree b hb (heq ▸ ha)
  simp only [backfillPostMediaReferences]
  split_ifs with hnone
  · have hsort := List.map_eq_nil_iff.mp hnone
    have hlegacy : ∀ post ∈ db.posts, hasLegacyRow db.media post.postId = false := by
      intro post hpost
      by_contra hnot
      have hmem : post ∈ (db.posts.filter
          (fun post ↦ hasLegacyRow db.media post.postId)).insertionSort
            (fun a b ↦ a.postId ≤ b.postId) :=
        (List.mem_insertionSort _).mpr (List.mem_filter.mpr ⟨hpost, eq_true_of_ne_false hnot⟩)
      rw [hsort] at hmem
      exact absurd hmem List.not_mem_nil
    have hnil : newRows extractMediaRefs db = [] := by
      rw [newRows, hnone]
      rfl
    have hall : keptRows db = db.media := by
      refine List.filter_eq_self.mpr fun row hrow ↦ decide_eq_true ?_
      rintro ⟨-, hcurrent⟩
      obtain ⟨post, hpost, hid⟩ := List.mem_map.mp (h.foreign row hrow)
      have hsome := hasLegacyRow_iff.mpr (.inl hcurrent)
      rw [← hid, hlegacy post hpost] at hsome
      exact absurd hsome nofun
    rw [hnil, hall, List.append_nil]
    constructor
    · intro hsome
      exact ⟨Nat.zero_le _, fun _ hmem ↦ absurd hmem List.not_mem_nil,
        (Option.some.inj hsome).symm⟩
    · rintro ⟨-, -, rfl⟩
      rfl
  · have hinsert (out : List MediaRow) :
        insertPostMediaRows maxVariables (keptRows db) (newRows extractMediaRefs db) = some out ↔
          6 * (newRows extractMediaRefs db).length ≤ maxVariables ∧
            (∀ row ∈ newRows extractMediaRefs db, row ∉ keptRows db) ∧
              out = keptRows db ++ newRows extractMediaRefs db := by
      rw [insertPostMediaRows_eq_some hkept, hunique]
    constructor
    · intro hsome
      obtain ⟨out, hout, rfl⟩ := Option.map_eq_some_iff.mp hsome
      obtain ⟨hsmall, hfree, rfl⟩ := (hinsert out).mp hout
      exact ⟨hsmall, hfree, rfl⟩
    · rintro ⟨hsmall, hfree, rfl⟩
      exact Option.map_eq_some_iff.mpr ⟨_, (hinsert _).mpr ⟨hsmall, hfree, rfl⟩, rfl⟩

/-- A backfill of the current rows, and of nothing else. -/
structure Repaired (extractMediaRefs : String → List MediaReference) (db db' : MediaTables) :
    Prop where
  admitted : db'.Admitted
  posts : db'.posts = db.posts
  revisions : db'.revisions = db.revisions
  noLegacy : ∀ postId, hasLegacyCurrentRow db'.media postId = false
  rewritten : ∀ post ∈ db.posts, hasLegacyCurrentRow db.media post.postId = true →
    ∀ row, row.postId = post.postId → row.subject = .current →
      (row ∈ db'.media ↔
        row ∈ (extractMediaRefs post.renderedHtml).map (currentRow post.postId))
  revisionRows : ∀ row, row.subject ≠ .current → (row ∈ db'.media ↔ row ∈ db.media)
  otherPosts : ∀ row, hasLegacyCurrentRow db.media row.postId = false →
    (row ∈ db'.media ↔ row ∈ db.media)

/-- The legacy rows of the post's revisions do not meet a reference of its current text. -/
def NoLegacyRevision (extractMediaRefs : String → List MediaReference) (db : MediaTables) : Prop :=
  ∀ post ∈ db.posts, hasLegacyRevisionRow db.media post.postId = true →
    extractMediaRefs post.renderedHtml = []

theorem hasLegacyCurrentRow_eq_true : hasLegacyCurrentRow media postId = true ↔
    ∃ row ∈ media, row.postId = postId ∧ row.subject = .current ∧ row.isLegacy = true := by
  simp only [hasLegacyCurrentRow, List.any_eq_true, decide_eq_true_eq]

theorem hasLegacyRevisionRow_eq_true : hasLegacyRevisionRow media postId = true ↔
    ∃ row ∈ media, row.postId = postId ∧ row.subject ≠ .current ∧ row.isLegacy = true := by
  simp only [hasLegacyRevisionRow, List.any_eq_true, decide_eq_true_eq]

theorem mem_backfilled : row ∈ keptRows db ++ newRows extractMediaRefs db ↔
    (row ∈ db.media ∧
      (row.subject = .current → hasLegacyCurrentRow db.media row.postId = false)) ∨
      row ∈ newRows extractMediaRefs db := by
  rw [List.mem_append, mem_keptRows]

theorem mem_backfilled_revision (h : row.subject ≠ .current) :
    row ∈ keptRows db ++ newRows extractMediaRefs db ↔ row ∈ db.media := by
  rw [mem_backfilled]
  constructor
  · rintro (⟨hrow, -⟩ | hnew)
    · exact hrow
    · exact absurd (newRows_current hnew).1 h
  · intro hrow
    exact .inl ⟨hrow, fun hcurrent ↦ absurd hcurrent h⟩

theorem backfilled_noLegacy :
    hasLegacyCurrentRow (keptRows db ++ newRows extractMediaRefs db) postId = false := by
  rw [Bool.eq_false_iff, Ne, hasLegacyCurrentRow_eq_true]
  rintro ⟨row, hrow, rfl, hcurrent, hlegacy⟩
  rcases mem_backfilled.mp hrow with ⟨hmem, hkept⟩ | hnew
  · have hsome := hasLegacyCurrentRow_eq_true.mpr ⟨row, hmem, rfl, hcurrent, hlegacy⟩
    rw [hkept hcurrent] at hsome
    exact absurd hsome nofun
  · rw [(newRows_current hnew).2] at hlegacy
    exact absurd hlegacy nofun

theorem backfilled_legacyRevision :
    hasLegacyRevisionRow (keptRows db ++ newRows extractMediaRefs db) postId =
      hasLegacyRevisionRow db.media postId := by
  rw [Bool.eq_iff_iff, hasLegacyRevisionRow_eq_true, hasLegacyRevisionRow_eq_true]
  refine exists_congr fun row ↦ ?_
  by_cases hsubject : row.subject = .current
  · simp [hsubject]
  · rw [mem_backfilled_revision hsubject]

/-- The writes of a post with legacy rows are its references, and only legacy current rows make
one when no revision does. -/
theorem legacyCurrent_of_mem_newRows (hcond : NoLegacyRevision extractMediaRefs db)
    (h : row ∈ newRows extractMediaRefs db) : hasLegacyCurrentRow db.media row.postId = true := by
  obtain ⟨post, hpost, hlegacy, hrow⟩ := mem_newRows.mp h
  have hid : row.postId = post.postId := by
    obtain ⟨reference, -, rfl⟩ := List.mem_map.mp hrow
    rfl
  rw [hid]
  rcases hasLegacyRow_iff.mp hlegacy with hcurrent | hrevision
  · exact hcurrent
  · rw [hcond post hpost hrevision] at hrow
    exact absurd hrow List.not_mem_nil

theorem newRows_not_kept (hcond : NoLegacyRevision extractMediaRefs db) :
    ∀ row ∈ newRows extractMediaRefs db, row ∉ keptRows db := by
  intro row hnew hkept
  have hfalse := (mem_keptRows.mp hkept).2 (newRows_current hnew).1
  rw [legacyCurrent_of_mem_newRows hcond hnew] at hfalse
  exact absurd hfalse nofun

theorem backfilled_admitted (h : db.Admitted)
    (hfree : ∀ row ∈ newRows extractMediaRefs db, row ∉ keptRows db) :
    { db with media := keptRows db ++ newRows extractMediaRefs db : MediaTables }.Admitted where
  posts := h.posts
  media := by
    refine (h.media.filter _).append (List.nodup_dedup _) ?_
    exact fun row hkept hnew ↦ hfree row hnew hkept
  foreign := by
    intro row hrow
    rcases mem_backfilled.mp hrow with ⟨hmem, -⟩ | hnew
    · exact h.foreign row hmem
    · obtain ⟨post, hpost, -, hmem⟩ := mem_newRows.mp hnew
      obtain ⟨reference, -, rfl⟩ := List.mem_map.mp hmem
      exact List.mem_map.mpr ⟨post, hpost, rfl⟩
  revision := by
    intro row hrow revisionId hsubject
    have hrevision : row.subject ≠ .current := by rw [hsubject]; exact nofun
    exact h.revision row ((mem_backfilled_revision hrevision).mp hrow) revisionId hsubject

theorem backfilled_repaired (h : db.Admitted) (hcond : NoLegacyRevision extractMediaRefs db) :
    Repaired extractMediaRefs db
      { db with media := keptRows db ++ newRows extractMediaRefs db } where
  admitted := backfilled_admitted h (newRows_not_kept hcond)
  posts := rfl
  revisions := rfl
  noLegacy := fun postId ↦ backfilled_noLegacy
  rewritten := by
    intro post hpost hlegacy row hid hcurrent
    rw [mem_backfilled]
    constructor
    · rintro (⟨-, hkept⟩ | hnew)
      · have hfalse := hkept hcurrent
        rw [hid, hlegacy] at hfalse
        exact absurd hfalse nofun
      · obtain ⟨other, hother, -, hrow⟩ := mem_newRows.mp hnew
        have hsame : other.postId = post.postId := by
          obtain ⟨reference, -, rfl⟩ := List.mem_map.mp hrow
          exact hid
        rwa [List.inj_on_of_nodup_map h.posts hother hpost hsame] at hrow
    · intro hrow
      exact .inr (mem_newRows.mpr ⟨post, hpost, hasLegacyRow_iff.mpr (.inl hlegacy), hrow⟩)
  revisionRows := fun row hsubject ↦ mem_backfilled_revision hsubject
  otherPosts := by
    intro row hlegacy
    rw [mem_backfilled]
    constructor
    · rintro (⟨hrow, -⟩ | hnew)
      · exact hrow
      · rw [legacyCurrent_of_mem_newRows hcond hnew] at hlegacy
        exact absurd hlegacy nofun
    · intro hrow
      exact .inl ⟨hrow, fun _ ↦ hlegacy⟩

/-- After a backfill the rows to write are the ones of the posts with a legacy revision. -/
theorem newRows_backfilled (hcond : NoLegacyRevision extractMediaRefs db) :
    newRows extractMediaRefs { db with media := keptRows db ++ newRows extractMediaRefs db } = [] := by
  refine List.eq_nil_iff_forall_not_mem.mpr fun row hrow ↦ ?_
  obtain ⟨post, hpost, hlegacy, hmem⟩ := mem_newRows.mp hrow
  rcases hasLegacyRow_iff.mp hlegacy with hcurrent | hrevision
  · rw [backfilled_noLegacy] at hcurrent
    exact absurd hcurrent nofun
  · rw [backfilled_legacyRevision] at hrevision
    rw [hcond post hpost hrevision] at hmem
    exact absurd hmem List.not_mem_nil

theorem keptRows_eq_self (h : ∀ postId, hasLegacyCurrentRow db.media postId = false) :
    keptRows db = db.media := by
  refine List.filter_eq_self.mpr fun row _ ↦ decide_eq_true ?_
  rintro ⟨-, hcurrent⟩
  rw [h row.postId] at hcurrent
  exact absurd hcurrent nofun

/-- The backfill repairs the references, once and for all, if and only if no post with a legacy
revision row has a reference in its current text and the rows fit in one statement. -/
theorem backfill_repairs_iff (h : db.Admitted) :
    (∃ db', backfillPostMediaReferences maxVariables extractMediaRefs db = some db' ∧
      Repaired extractMediaRefs db db' ∧
        backfillPostMediaReferences maxVariables extractMediaRefs db' = some db') ↔
      NoLegacyRevision extractMediaRefs db ∧
        6 * (newRows extractMediaRefs db).length ≤ maxVariables := by
  constructor
  · rintro ⟨db', hfirst, hrepaired, hsecond⟩
    obtain ⟨hsmall, hfree, rfl⟩ := (backfill_eq_some h).mp hfirst
    refine ⟨fun post hpost hrevision ↦ ?_, hsmall⟩
    obtain ⟨-, hagain, -⟩ := (backfill_eq_some hrepaired.admitted).mp hsecond
    refine List.eq_nil_iff_forall_not_mem.mpr fun reference hreference ↦ ?_
    have hmem := List.mem_map_of_mem (f := currentRow post.postId) hreference
    have hfirstRow : currentRow post.postId reference ∈ newRows extractMediaRefs db :=
      mem_newRows.mpr ⟨post, hpost, hasLegacyRow_iff.mpr (.inr hrevision), hmem⟩
    have hsecondRow : currentRow post.postId reference ∈ newRows extractMediaRefs
        { db with media := keptRows db ++ newRows extractMediaRefs db } := by
      refine mem_newRows.mpr ⟨post, hpost, hasLegacyRow_iff.mpr (.inr ?_), hmem⟩
      rw [backfilled_legacyRevision]
      exact hrevision
    refine hagain _ hsecondRow ?_
    rw [keptRows_eq_self hrepaired.noLegacy]
    exact mem_backfilled.mpr (.inr hfirstRow)
  · rintro ⟨hcond, hsmall⟩
    have hrepaired := backfilled_repaired h hcond
    refine ⟨_, (backfill_eq_some h).mpr ⟨hsmall, newRows_not_kept hcond, rfl⟩, hrepaired, ?_⟩
    rw [backfill_eq_some hrepaired.admitted, newRows_backfilled hcond,
      keptRows_eq_self hrepaired.noLegacy, List.append_nil]
    exact ⟨Nat.zero_le _, fun _ hmem ↦ absurd hmem List.not_mem_nil, rfl⟩

end Backfill

/-- A reference of the post's text to an uploaded file. -/
def photoReference : MediaReference where
  media := ⟨.upload, .replicate 1, spacedPhoto⟩
  kind := .local_
  referenceForm := "/media/upload/11/11/" ++ (ContentHash.replicate 1).value ++ "/a%20b.jpg"

def legacyRow (subject : Subject) : MediaRow where
  postId := 1
  subject := subject
  source := "upload"
  sha256 := (ContentHash.replicate 1).value
  filename := "a%20b.jpg"
  referenceKind := "legacy"
  referenceForm := ""

/-- A post before the backfill. -/
def unrepaired : MediaTables where
  posts := [⟨1, "<img>"⟩]
  revisions := []
  media := [legacyRow .current]

theorem unrepaired_admitted : unrepaired.Admitted where
  posts := List.nodup_singleton _
  media := List.nodup_singleton _
  foreign := fun row hrow ↦ by
    rw [List.mem_singleton.mp hrow]
    exact List.mem_singleton.mpr rfl
  revision := fun row hrow revisionId hsubject ↦ by
    rw [List.mem_singleton.mp hrow] at hsubject
    exact absurd hsubject nofun

theorem backfill_repairs_unrepaired :
    ∃ db', backfillPostMediaReferences 32766 (fun _ ↦ [photoReference]) unrepaired = some db' ∧
      Repaired (fun _ ↦ [photoReference]) unrepaired db' ∧
        backfillPostMediaReferences 32766 (fun _ ↦ [photoReference]) db' = some db' := by
  refine (backfill_repairs_iff unrepaired_admitted).mpr ⟨fun post hpost hrevision ↦ ?_, ?_⟩
  · obtain ⟨row, hrow, -, hsubject, -⟩ := hasLegacyRevisionRow_eq_true.mp hrevision
    rw [List.mem_singleton.mp hrow] at hsubject
    exact absurd rfl hsubject
  · have hlegacy : hasLegacyRow unrepaired.media 1 = true := rfl
    have hnew : newRows (fun _ ↦ [photoReference]) unrepaired = [currentRow 1 photoReference] := by
      simp [newRows, unrepaired, mediaReferenceRows, show hasLegacyRow [legacyRow .current] 1 = true from hlegacy]
    rw [hnew]
    decide

/-- A post whose current rows are repaired, with a revision that copied a legacy row. -/
def captured : MediaTables where
  posts := [⟨1, "<img>"⟩]
  revisions := [(1, 1)]
  media := [legacyRow (.revision 1), currentRow 1 photoReference]

theorem captured_admitted : captured.Admitted where
  posts := List.nodup_singleton _
  media := by
    refine List.nodup_cons.mpr ⟨fun hmem ↦ ?_, List.nodup_singleton _⟩
    have hsubject := congrArg MediaRow.subject (List.mem_singleton.mp hmem)
    exact absurd hsubject nofun
  foreign := fun row hrow ↦ by
    have hid : row.postId = 1 := by
      rcases List.mem_cons.mp hrow with rfl | hcurrent
      · rfl
      · rw [List.mem_singleton.mp hcurrent]
        rfl
    rw [hid]
    exact List.mem_singleton.mpr rfl
  revision := fun row hrow revisionId hsubject ↦ by
    rcases List.mem_cons.mp hrow with rfl | hcurrent
    · cases hsubject
      exact ⟨Nat.one_pos, List.mem_singleton.mpr rfl⟩
    · rw [List.mem_singleton.mp hcurrent] at hsubject
      exact absurd hsubject nofun

/-- The primary key refuses the reference that the post has already. -/
theorem backfill_captured_fails : captured.Admitted ∧
    backfillPostMediaReferences 32766 (fun _ ↦ [photoReference]) captured = none := by
  refine ⟨captured_admitted, Option.eq_none_iff_forall_not_mem.mpr fun db' hsome ↦ ?_⟩
  obtain ⟨-, hfree, -⟩ := (backfill_eq_some captured_admitted).mp hsome
  have hkept : currentRow 1 photoReference ∈ keptRows captured :=
    mem_keptRows.mpr ⟨List.mem_cons_of_mem _ (List.mem_singleton.mpr rfl), fun _ ↦ rfl⟩
  refine hfree _ (mem_newRows.mpr ⟨⟨1, "<img>"⟩, List.mem_singleton.mpr rfl, rfl, ?_⟩) hkept
  exact List.mem_singleton.mpr rfl

end Jaunder.Storage.CodeMigrations.MediaReferences
