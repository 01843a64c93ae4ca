import Jaunder.Common.MediaUrl
import Jaunder.Storage.CodeMigrations.MediaReferences

namespace Jaunder.Storage.Posts.RevisionMedia

open Jaunder.Common.Hash Jaunder.Common.Media Jaunder.Common.MediaUrl Jaunder.Common.References
open Jaunder.Storage.CodeMigrations.MediaReferences

/-- What a reader of `get_post_revision_detail` meets in place of the media. -/
inductive Fault
  | columnDecode
  | unreachable
deriving DecidableEq

/-- The row that `capture_complete_post_revision` copies from a current one. -/
def revisionRow (postId : ℤ) (revisionId : ℕ) (reference : MediaReference) : MediaRow :=
  { currentRow postId reference with subject := .revision revisionId }

variable (parse : List Char → Option Url)

/-- The typed columns of a row, of which the form goes on. -/
def decodeForm (row : MediaRow) : Option String := do
  let _ ← MediaSource.fromStr row.source
  let _ ← ContentHash.parse row.sha256
  let _ ← (Filename.fromStr row.filename).toOption
  let _ ← MediaReferenceKind.fromStr row.referenceKind
  referenceFormFromStr parse row.referenceForm

def readReference (form : String) : Except Fault MediaReference :=
  (parseMediaUrl parse form).elim (.error .unreachable) .ok

/-- The media of `get_post_revision_detail`, from the rows of its query. -/
def revisionMedia (rows : List MediaRow) : Except Fault (List MediaReference) :=
  match rows.mapM (decodeForm parse) with
  | none => .error .columnDecode
  | some forms => forms.mapM (readReference parse)

section Read

variable {parse} {postId : ℤ} {revisionId : ℕ} {reference : MediaReference} {row : MediaRow}
  {rows : List MediaRow} {references : List MediaReference} {forms : List String} {form : String}

theorem decodeForm_revisionRow
    (h : referenceFormFromStr parse reference.referenceForm = some reference.referenceForm) :
    decodeForm parse (revisionRow postId revisionId reference) = some reference.referenceForm := by
  have hfilename : Filename.fromStr reference.media.filename.value = .ok reference.media.filename :=
    fromStr_eq_ok_iff.mpr rfl
  simp only [decodeForm, revisionRow, currentRow, MediaSource.fromStr_asRef,
    ContentHash.parse_value, hfilename, MediaReferenceKind.fromStr_asRef, Except.toOption,
    Option.bind_eq_bind, Option.bind_some]
  exact h

theorem mapM_decodeForm_revisionRow
    (h : ∀ reference ∈ references,
      referenceFormFromStr parse reference.referenceForm = some reference.referenceForm) :
    (references.map (revisionRow postId revisionId)).mapM (decodeForm parse) =
      some (references.map MediaReference.referenceForm) := by
  induction references with
  | nil => rfl
  | cons reference references ih =>
    rw [List.map_cons, List.mapM_cons, decodeForm_revisionRow (h reference List.mem_cons_self),
      ih fun other hother ↦ h other (List.mem_cons_of_mem _ hother)]
    rfl

theorem mapM_readReference
    (h : ∀ reference ∈ references, parseMediaUrl parse reference.referenceForm = some reference) :
    (references.map MediaReference.referenceForm).mapM (readReference parse) = .ok references := by
  induction references with
  | nil => rfl
  | cons reference references ih =>
    have hread : readReference parse reference.referenceForm = .ok reference := by
      rw [readReference, h reference List.mem_cons_self]
      rfl
    rw [List.map_cons, List.mapM_cons, hread,
      ih fun other hother ↦ h other (List.mem_cons_of_mem _ hother)]
    rfl

/-- The parser of the column admits no form that the reader cannot parse. -/
theorem readReference_of_decodeForm (h : decodeForm parse row = some form) :
    ∃ reference, readReference parse form = .ok reference := by
  simp only [decodeForm, Option.bind_eq_bind, Option.bind_eq_some_iff] at h
  obtain ⟨-, -, -, -, -, -, -, -, hform⟩ := h
  obtain ⟨reference, hparse⟩ := parseMediaUrl_of_referenceFormFromStr hform
  exact ⟨reference, by rw [readReference, hparse]; rfl⟩

theorem mapM_decodeForm_mem (h : rows.mapM (decodeForm parse) = some forms) (hform : form ∈ forms) :
    ∃ row, decodeForm parse row = some form := by
  induction rows generalizing forms with
  | nil =>
    cases h
    exact absurd hform List.not_mem_nil
  | cons row rows ih =>
    rw [List.mapM_cons] at h
    obtain ⟨first, hfirst, h⟩ := Option.bind_eq_some_iff.mp h
    obtain ⟨others, hothers, h⟩ := Option.bind_eq_some_iff.mp h
    cases h
    rcases List.mem_cons.mp hform with rfl | hmem
    · exact ⟨row, hfirst⟩
    · exact ih hothers hmem

theorem mapM_readReference_ok
    (h : ∀ form ∈ forms, ∃ reference, readReference parse form = .ok reference) :
    ∃ references, forms.mapM (readReference parse) = .ok references := by
  induction forms with
  | nil => exact ⟨[], rfl⟩
  | cons form forms ih =>
    obtain ⟨reference, hread⟩ := h form List.mem_cons_self
    obtain ⟨references, hrest⟩ := ih fun other hother ↦ h other (List.mem_cons_of_mem _ hother)
    exact ⟨reference :: references, by rw [List.mapM_cons, hread, hrest]; rfl⟩

theorem revisionMedia_ne_unreachable : revisionMedia parse rows ≠ .error .unreachable := by
  rw [revisionMedia]
  cases hforms : rows.mapM (decodeForm parse) with
  | none => exact nofun
  | some forms =>
    have hdecoded : ∀ form ∈ forms, ∃ reference, readReference parse form = .ok reference := by
      intro form hform
      obtain ⟨row, hrow⟩ := mapM_decodeForm_mem hforms hform
      exact readReference_of_decodeForm hrow
    obtain ⟨references, hread⟩ := mapM_readReference_ok hdecoded
    dsimp only
    rw [hread]
    exact nofun

/-- A stored reference form parses to the reference that it was stored for, and a revision shows
the references that it was captured with. -/
theorem referenceForms_survive (h : UrlStandard parse) :
    (∀ input reference, parseMediaUrl parse input = some reference →
      parseMediaUrl parse reference.referenceForm = some reference) ∧
    (∀ inputs : List String, ∀ postId revisionId,
      let references := inputs.filterMap (parseMediaUrl parse)
      revisionMedia parse (references.map (revisionRow postId revisionId)) = .ok references) ∧
    ∀ rows, revisionMedia parse rows ≠ .error .unreachable := by
  refine ⟨fun input reference ↦ parseMediaUrl_referenceForm h, fun inputs postId revisionId ↦ ?_,
    fun rows ↦ revisionMedia_ne_unreachable⟩
  have hall : ∀ reference ∈ inputs.filterMap (parseMediaUrl parse),
      ∃ input, parseMediaUrl parse input = some reference := by
    intro reference hmem
    obtain ⟨input, -, hparse⟩ := List.mem_filterMap.mp hmem
    exact ⟨input, hparse⟩
  dsimp only
  rw [revisionMedia, mapM_decodeForm_revisionRow]
  · refine mapM_readReference fun reference hmem ↦ ?_
    obtain ⟨input, hparse⟩ := hall reference hmem
    exact parseMediaUrl_referenceForm h hparse
  · intro reference hmem
    obtain ⟨input, hparse⟩ := hall reference hmem
    exact referenceFormFromStr_referenceForm h hparse

end Read

/-- An absolute URL of an uploaded photo. -/
def photoUrl : Url where
  scheme := "https".toList
  username := []
  password := none
  host := some "example.com".toList
  port := none
  path := '/' :: "media/upload/11/11/".toList ++ (ContentHash.replicate 1).value.toList ++
    "/a%20b.jpg".toList
  query := none
  fragment := none

/-- A URL parser that knows one URL. -/
def photoParse (s : List Char) : Option Url := if s = photoUrl.serialize then some photoUrl else none

theorem photoParse_standard : UrlStandard photoParse := by
  have honly : ∀ s url, photoParse s = some url → url = photoUrl := by
    intro s url h
    rw [photoParse] at h
    split_ifs at h
    exact (Option.some.inj h).symm
  refine ⟨?_, ?_, ?_, ?_, ?_⟩
  · intro s url h hhttp
    rw [honly s url h]
    exact if_pos rfl
  · intro s url h hfragment
    rw [honly s url h]
    rfl
  · intro s url h hhttp
    rw [honly s url h]
    exact ⟨_, rfl, List.forall_iff_forall_mem.mp (by decide)⟩
  · intro s url h hhttp
    rw [honly s url h]
    exact ⟨_, rfl, by decide, by decide⟩
  · intro s url h hhttp
    rw [honly s url h]
    exact fun query hquery ↦ absurd hquery nofun

/-- The URL with a fragment. -/
def photoText : String := String.ofList (photoUrl.serialize ++ "#top".toList)

def absolutePhoto : MediaReference :=
  ⟨⟨.upload, .replicate 1, spacedPhoto⟩, .absolute, String.ofList photoUrl.serialize⟩

theorem parse_photoText : parseMediaUrl photoParse photoText = some absolutePhoto := by
  decide +kernel

theorem photoText_survives :
    parseMediaUrl photoParse photoText = some absolutePhoto ∧
      parseMediaUrl photoParse absolutePhoto.referenceForm = some absolutePhoto ∧
      revisionMedia photoParse
        (([photoText].filterMap (parseMediaUrl photoParse)).map (revisionRow 1 1)) =
          .ok ([photoText].filterMap (parseMediaUrl photoParse)) := by
  obtain ⟨hforms, hrevision, -⟩ := referenceForms_survive photoParse_standard
  exact ⟨parse_photoText, hforms photoText absolutePhoto parse_photoText, hrevision [photoText] 1 1⟩

end Jaunder.Storage.Posts.RevisionMedia
