import Jaunder.Common.PostText
import Jaunder.Common.Visibility
import Jaunder.Foundation.Outcome
import Jaunder.Foundation.Substrings
import Mathlib.Data.List.Sort

namespace Jaunder.Host.ForeignMarkers

open Foundation.Outcome Foundation.Substrings
open Jaunder.Common.PostText Jaunder.Common.Visibility

def appNs : String := "http://www.w3.org/2007/app"

def jNs : String := "https://jaunder.org/ns/atompub"

structure ExpandedName where
  namespaceUri : Option String
  localName : String
  preferredPrefix : Option String
deriving DecidableEq

structure ExtensionAttribute where
  name : ExpandedName
  value : String
deriving DecidableEq

mutual

structure Extension where
  name : ExpandedName
  attributes : List ExtensionAttribute
  content : List ExtensionContent

inductive ExtensionContent
  | text (text : String)
  | element (element : Extension)

end

/-- `atom` stands for the title, the links and the other Atom elements. -/
@[ext] structure Entry (α : Type) where
  atom : α
  extensions : List Extension

variable {α : Type}

def hasName (extension : Extension) (namespaceUri localName : String) : Bool :=
  extension.name.namespaceUri = some namespaceUri ∧ extension.name.localName = localName

def directText (extension : Extension) : List Char :=
  extension.content.flatMap fun
    | .text text => text.toList
    | .element _ => []

def preferredPrefix (entry : Entry α) (namespaceUri localName fallback : String) : String :=
  ((entry.extensions.filter (hasName · namespaceUri localName)).findSome?
    (fun extension ↦ extension.name.preferredPrefix)).getD fallback

def marker (namespaceUri localName preferredPrefix : String) (content : List ExtensionContent) :
    Extension :=
  ⟨⟨some namespaceUri, localName, some preferredPrefix⟩, [], content⟩

section Draft

def isControl (extension : Extension) : Bool := hasName extension appNs "control"

def isDraftChild : ExtensionContent → Bool
  | .text _ => false
  | .element child => hasName child appNs "draft"

/-- What the `draft` children of a control say. -/
def draftValues (control : Extension) : List Bool :=
  control.content.filterMap fun
    | .text _ => none
    | .element child =>
      if hasName child appNs "draft" then
        some (decide ((trim (directText child)).map Char.toLower = "yes".toList))
      else none

def draftMarker (entry : Entry α) : Option Bool :=
  let values := (entry.extensions.filter isControl).flatMap draftValues
  if values = [] then none else some (values.any id)

def withoutDraft (extension : Extension) : Extension :=
  if isControl extension then
    { extension with content := extension.content.filter (fun content ↦ ¬isDraftChild content) }
  else extension

def withDraft (control : Extension) : Extension :=
  let preferredPrefix := control.name.preferredPrefix.getD "app"
  { control with
    content := control.content ++ [.element (marker appNs "draft" preferredPrefix [.text "yes"])] }

/-- Change the first control. -/
def updateControl (f : Extension → Extension) : List Extension → List Extension
  | [] => []
  | extension :: rest =>
    if isControl extension then f extension :: rest else extension :: updateControl f rest

def isEmptyControl (extension : Extension) : Bool :=
  isControl extension ∧ extension.attributes.isEmpty ∧ extension.content.isEmpty

def setDraft (entry : Entry α) (draft : Bool) : Entry α :=
  let entry := { entry with extensions := entry.extensions.map withoutDraft }
  if draft then
    if entry.extensions.any isControl then
      { entry with extensions := updateControl withDraft entry.extensions }
    else
      let preferredPrefix := preferredPrefix entry appNs "control" "app"
      let control := marker appNs "control" preferredPrefix
        [.element (marker appNs "draft" preferredPrefix [.text "yes"])]
      { entry with extensions := entry.extensions ++ [control] }
  else { entry with extensions := entry.extensions.filter (fun extension ↦ ¬isEmptyControl extension) }

/-- The extensions without the `draft` children and without the controls that are left empty. -/
def foreign (extensions : List Extension) : List Extension :=
  (extensions.map withoutDraft).filter (fun extension ↦ ¬isEmptyControl extension)

variable {extension : Extension} {extensions : List Extension} {entry : Entry α}

@[simp] theorem isControl_withoutDraft : isControl (withoutDraft extension) = isControl extension := by
  unfold withoutDraft
  split_ifs <;> rfl

@[simp] theorem isControl_withDraft : isControl (withDraft extension) = isControl extension := rfl

theorem withoutDraft_of_not_control (h : isControl extension = false) :
    withoutDraft extension = extension := by
  rw [withoutDraft, if_neg (by rw [h]; nofun)]

theorem withoutDraft_withoutDraft : withoutDraft (withoutDraft extension) = withoutDraft extension := by
  by_cases h : isControl extension = true
  · have hcontrol : isControl (withoutDraft extension) = true := by rwa [isControl_withoutDraft]
    rw [withoutDraft, if_pos hcontrol]
    unfold withoutDraft
    rw [if_pos h]
    simp only [List.filter_filter, Bool.and_self]
  · rw [withoutDraft_of_not_control (by simpa using h), withoutDraft_of_not_control (by simpa using h)]

/-- Removing a marker that has just been added. -/
theorem withoutDraft_withDraft (h : isControl extension = true) :
    withoutDraft (withDraft extension) = withoutDraft extension := by
  have hchild : isDraftChild (.element (marker appNs "draft"
      (extension.name.preferredPrefix.getD "app") [.text "yes"])) = true := by
    simp [isDraftChild, marker, hasName]
  have hcontrol : isControl (withDraft extension) = true := h
  rw [withoutDraft, if_pos hcontrol, withoutDraft, if_pos h]
  simp [withDraft, List.filter_append, hchild]

theorem map_withoutDraft_map_withoutDraft :
    (extensions.map withoutDraft).map withoutDraft = extensions.map withoutDraft := by
  rw [List.map_map]
  exact List.map_congr_left (fun _ _ ↦ withoutDraft_withoutDraft)

theorem map_withoutDraft_updateControl :
    (updateControl withDraft extensions).map withoutDraft = extensions.map withoutDraft := by
  induction extensions with
  | nil => rfl
  | cons extension rest ih =>
    rw [updateControl]
    split_ifs with h
    · rw [List.map_cons, List.map_cons, withoutDraft_withDraft h]
    · rw [List.map_cons, List.map_cons, ih]

theorem updateControl_append_of_not_any {f : Extension → Extension} {rest : List Extension}
    (h : extensions.any isControl = false) :
    updateControl f (extensions ++ rest) = extensions ++ updateControl f rest := by
  induction extensions with
  | nil => rfl
  | cons extension extensions ih =>
    rw [List.any_cons, Bool.or_eq_false_iff] at h
    rw [List.cons_append, updateControl, if_neg (by rw [h.1]; nofun), ih h.2, List.cons_append]

theorem any_isControl_map_withoutDraft :
    (extensions.map withoutDraft).any isControl = extensions.any isControl := by
  rw [List.any_map]
  exact congrArg (fun p ↦ extensions.any p) (funext fun _ ↦ isControl_withoutDraft)

theorem any_isControl_updateControl (h : extensions.any isControl = true) :
    (updateControl withDraft extensions).any isControl = true := by
  induction extensions with
  | nil => cases h
  | cons extension rest ih =>
    rw [updateControl]
    split_ifs with hcontrol
    · rw [List.any_cons, isControl_withDraft, hcontrol, Bool.true_or]
    · rw [List.any_cons, eq_false_of_ne_true hcontrol, Bool.false_or] at h
      rw [List.any_cons, ih h, Bool.or_true]

/-- The control that an entry without one gets. -/
def newControl : Extension := marker appNs "control" "app" []

theorem isControl_newControl : isControl newControl = true := by decide

theorem setDraft_of_control (h : entry.extensions.any isControl = true) :
    (setDraft entry true).extensions = updateControl withDraft (entry.extensions.map withoutDraft) := by
  unfold setDraft
  simp only [any_isControl_map_withoutDraft, h, if_true]

theorem setDraft_of_no_control (h : entry.extensions.any isControl = false) :
    (setDraft entry true).extensions = entry.extensions.map withoutDraft ++ [withDraft newControl] := by
  have hnone : (entry.extensions.map withoutDraft).filter (hasName · appNs "control") = [] := by
    refine List.filter_eq_nil_iff.mpr fun extension hmem hcontrol ↦ ?_
    have hany : (entry.extensions.map withoutDraft).any isControl = true :=
      List.any_eq_true.mpr ⟨extension, hmem, hcontrol⟩
    rw [any_isControl_map_withoutDraft, h] at hany
    cases hany
  unfold setDraft preferredPrefix
  simp only [any_isControl_map_withoutDraft, h, if_true, hnone]
  rfl

theorem setDraft_false : (setDraft entry false).extensions = foreign entry.extensions := rfl

theorem setDraft_atom {draft : Bool} : (setDraft entry draft).atom = entry.atom := by
  unfold setDraft
  dsimp only
  split_ifs <;> rfl

theorem map_withoutDraft_foreign : (foreign extensions).map withoutDraft = foreign extensions := by
  refine (List.map_congr_left fun extension hmem ↦ ?_).trans (List.map_id _)
  obtain ⟨original, -, rfl⟩ := List.mem_map.mp (List.mem_filter.mp hmem).1
  exact withoutDraft_withoutDraft

/-- Only `draft` children and controls that are left empty are touched. -/
theorem foreign_setDraft {draft : Bool} :
    foreign (setDraft entry draft).extensions = foreign entry.extensions := by
  cases draft with
  | false =>
    rw [setDraft_false, foreign, map_withoutDraft_foreign]
    unfold foreign
    rw [List.filter_filter]
    simp only [Bool.and_self]
  | true =>
    cases h : entry.extensions.any isControl with
    | true =>
      rw [setDraft_of_control h, foreign, map_withoutDraft_updateControl, map_withoutDraft_map_withoutDraft]
      rfl
    | false =>
      have hempty : isEmptyControl (withoutDraft (withDraft newControl)) = true := by
        rw [withoutDraft_withDraft isControl_newControl]
        decide
      rw [setDraft_of_no_control h, foreign, List.map_append, map_withoutDraft_map_withoutDraft,
        List.filter_append]
      simp [hempty, foreign]

/-- Marking a draft moves and removes nothing: extension stays where it is. -/
theorem map_withoutDraft_setDraft :
    entry.extensions.map withoutDraft <+: (setDraft entry true).extensions.map withoutDraft := by
  cases h : entry.extensions.any isControl with
  | true =>
    rw [setDraft_of_control h, map_withoutDraft_updateControl, map_withoutDraft_map_withoutDraft]
  | false =>
    rw [setDraft_of_no_control h, List.map_append, map_withoutDraft_map_withoutDraft]
    exact List.prefix_append _ _

theorem setDraft_setDraft {draft : Bool} :
    (setDraft (setDraft entry draft) draft).extensions = (setDraft entry draft).extensions := by
  cases draft with
  | false => rw [setDraft_false, foreign_setDraft, setDraft_false]
  | true =>
    cases h : entry.extensions.any isControl with
    | true =>
      have hany : (setDraft entry true).extensions.any isControl = true := by
        rw [setDraft_of_control h]
        exact any_isControl_updateControl (any_isControl_map_withoutDraft.trans h)
      rw [setDraft_of_control hany, setDraft_of_control h, map_withoutDraft_updateControl,
        map_withoutDraft_map_withoutDraft]
    | false =>
      have hany : (setDraft entry true).extensions.any isControl = true := by
        rw [setDraft_of_no_control h, List.any_append]
        simp [isControl_newControl]
      have hnone : (entry.extensions.map withoutDraft).any isControl = false :=
        any_isControl_map_withoutDraft.trans h
      have hnew : withoutDraft newControl = newControl := by
        rw [withoutDraft, if_pos isControl_newControl]
        rfl
      rw [setDraft_of_control hany, setDraft_of_no_control h, List.map_append,
        map_withoutDraft_map_withoutDraft, updateControl_append_of_not_any hnone, List.map_singleton,
        withoutDraft_withDraft isControl_newControl, hnew, updateControl, if_pos isControl_newControl]

theorem draftValues_withoutDraft (h : isControl extension = true) :
    draftValues (withoutDraft extension) = [] := by
  rw [withoutDraft, if_pos h]
  refine List.filterMap_eq_nil_iff.mpr fun content hmem ↦ ?_
  have hkept := (List.mem_filter.mp hmem).2
  cases content with
  | text text => rfl
  | element child =>
    have hnot : hasName child appNs "draft" = false := by simpa [isDraftChild] using hkept
    dsimp only
    rw [hnot]
    rfl

theorem flatMap_draftValues_map_withoutDraft :
    ((extensions.map withoutDraft).filter isControl).flatMap draftValues = [] := by
  refine List.flatMap_eq_nil_iff.mpr fun extension hmem ↦ ?_
  obtain ⟨hmem, hcontrol⟩ := List.mem_filter.mp hmem
  obtain ⟨original, -, rfl⟩ := List.mem_map.mp hmem
  exact draftValues_withoutDraft (isControl_withoutDraft.symm.trans hcontrol)

/-- Of the controls of an entry the first one gets the marker. -/
theorem flatMap_draftValues_updateControl (h : extensions.any isControl = true) :
    ((updateControl withDraft (extensions.map withoutDraft)).filter isControl).flatMap draftValues =
      [true] := by
  induction extensions with
  | nil => cases h
  | cons extension rest ih =>
    rw [List.map_cons, updateControl]
    split_ifs with hcontrol
    · have hcontrol' : isControl (withDraft (withoutDraft extension)) = true := hcontrol
      have hmarked : draftValues (withDraft (withoutDraft extension)) =
          draftValues (withoutDraft extension) ++ [true] := by
        unfold draftValues withDraft
        rw [List.filterMap_append]
        rfl
      rw [isControl_withoutDraft] at hcontrol
      rw [List.filter_cons_of_pos hcontrol', List.flatMap_cons,
        flatMap_draftValues_map_withoutDraft, List.append_nil, hmarked,
        draftValues_withoutDraft hcontrol, List.nil_append]
    · rw [isControl_withoutDraft] at hcontrol
      rw [List.any_cons, eq_false_of_ne_true hcontrol, Bool.false_or] at h
      rw [List.filter_cons_of_neg (by rwa [isControl_withoutDraft]), ih h]

theorem draftMarker_setDraft {draft : Bool} :
    draftMarker (setDraft entry draft) = if draft then some true else none := by
  have hvalues : ((setDraft entry draft).extensions.filter isControl).flatMap draftValues =
      if draft then [true] else [] := by
    cases draft with
    | false =>
      rw [setDraft_false, ← map_withoutDraft_foreign, flatMap_draftValues_map_withoutDraft]
      rfl
    | true =>
      cases h : entry.extensions.any isControl with
      | true =>
        rw [setDraft_of_control h, flatMap_draftValues_updateControl h]
        rfl
      | false =>
        rw [setDraft_of_no_control h, List.filter_append, List.flatMap_append,
          flatMap_draftValues_map_withoutDraft, List.nil_append]
        rfl
  unfold draftMarker
  rw [hvalues]
  cases draft <;> rfl

end Draft

section Audiences

inductive InvalidAtomAudience
  | invalid
deriving DecidableEq

/-- `str::parse` of an `i64` without a sign. -/
def parseDigits (digits : List Char) : Option ℤ :=
  let value := Nat.ofDigitChars 10 digits 0
  if value < 2 ^ 63 then some value else none

def isCanonicalNumber : List Char → Bool
  | [] => false
  | c :: cs => ('1' ≤ c ∧ c ≤ '9') ∧ cs.all Char.isDigit

def parseAudience (value : String) : Except InvalidAtomAudience AudienceTarget :=
  if value = "public" then .ok .public_
  else if value = "subscribers" then .ok .subscribers
  else if value = "private" then .ok .private_
  else do
    let digits ← orError ((stripPrefix "named:".toList value.toList).filter isCanonicalNumber) .invalid
    let id ← orError ((parseDigits digits).filter (0 < ·)) .invalid
    return .named id

def audienceValue : AudienceTarget → String
  | .public_ => "public"
  | .subscribers => "subscribers"
  | .private_ => "private"
  | .named id => "named:" ++ toString id

def audienceKey : AudienceTarget → ℕ × ℤ
  | .public_ => (0, 0)
  | .subscribers => (1, 0)
  | .named id => (2, id)
  | .private_ => (3, 0)

def AudienceLe (a b : AudienceTarget) : Prop :=
  (audienceKey a).1 < (audienceKey b).1 ∨
    (audienceKey a).1 = (audienceKey b).1 ∧ (audienceKey a).2 ≤ (audienceKey b).2

instance : DecidableRel AudienceLe := fun a b ↦
  inferInstanceAs (Decidable ((audienceKey a).1 < (audienceKey b).1 ∨
    (audienceKey a).1 = (audienceKey b).1 ∧ (audienceKey a).2 ≤ (audienceKey b).2))

def projectedAudiences (audiences : List AudienceTarget) : List AudienceTarget :=
  (if audiences = [] then [.private_] else audiences).insertionSort AudienceLe

def canonicalAudiences (audiences : List AudienceTarget) :
    Except InvalidAtomAudience (List AudienceTarget) := do
  let canonical := projectedAudiences audiences
  require canonical.Nodup .invalid
  require (.private_ ∈ canonical → canonical.length = 1) .invalid
  return canonical

def isAudience (extension : Extension) : Bool := hasName extension jNs "audience"

def markedAudience (extension : Extension) : Except InvalidAtomAudience AudienceTarget :=
  match extension.content with
  | [.text value] => parseAudience value
  | _ => .error .invalid

def jAudiences (entry : Entry α) : Except InvalidAtomAudience (Option (List AudienceTarget)) := do
  let values ← (entry.extensions.filter isAudience).mapM markedAudience
  if values = [] then .ok none else (canonicalAudiences values).map some

/-- The result, and the entry afterwards. -/
def setJAudiences (entry : Entry α) (audiences : List AudienceTarget) :
    Except InvalidAtomAudience Unit × Entry α :=
  match canonicalAudiences audiences with
  | .error error => (.error error, entry)
  | .ok audiences =>
    let preferredPrefix := preferredPrefix entry jNs "audience" "j"
    let kept := entry.extensions.filter (fun extension ↦ ¬isAudience extension)
    let markers := audiences.map (fun audience ↦
      marker jNs "audience" preferredPrefix [.text (audienceValue audience)])
    (.ok (), { entry with extensions := kept ++ markers })

variable {entry : Entry α} {extension : Extension} {audience : AudienceTarget}
  {audiences canonical : List AudienceTarget}

theorem parseDigits_toDigits {n : ℕ} (h : n < 2 ^ 63) : parseDigits (Nat.toDigits 10 n) = some (n : ℤ) := by
  unfold parseDigits
  rw [Nat.ofDigitChars_ten_toDigits]
  exact if_pos h

/-- A positive number is written without a leading zero. -/
theorem isCanonicalNumber_toDigits {n : ℕ} (h : 0 < n) : isCanonicalNumber (Nat.toDigits 10 n) = true := by
  induction n using Nat.strong_induction_on with
  | h n ih =>
    rcases Nat.lt_or_ge n 10 with hsmall | hlarge
    · rw [Nat.toDigits_of_lt_base hsmall]
      interval_cases n <;> rfl
    · have hq : 0 < n / 10 := by omega
      have hhead := ih (n / 10) (by omega) hq
      rw [Nat.toDigits_of_base_le (by decide) hlarge]
      cases hdigits : Nat.toDigits 10 (n / 10) with
      | nil => exact absurd hdigits Nat.toDigits_ne_nil
      | cons c cs =>
        rw [hdigits] at hhead
        have hlast : (Nat.digitChar (n % 10)).isDigit = true := by
          have hlt : n % 10 < 10 := Nat.mod_lt _ (by decide)
          interval_cases n % 10 <;> rfl
        obtain ⟨hfirst, hrest⟩ : ('1' ≤ c ∧ c ≤ '9') ∧ cs.all Char.isDigit = true := by
          simpa [isCanonicalNumber] using hhead
        rw [List.cons_append]
        simp [isCanonicalNumber, hfirst, List.all_append, hlast]
        simpa using hrest

/-- The ids that a marker can carry. -/
def Readable : AudienceTarget → Prop
  | .named id => 0 < id ∧ id < 2 ^ 63
  | _ => True

theorem parseAudience_audienceValue (h : Readable audience) :
    parseAudience (audienceValue audience) = .ok audience := by
  cases audience with
  | public_ => rfl
  | subscribers => rfl
  | private_ => rfl
  | named id =>
    obtain ⟨hpos, hlt⟩ : 0 < id ∧ id < 2 ^ 63 := h
    obtain ⟨n, rfl⟩ := Int.eq_ofNat_of_zero_le hpos.le
    have hlist : (audienceValue (.named n)).toList = "named:".toList ++ Nat.toDigits 10 n := by
      rw [audienceValue, String.toList_append]
      exact congrArg _ Nat.toList_repr
    have hfirst : (audienceValue (.named n)).toList.head? = some 'n' := by
      rw [hlist]
      rfl
    have hne (value : String) (hvalue : value.toList.head? ≠ some 'n') : audienceValue (.named n) ≠ value := by
      rintro rfl
      exact hvalue hfirst
    have hstrip : stripPrefix "named:".toList (audienceValue (.named n)).toList =
        some (Nat.toDigits 10 n) := stripPrefix_eq_some.mpr hlist
    have hnumber : isCanonicalNumber (Nat.toDigits 10 n) = true :=
      isCanonicalNumber_toDigits (by omega)
    rw [parseAudience, if_neg (hne "public" (by decide)), if_neg (hne "subscribers" (by decide)),
      if_neg (hne "private" (by decide)), hstrip, Option.filter_some, if_pos hnumber, orError_some, ok_bind,
      parseDigits_toDigits (by omega), Option.filter_some, if_pos (decide_eq_true hpos), orError_some,
      ok_bind]
    rfl

instance : Std.Total AudienceLe where
  total a b := by
    unfold AudienceLe
    omega

instance : IsTrans AudienceTarget AudienceLe where
  trans a b c hab hbc := by
    unfold AudienceLe at *
    omega

/-- What is written for a list of audiences. -/
def written (audiences : List AudienceTarget) : List AudienceTarget :=
  if audiences = [] then [.private_] else audiences

theorem projectedAudiences_perm : (projectedAudiences audiences).Perm (written audiences) :=
  List.perm_insertionSort AudienceLe _

theorem written_ne_nil : written audiences ≠ [] := by
  unfold written
  split_ifs with h
  · exact List.cons_ne_nil _ _
  · exact h

/-- A list without repetitions, in which `private` stands alone. -/
def Canonical (audiences : List AudienceTarget) : Prop :=
  audiences.Nodup ∧ (.private_ ∈ audiences → audiences.length = 1)

theorem canonicalAudiences_eq_ok :
    canonicalAudiences audiences = .ok canonical ↔
      Canonical (written audiences) ∧ canonical = projectedAudiences audiences := by
  have hperm : (projectedAudiences audiences).Perm (written audiences) := projectedAudiences_perm
  have hnodup := hperm.nodup_iff
  have hlength := hperm.length_eq
  have hmem := hperm.mem_iff (a := .private_)
  constructor
  · intro h
    obtain ⟨_, hdistinct, h⟩ := bind_eq_ok.mp h
    obtain ⟨_, halone, h⟩ := bind_eq_ok.mp h
    have halone := require_eq_ok.mp halone
    refine ⟨⟨hnodup.mp (require_eq_ok.mp hdistinct), fun hprivate ↦ ?_⟩, (pure_eq_ok.mp h).symm⟩
    rw [← hlength]
    exact halone (hmem.mpr hprivate)
  · rintro ⟨⟨hdistinct, halone⟩, rfl⟩
    have halone' : .private_ ∈ projectedAudiences audiences → (projectedAudiences audiences).length = 1 := by
      intro hprivate
      rw [hlength]
      exact halone (hmem.mp hprivate)
    unfold canonicalAudiences
    dsimp only
    rw [require_pos (hnodup.mpr hdistinct), ok_bind, require_pos halone', ok_bind]
    rfl

/-- A canonical list is its own projection. -/
theorem canonicalAudiences_canonical (h : canonicalAudiences audiences = .ok canonical) :
    canonical ≠ [] ∧ canonical.Perm (written audiences) ∧ canonicalAudiences canonical = .ok canonical := by
  obtain ⟨⟨hdistinct, halone⟩, rfl⟩ := canonicalAudiences_eq_ok.mp h
  have hperm : (projectedAudiences audiences).Perm (written audiences) := projectedAudiences_perm
  have hne : projectedAudiences audiences ≠ [] := by
    intro hnil
    rw [hnil] at hperm
    exact written_ne_nil (List.Perm.eq_nil hperm.symm)
  have hsame : written (projectedAudiences audiences) = projectedAudiences audiences := if_neg hne
  have hsorted : projectedAudiences (projectedAudiences audiences) = projectedAudiences audiences := by
    have hpairwise : (projectedAudiences audiences).Pairwise AudienceLe :=
      List.pairwise_insertionSort AudienceLe _
    change (written (projectedAudiences audiences)).insertionSort AudienceLe = _
    rw [hsame]
    exact hpairwise.insertionSort_eq
  refine ⟨hne, hperm, canonicalAudiences_eq_ok.mpr ⟨?_, hsorted.symm⟩⟩
  rw [hsame]
  refine ⟨hperm.nodup_iff.mpr hdistinct, fun hprivate ↦ ?_⟩
  rw [hperm.length_eq]
  exact halone (hperm.mem_iff.mp hprivate)

def audienceMarkers (preferredPrefix : String) (audiences : List AudienceTarget) : List Extension :=
  audiences.map (fun audience ↦ marker jNs "audience" preferredPrefix [.text (audienceValue audience)])

theorem isAudience_of_mem_audienceMarkers {text : String} :
    ∀ extension ∈ audienceMarkers text canonical, isAudience extension = true := by
  intro extension hmem
  obtain ⟨audience, -, rfl⟩ := List.mem_map.mp hmem
  simp [isAudience, hasName, marker]

theorem isControl_of_isAudience (h : isAudience extension = true) : isControl extension = false := by
  obtain ⟨hnamespace, -⟩ := of_decide_eq_true h
  refine decide_eq_false fun hcontrol ↦ ?_
  rw [hnamespace] at hcontrol
  exact absurd (Option.some.inj hcontrol.1) (by decide)

theorem filter_isAudience_append {kept : List Extension} {text : String} :
    (kept.filter (fun extension ↦ ¬isAudience extension) ++ audienceMarkers text canonical).filter
      isAudience = audienceMarkers text canonical := by
  have hkept : (kept.filter (fun extension ↦ ¬isAudience extension)).filter isAudience = [] := by
    refine List.filter_eq_nil_iff.mpr fun extension hmem haudience ↦ ?_
    exact of_decide_eq_true (List.mem_filter.mp hmem).2 haudience
  rw [List.filter_append, hkept, List.nil_append,
    List.filter_eq_self.mpr isAudience_of_mem_audienceMarkers]

theorem filter_not_isAudience_append {kept : List Extension} {text : String} :
    (kept.filter (fun extension ↦ ¬isAudience extension) ++ audienceMarkers text canonical).filter
      (fun extension ↦ ¬isAudience extension) = kept.filter (fun extension ↦ ¬isAudience extension) := by
  have hmarkers : (audienceMarkers text canonical).filter (fun extension ↦ ¬isAudience extension) = [] := by
    refine List.filter_eq_nil_iff.mpr fun extension hmem hnot ↦ ?_
    exact of_decide_eq_true hnot (isAudience_of_mem_audienceMarkers extension hmem)
  rw [List.filter_append, hmarkers, List.append_nil, List.filter_filter]
  simp only [Bool.and_self]

theorem setJAudiences_error {error : InvalidAtomAudience} (h : canonicalAudiences audiences = .error error) :
    setJAudiences entry audiences = (.error error, entry) := by
  rw [setJAudiences, h]

theorem setJAudiences_ok (h : canonicalAudiences audiences = .ok canonical) :
    setJAudiences entry audiences = (.ok (), { entry with
      extensions := entry.extensions.filter (fun extension ↦ ¬isAudience extension) ++
        audienceMarkers (preferredPrefix entry jNs "audience" "j") canonical }) := by
  rw [setJAudiences, h]
  rfl

/-- The audiences of an entry are those of its last writing. -/
theorem jAudiences_setJAudiences (h : canonicalAudiences audiences = .ok canonical)
    (hreadable : ∀ audience ∈ audiences, Readable audience) :
    jAudiences (setJAudiences entry audiences).2 = .ok (some canonical) := by
  obtain ⟨hne, hperm, hcanonical⟩ := canonicalAudiences_canonical h
  have hall : ∀ audience ∈ canonical, Readable audience := by
    intro audience hmem
    have hwritten := hperm.mem_iff.mp hmem
    unfold written at hwritten
    split_ifs at hwritten
    · rw [List.mem_singleton.mp hwritten]
      exact trivial
    · exact hreadable audience hwritten
  have hvalues (text : String) : (audienceMarkers text canonical).mapM markedAudience = .ok canonical := by
    clear h hne hperm hcanonical
    induction canonical with
    | nil => rfl
    | cons audience rest ih =>
      have hhead : markedAudience (marker jNs "audience" text [.text (audienceValue audience)]) =
          .ok audience := parseAudience_audienceValue (hall audience List.mem_cons_self)
      rw [audienceMarkers, List.map_cons, List.mapM_cons, hhead, ok_bind]
      change (audienceMarkers text rest).mapM markedAudience >>= _ = _
      rw [ih fun audience hmem ↦ hall audience (List.mem_cons_of_mem _ hmem), ok_bind]
      rfl
  rw [setJAudiences_ok h, jAudiences, filter_isAudience_append, hvalues, ok_bind, if_neg hne, hcanonical]
  rfl

theorem setJAudiences_setJAudiences (h : canonicalAudiences audiences = .ok canonical) :
    setJAudiences (setJAudiences entry audiences).2 audiences =
      (.ok (), (setJAudiences entry audiences).2) := by
  obtain ⟨hne, -, -⟩ := canonicalAudiences_canonical h
  have hfound (kept : List Extension) (text : String) :
      ((kept.filter (fun extension ↦ ¬isAudience extension) ++ audienceMarkers text canonical).filter
        isAudience).findSome? (fun extension ↦ extension.name.preferredPrefix) = some text := by
    obtain ⟨audience, rest, rfl⟩ := List.exists_cons_of_ne_nil hne
    rw [filter_isAudience_append]
    rfl
  have hspelling : preferredPrefix (setJAudiences entry audiences).2 jNs "audience" "j" =
      preferredPrefix entry jNs "audience" "j" := by
    rw [setJAudiences_ok h]
    generalize preferredPrefix entry jNs "audience" "j" = text
    exact congrArg (Option.getD · "j") (hfound entry.extensions text)
  rw [setJAudiences_ok h, hspelling, setJAudiences_ok h]
  dsimp only
  rw [filter_not_isAudience_append]

/-- Setting audiences replaces the audience markers and nothing else. -/
theorem not_isAudience_setJAudiences :
    ((setJAudiences entry audiences).2.extensions.filter (fun extension ↦ ¬isAudience extension)) =
      entry.extensions.filter (fun extension ↦ ¬isAudience extension) := by
  cases h : canonicalAudiences audiences with
  | error error => rw [setJAudiences_error h]
  | ok canonical =>
    rw [setJAudiences_ok h]
    exact filter_not_isAudience_append

theorem setJAudiences_atom : (setJAudiences entry audiences).2.atom = entry.atom := by
  cases h : canonicalAudiences audiences with
  | error error => rw [setJAudiences_error h]
  | ok canonical => rw [setJAudiences_ok h]

end Audiences

section Markers

variable {entry : Entry α} {extensions extensions' : List Extension} {draft : Bool}
  {audiences canonical : List AudienceTarget}

theorem isAudience_withoutDraft {extension : Extension} :
    isAudience (withoutDraft extension) = isAudience extension := by
  unfold withoutDraft
  split_ifs <;> rfl

/-- The audience markers are among the foreign extensions of the draft control. -/
theorem filter_isAudience_foreign :
    (foreign extensions).filter isAudience = extensions.filter isAudience := by
  induction extensions with
  | nil => rfl
  | cons extension rest ih =>
    have hcons : foreign (extension :: rest) =
        ([withoutDraft extension].filter (fun extension ↦ ¬isEmptyControl extension)) ++ foreign rest := by
      unfold foreign
      rw [List.map_cons, ← List.filter_append]
      rfl
    rw [hcons, List.filter_append, ih]
    cases h : isAudience extension with
    | true =>
      have hcontrol := isControl_of_isAudience h
      have hempty : isEmptyControl extension = false := by simp [isEmptyControl, hcontrol]
      rw [withoutDraft_of_not_control hcontrol, List.filter_cons_of_pos h]
      simp [hempty, h]
    | false =>
      have hrest : (extension :: rest).filter isAudience = rest.filter isAudience :=
        List.filter_cons_of_neg (by rw [h]; nofun)
      rw [hrest, List.filter_filter]
      simp [isAudience_withoutDraft, h]

theorem jAudiences_setDraft : jAudiences (setDraft entry draft) = jAudiences entry := by
  have hsame : (setDraft entry draft).extensions.filter isAudience = entry.extensions.filter isAudience := by
    rw [← filter_isAudience_foreign, foreign_setDraft, filter_isAudience_foreign]
  unfold jAudiences
  rw [hsame]

theorem draftMarker_setJAudiences : draftMarker (setJAudiences entry audiences).2 = draftMarker entry := by
  have hcontrols (extensions : List Extension) : extensions.filter isControl =
      (extensions.filter (fun extension ↦ ¬isAudience extension)).filter isControl := by
    rw [List.filter_filter]
    refine List.filter_congr fun extension _ ↦ ?_
    cases h : isAudience extension with
    | true => simp [isControl_of_isAudience h]
    | false => simp
  unfold draftMarker
  rw [hcontrols, not_isAudience_setJAudiences, ← hcontrols]

/-- The two setters change the markers that they own: what they set is read back, a second setting
changes nothing, and all other extensions keep their content and their order. -/
theorem foreign_markup_preserved (entry : Entry α) (draft : Bool) (audiences : List AudienceTarget) :
    let drafted := setDraft entry draft
    let result := (setJAudiences entry audiences).1
    let addressed := (setJAudiences entry audiences).2
    (drafted.atom = entry.atom ∧ foreign drafted.extensions = foreign entry.extensions ∧
      (draft = true → entry.extensions.map withoutDraft <+: drafted.extensions.map withoutDraft) ∧
      draftMarker drafted = (if draft then some true else none) ∧
      jAudiences drafted = jAudiences entry ∧ setDraft drafted draft = drafted) ∧
    (addressed.atom = entry.atom ∧
      addressed.extensions.filter (fun extension ↦ ¬isAudience extension) =
        entry.extensions.filter (fun extension ↦ ¬isAudience extension) ∧
      draftMarker addressed = draftMarker entry) ∧
    (result = .ok () ↔ Canonical (written audiences)) ∧
    (result = .ok () → setJAudiences addressed audiences = (.ok (), addressed) ∧
      ((∀ audience ∈ audiences, Readable audience) →
        ∃ read, jAudiences addressed = .ok (some read) ∧ read.Perm (written audiences))) ∧
    (result ≠ .ok () → addressed = entry) := by
  intro drafted result addressed
  have hagain : setDraft (setDraft entry draft) draft = setDraft entry draft :=
    Entry.ext setDraft_atom setDraft_setDraft
  refine ⟨⟨setDraft_atom, foreign_setDraft, ?_, draftMarker_setDraft, jAudiences_setDraft, hagain⟩,
    ⟨setJAudiences_atom, not_isAudience_setJAudiences, draftMarker_setJAudiences⟩, ?_⟩
  · rintro rfl
    exact map_withoutDraft_setDraft
  obtain ⟨error, h⟩ | ⟨canonical, h⟩ : (∃ error, canonicalAudiences audiences = .error error) ∨
      ∃ canonical, canonicalAudiences audiences = .ok canonical := by
    cases canonicalAudiences audiences with
    | error error => exact .inl ⟨error, rfl⟩
    | ok canonical => exact .inr ⟨canonical, rfl⟩
  · have hnot : ¬Canonical (written audiences) := by
      intro hcanonical
      rw [canonicalAudiences_eq_ok.mpr ⟨hcanonical, rfl⟩] at h
      cases h
    have hresult : result ≠ .ok () := by
      change (setJAudiences entry audiences).1 ≠ .ok ()
      rw [setJAudiences_error h]
      nofun
    refine ⟨⟨fun hok ↦ absurd hok hresult, fun hcanonical ↦ absurd hcanonical hnot⟩,
      fun hok ↦ absurd hok hresult, fun _ ↦ ?_⟩
    change (setJAudiences entry audiences).2 = entry
    rw [setJAudiences_error h]
  · have hresult : (setJAudiences entry audiences).1 = .ok () := by rw [setJAudiences_ok h]
    refine ⟨⟨fun _ ↦ (canonicalAudiences_eq_ok.mp h).1, fun _ ↦ hresult⟩,
      fun _ ↦ ⟨setJAudiences_setJAudiences h, fun hreadable ↦ ⟨canonical, ?_, ?_⟩⟩,
      fun hrefused ↦ absurd hresult hrefused⟩
    · exact jAudiences_setJAudiences h hreadable
    · exact (canonicalAudiences_canonical h).2.1

def bareEntry : Entry Unit := ⟨(), []⟩

/-- An empty list is read back as `private`, and an id that no row has not at all. -/
theorem bareEntry_audiences :
    jAudiences (setJAudiences bareEntry []).2 = .ok (some [.private_]) ∧
    (setJAudiences bareEntry [.named 0]).1 = .ok () ∧
    jAudiences (setJAudiences bareEntry [.named 0]).2 = .error .invalid := by
  decide +kernel

end Markers

end Jaunder.Host.ForeignMarkers
