import Jaunder.Web.TagInput

namespace Jaunder.Web.Composer

open Foundation.Run
open Jaunder.Common.Org (firstLabels maxTagsPerPost parseAndValidateTags)
open Jaunder.Common.Tag (TagLabel)
open Jaunder.Web.TagInput hiding Event step

/-- The tag field of a composer and whether its tags are sent. -/
structure ComposeState where
  field : Mounted
  tagsSupplied : Bool

inductive Event
  | field (event : TagInput.Event)
  | seedFrom (tags : List TagSummary)
  | reset

def ComposeState.new : ComposeState := ⟨.new [], false⟩

/-- The tags of the request. -/
def ComposeState.inputs (c : ComposeState) : Option (List TagLabel) :=
  if c.tagsSupplied then some (c.field.state.tags.map TagSummary.display) else none

variable (lower : List Char → List Char)

/-- The change callback of the tag field is `tag_input_changed`. -/
def step (c : ComposeState) : Event → ComposeState
  | .field e =>
    let field := TagInput.step lower c.field e
    ⟨field, c.tagsSupplied || field.state.notified != c.field.state.notified⟩
  | .seedFrom tags => ⟨TagInput.step lower c.field (.load tags), false⟩
  | .reset => ⟨TagInput.step lower c.field (.load []), false⟩

/-- The slug of each tag is that of its label. -/
def Canonical (tags : List TagSummary) : Prop := ∀ t ∈ tags, t.slug = t.display.slug

theorem canonical_nil : Canonical [] := fun _ ht ↦ absurd ht List.not_mem_nil

/-- What the server sends has canonical tags, and only the form loads other ones. -/
def Served : TagInput.Event → Prop
  | .answer _ (some results) => Canonical results
  | .load _ => False
  | _ => True

def Allowed (c : ComposeState) : Event → Prop
  | .field e => Timely lower c.field e ∧ Served e
  | .seedFrom tags => (slugs tags).Nodup ∧ Canonical tags
  | .reset => True

def Event.loads : Event → Prop
  | .field _ => False
  | _ => True

/-- A step that leaves the chips of the field alone. -/
def Unchanged (c : ComposeState) (e : Event) : Prop :=
  (step lower c e).field.state.tags = c.field.state.tags

section Labels

variable {labels : List TagLabel}

theorem firstLabels_from (out : List TagLabel) (h : ((out ++ labels).map TagLabel.slug).Nodup) :
    labels.foldl (fun out label ↦
      if label.slug ∈ out.map TagLabel.slug then out else out ++ [label]) out = out ++ labels := by
  induction labels generalizing out with
  | nil => exact (List.append_nil out).symm
  | cons label labels ih =>
    have hnew : label.slug ∉ out.map TagLabel.slug := by
      intro hmem
      rw [List.map_append, List.nodup_append] at h
      exact h.2.2 label.slug hmem label.slug List.mem_cons_self rfl
    rw [List.append_cons] at h
    rw [List.foldl_cons, if_neg hnew, ih _ h, ← List.append_cons]

theorem firstLabels_of_nodup (h : (labels.map TagLabel.slug).Nodup) : firstLabels labels = labels :=
  firstLabels_from [] h

theorem parse_of_nodup (h : (labels.map TagLabel.slug).Nodup) : parseAndValidateTags labels =
    if labels.length > maxTagsPerPost then none else some labels := by
  rw [parseAndValidateTags, firstLabels_of_nodup h]

theorem display_slugs {tags : List TagSummary} (h : Canonical tags) :
    (tags.map TagSummary.display).map TagLabel.slug = slugs tags := by
  rw [List.map_map]
  exact List.map_congr_left (fun t ht ↦ (h t ht).symm)

end Labels

section Runs

variable {lower} {c : ComposeState} {m : Mounted}

structure Kept (lower : List Char → List Char) (m : Mounted) : Prop where
  field : TagInput.Kept lower m
  chips : Canonical m.state.tags
  rows : Canonical m.state.suggestions

theorem Kept.edits (h : Kept lower m) {s : InputState} (hs : Edits m.state s) :
    Kept lower { m with state := s } where
  field := h.field.edits hs
  chips := by
    intro t ht
    rcases hs.source t ht with ht | ht | ht
    · exact h.chips t ht
    · exact h.rows t ht
    · exact ht
  rows := fun t ht ↦ h.rows t (hs.rows ht)

theorem Kept.served (h : Kept lower m) {e : TagInput.Event} (htimely : Timely lower m e)
    (hserved : Served e) : Kept lower (TagInput.step lower m e) := by
  cases e with
  | input value =>
    refine ⟨h.field.input htimely, ?_, ?_⟩
    · by_cases hwanted : InputState.wanted lower value = []
      · simp only [TagInput.step, InputState.beginInput, if_pos hwanted]
        exact h.chips
      · simp only [TagInput.step, InputState.beginInput, if_neg hwanted]
        exact h.chips
    · by_cases hwanted : InputState.wanted lower value = []
      · simp only [TagInput.step, InputState.beginInput, if_pos hwanted]
        exact canonical_nil
      · simp only [TagInput.step, InputState.beginInput, if_neg hwanted]
        exact h.rows
  | key key => exact h.edits (edits_handleKey key)
  | choose row => exact h.edits (edits_choose row)
  | remove tag => exact h.edits edits_remove
  | load tags => exact hserved.elim
  | fire timer =>
    refine ⟨h.field.fire timer, ?_, ?_⟩
    · cases hq : m.timers[timer]? with
      | none =>
        simp only [TagInput.step, hq]
        exact h.chips
      | some q =>
        simp only [TagInput.step, hq]
        exact h.chips
    · cases hq : m.timers[timer]? with
      | none =>
        simp only [TagInput.step, hq]
        exact h.rows
      | some q =>
        simp only [TagInput.step, hq]
        exact h.rows
  | answer fetch results =>
    have hfield := h.field.answer fetch results
    cases hq : m.fetches[fetch]? with
    | none =>
      simp only [TagInput.step, hq]
      exact h
    | some q =>
      simp only [TagInput.step, hq] at hfield ⊢
      refine ⟨hfield, ?_, ?_⟩
      · rcases receive_cases m.state q.tick results with heq | ⟨shown, heq⟩
        · rw [heq]
          exact h.chips
        · rw [heq]
          exact h.chips
      · cases results with
        | none => exact h.rows
        | some results =>
          rw [InputState.receive]
          split_ifs with htick
          · exact hserved
          · exact h.rows

theorem Kept.load (h : Kept lower m) {tags : List TagSummary} (hnodup : (slugs tags).Nodup)
    (hcanonical : Canonical tags) : Kept lower (TagInput.step lower m (.load tags)) :=
  ⟨kept_step h.field hnodup, hcanonical, h.rows⟩

theorem kept_composer {e : Event} (h : Kept lower c.field) (hallowed : Allowed lower c e) :
    Kept lower (step lower c e).field := by
  cases e with
  | field e => exact h.served hallowed.1 hallowed.2
  | seedFrom tags => exact h.load hallowed.1 hallowed.2
  | reset => exact h.load List.nodup_nil canonical_nil

theorem kept_run {es : List Event} (h : Kept lower c.field)
    (hes : Along (step lower) (Allowed lower) c es) : Kept lower (run (step lower) c es).field :=
  run_preserves (P := fun c ↦ Kept lower c.field) (fun _ _ ↦ kept_composer) h hes

theorem supplied_step {e : TagInput.Event} (he : Served e) :
    (step lower c (.field e)).tagsSupplied = false ↔
      c.tagsSupplied = false ∧ Unchanged lower c (.field e) := by
  have hload : ∀ tags, e ≠ .load tags := by
    rintro tags rfl
    exact he
  have hnotifies : Notifies c.field.state (TagInput.step lower c.field e).state := step_notifies hload
  have hsame : (TagInput.step lower c.field e).state.notified = c.field.state.notified ↔
      (TagInput.step lower c.field e).state.tags = c.field.state.tags := by
    rcases hnotifies with ⟨htags, hnotified⟩ | ⟨htags, hnotified⟩
    · exact iff_of_true hnotified htags
    · refine iff_of_false ?_ htags
      rw [hnotified]
      exact Nat.succ_ne_self _
  show (c.tagsSupplied || (TagInput.step lower c.field e).state.notified !=
    c.field.state.notified) = false ↔ _
  rw [Bool.or_eq_false_iff, bne_eq_false_iff_eq, hsame]
  rfl

theorem supplied_run {es : List Event} (hfield : ∀ e ∈ es, ¬e.loads)
    (hes : Along (step lower) (Allowed lower) c es) :
    (run (step lower) c es).tagsSupplied = false ↔
      c.tagsSupplied = false ∧ Along (step lower) (Unchanged lower) c es := by
  induction es generalizing c with
  | nil => exact ⟨fun h ↦ ⟨h, trivial⟩, fun h ↦ h.1⟩
  | cons e es ih =>
    rw [List.forall_mem_cons] at hfield
    cases e with
    | field e =>
      rw [run_cons, ih hfield.2 hes.2, supplied_step hes.1.2, and_assoc]
      rfl
    | seedFrom tags => exact absurd trivial hfield.1
    | reset => exact absurd trivial hfield.1

theorem inputs_eq_none_iff : c.inputs = none ↔ c.tagsSupplied = false := by
  unfold ComposeState.inputs
  split_ifs with hsupplied
  · exact iff_of_false not_false (fun h ↦ Bool.false_ne_true (h.symm.trans hsupplied))
  · exact iff_of_true rfl (Bool.eq_false_of_not_eq_true hsupplied)

theorem supplied_of_loads {e : Event} (he : e.loads) : (step lower c e).tagsSupplied = false := by
  cases e with
  | field e => exact he.elim
  | seedFrom tags => rfl
  | reset => rfl

theorem Kept.parsed {labels : List TagLabel} (h : Kept lower c.field) (hlabels : c.inputs = some labels) :
    labels = c.field.state.tags.map TagSummary.display ∧ parseAndValidateTags labels =
      if labels.length > maxTagsPerPost then none else some labels := by
  unfold ComposeState.inputs at hlabels
  split_ifs at hlabels with hsupplied
  cases hlabels
  refine ⟨rfl, parse_of_nodup ?_⟩
  rw [display_slugs h.chips]
  exact h.field.distinct

end Runs

theorem tags_sent_as_shown (es : List Event) (hes : Along (step lower) (Allowed lower) .new es) :
    (∀ labels, (run (step lower) .new es).inputs = some labels →
      labels = (run (step lower) .new es).field.state.tags.map TagSummary.display ∧
        parseAndValidateTags labels =
          if labels.length > maxTagsPerPost then none else some labels) ∧
    ∀ e es', e.loads → (∀ e ∈ es', ¬e.loads) →
      Along (step lower) (Allowed lower) (run (step lower) .new es) (e :: es') →
      ((run (step lower) .new (es ++ e :: es')).inputs = none ↔
        Along (step lower) (Unchanged lower) (run (step lower) .new (es ++ [e])) es') := by
  have hnew : Kept lower ComposeState.new.field := ⟨kept_new List.nodup_nil, canonical_nil, canonical_nil⟩
  refine ⟨fun labels hlabels ↦ (kept_run hnew hes).parsed hlabels, ?_⟩
  intro e es' hload hfield hallowed
  rw [run_concat, run_append, run_cons, inputs_eq_none_iff, supplied_run hfield hallowed.2]
  exact and_iff_right (supplied_of_loads hload)

theorem canonical_rust : Canonical [rust] := by
  intro t ht
  rw [List.mem_singleton.mp ht]
  rfl

/-- Text that is not committed leaves the tags of a loaded post to its header. -/
theorem loaded_tags_absent :
    (run (step id) .new [.seedFrom [rust], .field (.input ['r', 'u'])]).inputs = none :=
  ((tags_sent_as_shown id [] trivial).2 (.seedFrom [rust]) [.field (.input ['r', 'u'])] trivial
    (fun e he ↦ by
      rw [List.mem_singleton.mp he]
      exact fun h ↦ h)
    ⟨⟨List.nodup_singleton _, canonical_rust⟩, ⟨fun _ _ hq ↦ absurd hq List.not_mem_nil, trivial⟩, trivial⟩).mpr
    ⟨rfl, trivial⟩

end Jaunder.Web.Composer
