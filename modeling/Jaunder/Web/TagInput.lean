import Jaunder.Common.OrgNormalization
import Jaunder.Foundation.Run

namespace Jaunder.Web.TagInput

open Foundation.Run
open Jaunder.Common.Feed (Tag)
open Jaunder.Common.Org (tagLabelFromStr)
open Jaunder.Common.PostText (trim)
open Jaunder.Common.Tag (TagLabel isTag)

structure TagSummary where
  slug : Tag
  display : TagLabel

def TagSummary.ofLabel (display : TagLabel) : TagSummary := ⟨display.slug, display⟩

section Logic

def pushUnique (tags : List TagSummary) (tag : TagSummary) : List TagSummary :=
  if tags.any (fun current ↦ current.slug = tag.slug) then tags else tags ++ [tag]

def nextSuggestion (selected : Option ℕ) (len : ℕ) : Option ℕ :=
  if len = 0 then selected else some (selected.elim 0 (fun n ↦ min (n + 1) (len - 1)))

def prevSuggestion (selected : Option ℕ) : Option ℕ :=
  selected.bind (fun n ↦ if n = 0 then none else some (n - 1))

def invalidTagLabel : String :=
  "tag must be non-empty and match [a-z0-9][a-z0-9-]* (case preserved)"

def parseCommittedTag (raw : List Char) : Except String TagSummary :=
  match tagLabelFromStr raw with
  | some label => .ok (.ofLabel label)
  | none => .error invalidTagLabel

end Logic

/-- The signals of the field; `notified` counts the runs of the change callback. -/
structure InputState where
  tags : List TagSummary
  inputText : List Char
  error : Option String
  suggestions : List TagSummary
  suggestionsOpen : Bool
  selectedIdx : Option ℕ
  debounceTick : UInt64
  notified : ℕ

namespace InputState

def new (tags : List TagSummary) : InputState where
  tags
  inputText := []
  error := none
  suggestions := []
  suggestionsOpen := false
  selectedIdx := none
  debounceTick := 0
  notified := 0

/-- Each mutation of the field that changes the tags changes their number. -/
def mutateTags (s : InputState) (tags : List TagSummary) : InputState :=
  { s with tags, notified := if tags.length = s.tags.length then s.notified else s.notified + 1 }

def closeSuggestions (s : InputState) : InputState :=
  { s with suggestions := [], suggestionsOpen := false, selectedIdx := none }

def commit (s : InputState) (tag : TagSummary) : InputState :=
  { s.mutateTags (pushUnique s.tags tag) with inputText := [], error := none }.closeSuggestions

def remove (s : InputState) (tag : TagSummary) : InputState :=
  s.mutateTags (s.tags.filter (fun current ↦ current.slug ≠ tag.slug))

/-- A click on a row of the open dropdown. -/
def choose (s : InputState) (row : ℕ) : InputState :=
  if s.suggestionsOpen then
    match s.suggestions[row]? with
    | some tag => s.commit tag
    | none => s
  else s

/-- The text that suggestions are asked for. -/
def wanted (lower : List Char → List Char) (value : List Char) : List Char := lower (trim value)

def beginInput (lower : List Char → List Char) (s : InputState) (value : List Char) :
    Option (List Char × UInt64) × InputState :=
  let s := { s with inputText := value, error := none, selectedIdx := none }
  if wanted lower value = [] then (none, { s with suggestions := [], suggestionsOpen := false })
  else (some (wanted lower value, s.debounceTick + 1), { s with debounceTick := s.debounceTick + 1 })

/-- Whether the event is to be stopped, and the state after the key. -/
def handleKey (s : InputState) (key : String) : Bool × InputState :=
  if key = "Enter" ∨ key = "Tab" then
    match s.selectedIdx.bind (fun i ↦ s.suggestions[i]?) with
    | some tag => (true, s.commit tag)
    | none =>
      if trim s.inputText = [] then (false, s)
      else match parseCommittedTag s.inputText with
        | .ok tag => (true, s.commit tag)
        | .error e => (true, { s with error := some e })
  else if key = "Backspace" ∧ s.inputText = [] then (false, s.mutateTags s.tags.dropLast)
  else if key = "ArrowDown" then
    (true, { s with selectedIdx := nextSuggestion s.selectedIdx s.suggestions.length })
  else if key = "ArrowUp" then (true, { s with selectedIdx := prevSuggestion s.selectedIdx })
  else if key = "Escape" then (false, s.closeSuggestions)
  else (false, s)

/-- The end of `schedule_suggestion_fetch`: an answer of another tick is dropped. -/
def receive (s : InputState) (tick : UInt64) : Option (List TagSummary) → InputState
  | some results =>
    if s.debounceTick = tick then
      { s with suggestions := results, suggestionsOpen := !results.isEmpty }
    else s
  | none => s

end InputState

open InputState

/-- A scheduled fetch, with the number of texts that had been entered when it was scheduled. -/
structure Query where
  text : List Char
  tick : UInt64
  input : ℕ

structure Mounted where
  state : InputState
  timers : List Query
  fetches : List Query
  inputs : ℕ

def Mounted.new (tags : List TagSummary) : Mounted := ⟨.new tags, [], [], 0⟩

def Mounted.pending (m : Mounted) : List Query := m.timers ++ m.fetches

inductive Event
  | input (value : List Char)
  | key (key : String)
  | choose (row : ℕ)
  | remove (tag : TagSummary)
  | load (tags : List TagSummary)
  | fire (timer : ℕ)
  | answer (fetch : ℕ) (results : Option (List TagSummary))

variable (lower : List Char → List Char)

/-- Timers fire and fetches come back in any order; the form may load other tags. -/
def step (m : Mounted) : Event → Mounted
  | .input value =>
    match m.state.beginInput lower value with
    | (some (text, tick), state) => { m with
        state
        timers := m.timers ++ [⟨text, tick, m.inputs + 1⟩]
        inputs := m.inputs + 1 }
    | (none, state) => { m with state }
  | .key key => { m with state := (m.state.handleKey key).2 }
  | .choose row => { m with state := m.state.choose row }
  | .remove tag => { m with state := m.state.remove tag }
  | .load tags => { m with state := { m.state with tags } }
  | .fire timer =>
    match m.timers[timer]? with
    | none => m
    | some q => { m with
        timers := m.timers.eraseIdx timer
        fetches := if m.state.debounceTick ≠ q.tick then m.fetches else m.fetches ++ [q] }
  | .answer fetch results =>
    match m.fetches[fetch]? with
    | none => m
    | some q => { m with
        state := m.state.receive q.tick results
        fetches := m.fetches.eraseIdx fetch }

def slugs (tags : List TagSummary) : List Tag := tags.map TagSummary.slug

/-- The form loads each tag once, and no fetch stays scheduled until its tick is used again. -/
def Timely (m : Mounted) : Event → Prop
  | .input value => wanted lower value ≠ [] → ∀ q ∈ m.pending, q.tick ≠ m.state.debounceTick + 1
  | .load tags => (slugs tags).Nodup
  | _ => True

/-- The field holds nothing that suggestions could be asked for. -/
def Blank (text : List Char) : Prop := text = [] ∨ wanted lower text = []

/-- The form hears of a step when it changes the tags, and only then. -/
def Notifies (s s' : InputState) : Prop :=
  (s'.tags = s.tags ∧ s'.notified = s.notified) ∨ (s'.tags ≠ s.tags ∧ s'.notified = s.notified + 1)

structure Sound (m : Mounted) : Prop where
  distinct : (slugs m.state.tags).Nodup
  shown : m.state.suggestionsOpen = true → m.state.suggestions ≠ []
  single : (m.pending.filter (fun q ↦ q.tick = m.state.debounceTick)).length ≤ 1
  stale : ∀ fetch q results, m.fetches[fetch]? = some q → q.input ≠ m.inputs →
    (step lower m (.answer fetch results)).state = m.state
  fresh : ∀ fetch q results, m.fetches[fetch]? = some q → q.input = m.inputs →
    (step lower m (.answer fetch (some results))).state.suggestions = results ∧
      (q.text = wanted lower m.state.inputText ∨ Blank lower m.state.inputText)
  notifies : ∀ e, (∀ tags, e ≠ .load tags) → Notifies m.state (step lower m e).state

section Tags

variable {tags : List TagSummary} {tag : TagSummary} {s : InputState}

theorem pushUnique_cases (tags : List TagSummary) (tag : TagSummary) : pushUnique tags tag = tags ∨
    (tag.slug ∉ slugs tags ∧ pushUnique tags tag = tags ++ [tag]) := by
  unfold pushUnique
  split_ifs with h
  · exact .inl rfl
  · refine .inr ⟨fun hmem ↦ h ?_, rfl⟩
    obtain ⟨current, hcurrent, hslug⟩ := List.mem_map.mp hmem
    exact List.any_eq_true.mpr ⟨current, hcurrent, decide_eq_true hslug⟩

theorem nodup_pushUnique (h : (slugs tags).Nodup) : (slugs (pushUnique tags tag)).Nodup := by
  rcases pushUnique_cases tags tag with heq | ⟨hnew, heq⟩
  · rwa [heq]
  · rw [heq, slugs, List.map_append, List.nodup_append]
    refine ⟨h, List.nodup_singleton _, fun a ha b hb hab ↦ hnew ?_⟩
    rw [List.mem_singleton.mp hb] at hab
    exact hab ▸ ha

theorem nodup_sublist {tags' : List TagSummary} (h : (slugs tags).Nodup) (hsub : tags'.Sublist tags) :
    (slugs tags').Nodup := h.sublist (hsub.map TagSummary.slug)

theorem notifies_rfl : Notifies s s := .inl ⟨rfl, rfl⟩

theorem notifies_mutateTags (h : tags.length = s.tags.length → tags = s.tags) :
    Notifies s (s.mutateTags tags) := by
  by_cases hlength : tags.length = s.tags.length
  · exact .inl ⟨h hlength, if_pos hlength⟩
  · exact .inr ⟨fun heq ↦ hlength (congrArg List.length heq), if_neg hlength⟩

theorem notifies_sublist (h : tags.Sublist s.tags) : Notifies s (s.mutateTags tags) :=
  notifies_mutateTags h.eq_of_length

theorem notifies_commit : Notifies s (s.commit tag) := by
  show Notifies s (s.mutateTags (pushUnique s.tags tag))
  refine notifies_mutateTags (fun hlength ↦ ?_)
  rcases pushUnique_cases s.tags tag with heq | ⟨-, heq⟩
  · exact heq
  · rw [heq, List.length_append, List.length_singleton] at hlength
    exact absurd hlength (Nat.succ_ne_self _)

end Tags

section Edits

variable {s s' : InputState} {tag : TagSummary}

/-- What a key, a click or a removed chip does to the field. -/
structure Edits (s s' : InputState) : Prop where
  tick : s'.debounceTick = s.debounceTick
  text : s'.inputText = s.inputText ∨ s'.inputText = []
  shown : s'.suggestionsOpen = true → s.suggestionsOpen = true ∧ s'.suggestions = s.suggestions
  distinct : (slugs s.tags).Nodup → (slugs s'.tags).Nodup
  notifies : Notifies s s'
  rows : s'.suggestions ⊆ s.suggestions
  source : ∀ t ∈ s'.tags, t ∈ s.tags ∨ t ∈ s.suggestions ∨ t.slug = t.display.slug

/-- The tags and the text stay, and at most the error and the selection change. -/
theorem edits_signals {error : Option String} {selectedIdx : Option ℕ} :
    Edits s { s with error, selectedIdx } where
  tick := rfl
  text := .inl rfl
  shown := fun h ↦ ⟨h, rfl⟩
  distinct := fun h ↦ h
  notifies := notifies_rfl
  rows := fun _ h ↦ h
  source := fun _ h ↦ .inl h

theorem edits_rfl : Edits s s := edits_signals

theorem edits_closeSuggestions : Edits s s.closeSuggestions where
  tick := rfl
  text := .inl rfl
  shown := nofun
  distinct := fun h ↦ h
  notifies := notifies_rfl
  rows := List.nil_subset _
  source := fun _ h ↦ .inl h

theorem edits_commit (htag : tag ∈ s.suggestions ∨ tag.slug = tag.display.slug) :
    Edits s (s.commit tag) where
  tick := rfl
  text := .inr rfl
  shown := nofun
  distinct := nodup_pushUnique
  notifies := notifies_commit
  rows := List.nil_subset _
  source := by
    intro t ht
    have ht : t ∈ pushUnique s.tags tag := ht
    rcases pushUnique_cases s.tags tag with heq | ⟨-, heq⟩
    · rw [heq] at ht
      exact .inl ht
    · rw [heq, List.mem_append, List.mem_singleton] at ht
      rcases ht with ht | rfl
      · exact .inl ht
      · exact .inr htag

theorem edits_sublist {tags : List TagSummary} (h : tags.Sublist s.tags) :
    Edits s (s.mutateTags tags) where
  tick := rfl
  text := .inl rfl
  shown := fun hopen ↦ ⟨hopen, rfl⟩
  distinct := fun hnodup ↦ nodup_sublist hnodup h
  notifies := notifies_sublist h
  rows := fun _ hrow ↦ hrow
  source := fun _ ht ↦ .inl (h.subset ht)

theorem slug_of_parsed {raw : List Char} (h : parseCommittedTag raw = .ok tag) :
    tag.slug = tag.display.slug := by
  unfold parseCommittedTag at h
  split at h
  · cases h
    rfl
  · cases h

theorem edits_remove : Edits s (s.remove tag) := edits_sublist List.filter_sublist

theorem edits_choose (row : ℕ) : Edits s (s.choose row) := by
  unfold choose
  split_ifs with hopen
  · split
    next tag htag => exact edits_commit (.inl (List.mem_of_getElem? htag))
    next => exact edits_rfl
  · exact edits_rfl

theorem edits_handleKey (key : String) : Edits s (s.handleKey key).2 := by
  unfold handleKey
  split_ifs with hcommit hblank hback hdown hup hescape
  · split
    next tag htag =>
      obtain ⟨i, -, hrow⟩ := Option.bind_eq_some_iff.mp htag
      exact edits_commit (.inl (List.mem_of_getElem? hrow))
    next => exact edits_rfl
  · split
    next tag htag =>
      obtain ⟨i, -, hrow⟩ := Option.bind_eq_some_iff.mp htag
      exact edits_commit (.inl (List.mem_of_getElem? hrow))
    next =>
      split
      next tag htag => exact edits_commit (.inr (slug_of_parsed htag))
      next => exact edits_signals
  · exact edits_sublist (List.dropLast_sublist s.tags)
  · exact edits_signals
  · exact edits_signals
  · exact edits_closeSuggestions
  · exact edits_rfl

end Edits

section Runs

variable {lower} {m m' : Mounted} {q : Query}

structure Kept (lower : List Char → List Char) (m : Mounted) : Prop where
  distinct : (slugs m.state.tags).Nodup
  shown : m.state.suggestionsOpen = true → m.state.suggestions ≠ []
  numbered : ∀ q ∈ m.pending, q.input ≤ m.inputs
  ticks : ∀ q ∈ m.pending, q.tick = m.state.debounceTick ↔ q.input = m.inputs
  asked : ∀ q ∈ m.pending, q.input = m.inputs →
    q.text = wanted lower m.state.inputText ∨ Blank lower m.state.inputText
  apart : (m.pending.map Query.input).Nodup

theorem kept_new {tags : List TagSummary} (h : (slugs tags).Nodup) : Kept lower (.new tags) :=
  ⟨h, nofun, nofun, nofun, nofun, List.nodup_nil⟩

/-- A step that enters no new text only loses pending fetches. -/
theorem Kept.next (h : Kept lower m) (hpending : m'.pending.Subperm m.pending)
    (hinputs : m'.inputs = m.inputs) (htick : m'.state.debounceTick = m.state.debounceTick)
    (hdistinct : (slugs m'.state.tags).Nodup)
    (hshown : m'.state.suggestionsOpen = true → m'.state.suggestions ≠ [])
    (htext : m'.state.inputText = m.state.inputText ∨ Blank lower m'.state.inputText) :
    Kept lower m' where
  distinct := hdistinct
  shown := hshown
  numbered := by
    intro q hq
    rw [hinputs]
    exact h.numbered q (hpending.subset hq)
  ticks := by
    intro q hq
    rw [hinputs, htick]
    exact h.ticks q (hpending.subset hq)
  asked := by
    intro q hq hinput
    rw [hinputs] at hinput
    rcases htext with heq | hblank
    · rw [heq]
      exact h.asked q (hpending.subset hq) hinput
    · exact .inr hblank
  apart := by
    obtain ⟨kept, hperm, hsub⟩ := hpending
    exact (hperm.map Query.input).nodup_iff.mp (h.apart.sublist (hsub.map Query.input))

theorem Kept.edits (h : Kept lower m) {s : InputState} (hs : Edits m.state s) :
    Kept lower { m with state := s } := by
  refine h.next (List.Subperm.refl _) rfl hs.tick (hs.distinct h.distinct) (fun hopen ↦ ?_) ?_
  · obtain ⟨hopen, heq⟩ := hs.shown hopen
    rw [heq]
    exact h.shown hopen
  · exact hs.text.imp id .inl

theorem Kept.input (h : Kept lower m) {value : List Char} (htimely : Timely lower m (.input value)) :
    Kept lower (step lower m (.input value)) := by
  by_cases hwanted : wanted lower value = []
  · have hstep : step lower m (.input value) = { m with
        state := { m.state with
          inputText := value, error := none, selectedIdx := none, suggestions := [],
          suggestionsOpen := false } } := by
      simp only [step, beginInput, if_pos hwanted]
    rw [hstep]
    exact h.next (List.Subperm.refl _) rfl rfl h.distinct nofun (.inr (.inr hwanted))
  · have hstep : step lower m (.input value) = { m with
        state := { m.state with
          inputText := value, error := none, selectedIdx := none,
          debounceTick := m.state.debounceTick + 1 }
        timers := m.timers ++ [⟨wanted lower value, m.state.debounceTick + 1, m.inputs + 1⟩]
        inputs := m.inputs + 1 } := by
      simp only [step, beginInput, if_neg hwanted]
    rw [hstep]
    have hperm : ((m.timers ++ [(⟨wanted lower value, m.state.debounceTick + 1, m.inputs + 1⟩ : Query)]) ++
        m.fetches).Perm (⟨wanted lower value, m.state.debounceTick + 1, m.inputs + 1⟩ :: m.pending) := by
      rw [List.append_assoc]
      exact List.perm_middle
    have hold : ∀ q ∈ m.pending, q.input ≠ m.inputs + 1 := fun q hq ↦
      Nat.ne_of_lt (Nat.lt_succ_of_le (h.numbered q hq))
    refine ⟨h.distinct, h.shown, fun q hq ↦ ?_, fun q hq ↦ ?_, fun q hq hinput ↦ ?_, ?_⟩
    · rcases List.mem_cons.mp (hperm.mem_iff.mp hq) with rfl | hq
      · exact le_refl _
      · exact Nat.le_succ_of_le (h.numbered q hq)
    · rcases List.mem_cons.mp (hperm.mem_iff.mp hq) with rfl | hq
      · exact iff_of_true rfl rfl
      · exact iff_of_false (htimely hwanted q hq) (hold q hq)
    · rcases List.mem_cons.mp (hperm.mem_iff.mp hq) with rfl | hq
      · exact .inl rfl
      · exact absurd hinput (hold q hq)
    · refine (hperm.map Query.input).nodup_iff.mpr (List.nodup_cons.mpr ⟨fun hmem ↦ ?_, h.apart⟩)
      obtain ⟨q, hq, hinput⟩ := List.mem_map.mp hmem
      exact hold q hq hinput

theorem Kept.fire (h : Kept lower m) (timer : ℕ) : Kept lower (step lower m (.fire timer)) := by
  cases hq : m.timers[timer]? with
  | none =>
    simp only [step, hq]
    exact h
  | some q =>
    simp only [step, hq]
    refine h.next ?_ rfl rfl h.distinct h.shown (.inl rfl)
    by_cases htick : m.state.debounceTick = q.tick
    · obtain ⟨hlt, rfl⟩ := List.getElem?_eq_some_iff.mp hq
      rw [Mounted.pending, if_neg (not_not_intro htick)]
      refine List.Perm.subperm ?_
      rw [← List.append_assoc]
      refine List.perm_append_comm.trans ?_
      exact (List.getElem_cons_eraseIdx_perm hlt).append_right m.fetches
    · rw [Mounted.pending, if_pos htick]
      exact ((List.eraseIdx_sublist m.timers timer).append_right m.fetches).subperm

theorem receive_cases (s : InputState) (tick : UInt64) (results : Option (List TagSummary)) :
    s.receive tick results = s ∨ ∃ shown, s.receive tick results =
      { s with suggestions := shown, suggestionsOpen := !shown.isEmpty } := by
  cases results with
  | none => exact .inl rfl
  | some shown =>
    unfold receive
    split_ifs with htick
    · exact .inr ⟨shown, rfl⟩
    · exact .inl rfl

theorem Kept.answer (h : Kept lower m) (fetch : ℕ) (results : Option (List TagSummary)) :
    Kept lower (step lower m (.answer fetch results)) := by
  cases hq : m.fetches[fetch]? with
  | none =>
    simp only [step, hq]
    exact h
  | some q =>
    simp only [step, hq]
    have hsub : (m.timers ++ m.fetches.eraseIdx fetch).Subperm m.pending :=
      ((List.eraseIdx_sublist m.fetches fetch).append_left m.timers).subperm
    rcases receive_cases m.state q.tick results with heq | ⟨shown, heq⟩
    · rw [heq]
      exact h.next hsub rfl rfl h.distinct h.shown (.inl rfl)
    · rw [heq]
      refine h.next hsub rfl rfl h.distinct (fun hopen hnil ↦ ?_) (.inl rfl)
      have hnil : shown = [] := hnil
      rw [hnil] at hopen
      cases hopen

theorem kept_step (h : Kept lower m) {e : Event} (htimely : Timely lower m e) :
    Kept lower (step lower m e) := by
  cases e with
  | input value => exact h.input htimely
  | key key => exact h.edits (edits_handleKey key)
  | choose row => exact h.edits (edits_choose row)
  | remove tag => exact h.edits edits_remove
  | load tags => exact h.next (List.Subperm.refl _) rfl rfl htimely h.shown (.inl rfl)
  | fire timer => exact h.fire timer
  | answer fetch results => exact h.answer fetch results

theorem kept_run {es : List Event} (h : Kept lower m) (hes : Along (step lower) (Timely lower) m es) :
    Kept lower (run (step lower) m es) :=
  run_preserves (fun _ _ hkept htimely ↦ kept_step hkept htimely) h hes

theorem length_le_one {qs : List Query} {n : ℕ} (hnodup : (qs.map Query.input).Nodup)
    (h : ∀ q ∈ qs, q.input = n) : qs.length ≤ 1 := by
  have hreplicate : qs.map Query.input = List.replicate qs.length n := by
    rw [← List.length_map (f := Query.input)]
    refine List.eq_replicate_of_mem (fun input hinput ↦ ?_)
    obtain ⟨q, hq, rfl⟩ := List.mem_map.mp hinput
    exact h q hq
  rw [hreplicate] at hnodup
  exact List.nodup_replicate.mp hnodup

theorem mem_pending {fetch : ℕ} (h : m.fetches[fetch]? = some q) : q ∈ m.pending :=
  List.mem_append_right _ (List.mem_of_getElem? h)

theorem step_notifies {e : Event} (he : ∀ tags, e ≠ .load tags) :
    Notifies m.state (step lower m e).state := by
  cases e with
  | input value =>
    by_cases hwanted : wanted lower value = []
    · simp only [step, beginInput, if_pos hwanted]
      exact notifies_rfl
    · simp only [step, beginInput, if_neg hwanted]
      exact notifies_rfl
  | key key => exact (edits_handleKey key).notifies
  | choose row => exact (edits_choose row).notifies
  | remove tag => exact edits_remove.notifies
  | load tags => exact absurd rfl (he tags)
  | fire timer =>
    cases hq : m.timers[timer]? with
    | none =>
      simp only [step, hq]
      exact notifies_rfl
    | some q =>
      simp only [step, hq]
      exact notifies_rfl
  | answer fetch results =>
    cases hq : m.fetches[fetch]? with
    | none =>
      simp only [step, hq]
      exact notifies_rfl
    | some q =>
      simp only [step, hq]
      rcases receive_cases m.state q.tick results with heq | ⟨shown, heq⟩
      · rw [heq]
        exact notifies_rfl
      · rw [heq]
        exact notifies_rfl

theorem Kept.sound (h : Kept lower m) : Sound lower m where
  distinct := h.distinct
  shown := h.shown
  single := by
    refine length_le_one (h.apart.sublist (List.filter_sublist.map Query.input)) (n := m.inputs) ?_
    intro q hq
    obtain ⟨hq, htick⟩ := List.mem_filter.mp hq
    exact (h.ticks q hq).mp (of_decide_eq_true htick)
  stale := by
    intro fetch q results hq hinput
    have htick : m.state.debounceTick ≠ q.tick := fun htick ↦
      hinput ((h.ticks q (mem_pending hq)).mp htick.symm)
    simp only [step, hq]
    cases results with
    | none => rfl
    | some shown => exact if_neg htick
  fresh := by
    intro fetch q results hq hinput
    have htick : m.state.debounceTick = q.tick := ((h.ticks q (mem_pending hq)).mpr hinput).symm
    refine ⟨?_, h.asked q (mem_pending hq) hinput⟩
    simp only [step, hq, receive, if_pos htick]
  notifies := fun _ he ↦ step_notifies he

end Runs

theorem isTag_rust : isTag ("rust".toList.map Common.Tag.lowercase) = true := by decide

def rust : TagSummary := .ofLabel ⟨"rust", isTag_rust⟩

end Jaunder.Web.TagInput
