import Jaunder.Foundation.SharedFiles

namespace Foundation.SharedFiles

open Foundation.Procedures

section Logs

/-- What the last change of a name left there. -/
def left : List Event → Path → Option (Role × Entry)
  | [], _ => none
  | .saw _ _ :: log, p => left log p
  | .put role path _ after :: log, p => if p = path then after.map (role, ·) else left log p

/-- Each change is made where there is nothing, or where there is what the process left itself. -/
def Own : List Event → Prop
  | [] => True
  | .saw _ _ :: log => Own log
  | .put _ path before _ :: log =>
    (∀ entry, before = some entry → (left log path).map Prod.snd = some entry) ∧ Own log

/-- What has been seen since the last change. -/
def recent (log : List Event) : List Event := log.takeWhile Event.isSaw

variable {log seen : List Event}

theorem recent_subset (log : List Event) : recent log ⊆ log := List.takeWhile_subset _

theorem recent_append (h : ∀ e ∈ seen, e.isSaw = true) : recent (seen ++ log) = seen ++ recent log :=
  List.takeWhile_append_of_pos h

end Logs

/-- The others leave alone what bears the name of a temporary, and deleting works. -/
structure Considerate (others : Others) : Prop where
  names : ∀ n names fs, ∀ path ∈ names, (others.between n names fs).entry path = fs.entry path
  deletes : ∀ n, others.deleteFails n = false

/-- The process has only looked. -/
def Looks (w w' : World) : Prop :=
  w'.names = w.names ∧ ∃ seen, w'.log = seen ++ w.log ∧ ∀ e ∈ seen, e.isSaw = true

def Grows (w w' : World) : Prop := w.log <:+ w'.log

instance : Std.Refl Looks := ⟨fun _ ↦ ⟨rfl, [], rfl, fun _ h ↦ absurd h List.not_mem_nil⟩⟩

instance : IsTrans World Looks where
  trans w w' w'' := by
    rintro ⟨hnames, seen, hlog, hseen⟩ ⟨hnames', seen', hlog', hseen'⟩
    refine ⟨hnames'.trans hnames, seen' ++ seen, by rw [hlog', hlog, List.append_assoc], ?_⟩
    exact List.forall_mem_append.mpr ⟨hseen', hseen⟩

instance : Std.Refl Grows := ⟨fun _ ↦ List.suffix_rfl⟩

instance : IsTrans World Grows := ⟨fun _ _ _ h h' ↦ List.IsSuffix.trans h h'⟩

theorem Looks.grows {w w' : World} (h : Looks w w') : Grows w w' := by
  obtain ⟨-, seen, hlog, -⟩ := h
  exact ⟨seen, hlog.symm⟩

theorem Looks.recent {w w' : World} (h : Looks w w') : recent w.log ⊆ recent w'.log := by
  obtain ⟨-, seen, hlog, hseen⟩ := h
  rw [hlog, recent_append hseen]
  exact List.subset_append_right _ _

/-- The content of each temporary; the name of one that is gone has none. -/
abbrev Temporaries : Type := Path → Option (Option Bytes)

def HeldAs (w : World) (p : Path) : Option (Option Bytes) → Prop
  | none => p ∉ w.names
  | some none => p ∈ w.names ∧ ∀ entry, left w.log p ≠ some (.temporary, entry)
  | some (some bytes) => p ∈ w.names ∧ left w.log p = some (.temporary, .file bytes)

/-- The process has changed its own files only, its copies are good ones, and `t` are its temporaries. -/
structure Holding (good : Path → Entry → Prop) (t : Temporaries) (w : World) : Prop where
  own : Own w.log
  kept : ∀ p ∈ w.names, w.fs.entry p = (left w.log p).map Prod.snd
  copies : ∀ p before entry, .put .copy p before (some entry) ∈ w.log → good p entry
  held : ∀ p, HeldAs w p (t p)

section Changes

variable {good : Path → Entry → Prop} {t : Temporaries} {w w' : World} {p : Path} {bytes : Bytes}

theorem Holding.mem_names (h : Holding good t w) : p ∈ w.names ↔ t p ≠ none := by
  have hp := h.held p
  cases ht : t p with
  | none =>
    rw [ht] at hp
    exact ⟨fun hmem ↦ absurd hmem hp, fun hne ↦ absurd rfl hne⟩
  | some content =>
    rw [ht] at hp
    refine ⟨fun _ ↦ Option.some_ne_none content, fun _ ↦ ?_⟩
    cases content with
    | none => exact hp.1
    | some bytes => exact hp.1

theorem Holding.entry (h : Holding good t w) (hp : t p = some (some bytes)) :
    w.fs.entry p = some (.file bytes) := by
  have hheld := h.held p
  rw [hp] at hheld
  rw [h.kept p hheld.1, hheld.2]
  rfl

/-- What is read from a temporary is its content. -/
theorem Holding.content_eq {content : Bytes} (h : Holding good t w) (hp : t p = some (some content))
    (hobject : w.fs.object p = some (.regular bytes)) : bytes = content := by
  rw [FileSystem.object, h.entry hp] at hobject
  cases hobject
  rfl

/-- A name with nothing under it holds no temporary. -/
theorem Holding.not_held (h : Holding good t w) (hentry : w.fs.entry p = none) :
    t p = none ∨ t p = some none := by
  cases ht : t p with
  | none => exact .inl rfl
  | some content =>
    cases content with
    | none => exact .inr rfl
    | some bytes =>
      rw [h.entry ht] at hentry
      cases hentry

theorem Holding.settle {others : Others} (hc : Considerate others) (h : Holding good t w) :
    Holding good t (w.settle others) where
  own := h.own
  kept p hp := (hc.names w.clock w.names w.fs p hp).trans (h.kept p hp)
  copies := h.copies
  held p := by
    have hp := h.held p
    cases ht : t p with
    | none => rwa [ht] at hp
    | some content =>
      rw [ht] at hp
      cases content with
      | none => exact hp
      | some bytes => exact hp

theorem Holding.note (h : Holding good t w) (path : Path) (fact : Fact) :
    Holding good t (w.note path fact) where
  own := h.own
  kept := h.kept
  copies p before entry hmem := by
    rcases List.mem_cons.mp hmem with heq | hmem
    · cases heq
    · exact h.copies p before entry hmem
  held p := by
    have hp := h.held p
    cases ht : t p with
    | none => rwa [ht] at hp
    | some content =>
      rw [ht] at hp
      cases content with
      | none => exact hp
      | some bytes => exact hp

theorem left_put (w : World) (role : Role) (path : Path) (after : Option Entry) (p : Path) :
    left (w.put role path after).log p = if p = path then after.map (role, ·) else left w.log p := rfl

theorem entry_put (w : World) (role : Role) (path : Path) (after : Option Entry) (p : Path) :
    (w.put role path after).fs.entry p = if p = path then after else w.fs.entry p :=
  Function.update_apply w.fs.entry path after p

theorem Own.put {role : Role} {after : Option Entry} (h : Holding good t w)
    (hp : w.fs.entry p = none ∨ p ∈ w.names) : Own (w.put role p after).log := by
  refine ⟨fun entry hentry ↦ ?_, h.own⟩
  rcases hp with hnone | hmem
  · rw [hnone] at hentry
    cases hentry
  · rw [← h.kept p hmem, hentry]

theorem kept_put {role : Role} {after : Option Entry} (h : Holding good t w) {q : Path}
    (hq : q ∈ w.names) : (w.put role p after).fs.entry q =
      (left (w.put role p after).log q).map Prod.snd := by
  rw [left_put, entry_put]
  split
  · cases after with
    | none => rfl
    | some entry => rfl
  · exact h.kept q hq

theorem heldAs_put_of_ne {role : Role} {after : Option Entry} (h : Holding good t w) {q : Path}
    (hq : q ≠ p) : HeldAs (w.put role p after) q (t q) := by
  have hheld := h.held q
  have hleft : left (w.put role p after).log q = left w.log q := if_neg hq
  cases ht : t q with
  | none => rwa [ht] at hheld
  | some content =>
    rw [ht] at hheld
    cases content with
    | none => exact ⟨hheld.1, fun entry ↦ hleft ▸ hheld.2 entry⟩
    | some bytes => exact ⟨hheld.1, hleft.trans hheld.2⟩

theorem copies_put {role : Role} {after : Option Entry} (h : Holding good t w)
    (hgood : role = .copy → ∀ entry, after = some entry → good p entry) {q : Path}
    {before : Option Entry} {entry : Entry}
    (hmem : .put .copy q before (some entry) ∈ (w.put role p after).log) : good q entry := by
  rcases List.mem_cons.mp hmem with heq | hmem
  · cases heq
    exact hgood rfl entry rfl
  · exact h.copies q before entry hmem

/-- Something other than a temporary comes where there was nothing. -/
theorem Holding.place (h : Holding good t w) {role : Role} {entry : Entry} (hrole : role ≠ .temporary)
    (hp : w.fs.entry p = none) (hgood : role = .copy → good p entry) :
    Holding good t (w.put role p (some entry)) where
  own := Own.put h (.inl hp)
  kept _ hq := kept_put h hq
  copies _ _ _ hmem := copies_put h (fun hrole _ heq ↦ Option.some.inj heq ▸ hgood hrole) hmem
  held q := by
    by_cases hq : q = p
    · subst hq
      have hheld := h.held q
      rcases h.not_held hp with ht | ht
      · rw [ht] at hheld ⊢
        exact hheld
      · rw [ht] at hheld ⊢
        refine ⟨hheld.1, fun entry' hleft ↦ ?_⟩
        rw [left_put, if_pos rfl] at hleft
        exact hrole (Prod.mk.inj (Option.some.inj hleft)).1
    · exact heldAs_put_of_ne h hq

/-- A temporary gets another content or is given up. -/
theorem Holding.replace (h : Holding good t w) (hp : t p ≠ none) (content : Option Bytes) :
    Holding good (Function.update t p (some content))
      (w.put .temporary p (content.map Entry.file)) where
  own := Own.put h (.inr (h.mem_names.mpr hp))
  kept _ hq := kept_put h hq
  copies _ _ _ hmem := copies_put h (fun hrole ↦ by cases hrole) hmem
  held q := by
    by_cases hq : q = p
    · subst hq
      rw [Function.update_self]
      have hmem := h.mem_names.mpr hp
      cases content with
      | none =>
        refine ⟨hmem, fun entry hleft ↦ ?_⟩
        rw [left_put, if_pos rfl] at hleft
        cases hleft
      | some bytes => exact ⟨hmem, if_pos rfl⟩
    · rw [Function.update_of_ne hq]
      exact heldAs_put_of_ne h hq

theorem Holding.create (h : Holding good t w) (hp : w.fs.entry p = none) :
    Holding good (Function.update t p (some (some [])))
      { w.put .temporary p (some (.file [])) with names := p :: w.names } where
  own := Own.put h (.inl hp)
  kept q hq := by
    rcases List.mem_cons.mp hq with rfl | hq
    · rw [left_put, if_pos rfl, entry_put, if_pos rfl]
      rfl
    · exact kept_put h hq
  copies _ _ _ hmem := copies_put h (fun hrole ↦ by cases hrole) hmem
  held q := by
    by_cases hq : q = p
    · subst hq
      rw [Function.update_self]
      exact ⟨List.mem_cons_self, if_pos rfl⟩
    · rw [Function.update_of_ne hq]
      have hheld : HeldAs (w.put .temporary p (some (.file []))) q (t q) := heldAs_put_of_ne h hq
      cases ht : t q with
      | none =>
        rw [ht] at hheld
        exact fun hmem ↦ (List.mem_cons.mp hmem).elim hq hheld
      | some content =>
        rw [ht] at hheld
        cases content with
        | none => exact ⟨List.mem_cons_of_mem p hheld.1, hheld.2⟩
        | some bytes => exact ⟨List.mem_cons_of_mem p hheld.1, hheld.2⟩

end Changes

section Rules

variable {others : Others} {good : Path → Entry → Prop} {t : Temporaries} {path : Path} {bytes old : Bytes}

theorem looks_note (w : World) (path : Path) (fact : Fact) :
    Looks w ((w.settle others).note path fact) :=
  ⟨rfl, [.saw path fact], rfl, fun e he ↦ by rw [List.mem_singleton.mp he]; rfl⟩

theorem mem_recent_note (w : World) (path : Path) (fact : Fact) :
    .saw path fact ∈ recent (w.note path fact).log :=
  List.mem_cons_self

theorem ask_spec (hc : Considerate others) (good : Path → Entry → Prop) (t : Temporaries) (path : Path)
    (test : FileSystem → Bool) (fact : Bool → Fact) :
    Triple Looks (Holding good t) (ask others test path fact)
      (fun answer w ↦ Holding good t w ∧ answer = test w.fs ∧ .saw path (fact answer) ∈ recent w.log)
      (fun _ _ ↦ False) := by
  intro w hw
  refine ⟨looks_note w path _, fun answer hanswer ↦ ?_, fun e he ↦ (by cases he)⟩
  cases hanswer
  exact ⟨(hw.settle hc).note _ _, rfl, mem_recent_note _ _ _⟩

theorem insertFileContentsLiterally_spec (hc : Considerate others) :
    Triple Looks (Holding good t) (insertFileContentsLiterally others path)
      (fun bytes w ↦ Holding good t w ∧ w.fs.object path = some (.regular bytes) ∧
        .saw path (.content bytes) ∈ recent w.log)
      (fun _ ↦ Holding good t) := by
  intro w hw
  unfold insertFileContentsLiterally
  dsimp only
  have hsettled := hw.settle hc
  have hlooks : Looks w (w.settle others) := ⟨rfl, [], rfl, fun _ h ↦ absurd h List.not_mem_nil⟩
  split
  · rename_i content hfails hobject
    refine ⟨looks_note w path _, fun bytes hbytes ↦ ?_, fun e he ↦ (by cases he)⟩
    cases hbytes
    exact ⟨hsettled.note _ _, hobject, mem_recent_note _ _ _⟩
  · exact ⟨hlooks, fun bytes hbytes ↦ (by cases hbytes), fun e he ↦ hsettled⟩

theorem grows_settle (w : World) : Grows w (w.settle others) := List.suffix_rfl

theorem grows_put (w : World) (role : Role) (after : Option Entry) :
    Grows w ((w.settle others).put role path after) := List.suffix_cons _ _

theorem makeDirectory_spec (hc : Considerate others) :
    Triple Grows (Holding good t) (makeDirectory others path) (fun _ ↦ Holding good t)
      (fun _ ↦ Holding good t) := by
  intro w hw
  unfold makeDirectory
  dsimp only
  have hsettled := hw.settle hc
  split
  · exact ⟨grows_settle w, fun _ h ↦ (by cases h), fun _ _ ↦ hsettled⟩
  · exact ⟨grows_settle w, fun _ h ↦ (by cases h), fun _ _ ↦ hsettled⟩
  · rename_i hfails hentry
    refine ⟨grows_put w _ _, fun _ _ ↦ ?_, fun _ h ↦ (by cases h)⟩
    exact hsettled.place (by decide) hentry (fun h ↦ by cases h)

theorem makeTempFile_spec (hc : Considerate others) (directory : Path) (start : List Char) :
    Triple Grows (Holding good t) (makeTempFile others directory start)
      (fun p w ↦ Holding good (Function.update t p (some (some []))) w ∧ ∀ bytes, t p ≠ some (some bytes))
      (fun _ ↦ Holding good t) := by
  intro w hw
  unfold makeTempFile
  dsimp only
  have hsettled := hw.settle hc
  split
  · rename_i hfails hentry
    refine ⟨grows_put w _ _, fun p hp ↦ ?_, fun _ h ↦ (by cases h)⟩
    cases hp
    refine ⟨hsettled.create hentry, fun bytes hbytes ↦ ?_⟩
    rw [hsettled.entry hbytes] at hentry
    cases hentry
  · exact ⟨grows_settle w, fun _ h ↦ (by cases h), fun _ _ ↦ hsettled⟩

theorem writeRegion_spec (hc : Considerate others) (good : Path → Entry → Prop) (bytes : Bytes)
    (hold : t path = some (some old)) :
    Triple Grows (Holding good t) (writeRegion others bytes path)
      (fun _ ↦ Holding good (Function.update t path (some (some bytes))))
      (fun _ w ↦ ∃ content, Holding good (Function.update t path (some (some content))) w) := by
  intro w hw
  have hsettled := hw.settle hc
  have hne : t path ≠ none := by
    rw [hold]
    exact Option.some_ne_none _
  unfold writeRegion
  dsimp only
  rw [hsettled.entry hold]
  dsimp only [Entry.file]
  refine ⟨grows_put w _ _, fun _ hok ↦ ?_, fun e he ↦ ?_⟩
  · cases hfails : others.fails w.clock with
    | true =>
      rw [hfails] at hok
      cases hok
    | false => exact hsettled.replace hne (some bytes)
  · exact ⟨_, hsettled.replace hne (some _)⟩

theorem renameFile_spec (hc : Considerate others) (good : Path → Entry → Prop) (target : Path)
    (hsource : t path = some (some bytes)) (hgood : good target (.file bytes)) :
    Triple Grows (Holding good t) (renameFile others path target)
      (fun _ w ↦ Holding good (Function.update t path (some none)) w ∧
        .put .copy target none (some (.file bytes)) ∈ w.log)
      (fun _ ↦ Holding good t) := by
  intro w hw
  have hsettled := hw.settle hc
  have hentry := hsettled.entry hsource
  unfold renameFile
  dsimp only
  rw [hentry]
  cases others.fails w.clock with
  | true => exact ⟨grows_settle w, fun _ h ↦ (by cases h), fun _ _ ↦ hsettled⟩
  | false =>
    cases htarget : (w.settle others).fs.entry target with
    | some _ => exact ⟨grows_settle w, fun _ h ↦ (by cases h), fun _ _ ↦ hsettled⟩
    | none =>
      have hplaced : Holding good t ((w.settle others).put .copy target (some (.file bytes))) :=
        hsettled.place (by decide) htarget (fun _ ↦ hgood)
      refine ⟨?_, fun _ _ ↦ ⟨?_, ?_⟩, fun _ h ↦ (by cases h)⟩
      · exact (grows_put w .copy _).trans (List.suffix_cons _ _)
      · exact hplaced.replace (by rw [hsource]; exact Option.some_ne_none _) none
      · refine List.mem_cons_of_mem _ (List.mem_cons.mpr (.inl ?_))
        rw [htarget]

theorem deleteFile_spec (hc : Considerate others) {content : Option Bytes} (hp : t path = some content) :
    Triple Grows (Holding good t) (deleteFile others path)
      (fun _ ↦ Holding good (Function.update t path (some none)))
      (fun _ w ↦ Holding good t w ∧ content = none) := by
  intro w hw
  have hsettled := hw.settle hc
  have hne : t path ≠ none := by
    rw [hp]
    exact Option.some_ne_none _
  unfold deleteFile
  dsimp only
  rw [hc.deletes]
  have hgone (h : ∀ bytes, (w.settle others).fs.entry path ≠ some (.file bytes)) : content = none := by
    cases content with
    | none => rfl
    | some bytes => exact absurd (hsettled.entry hp) (h bytes)
  cases hentry : (w.settle others).fs.entry path with
  | none =>
    refine ⟨grows_settle w, fun _ h ↦ (by cases h), fun _ _ ↦ ⟨hsettled, hgone (fun bytes h ↦ ?_)⟩⟩
    rw [hentry] at h
    cases h
  | some entry =>
    dsimp only
    split
    · rename_i hdirectory
      refine ⟨grows_settle w, fun _ h ↦ (by cases h), fun _ _ ↦ ⟨hsettled, hgone (fun bytes h ↦ ?_)⟩⟩
      rw [hentry, hdirectory] at h
      cases h
    · exact ⟨grows_put w _ _, fun _ _ ↦ hsettled.replace hne none, fun _ h ↦ (by cases h)⟩

end Rules

end Foundation.SharedFiles
