import Jaunder.Elisp.MediaInstallation

namespace Jaunder.Elisp.StagedMedia

open Foundation.Procedures Foundation.SharedFiles

section Quiet

variable {s : Surroundings} {root : Path} {α : Type} {r : World → World → Prop}

/-- What holds for any temporaries holds between two installations. -/
theorem idle_spec {p : Step α} {Q : α → World → Prop}
    (h : ∀ t, Triple r (Holding (GoodCopy s root) t) p
      (fun a w ↦ Holding (GoodCopy s root) t w ∧ Q a w) (fun _ ↦ Holding (GoodCopy s root) t)) :
    Triple r (Idle s root) p (fun a w ↦ Idle s root w ∧ Q a w) (fun _ ↦ Idle s root) := by
  refine Triple.of_exists (fun t ↦ Triple.of_and (fun hidle ↦ ?_))
  exact (h t).mono (fun _ hw ↦ hw) (fun _ _ hw ↦ ⟨⟨t, hw.1, hidle⟩, hw.2⟩) (fun _ _ hw ↦ ⟨t, hw, hidle⟩)

theorem Keeps.idle {p : Step α} (h : Keeps s root p) :
    Triple Grows (Idle s root) p (fun _ ↦ Idle s root) (fun _ ↦ Idle s root) :=
  (idle_spec (Q := fun _ _ ↦ True) (fun t ↦ (h t).mono (fun _ hw ↦ hw) (fun _ _ hw ↦ ⟨hw, trivial⟩)
    (fun _ _ hw ↦ hw))).mono (fun _ hw ↦ hw) (fun _ _ hw ↦ hw.1) (fun _ _ hw ↦ hw)

end Quiet

section References

theorem referenceKey_inj {hash leaf hash' leaf' : List Char} (h : isSha256 hash = true)
    (h' : isSha256 hash' = true) (hkey : referenceKey hash leaf = referenceKey hash' leaf') :
    hash = hash' ∧ leaf = leaf' := by
  unfold isSha256 at h h'
  rw [Bool.decide_and, Bool.and_eq_true, decide_eq_true_iff] at h h'
  obtain ⟨hhash, hrest⟩ := List.append_inj hkey (h.1.trans h'.1.symm)
  exact ⟨hhash, (List.cons.inj hrest).2⟩

/-- The media behind a reference. -/
def SameMedia (before after : Reference) : Prop :=
  after.url = before.url ∧ after.hash = before.hash ∧ after.leaf = before.leaf ∧
    after.replacements = before.replacements

end References

section Stages

variable (s : Surroundings) (root : Path) (format : List Char) (proof : Option OriginalProof)

/-- A reuse stands for an original of the proof and can go back to the native target. -/
structure SoundReuse (reuse : Reuse) : Prop where
  original : reuse.original ∈ proof.getD []
  hash : reuse.original.hash = reuse.fallback.hash
  native : reuse.fallback.nativeTarget = mediaTarget format reuse.fallback.hash
    (encodeFilename reuse.fallback.leaf) none

/-- The media of a reference is there or in the stage. -/
def Provided (reuses : List Reuse) (fallbacks : List Fallback) (w : World) (reference : Reference) : Prop :=
  match originalOf proof reference.hash with
  | some original => ∃ reuse ∈ reuses, reuse.original = original ∧
      reuse.fallback.hash = reference.hash ∧ reuse.fallback.leaf = reference.leaf
  | none => SawCopy s w.log (localCopy root reference.hash reference.leaf) reference.hash ∨
      ∃ fallback ∈ fallbacks, fallback.hash = reference.hash ∧ fallback.leaf = reference.leaf

variable {s root format proof} {reuses reuses' : List Reuse} {fallbacks fallbacks' : List Fallback}
  {w w' : World} {reference reference' : Reference}

theorem originalOf_mem {hash : List Char} {original : OriginalDestination}
    (h : originalOf proof hash = some original) :
    original ∈ proof.getD [] ∧ original.hash = hash := by
  obtain ⟨originals, rfl, hfound⟩ := Option.bind_eq_some_iff.mp h
  unfold originalForHash at hfound
  split at hfound
  · rename_i only honly
    cases hfound
    have hmem : original ∈ originals.filter (fun original ↦ original.hash = hash) := by
      rw [honly]
      exact List.mem_singleton_self original
    rw [List.mem_filter, decide_eq_true_iff] at hmem
    exact hmem
  · cases hfound

theorem Provided.mono (hgrows : Grows w w') (hreuses : reuses ⊆ reuses') (hfallbacks : fallbacks ⊆ fallbacks')
    (h : Provided s root proof reuses fallbacks w reference) :
    Provided s root proof reuses' fallbacks' w' reference := by
  unfold Provided at h ⊢
  cases horiginal : originalOf proof reference.hash with
  | some original =>
    rw [horiginal] at h
    obtain ⟨reuse, hmem, hreuse⟩ := h
    exact ⟨reuse, hreuses hmem, hreuse⟩
  | none =>
    rw [horiginal] at h
    rcases h with hsaw | ⟨fallback, hmem, hsame⟩
    · exact .inl (hsaw.mono hgrows.subset)
    · exact .inr ⟨fallback, hfallbacks hmem, hsame⟩

theorem Provided.same (h : Provided s root proof reuses fallbacks w reference)
    (hhash : reference.hash = reference'.hash) (hleaf : reference.leaf = reference'.leaf) :
    Provided s root proof reuses fallbacks w reference' := by
  unfold Provided at h ⊢
  rwa [hhash, hleaf] at h

theorem provided_reuse {original : OriginalDestination}
    (h : originalOf proof reference.hash = some original) {reuse : Reuse} (hmem : reuse ∈ reuses)
    (horiginal : reuse.original = original) (hhash : reuse.fallback.hash = reference.hash)
    (hleaf : reuse.fallback.leaf = reference.leaf) : Provided s root proof reuses fallbacks w reference := by
  unfold Provided
  rw [h]
  exact ⟨reuse, hmem, horiginal, hhash, hleaf⟩

theorem provided_saw (h : originalOf proof reference.hash = none)
    (hsaw : SawCopy s w.log (localCopy root reference.hash reference.leaf) reference.hash) :
    Provided s root proof reuses fallbacks w reference := by
  unfold Provided
  rw [h]
  exact .inl hsaw

theorem provided_fallback (h : originalOf proof reference.hash = none) {fallback : Fallback}
    (hmem : fallback ∈ fallbacks) (hhash : fallback.hash = reference.hash)
    (hleaf : fallback.leaf = reference.leaf) : Provided s root proof reuses fallbacks w reference := by
  unfold Provided
  rw [h]
  exact .inr ⟨fallback, hmem, hhash, hleaf⟩

end Stages

section Staging

variable (s : Surroundings) (root : Path) (format : List Char) (proof : Option OriginalProof)

/-- What staging returns for the references behind the keys that it has seen. -/
structure StagedEach (seen : List (List Char)) (references : List Reference)
    (staged : List Reference × List Reuse × List Fallback) (w : World) : Prop where
  rewritten : staged.1 = references.map (stagedReference proof)
  provided : ∀ reference ∈ references, referenceKey reference.hash reference.leaf ∈ seen ∨
    Provided s root proof staged.2.1 staged.2.2 w reference
  sound : ∀ reuse ∈ staged.2.1, SoundReuse format proof reuse

variable {s root format proof} {seen : List (List Char)} {reference : Reference}
  {references others : List Reference} {reuses : List Reuse} {fallbacks : List Fallback} {w w' : World}

theorem StagedEach.mono {staged : List Reference × List Reuse × List Fallback} (hgrows : Grows w w')
    (h : StagedEach s root format proof seen references staged w) :
    StagedEach s root format proof seen references staged w' where
  rewritten := h.rewritten
  provided reference hmem := (h.provided reference hmem).imp_right
    (Provided.mono hgrows (List.Subset.refl _) (List.Subset.refl _))
  sound := h.sound

theorem StagedEach.again (h : StagedEach s root format proof seen references (others, reuses, fallbacks) w)
    (hseen : referenceKey reference.hash reference.leaf ∈ seen) :
    StagedEach s root format proof seen (reference :: references)
      (stagedReference proof reference :: others, reuses, fallbacks) w where
  rewritten := congrArg (stagedReference proof reference :: ·) h.rewritten
  provided := List.forall_mem_cons.mpr ⟨.inl hseen, h.provided⟩
  sound := h.sound

/-- A reference that is provided provides those of the same media. -/
theorem StagedEach.cons {reuses' : List Reuse} {fallbacks' : List Fallback}
    (h : StagedEach s root format proof (referenceKey reference.hash reference.leaf :: seen) references
      (others, reuses, fallbacks) w)
    (hplanned : ∀ other ∈ reference :: references, isPlanned format other)
    (hreuses : reuses ⊆ reuses') (hfallbacks : fallbacks ⊆ fallbacks')
    (hsound : ∀ reuse ∈ reuses', SoundReuse format proof reuse)
    (hprovided : Provided s root proof reuses' fallbacks' w reference) :
    StagedEach s root format proof seen (reference :: references)
      (stagedReference proof reference :: others, reuses', fallbacks') w where
  rewritten := congrArg (stagedReference proof reference :: ·) h.rewritten
  provided := by
    refine List.forall_mem_cons.mpr ⟨.inr hprovided, fun other hother ↦ ?_⟩
    rcases h.provided other hother with hkey | hother'
    · rcases List.mem_cons.mp hkey with hsame | hseen
      · obtain ⟨hhash, hleaf⟩ := referenceKey_inj (hplanned reference List.mem_cons_self).1
          (hplanned other (List.mem_cons_of_mem reference hother)).1 hsame.symm
        exact .inr (hprovided.same hhash hleaf)
      · exact .inl hseen
    · exact .inr (hother'.mono List.suffix_rfl hreuses hfallbacks)
  sound := hsound

theorem stageEach_spec (hc : Considerate s.toOthers) {instanceId : List Char}
    (hplanned : ∀ reference ∈ references, isPlanned format reference) :
    Triple Grows (Idle s root) (stageEach s root instanceId proof seen references)
      (fun staged w ↦ Idle s root w ∧ StagedEach s root format proof seen references staged w)
      (fun _ ↦ Idle s root) := by
  induction references generalizing seen with
  | nil =>
    refine Triple.pure (fun w hw ↦ ⟨hw, rfl, fun _ h ↦ absurd h List.not_mem_nil, fun _ h ↦ ?_⟩)
    exact absurd h List.not_mem_nil
  | cons reference references ih =>
    have ih (seen : List (List Char)) :=
      @ih seen (fun other hother ↦ hplanned other (List.mem_cons_of_mem reference hother))
    have hreference := hplanned reference List.mem_cons_self
    unfold stageEach
    dsimp only
    refine Triple.ite (fun hany ↦ ?_) (fun _ ↦ ?_)
    · refine (ih seen).bind (fun staged ↦ Triple.pure (fun w h ↦ ⟨h.1, h.2.again ?_⟩))
      obtain ⟨key, hkey, hsame⟩ := List.any_eq_true.mp hany
      rwa [← of_decide_eq_true hsame]
    cases horiginal : originalOf proof reference.hash with
    | some original =>
      dsimp only
      refine (idle_spec (fun t ↦ fallbackPath_spec)).bind (fun target ↦ ?_)
      refine ((fetchVerifiedBytes_spec hc).mono (fun _ h ↦ h.1) (fun _ _ h ↦ h.1) (fun _ _ h ↦ h)).bind
        (fun bytes ↦ (ih _).bind (fun staged ↦ Triple.pure (fun w h ↦ ⟨h.1, ?_⟩)))
      obtain ⟨hmem, hhash⟩ := originalOf_mem horiginal
      refine h.2.cons hplanned (List.subset_cons_self _ _) (List.Subset.refl _) ?_
        (provided_reuse horiginal List.mem_cons_self rfl rfl rfl)
      exact List.forall_mem_cons.mpr ⟨⟨hmem, hhash, hreference.2⟩, h.2.sound⟩
    | none =>
      dsimp only
      refine (idle_spec (fun t ↦ targetPath_spec hc)).bind (fun target ↦ ?_)
      refine Triple.mono (P := fun w ↦ Idle s root w ∧ target = localCopy root reference.hash reference.leaf)
        (Triple.of_and (fun htarget ↦ ?_)) (fun _ h ↦ h) (fun _ _ h ↦ h) (fun _ _ h ↦ h)
      subst htarget
      have hask (test : FileSystem → Bool) (path : Path) (fact : Bool → Fact) :
          Keeps s root (ask s.toOthers test path fact) := keeps_ask hc test path fact
      have hfound : Keeps s root (either
          (fileExistsP s.toOthers (localCopy root reference.hash reference.leaf))
          (fileSymlinkP s.toOthers (localCopy root reference.hash reference.leaf))) :=
        (hask _ _ _).bind (fun _ ↦ Keeps.ite (keeps_pure _) (hask _ _ _))
      refine hfound.idle.bind (fun found ↦ Triple.ite (fun _ ↦ ?_) (fun _ ↦ ?_))
      · have hexisting := (idle_spec (fun t ↦ requireExistingCopy_spec hc root
          (localCopy root reference.hash reference.leaf) reference.hash t)).along (fun _ _ h ↦ h.grows)
        refine hexisting.bind (fun _ ↦ ?_)
        refine (Triple.mono ((ih (referenceKey reference.hash reference.leaf :: seen)).frame
          (F := fun w ↦ SawCopy s w.log (localCopy root reference.hash reference.leaf) reference.hash)
          (fun _ _ hgrows hsaw ↦ hsaw.mono hgrows.subset)) (fun _ h ↦ h) (fun _ _ h ↦ h)
          (fun _ _ h ↦ h.1)).bind (fun staged ↦ Triple.pure (fun w h ↦ ⟨h.1.1, ?_⟩))
        exact h.1.2.cons hplanned (List.Subset.refl _) (List.Subset.refl _) h.1.2.sound
          (provided_saw horiginal h.2)
      · refine ((fetchVerifiedBytes_spec hc).mono (fun _ h ↦ h) (fun _ _ h ↦ h.1) (fun _ _ h ↦ h)).bind
          (fun bytes ↦ (ih _).bind (fun staged ↦ Triple.pure (fun w h ↦ ⟨h.1, ?_⟩)))
        exact h.2.cons hplanned (List.Subset.refl _) (List.subset_cons_self _ _) h.2.sound
          (provided_fallback horiginal List.mem_cons_self rfl rfl)

end Staging

section Stage

variable (s : Surroundings) (root : Path) (proof : Option OriginalProof)

/-- A reference leads to the native target of its media or to an original that the stage reuses. -/
def Linked (staged : Staged) (w : World) (before after : Reference) : Prop :=
  SameMedia before after ∧
    ((after.target = before.target ∧
        (SawCopy s w.log (localCopy root before.hash before.leaf) before.hash ∨
          ∃ fallback ∈ staged.fallbacks, fallback.hash = before.hash ∧ fallback.leaf = before.leaf)) ∨
      ∃ reuse ∈ staged.reuses, reuse.fallback.hash = before.hash ∧ reuse.fallback.leaf = before.leaf ∧
        after.target = reuse.original.spelling)

structure IsStage (plan : Plan) (staged : Staged) (w : World) : Prop where
  format : staged.plan.format = plan.format
  body : staged.plan.body = plan.body
  linked : List.Forall₂ (Linked s root staged w) plan.references staged.plan.references
  sound : ∀ reuse ∈ staged.reuses, SoundReuse plan.format proof reuse

variable {s root proof} {plan : Plan} {staged : Staged} {rejected : List Reuse} {w w' : World}
  {before after : Reference}

theorem Linked.mono (hgrows : Grows w w') (h : Linked s root staged w before after) :
    Linked s root staged w' before after := by
  obtain ⟨hsame, ⟨htarget, hsaw | hfallback⟩ | hreuse⟩ := h
  · exact ⟨hsame, .inl ⟨htarget, .inl (hsaw.mono hgrows.subset)⟩⟩
  · exact ⟨hsame, .inl ⟨htarget, .inr hfallback⟩⟩
  · exact ⟨hsame, .inr hreuse⟩

theorem IsStage.mono (hgrows : Grows w w') (h : IsStage s root proof plan staged w) :
    IsStage s root proof plan staged w' :=
  ⟨h.format, h.body, h.linked.imp (fun _ _ hlinked ↦ hlinked.mono hgrows), h.sound⟩

theorem linked_stagedReference {reuses : List Reuse} {fallbacks : List Fallback} {staged : Plan}
    (h : Provided s root proof reuses fallbacks w before) :
    Linked s root ⟨staged, reuses, fallbacks⟩ w before (stagedReference proof before) := by
  refine ⟨⟨rfl, rfl, rfl, rfl⟩, ?_⟩
  unfold Provided at h
  unfold stagedReference
  dsimp only
  cases horiginal : originalOf proof before.hash with
  | none =>
    rw [horiginal] at h
    exact .inl ⟨rfl, h⟩
  | some original =>
    rw [horiginal] at h
    obtain ⟨reuse, hmem, rfl, hhash, hleaf⟩ := h
    exact .inr ⟨reuse, hmem, hhash, hleaf, rfl⟩

theorem isStage_of_stagedEach {result : List Reference × List Reuse × List Fallback}
    (h : StagedEach s root plan.format proof [] plan.references result w) :
    IsStage s root proof plan ⟨{ plan with references := result.1 }, result.2.1, result.2.2⟩ w where
  format := rfl
  body := rfl
  sound := h.sound
  linked := by
    dsimp only
    rw [h.rewritten, List.forall₂_map_right_iff, List.forall₂_same]
    intro before hmem
    exact linked_stagedReference ((h.provided before hmem).resolve_left List.not_mem_nil)

theorem stageMedia_spec (hc : Considerate s.toOthers) {instanceId : List Char}
    (hplanned : ∀ reference ∈ plan.references, isPlanned plan.format reference) :
    Triple Grows (Idle s root) (stageMedia s root instanceId proof plan)
      (fun staged w ↦ Idle s root w ∧ IsStage s root proof plan staged w) (fun _ ↦ Idle s root) := by
  refine (keeps_insistOn _ _ _).idle.bind (fun _ ↦ ?_)
  exact (stageEach_spec hc hplanned).bind (fun result ↦ Triple.pure (fun w h ↦
    ⟨h.1, isStage_of_stagedEach h.2⟩))

theorem rejectedFallback_some {fallback : Fallback}
    (h : rejectedFallback rejected after = some fallback) :
    (∃ reuse ∈ rejected, reuse.fallback = fallback) ∧ fallback.hash = after.hash ∧
      fallback.leaf = after.leaf := by
  have hsame := List.find?_some (p := fun fallback : Fallback ↦
    decide (fallback.hash = after.hash ∧ fallback.leaf = after.leaf)) h
  refine ⟨?_, of_decide_eq_true hsame⟩
  exact List.mem_map.mp (List.mem_reverse.mp (List.mem_of_find?_eq_some h))

theorem rejectedFallback_none {reuse : Reuse} (h : rejectedFallback rejected after = none)
    (hhash : reuse.fallback.hash = after.hash) (hleaf : reuse.fallback.leaf = after.leaf) :
    reuse ∉ rejected := by
  intro hmem
  have hmem : reuse.fallback ∈ (rejected.map Reuse.fallback).reverse :=
    List.mem_reverse.mpr (List.mem_map_of_mem hmem)
  exact List.find?_eq_none.mp h _ hmem (decide_eq_true ⟨hhash, hleaf⟩)

/-- A reference whose reuse is rejected goes back to the native target. -/
theorem Linked.withFallbacks (h : Linked s root staged w before after) (hplanned : isPlanned plan.format before)
    (hsound : ∀ reuse ∈ staged.reuses, SoundReuse plan.format proof reuse)
    (hrejected : ∀ reuse ∈ rejected, reuse ∈ staged.reuses) :
    Linked s root (withReuseFallbacks staged rejected) w before
      (match rejectedFallback rejected after with
        | some fallback => { after with target := fallback.nativeTarget }
        | none => after) := by
  obtain ⟨⟨hurl, hhash, hleaf, hreplacements⟩, hlinked⟩ := h
  cases hfound : rejectedFallback rejected after with
  | some fallback =>
    obtain ⟨⟨reuse, hmem, rfl⟩, hfhash, hfleaf⟩ := rejectedFallback_some hfound
    refine ⟨⟨hurl, hhash, hleaf, hreplacements⟩, .inl ⟨?_, .inr ⟨reuse.fallback, ?_, ?_, ?_⟩⟩⟩
    · exact (hsound reuse (hrejected reuse hmem)).native.trans
        (by rw [hplanned.2, hfhash, hfleaf, hhash, hleaf])
    · exact List.mem_append_right _ (List.mem_map_of_mem hmem)
    · exact hfhash.trans hhash
    · exact hfleaf.trans hleaf
  | none =>
    refine ⟨⟨hurl, hhash, hleaf, hreplacements⟩, ?_⟩
    rcases hlinked with ⟨htarget, hsaw | ⟨fallback, hmem, hsame⟩⟩ | ⟨reuse, hmem, hrhash, hrleaf, htarget⟩
    · exact .inl ⟨htarget, .inl hsaw⟩
    · exact .inl ⟨htarget, .inr ⟨fallback, List.mem_append_left _ hmem, hsame⟩⟩
    · refine .inr ⟨reuse, List.mem_filter.mpr ⟨hmem, decide_eq_true ?_⟩, hrhash, hrleaf, htarget⟩
      exact rejectedFallback_none hfound (hrhash.trans hhash.symm) (hrleaf.trans hleaf.symm)

theorem IsStage.withFallbacks (h : IsStage s root proof plan staged w)
    (hplanned : ∀ reference ∈ plan.references, isPlanned plan.format reference)
    (hrejected : ∀ reuse ∈ rejected, reuse ∈ staged.reuses) :
    IsStage s root proof plan (withReuseFallbacks staged rejected) w where
  format := h.format
  body := h.body
  sound reuse hmem := h.sound reuse (List.mem_of_mem_filter hmem)
  linked := by
    refine List.forall₂_map_right_iff.mpr ?_
    have hboth := (List.forall₂_and_left plan.references staged.plan.references).mpr
      ⟨hplanned, h.linked⟩
    exact hboth.imp (fun before after hlinked ↦ hlinked.2.withFallbacks hlinked.1 h.sound hrejected)

end Stage

section Originals

variable (s : Surroundings) (root : Path)

/-- The directories between a root and a path. -/
def onTheWay : Path → List (List Char) → List Path
  | component, part :: next :: parts =>
    expandFileName part component :: onTheWay (expandFileName part component) (next :: parts)
  | _, _ => []

def SawDirectory (log : List Event) (directory : Path) : Prop :=
  .saw directory (.symlink false) ∈ log ∧ .saw directory (.directory true) ∈ log

/-- Seen below the root as a readable regular file, with no symbolic link on the way. -/
structure SawOriginal (log : List Event) (path : Path) : Prop where
  below : .saw path (.inDirectory root true) ∈ log
  symlink : .saw path (.symlink false) ∈ log
  regular : .saw path (.regular true) ∈ log
  readable : .saw path (.readable true) ∈ log
  directories : ∀ directory ∈ root :: onTheWay root (relativeParts root path), SawDirectory log directory

def SawContent (log : List Event) (path : Path) (hash : List Char) : Prop :=
  ∃ bytes, .saw path (.content bytes) ∈ log ∧ s.sha256 bytes = hash

/-- The original is at both of its places with the content of its hash. -/
def Reverified (log : List Event) (original : OriginalDestination) : Prop :=
  ∀ path ∈ [original.sourcePath, original.finalPath],
    SawOriginal root log path ∧ SawContent s log path original.hash

/-- A test that only looks. Its facts have been seen when the answer is yes. -/
def Sees (p : Step Bool) (facts : List Event → Prop) : Prop :=
  Triple Looks (Idle s root) p
    (fun answer w ↦ Idle s root w ∧ (answer = true → facts (recent w.log))) (fun _ ↦ Idle s root)

variable {s root} {p q : Step Bool} {facts facts' : List Event → Prop} {log log' : List Event} {path : Path}
  {hash : List Char}

theorem SawDirectory.mono {directory : Path} (h : log ⊆ log') (hsaw : SawDirectory log directory) :
    SawDirectory log' directory :=
  ⟨h hsaw.1, h hsaw.2⟩

theorem SawOriginal.mono (h : log ⊆ log') (hsaw : SawOriginal root log path) :
    SawOriginal root log' path :=
  ⟨h hsaw.below, h hsaw.symlink, h hsaw.regular, h hsaw.readable, fun directory hmem ↦
    (hsaw.directories directory hmem).mono h⟩

theorem SawContent.mono (h : log ⊆ log') (hsaw : SawContent s log path hash) :
    SawContent s log' path hash := by
  obtain ⟨bytes, hbytes, hhash⟩ := hsaw
  exact ⟨bytes, h hbytes, hhash⟩

theorem Sees.both (hp : Sees s root p facts) (hq : Sees s root q facts')
    (hmono : ∀ log log', log ⊆ log' → facts log → facts log') :
    Sees s root (both p q) (fun log ↦ facts log ∧ facts' log) := by
  refine both_spec (R := fun answer w ↦ Idle s root w ∧ (answer = true → facts (recent w.log))) hp ?_ ?_
  · refine (hq.frame (F := fun w ↦ facts (recent w.log)) (fun _ _ hlooks ↦ hmono _ _ hlooks.recent)).mono
      (fun w h ↦ ⟨h.1, h.2 rfl⟩) (fun answer w h ↦ ?_) (fun _ _ h ↦ h.1)
    exact ⟨h.1.1, fun hyes ↦ ⟨h.2, h.1.2 hyes⟩⟩
  · exact fun w h ↦ ⟨h.1, fun hyes ↦ absurd hyes Bool.false_ne_true⟩

theorem Sees.imp (h : Sees s root p facts) (himp : ∀ log, facts log → facts' log) :
    Sees s root p facts' :=
  h.mono (fun _ hw ↦ hw) (fun _ _ hw ↦ ⟨hw.1, fun hyes ↦ himp _ (hw.2 hyes)⟩) (fun _ _ hw ↦ hw)

theorem sees_ask (root : Path) (hc : Considerate s.toOthers) (test : FileSystem → Bool) (path : Path)
    (fact : Bool → Fact) :
    Sees s root (ask s.toOthers test path fact) (fun log ↦ .saw path (fact true) ∈ log) := by
  refine idle_spec (fun t ↦ (ask_spec hc _ _ path test fact).mono (fun _ h ↦ h) (fun answer w h ↦ ⟨h.1, ?_⟩)
    (fun _ _ h ↦ h.elim))
  intro hyes
  have hsaw := h.2.2
  rwa [hyes] at hsaw

theorem sees_negated_ask (root : Path) (hc : Considerate s.toOthers) (test : FileSystem → Bool) (path : Path)
    (fact : Bool → Fact) :
    Sees s root (negated (ask s.toOthers test path fact)) (fun log ↦ .saw path (fact false) ∈ log) := by
  refine negated_spec (idle_spec (fun t ↦ (ask_spec hc _ _ path test fact).mono (fun _ h ↦ h)
    (fun answer w h ↦ ⟨h.1, ?_⟩) (fun _ _ h ↦ h.elim)))
  intro hno
  have hsaw := h.2.2
  rw [Bool.not_eq_true'] at hno
  rwa [hno] at hsaw

theorem sees_fileSha256 (root : Path) (hc : Considerate s.toOthers) (path : Path) (hash : List Char) :
    Sees s root (do return hash = (← fileSha256 s path)) (fun log ↦ SawContent s log path hash) := by
  refine (idle_spec (fun t ↦ fileSha256_spec hc root path t)).bind (fun found ↦ Triple.pure (fun w h ↦ ⟨h.1, ?_⟩))
  intro hyes
  obtain ⟨bytes, hsaw, hhash, -⟩ := h.2
  exact ⟨bytes, hsaw, hhash.trans (of_decide_eq_true hyes).symm⟩

theorem sees_safeDirectory (root : Path) (hc : Considerate s.toOthers) (directory : Path) :
    Sees s root (safeDirectory s directory) (fun log ↦ SawDirectory log directory) := by
  refine ((sees_negated_ask root hc _ _ _).both ((sees_ask root hc _ _ _).both (sees_ask root hc _ _ _)
    (fun _ _ h hmem ↦ h hmem)) (fun _ _ h hmem ↦ h hmem)).imp (fun log h ↦ ?_)
  exact ⟨h.1, h.2.2⟩

theorem sees_safeDirectories (root : Path) (hc : Considerate s.toOthers) (component : Path) (parts : List (List Char)) :
    Sees s root (safeDirectories s component parts)
      (fun log ↦ ∀ directory ∈ onTheWay component parts, SawDirectory log directory) := by
  induction parts generalizing component with
  | nil => exact Triple.pure (fun _ h ↦ ⟨h, fun _ _ hmem ↦ absurd hmem List.not_mem_nil⟩)
  | cons part parts ih =>
    cases parts with
    | nil => exact Triple.pure (fun _ h ↦ ⟨h, fun _ _ hmem ↦ absurd hmem List.not_mem_nil⟩)
    | cons next parts =>
      refine ((sees_safeDirectory root hc _).both (ih _)
        (fun _ _ h hsaw ↦ hsaw.mono h)).imp (fun log h ↦ ?_)
      exact List.forall_mem_cons.mpr h

theorem sees_originalSafeRegularP (hc : Considerate s.toOthers) (path : Path) :
    Sees s root (originalSafeRegularP s root path) (fun log ↦ SawOriginal root log path) := by
  have hmem (e : Event) (log log' : List Event) (h : log ⊆ log') (hin : e ∈ log) : e ∈ log' := h hin
  have hregular : Sees s root (fileRegularP s.toOthers path)
      (fun log ↦ Event.saw path (.regular true) ∈ log) := sees_ask root hc _ path .regular
  have hreadable : Sees s root (fileReadableP s.toOthers path)
      (fun log ↦ Event.saw path (.readable true) ∈ log) := sees_ask root hc _ path .readable
  have hfile := hregular.both hreadable (hmem _)
  have hway := (sees_safeDirectories root hc root (relativeParts root path)).both hfile
    (fun _ _ h hsaw directory hin ↦ (hsaw directory hin).mono h)
  have hroot := (sees_safeDirectory root hc root).both hway
    (fun _ _ h hsaw ↦ hsaw.mono h)
  refine ((sees_ask root hc _ _ _).both ((sees_negated_ask root hc _ _ _).both ((sees_ask root hc _ _ _).both hroot
    (hmem _)) (hmem _)) (hmem _)).imp (fun log h ↦ ?_)
  obtain ⟨hbelow, hsymlink, -, hdirectory, hdirectories, hregular, hreadable⟩ := h
  exact ⟨hbelow, hsymlink, hregular, hreadable, List.forall_mem_cons.mpr ⟨hdirectory, hdirectories⟩⟩

theorem sees_reuseStillEligibleP (hc : Considerate s.toOthers) (reuse : Reuse) :
    Sees s root (reuseStillEligibleP s root reuse) (fun log ↦ Reverified s root log reuse.original) := by
  have hcontent := (sees_fileSha256 root hc reuse.original.sourcePath reuse.original.hash).both
    (sees_fileSha256 root hc reuse.original.finalPath reuse.original.hash) (fun _ _ h hsaw ↦ hsaw.mono h)
  refine ((sees_originalSafeRegularP hc _).both ((sees_originalSafeRegularP hc _).both hcontent
    (fun _ _ h hsaw ↦ hsaw.mono h)) (fun _ _ h hsaw ↦ hsaw.mono h)).imp (fun log h ↦ ?_)
  obtain ⟨hsource, hfinal, hsourceContent, hfinalContent⟩ := h
  exact List.forall_mem_cons.mpr ⟨⟨hsource, hsourceContent⟩,
    List.forall_mem_singleton.mpr ⟨hfinal, hfinalContent⟩⟩

end Originals

section Settling

variable {s : Surroundings} {root : Path} {proof : Option OriginalProof} {plan : Plan} {media : Staged}
  {instanceId : List Char}

theorem rejectedReuses_spec (root : Path) (hc : Considerate s.toOthers) (reuses : List Reuse) :
    Triple Looks (Idle s root) (rejectedReuses s root reuses)
      (fun rejected w ↦ Idle s root w ∧ ∀ reuse ∈ reuses, reuse ∈ rejected.1 ∨
        Reverified s root (recent w.log) reuse.original) (fun _ ↦ Idle s root) := by
  induction reuses with
  | nil => exact Triple.pure (fun _ h ↦ ⟨h, fun _ hmem ↦ absurd hmem List.not_mem_nil⟩)
  | cons reuse reuses ih =>
    refine (sees_reuseStillEligibleP hc reuse).bind (fun eligible ↦ ?_)
    have hrest := ih.frame (F := fun w ↦ eligible = true → Reverified s root (recent w.log) reuse.original)
      (fun _ _ hlooks hseen hyes path hpath ↦ ((hseen hyes path hpath).imp
        (fun hsaw ↦ hsaw.mono hlooks.recent) (fun hsaw ↦ hsaw.mono hlooks.recent)))
    refine (hrest.mono (fun _ h ↦ h) (fun _ _ h ↦ h) (fun _ _ h ↦ h.1)).bind (fun rejected ↦ ?_)
    obtain ⟨rejected, hsublist⟩ := rejected
    dsimp only
    cases eligible with
    | true =>
      refine Triple.pure (fun w h ↦ ⟨h.1.1, List.forall_mem_cons.mpr ⟨.inr (h.2 rfl), h.1.2⟩⟩)
    | false =>
      refine Triple.pure (fun w h ↦ ⟨h.1.1, List.forall_mem_cons.mpr ⟨.inl List.mem_cons_self, ?_⟩⟩)
      exact fun other hother ↦ (h.1.2 other hother).imp_left (List.mem_cons_of_mem reuse)

/-- A stage with a copy for each of its fallbacks. -/
def InstalledStage (s : Surroundings) (root : Path) (proof : Option OriginalProof) (plan : Plan) (media : Staged)
    (w : World) : Prop :=
  (Idle s root w ∧ Covered s root media.fallbacks w) ∧ IsStage s root proof plan media w

theorem finalize_spec (hc : Considerate s.toOthers) (plan : Plan) (proof : Option OriginalProof) :
    Triple Grows (fun w ↦ Idle s root w ∧ IsStage s root proof plan media w) (finalizeStaged s root media)
      (fun _ ↦ InstalledStage s root proof plan media) (fun _ ↦ Idle s root) :=
  ((finalizeStaged_spec hc media).frame (fun _ _ hgrows h ↦ IsStage.mono hgrows h)).mono
    (fun _ h ↦ h) (fun _ _ h ↦ h) (fun _ _ h ↦ h.1)

/-- The reuses that are left have been verified again since the last change. -/
theorem settleReuses_spec (hc : Considerate s.toOthers)
    (hplanned : ∀ reference ∈ plan.references, isPlanned plan.format reference) :
    Triple Grows (InstalledStage s root proof plan media) (settleReuses s root media)
      (fun media w ↦ InstalledStage s root proof plan media w ∧
        ∀ reuse ∈ media.reuses, Reverified s root (recent w.log) reuse.original)
      (fun _ ↦ Idle s root) := by
  induction hlength : media.reuses.length using Nat.strong_induction_on generalizing media with
  | _ n ih =>
    rw [settleReuses]
    have hcheck := ((rejectedReuses_spec root hc media.reuses).along
      (fun _ _ h ↦ h.grows)).frame (F := fun w ↦ Covered s root media.fallbacks w ∧
        IsStage s root proof plan media w) (fun _ _ hgrows h ↦ ⟨h.1.mono hgrows, h.2.mono hgrows⟩)
    refine (hcheck.mono (fun _ h ↦ ⟨h.1.1, h.1.2, h.2⟩) (fun _ _ h ↦ h) (fun _ _ h ↦ h.1)).bind
      (fun rejected ↦ ?_)
    obtain ⟨rejected, hsublist⟩ := rejected
    dsimp only
    split
    · rename_i hnone
      refine Triple.pure (fun w h ↦ ⟨⟨⟨h.1.1, h.2.1⟩, h.2.2⟩, fun reuse hmem ↦ ?_⟩)
      refine (h.1.2 reuse hmem).resolve_left (fun hrejected ↦ ?_)
      rw [hnone] at hrejected
      exact List.not_mem_nil hrejected
    · rename_i hsome
      split
      · exact Triple.signal (fun _ h ↦ h.1.1)
      · rename_i media' hmedia
        have hshorter := length_stagedWithReuseFallbacks hsome hmedia
        unfold stagedWithReuseFallbacks at hmedia
        split at hmedia
        · rename_i hsub
          cases hmedia
          refine ((finalize_spec hc plan proof).mono
            (fun w h ↦ ⟨h.1.1, h.2.2.withFallbacks hplanned hsub⟩) (fun _ _ h ↦ h)
            (fun _ _ h ↦ h)).bind (fun _ ↦ ?_)
          exact ih _ (hlength ▸ hshorter) rfl
        · cases hmedia

end Settling

section Pulls

/-- A process that has changed nothing yet. -/
def World.fresh (fs : FileSystem) (clock : ℕ) : World := ⟨fs, clock, [], []⟩

variable (s : Surroundings) (root : Path) (proof : Option OriginalProof)

/-- Every change is to a name where there was nothing or to the process's own file, every copy is a good
one, and no temporary is left. -/
structure Harmless (w : World) : Prop where
  own : Own w.log
  copies : ∀ p before entry, .put .copy p before (some entry) ∈ w.log → GoodCopy s root p entry
  gone : ∀ p ∈ w.names, (∀ entry, left w.log p ≠ some (.temporary, entry)) ∧
    w.fs.entry p = (left w.log p).map Prod.snd

/-- A reference leads to a copy with the content of its hash, or to an original that has had it since
the last change. -/
def Served (log : List Event) (before after : Reference) : Prop :=
  SameMedia before after ∧
    ((after.target = before.target ∧
        CopyVerified s log (localCopy root before.hash before.leaf) before.hash) ∨
      ∃ original ∈ proof.getD [], original.hash = before.hash ∧ after.target = original.spelling ∧
        Reverified s root (recent log) original)

variable {μ : Type} (renderPulledMember : μ → List Char → List Char)

/-- The bytes of a Member are those of its plan with every reference served. -/
def Localized (plan : Plan) (member : μ) (bytes : List Char) (log : List Event) : Prop :=
  ∃ final : Plan, final.format = plan.format ∧ final.body = plan.body ∧
    List.Forall₂ (Served s root proof log) plan.references final.references ∧
    ∃ body, applyPlan final = .ok body ∧ bytes = renderPulledMember member body

variable {s root proof renderPulledMember} {plan : Plan} {media : Staged} {w : World} {before after : Reference}
  {instanceId : List Char} {member : μ}

theorem Idle.harmless (h : Idle s root w) : Harmless s root w := by
  obtain ⟨t, hw, hidle⟩ := h
  refine ⟨hw.own, hw.copies, fun p hp ↦ ⟨?_, hw.kept p hp⟩⟩
  have hheld := hw.held p
  cases ht : t p with
  | none =>
    rw [ht] at hheld
    exact absurd hp hheld
  | some content =>
    cases content with
    | none =>
      rw [ht] at hheld
      exact hheld.2
    | some bytes => exact absurd ht (hidle p bytes)

theorem idle_fresh (fs : FileSystem) (clock : ℕ) : Idle s root (World.fresh fs clock) := by
  refine ⟨fun _ ↦ none, ⟨trivial, fun p hp ↦ ?_, fun p before entry hmem ↦ ?_, fun p hp ↦ ?_⟩,
    fun p bytes h ↦ ?_⟩
  · exact absurd hp List.not_mem_nil
  · exact absurd hmem List.not_mem_nil
  · exact absurd hp List.not_mem_nil
  · cases h

theorem Linked.served (h : Linked s root media w before after)
    (hcovered : Covered s root media.fallbacks w)
    (hsound : ∀ reuse ∈ media.reuses, SoundReuse plan.format proof reuse)
    (hreverified : ∀ reuse ∈ media.reuses, Reverified s root (recent w.log) reuse.original) :
    Served s root proof w.log before after := by
  obtain ⟨hsame, ⟨htarget, hsaw | ⟨fallback, hmem, hhash, hleaf⟩⟩ | ⟨reuse, hmem, hhash, -, htarget⟩⟩ := h
  · exact ⟨hsame, .inl ⟨htarget, .inl hsaw⟩⟩
  · have hverified := hcovered fallback hmem
    rw [hhash, hleaf] at hverified
    exact ⟨hsame, .inl ⟨htarget, hverified⟩⟩
  · exact ⟨hsame, .inr ⟨reuse.original, (hsound reuse hmem).original,
      (hsound reuse hmem).hash.trans hhash, htarget, hreverified reuse hmem⟩⟩

theorem InstalledStage.served (h : InstalledStage s root proof plan media w)
    (hreverified : ∀ reuse ∈ media.reuses, Reverified s root (recent w.log) reuse.original) :
    List.Forall₂ (Served s root proof w.log) plan.references media.plan.references :=
  h.2.linked.imp (fun _ _ hlinked ↦ hlinked.served h.1.2 h.2.sound hreverified)

theorem ofExcept_spec {α : Type} {P : World → Prop} {E : Signal → World → Prop} (result : Except Signal α)
    (hE : ∀ e w, P w → E e w) :
    Triple Grows P (ofExcept result) (fun a w ↦ P w ∧ result = .ok a) E := by
  cases result with
  | ok a => exact Triple.pure (fun _ h ↦ ⟨h, rfl⟩)
  | error e => exact Triple.signal (fun w h ↦ hE e w h)

/-- Without a proof every reference has its copy. -/
theorem materialize_spec (hc : Considerate s.toOthers)
    (hplanned : ∀ reference ∈ plan.references, isPlanned plan.format reference) :
    Triple Grows (Idle s root) (materialize s root instanceId plan)
      (fun _ w ↦ Idle s root w ∧
        List.Forall₂ (Served s root none w.log) plan.references plan.references) (fun _ ↦ Idle s root) := by
  refine (stageMedia_spec hc hplanned).bind (fun media ↦ ?_)
  refine (finalize_spec hc plan none).mono (fun _ h ↦ h) (fun _ w h ↦ ⟨h.1.1, ?_⟩)
    (fun _ _ h ↦ h)
  have hnone : ∀ reuse ∈ media.reuses, False := fun reuse hmem ↦
    List.not_mem_nil (h.2.sound reuse hmem).original
  have hserved := h.served (fun reuse hmem ↦ (hnone reuse hmem).elim)
  refine List.forall₂_same.mpr ((List.forall₂_and_left _ _).mp (hserved.imp
    (fun before after hafter ↦ ⟨?_, hafter⟩))).1
  rcases hafter with ⟨-, ⟨-, hverified⟩ | ⟨original, hmem, -⟩⟩
  · exact ⟨⟨rfl, rfl, rfl, rfl⟩, .inl ⟨rfl, hverified⟩⟩
  · exact absurd hmem List.not_mem_nil

/-- What a pulled Member has on its way to its file. -/
def MemberStaged (s : Surroundings) (root : Path) (proof : Option OriginalProof)
    (renderPulledMember : μ → List Char → List Char) (plan : Plan) (member : μ) (staged : StagedMember μ)
    (w : World) : Prop :=
  staged.pulledMember = member ∧
    match staged.mediaStaged with
    | some media => IsStage s root proof plan media w
    | none => Localized s root proof renderPulledMember plan member staged.bytes w.log

theorem pullStageMember_spec (hc : Considerate s.toOthers)
    (hplanned : ∀ reference ∈ plan.references, isPlanned plan.format reference) :
    Triple Grows (Idle s root) (pullStageMember s root renderPulledMember instanceId proof plan member)
      (fun staged w ↦ Idle s root w ∧ MemberStaged s root proof renderPulledMember plan member staged w)
      (fun _ ↦ Idle s root) := by
  unfold pullStageMember stageProved
  cases proof with
  | some originals =>
    refine Triple.bind (Q := fun staged w ↦ Idle s root w ∧ ∃ media, staged = some media ∧
      IsStage s root (some originals) plan media w) ((stageMedia_spec hc hplanned).bind (fun media ↦
        Triple.pure (fun _ h ↦ ⟨h.1, media, rfl, h.2⟩))) (fun staged ↦ ?_)
    refine (ofExcept_spec _ (fun _ _ h ↦ h.1)).bind (fun body ↦ Triple.pure (fun w h ↦ ⟨h.1.1, rfl, ?_⟩))
    obtain ⟨⟨-, media, rfl, hstage⟩, -⟩ := h
    exact hstage
  | none =>
    refine Triple.bind (Q := fun staged w ↦ (Idle s root w ∧
      List.Forall₂ (Served s root none w.log) plan.references plan.references) ∧ staged = none)
      ((materialize_spec hc hplanned).bind (fun _ ↦ Triple.pure (fun _ h ↦ ⟨h, rfl⟩))) (fun staged ↦ ?_)
    refine (ofExcept_spec _ (fun _ _ h ↦ h.1.1)).bind
      (fun body ↦ Triple.pure (fun w h ↦ ⟨h.1.1.1, rfl, ?_⟩))
    obtain ⟨⟨⟨-, hserved⟩, rfl⟩, hbody⟩ := h
    exact ⟨plan, rfl, rfl, hserved, body, hbody, rfl⟩

theorem finalizeStagedMedia_spec (hc : Considerate s.toOthers)
    (hplanned : ∀ reference ∈ plan.references, isPlanned plan.format reference) (staged : StagedMember μ) :
    Triple Grows (fun w ↦ Idle s root w ∧ MemberStaged s root proof renderPulledMember plan member staged w)
      (finalizeStagedMedia s root renderPulledMember staged)
      (fun staged w ↦ Idle s root w ∧
        Localized s root proof renderPulledMember plan member staged.bytes w.log) (fun _ ↦ Idle s root) := by
  unfold finalizeStagedMedia MemberStaged
  obtain ⟨mediaStaged, pulledMember, bytes⟩ := staged
  cases mediaStaged with
  | none => exact Triple.pure (fun _ h ↦ ⟨h.1, h.2.2⟩)
  | some media =>
    dsimp only
    refine Triple.mono (P := fun w ↦ (Idle s root w ∧ IsStage s root proof plan media w) ∧
      pulledMember = member) (Triple.of_and (fun hmember ↦ ?_)) (fun w h ↦ ⟨⟨h.1, h.2.2⟩, h.2.1⟩)
      (fun _ _ h ↦ h) (fun _ _ h ↦ h)
    refine (finalize_spec hc plan proof).bind (fun _ ↦ (settleReuses_spec hc hplanned).bind (fun media ↦ ?_))
    refine (ofExcept_spec _ (fun _ _ h ↦ h.1.1.1)).bind (fun body ↦ Triple.pure (fun w h ↦ ?_))
    obtain ⟨⟨hstage, hreverified⟩, hbody⟩ := h
    exact ⟨hstage.1.1, media.plan, hstage.2.format, hstage.2.body, hstage.served hreverified, body, hbody,
      by rw [hmember]⟩

theorem stageAndFinalize_spec (hc : Considerate s.toOthers)
    (hplanned : ∀ reference ∈ plan.references, isPlanned plan.format reference) :
    Triple Grows (Idle s root) (stageAndFinalize s root renderPulledMember instanceId proof plan member)
      (fun staged w ↦ Idle s root w ∧
        Localized s root proof renderPulledMember plan member staged.bytes w.log) (fun _ ↦ Idle s root) :=
  (pullStageMember_spec hc hplanned).bind (fun staged ↦ finalizeStagedMedia_spec hc hplanned staged)

/-- A pull that stages and finalizes the media of a Member harms no other file, whatever the server
answers, whichever operations fail and whatever the other processes do to the names that are not its
temporaries. When it succeeds, every reference of the rendered Post is served. -/
theorem harmless_stageAndFinalize (hc : Considerate s.toOthers) (plan : LocalizationPlan)
    (fs : FileSystem) (clock : ℕ) :
    let outcome := stageAndFinalize s root renderPulledMember instanceId proof plan.toPlan member
      (World.fresh fs clock)
    Harmless s root outcome.2 ∧ ∀ staged, outcome.1 = .ok staged →
      Localized s root proof renderPulledMember plan.toPlan member staged.bytes outcome.2.log := by
  intro outcome
  have h : EndsAt Grows _ _ (World.fresh fs clock) outcome :=
    stageAndFinalize_spec hc plan.planned _ (idle_fresh fs clock)
  refine ⟨?_, fun staged hstaged ↦ (h.returns staged hstaged).2⟩
  cases houtcome : outcome.1 with
  | ok staged => exact (h.returns staged houtcome).1.harmless
  | error e => exact (h.signals e houtcome).harmless

def emptySha256 : List Char :=
  "e3b0c44298fc1c149afbf4c8996fb92427ae41e4649b934ca495991b7852b855".toList

def loneInstance : List Char := "00000000-0000-0000-0000-000000000001".toList

/-- A server with one empty picture, and no other process. -/
def loneServer : Surroundings where
  between _ _ fs := fs
  fails _ := false
  deleteFails _ := false
  suffix n := List.replicate n 'x'
  torn _ := []
  respond _ _ := some ⟨200, [("X-Jaunder-Instance".toList, loneInstance),
    ("ETag".toList, "\"sha256-".toList ++ emptySha256 ++ ['"'])], []⟩
  temporaryFileDirectory := ["tmp".toList]
  sha256 bytes := if bytes = [] then emptySha256 else []

theorem considerate_loneServer : Considerate loneServer.toOthers :=
  ⟨fun _ _ _ _ _ ↦ rfl, fun _ ↦ rfl⟩

def blogRoot : Path := ["blog".toList]

def blogFiles : FileSystem where
  entry path := if path = blogRoot then some ⟨false, some .directory⟩ else none
  writable _ := true
  readable _ := true
  inDirectory path directory := directory.isPrefixOf path

theorem isSha256_emptySha256 : isSha256 emptySha256 = true := rfl

theorem encodeFilename_picture : "a.png".toList = encodeFilename "a.png".toList := rfl

def pictureUrl : MediaUrl where
  key := "https://blog.test/media/a.png".toList
  hash := emptySha256
  leaf := "a.png".toList
  encoded := "a.png".toList
  sha256 := isSha256_emptySha256
  canonical := encodeFilename_picture

def picturePlan : LocalizationPlan :=
  planMedia "org".toList "[[x]]".toList [(pictureUrl, ⟨2, 3, none, none⟩)]

theorem harmless_stageAndFinalize_picture :
    (let outcome := stageAndFinalize loneServer blogRoot (fun (_ : Unit) body ↦ body) loneInstance none
      picturePlan.toPlan () (World.fresh blogFiles 0)
    Harmless loneServer blogRoot outcome.2 ∧ ∀ staged, outcome.1 = .ok staged →
      Localized loneServer blogRoot none (fun (_ : Unit) body ↦ body) picturePlan.toPlan () staged.bytes
        outcome.2.log) ∧
    (stageAndFinalize loneServer blogRoot (fun (_ : Unit) body ↦ body) loneInstance none
      picturePlan.toPlan () (World.fresh blogFiles 0)).1.toOption.isSome = true :=
  ⟨harmless_stageAndFinalize considerate_loneServer picturePlan blogFiles 0, by decide +kernel⟩

end Pulls

end Jaunder.Elisp.StagedMedia
