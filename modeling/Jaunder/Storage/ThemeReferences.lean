import Jaunder.Storage.SystemThemes
import Jaunder.Storage.ThemePublication

namespace Jaunder.Storage.ThemeReferences

open Foundation.Ledger Foundation.Outcome
open Jaunder.Common.Hash
open Jaunder.Storage.SystemThemes Jaunder.Storage.ThemeBooks Jaunder.Storage.ThemePublication
open Jaunder.Storage.Themes

/-- The references of all the owners to a digest. -/
def customLive (t : ThemeTables) (digest : ContentHash) : ℤ :=
  total (fun key row ↦ if key.2 = digest then row.liveReferences else 0) t.charges

/-- A step of a custom catalog: what an owner takes or gives back moves both counters, no row of the
eligibility table goes, and new ones come only for the digests in `added`. -/
structure Moved (added : List ContentHash) (t t' : ThemeTables) : Prop where
  shift : ∀ d, eligibleLive t' d - customLive t' d = eligibleLive t d - customLive t d
  kept : ∀ deadline d, Kept deadline d t → Kept deadline d t'
  system : t'.systemReferences = t.systemReferences
  rows : ∀ d ∈ t'.eligibility, d ∈ t.eligibility ∨ d ∈ added

variable {added : List ContentHash} {t t' t'' : ThemeTables} {owner : ThemeOwner} {digest d : ContentHash}

theorem Moved.refl (t : ThemeTables) : Moved added t t :=
  ⟨fun _ ↦ rfl, fun _ _ h ↦ h, rfl, fun _ h ↦ .inl h⟩

theorem Moved.trans (h : Moved added t t') (h' : Moved added t' t'') : Moved added t t'' where
  shift := fun d ↦ (h'.shift d).trans (h.shift d)
  kept := fun deadline d hkept ↦ h'.kept deadline d (h.kept deadline d hkept)
  system := h'.system.trans h.system
  rows := by
    intro d hd
    rcases h'.rows d hd with hd | hd
    · exact h.rows d hd
    · exact .inr hd

/-- The content tables are as they were. -/
theorem Moved.of_same (hcharges : t'.charges = t.charges) (heligibility : t'.eligibility = t.eligibility)
    (hsystem : t'.systemReferences = t.systemReferences) : Moved added t t' := by
  refine ⟨fun d ↦ ?_, fun deadline d h ↦ ?_, hsystem, fun d h ↦ .inl ?_⟩
  · unfold eligibleLive customLive
    rw [hcharges, heligibility]
  · unfold Kept
    rw [heligibility]
    exact h
  · rw [← heligibility]
    exact h

theorem Moved.foldlM {α : Type} {f : ThemeTables → α → Except ThemeError ThemeTables} {l : List α}
    (hstep : ∀ t a t', f t a = .ok t' → Moved added t t') (h : l.foldlM f t = .ok t') :
    Moved added t t' := by
  induction l generalizing t with
  | nil =>
    obtain rfl := Except.ok.inj h
    exact .refl t
  | cons a l ih =>
    rw [List.foldlM_cons] at h
    obtain ⟨t₁, hfirst, h⟩ := bind_eq_ok.mp h
    exact (hstep t a t₁ hfirst).trans (ih h)

theorem customLive_insert {row : RetainedCharge}
    (h : t'.charges = t.charges.insert (owner, digest) row) (d : ContentHash) :
    customLive t' d = customLive t d +
      if d = digest then row.liveReferences - chargeLive t owner digest else 0 := by
  unfold customLive chargeLive
  rw [h, total_insert]
  by_cases hd : d = digest
  · have hentry : entry (fun key row ↦ if key.2 = d then row.liveReferences else 0) t.charges
        (owner, digest) = entry (fun _ row ↦ row.liveReferences) t.charges (owner, digest) := by
      unfold entry
      cases t.charges.lookup (owner, digest) with
      | none => rfl
      | some old => exact if_pos hd.symm
    rw [hentry, if_pos hd.symm, if_pos hd]
    ring
  · have hentry : entry (fun key row ↦ if key.2 = d then row.liveReferences else 0) t.charges
        (owner, digest) = 0 := by
      unfold entry
      cases t.charges.lookup (owner, digest) with
      | none => rfl
      | some old => exact if_neg (Ne.symm hd)
    rw [hentry, if_neg (Ne.symm hd), if_neg hd]
    ring

/-- The references to one digest change by `n` in both tables. -/
theorem Moved.of_insert {charge : RetainedCharge} {row row' : EligibilityRow} {n : ℤ}
    (hrow : t.eligibility.lookup digest = some row)
    (hcharges : t'.charges = t.charges.insert (owner, digest) charge)
    (heligibility : t'.eligibility = t.eligibility.insert digest row')
    (hcharge : charge.liveReferences = chargeLive t owner digest + n)
    (hlive : row'.liveReferences = row.liveReferences + n)
    (hlater : row.retainedUntil ≤ row'.retainedUntil)
    (hsystem : t'.systemReferences = t.systemReferences) : Moved added t t' := by
  refine ⟨fun d ↦ ?_, fun deadline d h ↦ kept_insert hrow hlater heligibility h, hsystem,
    fun d h ↦ .inl ?_⟩
  · rw [eligibleLive_insert heligibility, customLive_insert hcharges]
    by_cases hd : d = digest
    · have hentry : eligibleLive t digest = row.liveReferences := entry_of_lookup hrow
      rw [if_pos hd, if_pos hd, hd, hentry, hcharge, hlive]
      ring
    · rw [if_neg hd, if_neg hd, add_zero]
  · rw [heligibility, Finmap.mem_insert] at h
    rcases h with rfl | h
    · exact Finmap.mem_of_lookup_eq_some hrow
    · exact h

section Catalogs

variable {limits : ThemeQuotaLimits} {charge : ThemeContentCharge} {draft : ThemeDraft}
  {themeId retainedUntil : ℤ}

theorem upsert_moved {e : ThemeContentEligibility} (hadded : e.digest ∈ added) :
    Moved added t (upsertContentEligibility t e) := by
  have hrows : ∀ row, (upsertContentEligibility t e).eligibility = t.eligibility.insert e.digest row →
      ∀ d ∈ (upsertContentEligibility t e).eligibility, d ∈ t.eligibility ∨ d ∈ added := by
    intro row heligibility d hd
    rw [heligibility, Finmap.mem_insert] at hd
    rcases hd with rfl | hd
    · exact .inr hadded
    · exact .inl hd
  cases hrow : t.eligibility.lookup e.digest with
  | none =>
    have heligibility : (upsertContentEligibility t e).eligibility =
        t.eligibility.insert e.digest ⟨e.mime, e.retainedUntil, 0⟩ := by
      unfold upsertContentEligibility
      rw [hrow]
    refine ⟨fun d ↦ ?_, fun deadline d hkept ↦ ?_, rfl, hrows _ heligibility⟩
    · have hcustom : customLive (upsertContentEligibility t e) d = customLive t d := rfl
      rw [hcustom, eligibleLive_insert heligibility]
      by_cases hd : d = e.digest
      · have hentry : eligibleLive t e.digest = 0 := entry_of_none hrow
        rw [if_pos hd, hd, hentry]
      · rw [if_neg hd]
    · obtain ⟨row, hlookup, hdeadline⟩ := hkept
      refine ⟨row, ?_, hdeadline⟩
      rw [heligibility, lookup_insert_eq, if_neg]
      · exact hlookup
      · rintro rfl
        rw [hrow] at hlookup
        cases hlookup
  | some row =>
    have heligibility : (upsertContentEligibility t e).eligibility =
        t.eligibility.insert e.digest { row with
          mime := e.mime
          retainedUntil :=
            if e.retainedUntil > row.retainedUntil then e.retainedUntil else row.retainedUntil } := by
      unfold upsertContentEligibility
      rw [hrow]
    refine ⟨fun d ↦ ?_, fun deadline d hkept ↦ kept_insert hrow ?_ heligibility hkept, rfl,
      hrows _ heligibility⟩
    · have hcustom : customLive (upsertContentEligibility t e) d = customLive t d := rfl
      rw [hcustom, eligibleLive_insert heligibility]
      by_cases hd : d = e.digest
      · have hentry : eligibleLive t e.digest = row.liveReferences := entry_of_lookup hrow
        rw [if_pos hd, hd, hentry]
      · rw [if_neg hd]
    · dsimp only
      split_ifs with hlater
      · exact hlater.le
      · exact le_rfl

theorem upsertAll_moved {es : List ThemeContentEligibility}
    (hadded : ∀ e ∈ es, e.digest ∈ added) : Moved added t (es.foldl upsertContentEligibility t) := by
  induction es generalizing t with
  | nil => exact .refl t
  | cons e es ih =>
    exact (upsert_moved (hadded e List.mem_cons_self)).trans
      (ih (fun e he ↦ hadded e (List.mem_cons_of_mem _ he)))

theorem attachContent_moved (h : attachContent owner limits t charge = .ok t') : Moved added t t' := by
  obtain ⟨row, hrow, h⟩ := bind_eq_ok.mp h
  obtain ⟨t₁, hpaid, h⟩ := bind_eq_ok.mp h
  have hframe := (chargeBytes_paid hpaid).frame
  rw [hframe] at h
  obtain rfl := Except.ok.inj h
  refine .of_insert (n := 1) (orError_eq_ok.mp hrow) rfl rfl ?_ rfl le_rfl rfl
  unfold chargeLive entry oneMore
  cases t.charges.lookup (owner, charge.digest) with
  | none => rfl
  | some old => rfl

theorem retainRevision_moved (h : retainRevision t owner limits = .ok t') : Moved added t t' := by
  obtain ⟨_, -, h⟩ := bind_eq_ok.mp h
  obtain ⟨quota, -, h⟩ := bind_eq_ok.mp h
  obtain ⟨_, -, h⟩ := bind_eq_ok.mp h
  obtain rfl := Except.ok.inj h
  exact .of_same rfl rfl rfl

theorem attachRevisionContent_moved {charges : List ThemeContentCharge}
    (h : attachRevisionContent t owner limits charges = .ok t') : Moved added t t' := by
  obtain ⟨_, -, h⟩ := bind_eq_ok.mp h
  obtain ⟨t₁, hretain, h⟩ := bind_eq_ok.mp h
  exact (retainRevision_moved hretain).trans (.foldlM (fun _ _ _ ↦ attachContent_moved) h)

theorem recordRevision_moved {revision : ThemeRevision} {assets : List ThemePackageAsset}
    (h : recordRevision t owner revision assets = .ok t') : Moved added t t' := by
  obtain ⟨row, -, h⟩ := bind_eq_ok.mp h
  obtain ⟨_, -, h⟩ := bind_eq_ok.mp h
  obtain ⟨_, -, h⟩ := bind_eq_ok.mp h
  obtain ⟨_, -, h⟩ := bind_eq_ok.mp h
  obtain rfl := Except.ok.inj h
  exact .of_same rfl rfl rfl

theorem admitPublication_moved {admission : ThemePublicationAdmission}
    (hadded : ∀ e ∈ admission.eligibilities, e.digest ∈ added)
    (h : admitPublication t admission = .ok t') : Moved added t t' := by
  unfold admitPublication at h
  obtain ⟨_, -, h⟩ := bind_eq_ok.mp h
  obtain ⟨row, -, h⟩ := bind_eq_ok.mp h
  obtain ⟨_, -, h⟩ := bind_eq_ok.mp h
  dsimp only at h
  split_ifs at h
  · obtain rfl := Except.ok.inj h
    exact .refl t
  · obtain ⟨_, -, h⟩ := bind_eq_ok.mp h
    obtain ⟨t₁, hattach, h⟩ := bind_eq_ok.mp h
    exact ((upsertAll_moved hadded).trans (attachRevisionContent_moved hattach)).trans (recordRevision_moved h)

theorem createTheme_moved {text : NameText} {name : String} {id : ℤ}
    (h : createTheme text t owner name draft limits id = .ok t') : Moved added t t' := by
  obtain ⟨label, -, h⟩ := bind_eq_ok.mp h
  obtain ⟨bytes, -, h⟩ := bind_eq_ok.mp h
  obtain ⟨_, -, h⟩ := bind_eq_ok.mp h
  obtain ⟨_, -, h⟩ := bind_eq_ok.mp h
  obtain ⟨_, -, h⟩ := bind_eq_ok.mp h
  cases hsource : t.draftContents.lookup draft.sourceDigest with
  | none =>
    rw [hsource] at h
    obtain rfl := Except.ok.inj h
    exact .of_same rfl rfl rfl
  | some row =>
    rw [hsource] at h
    obtain rfl := Except.ok.inj h
    exact .of_same rfl rfl rfl

theorem replaceDraft_moved (h : replaceDraft t owner draft limits = .ok t') : Moved added t t' := by
  obtain ⟨bytes, -, h⟩ := bind_eq_ok.mp h
  obtain ⟨_, -, h⟩ := bind_eq_ok.mp h
  obtain ⟨old, -, h⟩ := bind_eq_ok.mp h
  obtain ⟨quota, -, h⟩ := bind_eq_ok.mp h
  obtain ⟨oldRow, -, h⟩ := bind_eq_ok.mp h
  obtain ⟨_, -, h⟩ := bind_eq_ok.mp h
  obtain ⟨_, -, h⟩ := bind_eq_ok.mp h
  obtain ⟨_, -, h⟩ := bind_eq_ok.mp h
  by_cases hmoves : old.sourceDigest ≠ draft.sourceDigest
  · simp only [hmoves, ne_eq, not_false_eq_true, true_and, if_true] at h
    obtain rfl := Except.ok.inj h
    exact .of_same rfl rfl rfl
  · simp only [hmoves, false_and, if_false] at h
    obtain rfl := Except.ok.inj h
    exact .of_same rfl rfl rfl

theorem detachContent_moved {posting : ContentHash × ℤ}
    (h : detachContent owner retainedUntil t posting = .ok t') : Moved added t t' := by
  obtain ⟨charged, hcharged, h⟩ := bind_eq_ok.mp h
  obtain ⟨row, hrow, h⟩ := bind_eq_ok.mp h
  obtain ⟨_, -, h⟩ := bind_eq_ok.mp h
  obtain rfl := Except.ok.inj h
  refine .of_insert (n := -posting.2) (orError_eq_ok.mp hrow) rfl rfl ?_ (sub_eq_add_neg _ _) ?_ rfl
  · have hentry : chargeLive t owner posting.1 = charged.liveReferences :=
      entry_of_lookup (orError_eq_ok.mp hcharged)
    rw [hentry, ← sub_eq_add_neg]
  · dsimp only
    split_ifs with hlater
    · exact le_rfl
    · exact not_lt.mp hlater

theorem releaseDraft_moved (h : releaseDraft t owner themeId = .ok t') : Moved added t t' := by
  obtain ⟨charge, -, h⟩ := bind_eq_ok.mp h
  obtain ⟨row, -, h⟩ := bind_eq_ok.mp h
  obtain ⟨quota, -, h⟩ := bind_eq_ok.mp h
  obtain ⟨_, -, h⟩ := bind_eq_ok.mp h
  dsimp only at h
  split_ifs at h
  · obtain ⟨_, -, h⟩ := bind_eq_ok.mp h
    obtain rfl := Except.ok.inj h
    exact .of_same rfl rfl rfl
  · obtain rfl := Except.ok.inj h
    exact .of_same rfl rfl rfl

theorem releaseAnyRevisions_moved {n : ℤ} (h : releaseAnyRevisions t owner n = .ok t') :
    Moved added t t' := by
  unfold releaseAnyRevisions at h
  split_ifs at h
  · obtain ⟨_, -, h⟩ := bind_eq_ok.mp h
    obtain ⟨quota, -, h⟩ := bind_eq_ok.mp h
    obtain ⟨_, -, h⟩ := bind_eq_ok.mp h
    obtain rfl := Except.ok.inj h
    exact .of_same rfl rfl rfl
  · obtain rfl := Except.ok.inj h
    exact .refl t

theorem detachSelection_moved : Moved added t (detachSelection t owner themeId) := by
  unfold detachSelection
  split_ifs
  · exact .of_same rfl rfl rfl
  · exact .of_same rfl rfl rfl
  · exact .refl t

theorem removeTheme_moved (h : removeTheme t owner themeId retainedUntil = .ok t') : Moved added t t' := by
  obtain ⟨_, -, h⟩ := bind_eq_ok.mp h
  obtain ⟨t₁, hdraft, h⟩ := bind_eq_ok.mp h
  obtain ⟨t₂, hrevisions, h⟩ := bind_eq_ok.mp h
  obtain ⟨t₃, hdetach, h⟩ := bind_eq_ok.mp h
  obtain ⟨quota, -, h⟩ := bind_eq_ok.mp h
  obtain ⟨_, -, h⟩ := bind_eq_ok.mp h
  obtain rfl := Except.ok.inj h
  have hdeleted : Moved added t₃ (deleteThemeRow (detachSelection t₃ owner themeId) themeId) :=
    detachSelection_moved.trans (.of_same rfl rfl rfl)
  exact ((((releaseDraft_moved hdraft).trans (releaseAnyRevisions_moved hrevisions)).trans
    (.foldlM (fun _ _ _ ↦ detachContent_moved) hdetach)).trans hdeleted).trans (.of_same rfl rfl rfl)

end Catalogs

end Jaunder.Storage.ThemeReferences
