import Jaunder.Storage.ThemeDrafts

namespace Jaunder.Storage.ThemeRemoval

open Foundation.Ledger Foundation.Outcome
open Jaunder.Common.Hash
open Jaunder.Storage.ThemeBooks Jaunder.Storage.ThemeDrafts Jaunder.Storage.Themes

variable {size draftSize : ContentHash → ℕ} {t t' : ThemeTables} {owner o : ThemeOwner}
  {d : ContentHash}

section Removal

variable {id until_ : ℤ} {f : RetainedRevision → ℤ} {draft : DraftCharge} {row : DraftContentCharge}

theorem sum_split {rs : List RetainedRevision} : (rs.map f).sum =
    ((rs.filter (fun r ↦ r.revision.themeId ≠ id)).map f).sum +
      ((rs.filter (fun r ↦ r.revision.themeId = id)).map f).sum := by
  induction rs with
  | nil => rfl
  | cons r rs ih =>
    by_cases hr : r.revision.themeId = id
    · rw [List.filter_cons_of_neg (by simpa using hr), List.filter_cons_of_pos (by simpa using hr),
        List.map_cons, List.map_cons, List.sum_cons, List.sum_cons, ih]
      ring
    · rw [List.filter_cons_of_pos (by simpa using hr), List.filter_cons_of_neg (by simpa using hr),
        List.map_cons, List.map_cons, List.sum_cons, List.sum_cons, ih]
      ring

/-- The revisions of a theme are revisions of its owner, and the others stay with their owners. -/
theorem sum_owned_split (howned : ownerOf t id = some owner)
    (hothers : ∀ id', id' ≠ id → ownerOf t' id' = ownerOf t id')
    (hrevisions : t'.revisions = t.revisions.filter (fun r ↦ r.revision.themeId ≠ id)) :
    ((ownedRevisions t o).map f).sum = ((ownedRevisions t' o).map f).sum +
      if o = owner then ((revisionsOf t id).map f).sum else 0 := by
  have hsplit := @sum_split id f (ownedRevisions t o)
  have hkept : (ownedRevisions t o).filter (fun r ↦ r.revision.themeId ≠ id) = ownedRevisions t' o := by
    unfold ownedRevisions
    rw [hrevisions, List.filter_filter, List.filter_filter]
    refine List.filter_congr (fun r _ ↦ ?_)
    by_cases hr : r.revision.themeId = id
    · simp [hr]
    · rw [hothers _ hr]
      simp [hr]
  have hgone : (ownedRevisions t o).filter (fun r ↦ r.revision.themeId = id) =
      if o = owner then revisionsOf t id else [] := by
    unfold ownedRevisions revisionsOf
    rw [List.filter_filter]
    by_cases ho : o = owner
    · rw [if_pos ho]
      refine List.filter_congr (fun r _ ↦ ?_)
      by_cases hr : r.revision.themeId = id
      · simp [hr, howned, ho]
      · simp [hr]
    · rw [if_neg ho]
      refine List.filter_eq_nil_iff.mpr (fun r _ hr ↦ ?_)
      simp only [Bool.and_eq_true, decide_eq_true_eq] at hr
      rw [hr.1, howned] at hr
      exact ho (Option.some.inj hr.2).symm
  rw [hsplit, hkept, hgone]
  split_ifs
  · rfl
  · rfl

theorem count_flatMap_eq_sum {rs : List RetainedRevision} :
    ((rs.flatMap RetainedRevision.digests).count d : ℤ) =
      (rs.map (fun r ↦ (r.digests.count d : ℤ))).sum := by
  induction rs with
  | nil => rfl
  | cons r rs ih =>
    rw [List.flatMap_cons, List.count_append, List.map_cons, List.sum_cons, Nat.cast_add, ih]

theorem length_eq_sum {rs : List RetainedRevision} :
    (rs.length : ℤ) = (rs.map (fun _ ↦ (1 : ℤ))).sum := by
  induction rs with
  | nil => rfl
  | cons r rs ih =>
    rw [List.length_cons, List.map_cons, List.sum_cons, ← ih, Nat.cast_add, Nat.cast_one, add_comm]

/-- The removal counts what the revisions of the theme name. -/
theorem posted_removalCharges : posted (removalCharges t id) d =
    ((revisionsOf t id).map (fun r ↦ (r.digests.count d : ℤ))).sum := by
  unfold removalCharges
  dsimp only
  rw [posted_grouped, ← count_flatMap_eq_sum]
  congr 1
  induction revisionsOf t id with
  | nil => rfl
  | cons r rs ih =>
    rw [List.count_append] at ih ⊢
    rw [List.map_cons, List.flatMap_cons, List.flatMap_cons, List.count_cons, List.count_append,
      List.count_append, RetainedRevision.digests, List.count_cons]
    omega

/-- What the release of a draft leaves. -/
structure Released (owner : ThemeOwner) (id : ℤ) (draft : DraftCharge) (row : DraftContentCharge)
    (t t' : ThemeTables) : Prop where
  draft_eq : t.draftCharges.lookup id = some draft
  row_eq : t.draftContents.lookup draft.sourceDigest = some row
  frame : t' = { t with
    site := ⟨t.site.retainedRevisions, t.site.physicalBytes -
      if row.liveReferences = 1 then draft.logicalBytes else 0⟩
    owners := t.owners.insert owner { t.ownerQuota owner with
      logicalBytes := (t.ownerQuota owner).logicalBytes - draft.logicalBytes }
    draftContents := (t.detachDraftContent draft.sourceDigest row).draftContents }

/-- An owner with a theme has a row of quotas. -/
theorem owner_row (hactive : 0 < (t.ownerQuota owner).activeThemes) :
    t.owners.lookup owner = some (t.ownerQuota owner) := by
  unfold ThemeTables.ownerQuota at hactive ⊢
  cases hquota : t.owners.lookup owner with
  | none =>
    rw [hquota] at hactive
    exact absurd hactive (lt_irrefl _)
  | some quota => rfl

theorem activeThemes_pos (h : Sound size draftSize t) (howned : ownerOf t id = some owner) :
    0 < (t.ownerQuota owner).activeThemes := by
  obtain ⟨row, hrow, howner⟩ := Option.map_eq_some_iff.mp howned
  have hle := entry_le_total (f := fun _ row ↦ if row.owner = owner then 1 else 0) (m := t.themes)
    (fun _ row _ ↦ by split_ifs <;> norm_num) id
  rw [entry_of_lookup hrow, if_pos howner] at hle
  rw [h.books.activeThemes, activeThemes]
  omega

theorem releaseDraft_succeeds (h : Sound size draftSize t) (howned : ownerOf t id = some owner) :
    ∃ t' draft row, releaseDraft t owner id = .ok t' ∧ Released owner id draft row t t' := by
  obtain ⟨theme, htheme, -⟩ := Option.map_eq_some_iff.mp howned
  have hdrafted : id ∈ t.draftCharges.keys :=
    (h.drafted id).mp (mem_keys_of_lookup htheme)
  obtain ⟨draft, hdraft⟩ := lookup_of_mem_keys hdrafted
  have huse : 1 ≤ draftUses t draft.sourceDigest := by
    have hle := entry_le_total (f := fun _ charge ↦
      if charge.sourceDigest = draft.sourceDigest then 1 else 0) (m := t.draftCharges)
      (fun _ charge _ ↦ by split_ifs <;> norm_num) id
    rw [entry_of_lookup hdraft, if_pos rfl] at hle
    exact hle
  obtain ⟨row, hrow⟩ : ∃ row, t.draftContents.lookup draft.sourceDigest = some row := by
    cases hrow : t.draftContents.lookup draft.sourceDigest with
    | none =>
      have hlive := h.books.draftReferences draft.sourceDigest
      rw [draftLive, entry_of_none hrow] at hlive
      omega
    | some row => exact ⟨row, rfl⟩
  have hquota := owner_row (activeThemes_pos h howned)
  have hbytes := h.sized.drafts id draft hdraft
  obtain ⟨hphysical, -⟩ := h.sized.draftContents _ row hrow
  have hafford : ¬(t.ownerQuota owner).logicalBytes < draft.logicalBytes := by
    have hle := entry_le_total (f := fun id charge ↦
      if ownerOf t id = some owner then charge.logicalBytes else 0) (m := t.draftCharges)
      (fun id charge hlookup ↦ by
        split_ifs
        · rw [h.sized.drafts id charge hlookup]
          exact Int.natCast_nonneg _
        · exact le_rfl) id
    rw [entry_of_lookup hdraft, if_pos howned] at hle
    have hbooks := h.books.logicalBytes owner
    have hcontent : 0 ≤ contentLogical t owner := h.sized.contentLogical_nonneg
    unfold draftLogical at hbooks
    omega
  have hsite : ¬t.site.physicalBytes < draft.logicalBytes := by
    have hle := entry_le_total (f := fun _ row ↦ row.physicalBytes) (m := t.draftContents)
      (fun source row hlookup ↦ by
        rw [(h.sized.draftContents source row hlookup).1]
        exact Int.natCast_nonneg _) draft.sourceDigest
    rw [entry_of_lookup hrow, hphysical] at hle
    have hbooks := h.books.physicalBytes
    have hcontent := h.sized.contentPhysical_nonneg
    unfold draftPhysical at hbooks
    omega
  unfold releaseDraft
  rw [hdraft, orError_some, ok_bind, hrow, orError_some, ok_bind, hquota, orError_some, ok_bind,
    require_pos hafford, ok_bind]
  dsimp only
  by_cases hone : row.liveReferences = 1
  · have hsite' : ¬(t.setLogical owner ((t.ownerQuota owner).logicalBytes -
        draft.logicalBytes)).site.physicalBytes < draft.logicalBytes := hsite
    rw [if_pos hone, require_pos hsite', ok_bind]
    refine ⟨_, draft, row, rfl, hdraft, hrow, ?_⟩
    rw [if_pos hone]
    rfl
  · rw [if_neg hone]
    refine ⟨_, draft, row, rfl, hdraft, hrow, ?_⟩
    rw [if_neg hone, sub_zero]
    rfl

theorem Released.sized (h : Sound size draftSize t) (released : Released owner id draft row t t') :
    Sized size draftSize t' := by
  have hcontents : t'.draftContents =
      (t.detachDraftContent draft.sourceDigest row).draftContents := by
    rw [released.frame]
  have hdetached := SizedContents.detach h.sized.draftContents released.row_eq
  refine ⟨?_, ?_, ?_⟩
  · rw [released.frame]
    exact h.sized.charges
  · rw [released.frame]
    exact h.sized.drafts
  · rw [hcontents]
    exact hdetached

theorem owned_count_le (howned : ownerOf t id = some owner) (hf : ∀ r, 0 ≤ f r) :
    ((revisionsOf t id).map f).sum ≤ ((ownedRevisions t owner).map f).sum := by
  have hsplit := @sum_owned_split t (deleteThemeRow t id) owner owner id f howned
    (fun id' hne ↦ by
      unfold ownerOf deleteThemeRow
      rw [lookup_erase_eq, if_neg hne]) rfl
  have hrest : 0 ≤ ((ownedRevisions (deleteThemeRow t id) owner).map f).sum :=
    List.sum_nonneg (fun n hn ↦ by
      obtain ⟨r, -, rfl⟩ := List.mem_map.mp hn
      exact hf r)
  rw [if_pos rfl] at hsplit
  omega

theorem total_count_le (hf : ∀ r, 0 ≤ f r) :
    ((revisionsOf t id).map f).sum ≤ (t.revisions.map f).sum := by
  have hsplit := @sum_split id f t.revisions
  have hrest : 0 ≤ ((t.revisions.filter (fun r ↦ r.revision.themeId ≠ id)).map f).sum :=
    List.sum_nonneg (fun n hn ↦ by
      obtain ⟨r, -, rfl⟩ := List.mem_map.mp hn
      exact hf r)
  unfold revisionsOf
  omega

/-- What the removal of a theme leaves, from what the release of its draft and of its references
left. -/
structure Removed (owner : ThemeOwner) (id : ℤ) (t t₃ t' : ThemeTables) : Prop where
  site : t'.site = t₃.site
  owners : t'.owners = t₃.owners.insert owner { t₃.ownerQuota owner with
    activeThemes := (t₃.ownerQuota owner).activeThemes - 1 }
  themes : t'.themes = t.themes.erase id
  draftCharges : t'.draftCharges = t.draftCharges.erase id
  draftContents : t'.draftContents = t₃.draftContents
  revisions : t'.revisions = t.revisions.filter (fun r ↦ r.revision.themeId ≠ id)
  charges : t'.charges = t₃.charges
  eligibility : t'.eligibility = t₃.eligibility

theorem Removed.sound {t₁ t₃ : ThemeTables} {n : ContentHash → ℤ} (h : Sound size draftSize t)
    (howned : ownerOf t id = some owner) (released : Released owner id draft row t t₁)
    (booked : Booked size draftSize owner n (-(revisionsOf t id).length) t₁ t₃)
    (hn : ∀ d, n d = -((revisionsOf t id).map (fun r ↦ (r.digests.count d : ℤ))).sum)
    (removed : Removed owner id t t₃ t') : Sound size draftSize t' := by
  obtain ⟨hsite, howners, hthemes, hdrafts, hcontents, hrevisions, hcharges, heligibility⟩ := removed
  obtain ⟨hdraft, hrow, hframe⟩ := released
  obtain ⟨-, hlive⟩ := h.sized.draftContents _ row hrow
  have hothers : ∀ id', id' ≠ id → ownerOf t' id' = ownerOf t id' := by
    intro id' hne
    unfold ownerOf
    rw [hthemes, lookup_erase_eq, if_neg hne]
  have hsum := fun o f ↦ sum_owned_split (o := o) (f := f) howned hothers hrevisions
  have hquota : ∀ o, t₁.ownerQuota o = if o = owner then { t.ownerQuota owner with
      logicalBytes := (t.ownerQuota owner).logicalBytes - draft.logicalBytes } else t.ownerQuota o :=
    ownerQuota_of_insert (by rw [hframe])
  have hsite₁ : t₁.site = ⟨t.site.retainedRevisions, t.site.physicalBytes -
      if row.liveReferences = 1 then draft.logicalBytes else 0⟩ := by
    rw [hframe]
  have hcharge₁ : ∀ o d, chargeLive t₁ o d = chargeLive t o d := by
    intro o d
    rw [hframe]
    rfl
  have heligible₁ : ∀ d, eligibleLive t₁ d = eligibleLive t d := by
    intro d
    rw [hframe]
    rfl
  refine ⟨⟨fun o d ↦ ?_, fun d ↦ ?_, ?_, fun o ↦ ?_, fun o ↦ ?_, fun o ↦ ?_, ?_, fun s ↦ ?_⟩,
    ⟨?_, fun id' charge hlookup ↦ ?_, ?_⟩, fun id' ↦ ?_, fun r hr ↦ ?_⟩
  · have hsplit := hsum o (fun r ↦ (r.digests.count d : ℤ))
    have hcharge : chargeLive t' o d = chargeLive t₃ o d := by
      unfold chargeLive
      rw [hcharges]
    have hbooks := h.books.charged o d
    rw [uses, count_flatMap_eq_sum] at hbooks ⊢
    rw [hcharge, booked.charged, hcharge₁, hn]
    split_ifs at hsplit ⊢
    · omega
    · omega
  · have hsplit := @sum_split id (fun r ↦ (r.digests.count d : ℤ)) t.revisions
    have heligible : eligibleLive t' d = eligibleLive t₃ d := by
      unfold eligibleLive
      rw [heligibility]
    have hbooks := h.books.eligible d
    rw [totalUses, count_flatMap_eq_sum] at hbooks ⊢
    rw [heligible, booked.eligible, heligible₁, hn, hrevisions]
    unfold revisionsOf
    omega
  · have hsplit := @sum_split id (fun _ ↦ 1) t.revisions
    rw [← length_eq_sum, ← length_eq_sum, ← length_eq_sum] at hsplit
    have hbooks := h.books.siteRevisions
    rw [hsite, booked.siteRevisions, hsite₁, hrevisions]
    unfold revisionsOf
    dsimp only
    omega
  · have hsplit := hsum o (fun _ ↦ (1 : ℤ))
    rw [← length_eq_sum, ← length_eq_sum, ← length_eq_sum] at hsplit
    have hbooks := h.books.ownerRevisions o
    have hcount := booked.ownerRevisions o
    rw [ownerQuota_of_insert howners]
    rw [hquota] at hcount
    split_ifs at hsplit hcount ⊢ with ho
    · rw [ho] at hbooks hcount ⊢
      dsimp only at hcount ⊢
      subst ho
      omega
    · omega
  · obtain ⟨theme, htheme, howner⟩ := Option.map_eq_some_iff.mp howned
    have hactive : ThemeBooks.activeThemes t' o =
        ThemeBooks.activeThemes t o - if o = owner then 1 else 0 := by
      unfold ThemeBooks.activeThemes
      rw [hthemes, total_erase, entry_of_lookup htheme, howner]
      simp only [eq_comm]
    have hbooks := h.books.activeThemes o
    have hcount := booked.activeThemes o
    rw [ownerQuota_of_insert howners, hactive]
    rw [hquota] at hcount
    split_ifs at hcount ⊢ with ho
    · subst ho
      dsimp only at hcount ⊢
      omega
    · omega
  · have hdraftLogical : draftLogical t' o =
        draftLogical t o - if o = owner then draft.logicalBytes else 0 := by
      unfold draftLogical
      rw [hdrafts, total_erase]
      have hsame : total (fun id charge ↦ if ownerOf t' id = some o then charge.logicalBytes else 0)
          (t.draftCharges.erase id) = total (fun id charge ↦
            if ownerOf t id = some o then charge.logicalBytes else 0) (t.draftCharges.erase id) := by
        refine total_congr (fun id' charge hlookup ↦ ?_)
        have hne : id' ≠ id := by
          rintro rfl
          rw [Finmap.lookup_erase] at hlookup
          cases hlookup
        rw [hothers id' hne]
      have hleft := total_erase (f := fun id charge ↦
        if ownerOf t' id = some o then charge.logicalBytes else 0) (m := t.draftCharges) (k := id)
      have hright := total_erase (f := fun id charge ↦
        if ownerOf t id = some o then charge.logicalBytes else 0) (m := t.draftCharges) (k := id)
      rw [entry_of_lookup hdraft (f := fun id charge ↦
        if ownerOf t id = some o then charge.logicalBytes else 0), howned] at hright
      rw [← hleft, hsame, hright]
      simp only [Option.some.injEq, eq_comm]
    have hcontent : contentLogical t' o = contentLogical t₃ o := by
      unfold contentLogical
      rw [hcharges]
    have hcontent₁ : contentLogical t₁ o = contentLogical t o := by
      rw [hframe]
      rfl
    have hbooks := h.books.logicalBytes o
    have hlogical := booked.logical o
    rw [ownerQuota_of_insert howners, hdraftLogical, hcontent]
    rw [hcontent₁, hquota] at hlogical
    split_ifs at hlogical ⊢ with ho
    · subst ho
      dsimp only at hlogical ⊢
      omega
    · omega
  · have hdraftPhysical : draftPhysical t' = draftPhysical t -
        if row.liveReferences = 1 then row.physicalBytes else 0 := by
      rw [← draftPhysical_detach hrow hlive]
      unfold draftPhysical
      rw [hcontents, booked.draftContents, hframe]
    have hcontent : contentPhysical t' = contentPhysical t₃ := by
      unfold contentPhysical contentBytes
      rw [hcharges]
    have hcontent₁ : contentPhysical t₁ = contentPhysical t := by
      rw [hframe]
      rfl
    have hsame : row.physicalBytes = draft.logicalBytes := by
      rw [(h.sized.draftContents _ row hrow).1, h.sized.drafts id draft hdraft]
    have hbooks := h.books.physicalBytes
    have hphysical := booked.physical
    rw [hcontent₁, hsite₁] at hphysical
    rw [hsite, hdraftPhysical, hcontent, hsame]
    dsimp only at hphysical
    omega
  · have hdraftLive : draftLive t' s = draftLive t s - if s = draft.sourceDigest then 1 else 0 := by
      rw [← draftLive_detach hrow hlive]
      unfold draftLive
      rw [hcontents, booked.draftContents, hframe]
    have huses : draftUses t' s = draftUses t s - if s = draft.sourceDigest then 1 else 0 := by
      unfold draftUses
      rw [hdrafts, total_erase, entry_of_lookup hdraft]
      simp only [eq_comm]
    rw [hdraftLive, huses, h.books.draftReferences]
  · rw [hcharges]
    exact booked.sized.charges
  · rw [hdrafts, lookup_erase_eq] at hlookup
    split_ifs at hlookup
    exact h.sized.drafts id' charge hlookup
  · rw [hcontents]
    exact booked.sized.draftContents
  · rw [hthemes, hdrafts, Finmap.keys_erase, Finmap.keys_erase, Finset.mem_erase, Finset.mem_erase,
      h.drafted]
  · rw [hrevisions] at hr
    obtain ⟨hr, hne⟩ := List.mem_filter.mp hr
    rw [hthemes, Finmap.keys_erase, Finset.mem_erase]
    exact ⟨by simpa using hne, h.revised r hr⟩

/-- The guards of the counters let every removal of an owned theme through. -/
theorem removeTheme_succeeds (h : Sound size draftSize t) (howned : ownerOf t id = some owner) :
    ∃ t', removeTheme t owner id until_ = .ok t' ∧ Sound size draftSize t' := by
  obtain ⟨t₁, draft, row, hrelease, released⟩ := releaseDraft_succeeds h howned
  have hsized₁ := released.sized h
  have hrevisions₁ : revisionsOf t₁ id = revisionsOf t id := by
    rw [released.frame]
    rfl
  have hn := owned_count_le (f := fun _ ↦ (1 : ℤ)) howned (fun _ ↦ by norm_num)
  have hall := @total_count_le t id (fun _ ↦ 1) (fun _ ↦ by norm_num)
  rw [← length_eq_sum, ← length_eq_sum] at hn hall
  have hrow₁ : t₁.owners.lookup owner = some { t.ownerQuota owner with
      logicalBytes := (t.ownerQuota owner).logicalBytes - draft.logicalBytes } := by
    rw [released.frame]
    exact Finmap.lookup_insert _
  obtain ⟨t₂, hcount, booked₂⟩ : ∃ t₂,
      releaseAnyRevisions t₁ owner (revisionsOf t₁ id).length = .ok t₂ ∧
      Booked size draftSize owner (fun _ ↦ 0) (-(revisionsOf t id).length) t₁ t₂ := by
    rw [hrevisions₁]
    unfold releaseAnyRevisions
    by_cases hpos : ((revisionsOf t id).length : ℤ) > 0
    · have hsite : t₁.site.retainedRevisions ≥ (revisionsOf t id).length := by
        rw [released.frame]
        change t.site.retainedRevisions ≥ _
        rw [h.books.siteRevisions]
        omega
      have howner : (t.ownerQuota owner).retainedRevisions ≥ (revisionsOf t id).length := by
        rw [h.books.ownerRevisions]
        omega
      obtain ⟨t₂, hok⟩ : ∃ t₂, releaseRevisions t₁ owner (revisionsOf t id).length = .ok t₂ := by
        unfold releaseRevisions
        rw [require_pos hsite, ok_bind, hrow₁, orError_some, ok_bind, require_pos howner, ok_bind]
        exact ⟨_, rfl⟩
      rw [if_pos hpos]
      exact ⟨t₂, hok, releaseRevisions_booked hsized₁ hok⟩
    · have hzero : -((revisionsOf t id).length : ℤ) = 0 := by omega
      rw [if_neg hpos, hzero]
      exact ⟨t₁, rfl, Booked.refl hsized₁⟩
  have hrevisions₂ : revisionsOf t₂ id = revisionsOf t id := by
    rw [← hrevisions₁]
    unfold revisionsOf
    rw [booked₂.revisions]
  have hcharges : removalCharges t₂ id = removalCharges t id := by
    unfold removalCharges
    rw [hrevisions₂]
  have hcharge₂ : ∀ d, chargeLive t₂ owner d = uses t owner d := by
    intro d
    rw [booked₂.charged, ite_self, add_zero, ← h.books.charged, released.frame]
    rfl
  have heligible₂ : ∀ d, eligibleLive t₂ d = totalUses t d := by
    intro d
    rw [booked₂.eligible, add_zero, ← h.books.eligible, released.frame]
    rfl
  obtain ⟨t₃, hdetach⟩ := @detachAll_succeeds _ _ _ owner until_ (removalCharges t id) booked₂.sized (fun c hc ↦ grouped_pos hc)
    (fun d ↦ by
      rw [hcharge₂, posted_removalCharges, uses, count_flatMap_eq_sum]
      exact owned_count_le howned (fun _ ↦ Int.natCast_nonneg _))
    (fun d ↦ by
      rw [heligible₂, posted_removalCharges, totalUses, count_flatMap_eq_sum]
      exact total_count_le (fun _ ↦ Int.natCast_nonneg _))
  have booked₃ := (booked₂.trans (detachAll_booked booked₂.sized hdetach)).congr
    (m := fun d ↦ -((revisionsOf t id).map (fun r ↦ (r.digests.count d : ℤ))).sum)
    (fun d ↦ by rw [zero_add, posted_removalCharges]) (add_zero _)
  have hactive : 0 < (t₃.ownerQuota owner).activeThemes := by
    have hquota₁ : (t₁.ownerQuota owner).activeThemes = (t.ownerQuota owner).activeThemes := by
      rw [ownerQuota_of_lookup hrow₁]
    rw [booked₃.activeThemes, hquota₁]
    exact activeThemes_pos h howned
  have hframe₃ : detachSelection t₃ owner id =
      { t₃ with selections := (detachSelection t₃ owner id).selections } := by
    unfold detachSelection
    split_ifs
    · rfl
    · rfl
    · rfl
  have hrow₃ := owner_row hactive
  have hremove : removeTheme t owner id until_ = .ok { deleteThemeRow (detachSelection t₃ owner id) id with
      owners := t₃.owners.insert owner { t₃.ownerQuota owner with
        activeThemes := (t₃.ownerQuota owner).activeThemes - 1 } } := by
    unfold removeTheme
    rw [require_pos (owns_iff.mpr howned), ok_bind, hrelease, ok_bind]
    dsimp only
    rw [hcount, ok_bind, hcharges, hdetach, ok_bind]
    have hlookup : (deleteThemeRow (detachSelection t₃ owner id) id).owners = t₃.owners := by
      rw [hframe₃]
      rfl
    rw [hlookup, hrow₃, orError_some, ok_bind, require_pos hactive, ok_bind]
  have hthemes₃ : t₃.themes = t.themes := booked₃.themes.trans (by rw [released.frame])
  have hdrafts₃ : t₃.draftCharges = t.draftCharges :=
    booked₃.draftCharges.trans (by rw [released.frame])
  have hrevisions₃ : t₃.revisions = t.revisions := booked₃.revisions.trans (by rw [released.frame])
  refine ⟨_, hremove, @Removed.sound _ _ _ _ _ _ _ _ _ t₃ _ h howned released booked₃ (fun _ ↦ rfl) ?_⟩
  rw [hframe₃]
  refine ⟨rfl, rfl, ?_, ?_, rfl, ?_, rfl, rfl⟩
  · exact congrArg (Finmap.erase id) hthemes₃
  · exact congrArg (Finmap.erase id) hdrafts₃
  · exact congrArg (List.filter _) hrevisions₃

end Removal

end Jaunder.Storage.ThemeRemoval
