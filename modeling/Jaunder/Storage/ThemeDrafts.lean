import Jaunder.Storage.ThemeBooks

namespace Jaunder.Storage.ThemeDrafts

open Foundation.Ledger Foundation.Outcome
open Jaunder.Common.Hash
open Jaunder.Storage.ThemeBooks Jaunder.Storage.Themes

variable {size draftSize : ContentHash → ℕ} {t t' : ThemeTables} {owner o : ThemeOwner}
  {d : ContentHash}

section DraftContents

variable {source s : ContentHash} {bytes : ℤ} {row : DraftContentCharge}

theorem draftLive_attach : draftLive (t.attachDraftContent source bytes) s =
    draftLive t s + if s = source then 1 else 0 := by
  unfold draftLive ThemeTables.attachDraftContent
  rw [entry_insert]
  by_cases hs : s = source
  · rw [if_pos hs, if_pos hs, hs, entry]
    cases t.draftContents.lookup source with
    | none => rfl
    | some row => rfl
  · rw [if_neg hs, if_neg hs, add_zero]

theorem draftPhysical_attach : draftPhysical (t.attachDraftContent source bytes) =
    draftPhysical t + if t.draftContents.lookup source = none then bytes else 0 := by
  unfold draftPhysical ThemeTables.attachDraftContent
  rw [total_insert]
  cases hrow : t.draftContents.lookup source with
  | none =>
    rw [entry_of_none hrow]
    simp
  | some row =>
    rw [entry_of_lookup hrow]
    simp

theorem detachDraftContent_lookup (hpos : 0 < row.liveReferences) :
    (t.detachDraftContent source row).draftContents.lookup s =
      if s = source then
        if row.liveReferences = 1 then none
        else some { row with liveReferences := row.liveReferences - 1 }
      else t.draftContents.lookup s := by
  unfold ThemeTables.detachDraftContent
  by_cases hone : row.liveReferences = 1
  · rw [if_pos hone, if_pos hone, lookup_erase_eq]
  · have hmore : row.liveReferences > 1 := by omega
    rw [if_neg hone, if_neg hone, if_pos hmore, lookup_insert_eq]

theorem draftLive_detach (hrow : t.draftContents.lookup source = some row)
    (hpos : 0 < row.liveReferences) : draftLive (t.detachDraftContent source row) s =
      draftLive t s - if s = source then 1 else 0 := by
  unfold draftLive
  by_cases hs : s = source
  · subst hs
    have hlookup := @detachDraftContent_lookup t s s row hpos
    rw [if_pos rfl] at hlookup
    rw [if_pos rfl, entry_of_lookup hrow]
    by_cases hone : row.liveReferences = 1
    · rw [if_pos hone] at hlookup
      rw [entry_of_none hlookup, hone]
      rfl
    · rw [if_neg hone] at hlookup
      rw [entry_of_lookup hlookup]
  · rw [if_neg hs, sub_zero, entry, detachDraftContent_lookup hpos, if_neg hs]
    rfl

theorem draftPhysical_detach (hrow : t.draftContents.lookup source = some row)
    (hpos : 0 < row.liveReferences) : draftPhysical (t.detachDraftContent source row) =
      draftPhysical t - if row.liveReferences = 1 then row.physicalBytes else 0 := by
  unfold draftPhysical ThemeTables.detachDraftContent
  by_cases hone : row.liveReferences = 1
  · rw [if_pos hone, if_pos hone, total_erase, entry_of_lookup hrow]
  · have hmore : row.liveReferences > 1 := by omega
    rw [if_neg hone, if_neg hone, if_pos hmore, total_insert, entry_of_lookup hrow]
    ring

/-- Rows of sources carry the size of the source and are in use. -/
def SizedContents (draftSize : ContentHash → ℕ) (t : ThemeTables) : Prop :=
  ∀ source row, t.draftContents.lookup source = some row →
    row.physicalBytes = draftSize source ∧ 0 < row.liveReferences

theorem SizedContents.attach (h : SizedContents draftSize t) (hbytes : bytes = draftSize source) :
    SizedContents draftSize (t.attachDraftContent source bytes) := by
  intro s row hrow
  unfold ThemeTables.attachDraftContent at hrow
  dsimp only at hrow
  rw [lookup_insert_eq] at hrow
  split_ifs at hrow with hs
  · rw [hs]
    cases hold : t.draftContents.lookup source with
    | none =>
      rw [hold] at hrow
      obtain rfl := Option.some.inj hrow
      exact ⟨hbytes, by norm_num⟩
    | some old =>
      rw [hold] at hrow
      obtain rfl := Option.some.inj hrow
      obtain ⟨hphysical, hlive⟩ := h source old hold
      exact ⟨hphysical, by dsimp only; omega⟩
  · exact h s row hrow

theorem SizedContents.detach (h : SizedContents draftSize t)
    (hrow : t.draftContents.lookup source = some row) :
    SizedContents draftSize (t.detachDraftContent source row) := by
  obtain ⟨hphysical, hlive⟩ := h source row hrow
  intro s row' hrow'
  rw [detachDraftContent_lookup hlive] at hrow'
  split_ifs at hrow' with hs hone
  · rw [← Option.some.inj hrow', hs]
    exact ⟨hphysical, by dsimp only; omega⟩
  · exact h s row' hrow'

end DraftContents

section Drafts

variable {draft : ThemeDraft} {limits : ThemeQuotaLimits} {text : NameText} {name : String} {id : ℤ}
  {row : ThemeRow} {charge old : DraftCharge}

/-- A new theme owns nothing yet. -/
theorem ownedRevisions_fresh (h : Sound size draftSize t) (hfresh : id ∉ t.themes.keys)
    (hthemes : t'.themes = t.themes.insert id row) (hrevisions : t'.revisions = t.revisions) :
    ownedRevisions t' o = ownedRevisions t o := by
  unfold ownedRevisions
  rw [hrevisions]
  refine List.filter_congr (fun r hr ↦ ?_)
  have hne : r.revision.themeId ≠ id := fun heq ↦ hfresh (heq ▸ h.revised r hr)
  unfold ownerOf
  rw [hthemes, lookup_insert_eq, if_neg hne]

theorem draftLogical_fresh (h : Sound size draftSize t) (hfresh : id ∉ t.themes.keys)
    (hthemes : t'.themes = t.themes.insert id row)
    (hdrafts : t'.draftCharges = t.draftCharges.insert id charge) :
    draftLogical t' o = draftLogical t o + if o = row.owner then charge.logicalBytes else 0 := by
  have hnone : t.draftCharges.lookup id = none :=
    lookup_of_not_mem_keys (fun hmem ↦ hfresh ((h.drafted id).mpr hmem))
  have hthis : ownerOf t' id = some row.owner := by
    unfold ownerOf
    rw [hthemes, Finmap.lookup_insert]
    rfl
  unfold draftLogical
  rw [hdrafts, total_insert, entry_of_none hnone, sub_zero, hthis]
  congr 1
  · refine total_congr (fun id' charge' hlookup ↦ ?_)
    have hne : id' ≠ id := by
      rintro rfl
      rw [hnone] at hlookup
      cases hlookup
    unfold ownerOf
    rw [hthemes, lookup_insert_eq, if_neg hne]
  · by_cases ho : o = row.owner
    · rw [if_pos ho, if_pos (by rw [ho])]
    · rw [if_neg ho, if_neg (fun he ↦ ho (Option.some.inj he).symm)]

/-- What the creation of a theme leaves in the tables that the books are about. -/
structure Created (owner : ThemeOwner) (row : ThemeRow) (source : ContentHash) (bytes : ℤ) (id : ℤ)
    (t t' : ThemeTables) : Prop where
  fresh : id ∉ t.themes.keys
  owner_eq : row.owner = owner
  site : t'.site = ⟨t.site.retainedRevisions, t.site.physicalBytes +
    if t.draftContents.lookup source = none then bytes else 0⟩
  owners : t'.owners = t.owners.insert owner { t.ownerQuota owner with
    activeThemes := (t.ownerQuota owner).activeThemes + 1
    logicalBytes := (t.ownerQuota owner).logicalBytes + bytes }
  themes : t'.themes = t.themes.insert id row
  draftCharges : t'.draftCharges = t.draftCharges.insert id ⟨source, bytes, bytes⟩
  draftContents : t'.draftContents = (t.attachDraftContent source bytes).draftContents
  revisions : t'.revisions = t.revisions
  charges : t'.charges = t.charges
  eligibility : t'.eligibility = t.eligibility

theorem createTheme_created (h : createTheme text t owner name draft limits id = .ok t') :
    ∃ row bytes, draftStorageBytes draft = .ok bytes ∧
      Created owner row draft.sourceDigest bytes id t t' := by
  obtain ⟨label, -, h⟩ := bind_eq_ok.mp h
  obtain ⟨bytes, hbytes, h⟩ := bind_eq_ok.mp h
  obtain ⟨-, -, h⟩ := bind_eq_ok.mp h
  obtain ⟨_, hkeys, h⟩ := bind_eq_ok.mp h
  obtain ⟨-, -, h⟩ := bind_eq_ok.mp h
  have hfresh := (require_eq_ok.mp hkeys).2.1
  refine ⟨⟨owner, label, canonicalThemeNameKey text label, none⟩, bytes, hbytes, ?_⟩
  cases hsource : t.draftContents.lookup draft.sourceDigest with
  | none =>
    rw [hsource] at h
    obtain rfl := Except.ok.inj h
    exact ⟨hfresh, rfl, by rw [hsource]; rfl, rfl, rfl, rfl, rfl, rfl, rfl, rfl⟩
  | some row =>
    rw [hsource] at h
    obtain rfl := Except.ok.inj h
    exact ⟨hfresh, rfl, by rw [hsource]; simp; rfl, rfl, rfl, rfl, rfl, rfl, rfl, rfl⟩

theorem Created.sound {source : ContentHash} {bytes : ℤ} (h : Sound size draftSize t)
    (hbytes : bytes = draftSize source) (created : Created owner row source bytes id t t') :
    Sound size draftSize t' := by
  obtain ⟨hfresh, rfl, hsite, howners, hthemes, hdrafts, hcontents, hrevisions, hcharges,
    heligibility⟩ := created
  have hnone : t.draftCharges.lookup id = none :=
    lookup_of_not_mem_keys (fun hmem ↦ hfresh ((h.drafted id).mpr hmem))
  have howned := fun o ↦ ownedRevisions_fresh (o := o) h hfresh hthemes hrevisions
  have hsized : SizedContents draftSize (t.attachDraftContent source bytes) :=
    SizedContents.attach h.sized.draftContents hbytes
  refine ⟨⟨fun o d ↦ ?_, fun d ↦ ?_, ?_, fun o ↦ ?_, fun o ↦ ?_, fun o ↦ ?_, ?_, fun s ↦ ?_⟩,
    ⟨fun key charge hlookup ↦ ?_, fun id' charge hlookup ↦ ?_, fun s charge hlookup ↦ ?_⟩,
    fun id' ↦ ?_, fun r hr ↦ ?_⟩
  · rw [uses, howned, ← uses, ← h.books.charged, chargeLive, hcharges]
    rfl
  · rw [totalUses, hrevisions, ← totalUses, ← h.books.eligible, eligibleLive, heligibility]
    rfl
  · rw [hsite, hrevisions]
    exact h.books.siteRevisions
  · rw [ownerQuota_of_insert howners, howned, ← h.books.ownerRevisions]
    split_ifs with ho
    · rw [ho]
    · rfl
  · have hnew : activeThemes t' o = activeThemes t o + if o = row.owner then 1 else 0 := by
      unfold activeThemes
      rw [hthemes, total_insert, entry_of_none (lookup_of_not_mem_keys hfresh), sub_zero]
      congr 1
      by_cases ho : o = row.owner
      · rw [if_pos ho, if_pos ho.symm]
      · rw [if_neg ho, if_neg (Ne.symm ho)]
    rw [ownerQuota_of_insert howners, hnew, ← h.books.activeThemes]
    split_ifs with ho
    · rw [ho]
    · rw [add_zero]
  · have hcontent : contentLogical t' o = contentLogical t o := by
      unfold contentLogical
      rw [hcharges]
    rw [ownerQuota_of_insert howners, hcontent, draftLogical_fresh h hfresh hthemes hdrafts]
    have hbooks := h.books.logicalBytes o
    split_ifs with ho
    · rw [ho] at hbooks ⊢
      dsimp only
      omega
    · omega
  · have hcontent : contentPhysical t' = contentPhysical t := by
      unfold contentPhysical contentBytes
      rw [hcharges]
    have hdraft : draftPhysical t' = draftPhysical t +
        if t.draftContents.lookup source = none then bytes else 0 := by
      rw [← draftPhysical_attach]
      unfold draftPhysical
      rw [hcontents]
    have hbooks := h.books.physicalBytes
    rw [hsite, hcontent, hdraft]
    dsimp only
    omega
  · have hlive : draftLive t' s = draftLive t s + if s = source then 1 else 0 := by
      rw [← @draftLive_attach t source s bytes]
      unfold draftLive
      rw [hcontents]
    have huses : draftUses t' s = draftUses t s + if s = source then 1 else 0 := by
      unfold draftUses
      rw [hdrafts, total_insert, entry_of_none hnone, sub_zero]
      simp only [eq_comm]
    rw [hlive, huses, h.books.draftReferences]
  · rw [hcharges] at hlookup
    exact h.sized.charges key charge hlookup
  · rw [hdrafts, lookup_insert_eq] at hlookup
    split_ifs at hlookup
    · rw [← Option.some.inj hlookup]
      exact hbytes
    · exact h.sized.drafts id' charge hlookup
  · rw [hcontents] at hlookup
    exact hsized s charge hlookup
  · rw [hthemes, hdrafts, Finmap.mem_keys, Finmap.mem_keys, Finmap.mem_insert, Finmap.mem_insert,
      ← Finmap.mem_keys, ← Finmap.mem_keys, h.drafted]
  · rw [hrevisions] at hr
    rw [hthemes, Finmap.mem_keys, Finmap.mem_insert]
    exact .inr (Finmap.mem_keys.mp (h.revised r hr))

/-- What the replacement of a draft leaves. -/
structure Replaced (owner : ThemeOwner) (old : DraftCharge) (oldRow : DraftContentCharge)
    (source : ContentHash) (bytes : ℤ) (id : ℤ) (t t' : ThemeTables) : Prop where
  owned : ownerOf t id = some owner
  old_eq : t.draftCharges.lookup id = some old
  oldRow_eq : t.draftContents.lookup old.sourceDigest = some oldRow
  site : t'.site = ⟨t.site.retainedRevisions, t.site.physicalBytes -
    (if old.sourceDigest ≠ source ∧ oldRow.liveReferences = 1 then old.logicalBytes else 0) +
    (if old.sourceDigest ≠ source ∧ (t.draftContents.lookup source).isNone then bytes else 0)⟩
  owners : t'.owners = t.owners.insert owner { t.ownerQuota owner with
    logicalBytes := (t.ownerQuota owner).logicalBytes - old.logicalBytes + bytes }
  draftCharges : t'.draftCharges = t.draftCharges.insert id ⟨source, bytes, bytes⟩
  draftContents : t'.draftContents = if old.sourceDigest ≠ source then
    ((t.detachDraftContent old.sourceDigest oldRow).attachDraftContent source bytes).draftContents
    else t.draftContents
  themes : t'.themes = t.themes
  revisions : t'.revisions = t.revisions
  charges : t'.charges = t.charges
  eligibility : t'.eligibility = t.eligibility

theorem replaceDraft_replaced (h : replaceDraft t owner draft limits = .ok t') :
    ∃ old oldRow bytes, draftStorageBytes draft = .ok bytes ∧
      Replaced owner old oldRow draft.sourceDigest bytes draft.themeId t t' := by
  obtain ⟨bytes, hbytes, h⟩ := bind_eq_ok.mp h
  obtain ⟨_, howns, h⟩ := bind_eq_ok.mp h
  obtain ⟨old, hold, h⟩ := bind_eq_ok.mp h
  obtain ⟨quota, hquota, h⟩ := bind_eq_ok.mp h
  obtain ⟨oldRow, holdRow, h⟩ := bind_eq_ok.mp h
  obtain ⟨-, -, h⟩ := bind_eq_ok.mp h
  obtain ⟨-, -, h⟩ := bind_eq_ok.mp h
  obtain ⟨-, -, h⟩ := bind_eq_ok.mp h
  obtain rfl := ownerQuota_of_lookup (orError_eq_ok.mp hquota)
  refine ⟨old, oldRow, bytes, mapError_eq_ok.mp hbytes, ?_⟩
  have howned := owns_iff.mp (require_eq_ok.mp howns)
  have hold := orError_eq_ok.mp hold
  have holdRow := orError_eq_ok.mp holdRow
  by_cases hmoves : old.sourceDigest ≠ draft.sourceDigest
  · simp only [hmoves, ne_eq, not_false_eq_true, true_and, if_true] at h
    obtain rfl := Except.ok.inj h
    refine ⟨howned, hold, holdRow, ?_, rfl, rfl, (if_pos hmoves).symm, rfl, rfl, rfl, rfl⟩
    simp only [hmoves, ne_eq, not_false_eq_true, true_and]
    rfl
  · simp only [hmoves, false_and, if_false] at h
    obtain rfl := Except.ok.inj h
    refine ⟨howned, hold, holdRow, ?_, rfl, rfl, (if_neg hmoves).symm, rfl, rfl, rfl, rfl⟩
    simp only [hmoves, false_and, if_false]
    rfl

theorem Replaced.sound {oldRow : DraftContentCharge} {source : ContentHash} {bytes : ℤ}
    (h : Sound size draftSize t) (hbytes : bytes = draftSize source)
    (replaced : Replaced owner old oldRow source bytes id t t') : Sound size draftSize t' := by
  obtain ⟨howned, hold, holdRow, hsite, howners, hdrafts, hcontents, hthemes, hrevisions, hcharges,
    heligibility⟩ := replaced
  obtain ⟨holdPhysical, holdLive⟩ := h.sized.draftContents _ _ holdRow
  have holdBytes := h.sized.drafts _ _ hold
  have hown : ∀ id, ownerOf t' id = ownerOf t id := by
    intro id
    unfold ownerOf
    rw [hthemes]
  have hownedRevisions : ∀ o, ownedRevisions t' o = ownedRevisions t o := by
    intro o
    unfold ownedRevisions
    rw [hrevisions]
    simp only [hown]
  have hlogical : ∀ o, draftLogical t' o = draftLogical t o +
      if o = owner then bytes - old.logicalBytes else 0 := by
    intro o
    unfold draftLogical
    simp only [hown]
    rw [hdrafts, total_insert, entry_of_lookup hold, howned]
    by_cases ho : o = owner
    · simp only [ho, if_true]
      ring
    · simp [ho, Ne.symm ho]
  have huses : ∀ s, draftUses t' s = draftUses t s -
      (if s = old.sourceDigest then 1 else 0) + (if s = source then 1 else 0) := by
    intro s
    unfold draftUses
    rw [hdrafts, total_insert, entry_of_lookup hold]
    simp only [eq_comm]
  have hsplit : SizedContents draftSize t' ∧
      draftPhysical t' = draftPhysical t -
        (if old.sourceDigest ≠ source ∧ oldRow.liveReferences = 1 then old.logicalBytes else 0) +
        (if old.sourceDigest ≠ source ∧ (t.draftContents.lookup source).isNone then bytes else 0) ∧
      ∀ s, draftLive t' s = draftLive t s -
        (if s = old.sourceDigest then 1 else 0) + (if s = source then 1 else 0) := by
    by_cases hmoves : old.sourceDigest ≠ source
    · rw [if_pos hmoves] at hcontents
      have hother : (t.detachDraftContent old.sourceDigest oldRow).draftContents.lookup source =
          t.draftContents.lookup source := by
        rw [detachDraftContent_lookup holdLive, if_neg (Ne.symm hmoves)]
      refine ⟨?_, ?_, fun s ↦ ?_⟩
      · unfold SizedContents
        rw [hcontents]
        exact (SizedContents.detach h.sized.draftContents holdRow).attach hbytes
      · unfold draftPhysical
        rw [hcontents]
        change draftPhysical _ = _
        rw [draftPhysical_attach, draftPhysical_detach holdRow holdLive, hother, holdPhysical,
          holdBytes]
        simp only [hmoves, ne_eq, not_false_eq_true, true_and, Option.isNone_iff_eq_none]
        rfl
      · unfold draftLive
        rw [hcontents]
        change draftLive _ s = _
        rw [draftLive_attach, draftLive_detach holdRow holdLive]
        rfl
    · rw [if_neg hmoves] at hcontents
      have hsame : old.sourceDigest = source := not_not.mp hmoves
      refine ⟨?_, ?_, fun s ↦ ?_⟩
      · unfold SizedContents
        rw [hcontents]
        exact h.sized.draftContents
      · unfold draftPhysical
        rw [hcontents]
        simp [hsame]
      · unfold draftLive
        rw [hcontents, hsame]
        ring
  obtain ⟨hsized, hphysical, hlive⟩ := hsplit
  refine ⟨⟨fun o d ↦ ?_, fun d ↦ ?_, ?_, fun o ↦ ?_, fun o ↦ ?_, fun o ↦ ?_, ?_, fun s ↦ ?_⟩,
    ⟨fun key charge hlookup ↦ ?_, fun id' charge hlookup ↦ ?_, hsized⟩, fun id' ↦ ?_, fun r hr ↦ ?_⟩
  · rw [uses, hownedRevisions, ← uses, ← h.books.charged, chargeLive, hcharges]
    rfl
  · rw [totalUses, hrevisions, ← totalUses, ← h.books.eligible, eligibleLive, heligibility]
    rfl
  · rw [hsite, hrevisions]
    exact h.books.siteRevisions
  · rw [ownerQuota_of_insert howners, hownedRevisions, ← h.books.ownerRevisions]
    split_ifs with ho
    · rw [ho]
    · rfl
  · have hactive : activeThemes t' o = activeThemes t o := by
      unfold activeThemes
      rw [hthemes]
    rw [ownerQuota_of_insert howners, hactive, ← h.books.activeThemes]
    split_ifs with ho
    · rw [ho]
    · rfl
  · have hcontent : contentLogical t' o = contentLogical t o := by
      unfold contentLogical
      rw [hcharges]
    rw [ownerQuota_of_insert howners, hcontent, hlogical]
    have hbooks := h.books.logicalBytes o
    split_ifs with ho
    · rw [ho] at hbooks ⊢
      dsimp only
      omega
    · omega
  · have hcontent : contentPhysical t' = contentPhysical t := by
      unfold contentPhysical contentBytes
      rw [hcharges]
    have hbooks := h.books.physicalBytes
    rw [hsite, hcontent, hphysical]
    dsimp only
    omega
  · rw [hlive, huses, h.books.draftReferences]
  · rw [hcharges] at hlookup
    exact h.sized.charges key charge hlookup
  · rw [hdrafts, lookup_insert_eq] at hlookup
    split_ifs at hlookup
    · rw [← Option.some.inj hlookup]
      exact hbytes
    · exact h.sized.drafts id' charge hlookup
  · rw [hthemes, h.drafted, hdrafts, Finmap.mem_keys, Finmap.mem_keys, Finmap.mem_insert]
    constructor
    · exact .inr
    · rintro (rfl | hmem)
      · exact Finmap.mem_of_lookup_eq_some hold
      · exact hmem
  · rw [hrevisions] at hr
    rw [hthemes]
    exact h.revised r hr

end Drafts

end Jaunder.Storage.ThemeDrafts
