import Jaunder.Storage.ThemeAssetManager
import Jaunder.Storage.ThemeBooks

namespace Jaunder.Storage.ThemePublication

open Foundation.Ledger Foundation.Outcome
open Jaunder.Common.Hash
open Jaunder.Host.ThemePackage
open Jaunder.Storage.ThemeAssetManager Jaunder.Storage.ThemeBooks Jaunder.Storage.Themes

variable {size draftSize : ContentHash → ℕ} {t t' : ThemeTables} {owner o : ThemeOwner}
  {digest d : ContentHash}

section Publication

variable {revision : ThemeRevision} {assets : List ThemePackageAsset} {row : ThemeRow}
  {current : Option ContentHash} {n : ContentHash → ℤ} {themeId : ℤ}

theorem ownerOf_insert (hrow : t.themes.lookup themeId = some row)
    (hthemes : t'.themes = t.themes.insert themeId { row with currentRevision := current }) (id : ℤ) :
    ownerOf t' id = ownerOf t id := by
  unfold ownerOf
  rw [hthemes, lookup_insert_eq]
  split_ifs with hid
  · rw [hid, hrow]
    rfl
  · rfl

theorem activeThemes_insert (hrow : t.themes.lookup themeId = some row)
    (hthemes : t'.themes = t.themes.insert themeId { row with currentRevision := current }) :
    activeThemes t' o = activeThemes t o := by
  unfold activeThemes
  rw [hthemes, total_insert, entry_of_lookup hrow]
  ring

theorem draftLogical_congr (howners : ∀ id, ownerOf t' id = ownerOf t id)
    (hdrafts : t'.draftCharges = t.draftCharges) : draftLogical t' o = draftLogical t o := by
  unfold draftLogical
  rw [hdrafts]
  refine total_congr (fun id charge _ ↦ ?_)
  rw [howners]

theorem ownedRevisions_append (howners : ∀ id, ownerOf t' id = ownerOf t id) {r : RetainedRevision}
    (hrevisions : t'.revisions = t.revisions ++ [r]) (howner : ownerOf t r.revision.themeId = some owner) :
    ownedRevisions t' o = ownedRevisions t o ++ if o = owner then [r] else [] := by
  unfold ownedRevisions
  rw [hrevisions, List.filter_append]
  simp only [howners]
  congr 1
  by_cases ho : o = owner
  · rw [if_pos ho, List.filter_cons_of_pos (by simp [howner, ho])]
    rfl
  · rw [if_neg ho, List.filter_cons_of_neg (by simp [howner, Ne.symm ho])]
    rfl

theorem recordRevision_sound {t₁ : ThemeTables} (h : Sound size draftSize t)
    (booked : Booked size draftSize owner n 1 t t₁)
    (hn : ∀ d, n d = ((RetainedRevision.digests ⟨revision, assets⟩).count d : ℤ))
    (hrecord : recordRevision t₁ owner revision assets = .ok t') : Sound size draftSize t' := by
  obtain ⟨row, hrow, hrecord⟩ := bind_eq_ok.mp hrecord
  obtain ⟨_, howner, hrecord⟩ := bind_eq_ok.mp hrecord
  obtain ⟨-, -, hrecord⟩ := bind_eq_ok.mp hrecord
  obtain ⟨-, -, hrecord⟩ := bind_eq_ok.mp hrecord
  have howner := require_eq_ok.mp howner
  have hlookup : t.themes.lookup revision.themeId = some row := by
    rw [← booked.themes]
    exact orError_eq_ok.mp hrow
  obtain rfl := Except.ok.inj hrecord
  set t' : ThemeTables := { t₁ with
    revisions := t₁.revisions ++ [⟨revision, assets⟩]
    themes := t₁.themes.insert revision.themeId
      { row with currentRevision := some revision.digest } } with ht'
  have hthemes : t'.themes = t.themes.insert revision.themeId
      { row with currentRevision := some revision.digest } := by
    rw [ht', booked.themes]
  have hrevisions : t'.revisions = t.revisions ++ [⟨revision, assets⟩] := by
    rw [ht', booked.revisions]
  have howners := ownerOf_insert hlookup hthemes
  have hthis : ownerOf t revision.themeId = some owner := by
    rw [ownerOf, hlookup, Option.map_some, howner]
  have howned := fun o ↦ ownedRevisions_append (o := o) howners hrevisions hthis
  have hlive : ∀ o d, chargeLive t' o d = chargeLive t₁ o d := fun _ _ ↦ rfl
  have hquota : ∀ o, t'.ownerQuota o = t₁.ownerQuota o := fun _ ↦ rfl
  refine ⟨⟨fun o d ↦ ?_, fun d ↦ ?_, ?_, fun o ↦ ?_, fun o ↦ ?_, fun o ↦ ?_, ?_, fun source ↦ ?_⟩,
    ⟨booked.sized.charges, booked.sized.drafts, booked.sized.draftContents⟩, fun id ↦ ?_, fun r hr ↦ ?_⟩
  · rw [hlive, booked.charged, h.books.charged, hn, uses, uses, howned, List.flatMap_append,
      List.count_append, Nat.cast_add]
    congr 1
    by_cases ho : o = owner
    · rw [if_pos ho, if_pos ho, List.flatMap_singleton]
    · rw [if_neg ho, if_neg ho]
      rfl
  · have he : eligibleLive t' d = eligibleLive t₁ d := rfl
    rw [he, booked.eligible, h.books.eligible, hn, totalUses, totalUses, hrevisions,
      List.flatMap_append, List.count_append, Nat.cast_add, List.flatMap_singleton]
  · have hs : t'.site = t₁.site := rfl
    rw [hs, booked.siteRevisions, h.books.siteRevisions, hrevisions, List.length_append,
      List.length_singleton, Nat.cast_add, Nat.cast_one]
  · rw [hquota, booked.ownerRevisions, h.books.ownerRevisions, howned, List.length_append,
      Nat.cast_add]
    congr 1
    by_cases ho : o = owner
    · simp [ho]
    · simp [ho]
  · rw [hquota, booked.activeThemes, h.books.activeThemes, activeThemes_insert hlookup hthemes]
  · have hlogical := booked.logical o
    have hcontent : contentLogical t' o = contentLogical t₁ o := rfl
    rw [hquota, hcontent, draftLogical_congr howners booked.draftCharges]
    have hbooks := h.books.logicalBytes o
    omega
  · have hphysical := booked.physical
    have hcontent : contentPhysical t' = contentPhysical t₁ := rfl
    have hs : t'.site = t₁.site := rfl
    have hdraft : draftPhysical t' = draftPhysical t := by
      unfold draftPhysical
      rw [← booked.draftContents]
    have hbooks := h.books.physicalBytes
    rw [hs, hcontent, hdraft]
    omega
  · have hl : draftLive t' source = draftLive t source := by
      unfold draftLive
      rw [← booked.draftContents]
    have hu : draftUses t' source = draftUses t source := by
      unfold draftUses
      rw [← booked.draftCharges]
    rw [hl, hu, h.books.draftReferences]
  · have hd : t'.draftCharges = t.draftCharges := booked.draftCharges
    rw [hthemes, hd, ← h.drafted, Finmap.mem_keys, Finmap.mem_keys, Finmap.mem_insert]
    constructor
    · rintro (rfl | hmem)
      · exact Finmap.mem_of_lookup_eq_some hlookup
      · exact hmem
    · exact .inr
  · rw [hthemes, Finmap.mem_keys, Finmap.mem_insert]
    rw [hrevisions] at hr
    rcases List.mem_append.mp hr with hr | hr
    · exact .inr (Finmap.mem_keys.mp (h.revised r hr))
    · rw [List.mem_singleton.mp hr]
      exact .inl rfl

/-- What a package may look like for its removal to find the references of its admission: no two of
its contents are equal. -/
def Distinct (sha256 : List UInt8 → ContentHash) (compiled : CompiledThemeRevision) : Prop :=
  (compiled.contents.map (CompiledThemeContent.digest sha256)).Nodup

theorem chargesAscend_nodup {charges : List ThemeContentCharge} (h : chargesAscend charges = true) :
    (charges.map ThemeContentCharge.digest).Nodup := by
  refine (List.pairwise_map.mpr ?_)
  refine (of_decide_eq_true h).imp (fun {a b} hab heq ↦ ?_)
  rw [heq] at hab
  exact String.lt_irrefl _ hab

theorem admitPublication_sound {sha256 : List UInt8 → ContentHash} {compiled : CompiledThemeRevision}
    {limits : ThemeQuotaLimits} {now : ℤ} (h : Sound size draftSize t)
    (hsize : ∀ content ∈ compiled.contents,
      (size (content.digest sha256) : ℤ) = content.bytes.toList.length)
    (hdistinct : Distinct sha256 compiled)
    (hadmitted : admitPublication t (admission sha256 owner limits themeId compiled now) = .ok t') :
    Sound size draftSize t' := by
  unfold admitPublication admission at hadmitted
  obtain ⟨_, hascend, hadmitted⟩ := bind_eq_ok.mp hadmitted
  obtain ⟨row, -, hadmitted⟩ := bind_eq_ok.mp hadmitted
  obtain ⟨-, -, hadmitted⟩ := bind_eq_ok.mp hadmitted
  dsimp only at hadmitted
  split_ifs at hadmitted with hcurrent
  · rw [← Except.ok.inj hadmitted]
    exact h
  · obtain ⟨-, -, hadmitted⟩ := bind_eq_ok.mp hadmitted
    obtain ⟨t₁, hattach, hrecord⟩ := bind_eq_ok.mp hadmitted
    have hcharges : ∀ c ∈ (blobs sha256 compiled).map charge,
        c.logicalBytes = size c.digest ∧ c.physicalBytes = size c.digest := by
      intro c hc
      obtain ⟨blob, hblob, rfl⟩ := List.mem_map.mp hc
      obtain ⟨content, hcontent, rfl⟩ := mem_blobs hblob
      exact ⟨(hsize content hcontent).symm, (hsize content hcontent).symm⟩
    have hupsert : Booked size draftSize owner (fun _ ↦ 0) 0 t
        (((blobs sha256 compiled).map (fun b ↦ ⟨b.digest, b.mime, now⟩)).foldl
          upsertContentEligibility t) := upsertAll_booked h.sized
    have hattached := attachRevisionContent_booked hupsert.sized hcharges hattach
    refine recordRevision_sound h (hupsert.trans hattached) (fun d ↦ ?_) hrecord
    have hkeys : ((blobs sha256 compiled).map charge).map ThemeContentCharge.digest =
        (blobs sha256 compiled).map Blob.digest := by
      rw [List.map_map]
      rfl
    have hnodup : ((blobs sha256 compiled).map Blob.digest).Nodup := by
      rw [← hkeys]
      exact chargesAscend_nodup (require_eq_ok.mp hascend)
    rw [zero_add, retained_digests, hkeys, hnodup.count, List.Nodup.count hdistinct]
    simp only [mem_blobs_digest]

end Publication

section Collection

variable {now : ℤ}

theorem deleteEligibility_ok (h : deleteEligibility t digest now = .ok t') :
    t' = { t with eligibility := t'.eligibility } ∧
      (t'.eligibility = t.eligibility ∨ t'.eligibility = t.eligibility.erase digest) := by
  unfold deleteEligibility at h
  split_ifs at h
  · obtain ⟨-, -, h⟩ := bind_eq_ok.mp h
    obtain rfl := Except.ok.inj h
    exact ⟨rfl, .inr rfl⟩
  · obtain rfl := Except.ok.inj h
    exact ⟨rfl, .inl rfl⟩

theorem refundOwner_quota {bytes : ℤ} (hnonneg : 0 ≤ bytes)
    (hle : bytes ≤ (t.ownerQuota owner).logicalBytes) (o : ThemeOwner) :
    (refundOwner t owner bytes).ownerQuota o = if o = owner then { t.ownerQuota owner with
      logicalBytes := (t.ownerQuota owner).logicalBytes - bytes } else t.ownerQuota o := by
  unfold refundOwner
  cases hquota : t.owners.lookup owner with
  | none =>
    have hzero : t.ownerQuota owner = ⟨0, 0, 0⟩ := by
      unfold ThemeTables.ownerQuota
      rw [hquota]
      rfl
    rw [hzero] at hle ⊢
    obtain rfl : bytes = 0 := le_antisymm hle hnonneg
    by_cases ho : o = owner
    · rw [if_pos ho, ho]
      exact hzero
    · rw [if_neg ho]
      rfl
  | some quota =>
    have hq := ownerQuota_of_lookup hquota
    have hguard : (some quota).any (fun quota ↦ quota.logicalBytes ≥ bytes) = true := by
      rw [hq] at hle
      simpa using hle
    rw [if_pos hguard, setLogical_quota]

theorem refundOwner_frame {bytes : ℤ} :
    refundOwner t owner bytes = { t with owners := (refundOwner t owner bytes).owners } := by
  unfold refundOwner
  split_ifs
  · rfl
  · rfl

theorem refundSite_frame {bytes : ℤ} :
    refundSite t bytes = { t with site := (refundSite t bytes).site } := by
  unfold refundSite
  split_ifs
  · rfl
  · rfl

theorem deleteSystemReference_frame : deleteSystemReference t digest now =
    { t with systemReferences := (deleteSystemReference t digest now).systemReferences } := by
  unfold deleteSystemReference
  split_ifs
  · rfl
  · rfl

/-- What a collection leaves. -/
structure Collected (owner : ThemeOwner) (digest : ContentHash) (charge : RetainedCharge)
    (t t' : ThemeTables) : Prop where
  charge_eq : t.charges.lookup (owner, digest) = some charge
  unused : charge.liveReferences = 0
  idle : eligibleLive t digest = 0
  charges : t'.charges = t.charges.erase (owner, digest)
  owners : t'.owners = (refundOwner t owner charge.logicalBytes).owners
  eligibility : t'.eligibility = t.eligibility ∨ t'.eligibility = t.eligibility.erase digest
  site : t'.site = if ∃ key ∈ (t.charges.erase (owner, digest)).keys, key.2 = digest then t.site
    else (refundSite t charge.physicalBytes).site
  themes : t'.themes = t.themes
  drafts : t'.drafts = t.drafts
  draftCharges : t'.draftCharges = t.draftCharges
  draftContents : t'.draftContents = t.draftContents
  revisions : t'.revisions = t.revisions

theorem collectRetainedContent_collected (h : collectRetainedContent t owner digest now = .ok t') :
    ∃ charge, Collected owner digest charge t t' := by
  obtain ⟨charge, hcharge, h⟩ := bind_eq_ok.mp h
  obtain ⟨row, hrow, h⟩ := bind_eq_ok.mp h
  obtain ⟨_, hguard, h⟩ := bind_eq_ok.mp h
  obtain ⟨hunused, hidle, -⟩ := require_eq_ok.mp hguard
  have heligible : eligibleLive t digest = 0 := by
    rw [eligibleLive, entry_of_lookup (orError_eq_ok.mp hrow), hidle]
  have howners : (refundOwner { t with charges := t.charges.erase (owner, digest) } owner
      charge.logicalBytes).owners = (refundOwner t owner charge.logicalBytes).owners := by
    unfold refundOwner
    split_ifs
    · rfl
    · rfl
  rw [refundOwner_frame, howners] at h
  refine ⟨charge, ?_⟩
  dsimp only at h
  by_cases hremaining : ∃ key ∈ (t.charges.erase (owner, digest)).keys, key.2 = digest
  · rw [if_pos hremaining] at h
    obtain rfl := Except.ok.inj h
    exact ⟨orError_eq_ok.mp hcharge, hunused, heligible, rfl, rfl, .inl rfl,
      (if_pos hremaining).symm, rfl, rfl, rfl, rfl, rfl⟩
  · rw [if_neg hremaining] at h
    obtain ⟨t₁, hdelete, h⟩ := bind_eq_ok.mp h
    rw [deleteSystemReference_frame] at hdelete
    obtain ⟨hframe, heligibility⟩ := deleteEligibility_ok hdelete
    rw [hframe, refundSite_frame] at h
    obtain rfl := Except.ok.inj h
    refine ⟨orError_eq_ok.mp hcharge, hunused, heligible, rfl, rfl, heligibility, ?_, rfl, rfl,
      rfl, rfl, rfl⟩
    rw [if_neg hremaining]
    unfold refundSite
    split_ifs
    · rfl
    · rfl

theorem mem_chargedDigests_erase : d ∈ chargedDigests { t with
    charges := t.charges.erase (owner, digest) } ↔
      ∃ key ∈ t.charges.keys, key ≠ (owner, digest) ∧ key.2 = d := by
  rw [mem_chargedDigests]
  simp only [Finmap.mem_keys, Finmap.mem_erase]
  constructor
  · rintro ⟨key, ⟨hne, hmem⟩, hd⟩
    exact ⟨key, hmem, hne, hd⟩
  · rintro ⟨key, hmem, hne, hd⟩
    exact ⟨key, ⟨hne, hmem⟩, hd⟩

theorem chargedDigests_erase_of_shared
    (h : ∃ key ∈ (t.charges.erase (owner, digest)).keys, key.2 = digest) :
    chargedDigests { t with charges := t.charges.erase (owner, digest) } = chargedDigests t := by
  ext d
  rw [mem_chargedDigests_erase, mem_chargedDigests]
  constructor
  · rintro ⟨key, hkey, -, hd⟩
    exact ⟨key, hkey, hd⟩
  · rintro ⟨key, hkey, hd⟩
    by_cases hself : key = (owner, digest)
    · obtain ⟨other, hother, hdigest⟩ := h
      obtain ⟨hne, hmem⟩ := Finmap.mem_erase.mp (Finmap.mem_keys.mp hother)
      rw [hself] at hd
      exact ⟨other, Finmap.mem_keys.mpr hmem, hne, hdigest.trans hd⟩
    · exact ⟨key, hkey, hself, hd⟩

theorem chargedDigests_erase_of_last
    (h : ¬∃ key ∈ (t.charges.erase (owner, digest)).keys, key.2 = digest) :
    chargedDigests { t with charges := t.charges.erase (owner, digest) } =
      (chargedDigests t).erase digest := by
  ext d
  rw [mem_chargedDigests_erase, Finset.mem_erase, mem_chargedDigests]
  constructor
  · rintro ⟨key, hkey, hne, rfl⟩
    refine ⟨fun hd ↦ h ⟨key, Finmap.mem_keys.mpr ?_, hd⟩, key, hkey, rfl⟩
    exact Finmap.mem_erase.mpr ⟨hne, Finmap.mem_keys.mp hkey⟩
  · rintro ⟨hne, key, hkey, rfl⟩
    exact ⟨key, hkey, fun hself ↦ hne (congrArg Prod.snd hself), rfl⟩

/-- A charge goes with its bytes, which the site gets back with the last charge of the digest. -/
theorem Collected.booked {charge : RetainedCharge} (h : Sound size draftSize t)
    (collected : Collected owner digest charge t t') :
    Booked size draftSize owner (fun _ ↦ 0) 0 t t' := by
  obtain ⟨hcharge, hunused, hidle, hcharges, howners, heligibility, hsite, hthemes, hdrafts,
    hdraftCharges, hdraftContents, hrevisions⟩ := collected
  obtain ⟨hlogical, hphysical⟩ := h.sized.charges _ charge hcharge
  have hbytes : 0 ≤ charge.logicalBytes := by
    rw [hlogical]
    exact Int.natCast_nonneg _
  have hcontent : ∀ o, contentLogical t' o =
      contentLogical t o - if o = owner then charge.logicalBytes else 0 := by
    intro o
    unfold contentLogical
    rw [hcharges, total_erase, entry_of_lookup hcharge]
    simp only [eq_comm]
  have hsized : Sized size draftSize t' := by
    refine ⟨fun key row hlookup ↦ ?_, ?_, ?_⟩
    · rw [hcharges, lookup_erase_eq] at hlookup
      split_ifs at hlookup
      exact h.sized.charges key row hlookup
    · rw [hdraftCharges]
      exact h.sized.drafts
    · rw [hdraftContents]
      exact h.sized.draftContents
  have hafford : charge.logicalBytes ≤ (t.ownerQuota owner).logicalBytes := by
    have hbooks := h.books.logicalBytes owner
    have hrest : 0 ≤ contentLogical t' owner := hsized.contentLogical_nonneg
    have hdraft : 0 ≤ draftLogical t owner := h.sized.draftLogical_nonneg
    have hthis := hcontent owner
    rw [if_pos rfl] at hthis
    omega
  have hquota : ∀ o, t'.ownerQuota o = if o = owner then { t.ownerQuota owner with
      logicalBytes := (t.ownerQuota owner).logicalBytes - charge.logicalBytes } else t.ownerQuota o := by
    intro o
    rw [← refundOwner_quota hbytes hafford]
    unfold ThemeTables.ownerQuota
    rw [howners]
  refine ⟨hthemes, hdrafts, hdraftCharges, hdraftContents, hrevisions, fun o d ↦ ?_, fun d ↦ ?_, ?_,
    fun o ↦ ?_, fun o ↦ ?_, fun o ↦ ?_, ?_, hsized⟩
  · rw [ite_self, add_zero, chargeLive, hcharges, entry_erase]
    split_ifs with hkey
    · rw [chargeLive, hkey, entry_of_lookup hcharge, hunused]
    · rfl
  · rw [add_zero]
    rcases heligibility with heq | heq
    · rw [eligibleLive, heq]
      rfl
    · rw [eligibleLive, heq, entry_erase]
      split_ifs with hd
      · rw [hd, hidle]
      · rfl
  · rw [add_zero, hsite]
    split_ifs
    · rfl
    · unfold refundSite
      split_ifs
      · rfl
      · rfl
  · rw [ite_self, add_zero, hquota]
    split_ifs with ho
    · rw [ho]
    · rfl
  · rw [hquota]
    split_ifs with ho
    · rw [ho]
    · rfl
  · rw [hquota, hcontent]
    split_ifs with ho
    · rw [ho]
      ring
    · rw [sub_zero]
  · have hdigests : chargedDigests t' =
        chargedDigests { t with charges := t.charges.erase (owner, digest) } := by
      unfold chargedDigests
      rw [hcharges]
    rw [hsized.contentPhysical_eq, h.sized.contentPhysical_eq, hsite, hdigests]
    by_cases hremaining : ∃ key ∈ (t.charges.erase (owner, digest)).keys, key.2 = digest
    · rw [if_pos hremaining, chargedDigests_erase_of_shared hremaining]
    · rw [if_neg hremaining, chargedDigests_erase_of_last hremaining]
      have hmem : digest ∈ chargedDigests t :=
        mem_chargedDigests.mpr ⟨(owner, digest),
          mem_keys_of_lookup hcharge, rfl⟩
      have hsum := Finset.sum_erase_add (chargedDigests t) (fun d ↦ (size d : ℤ)) hmem
      have hrest : 0 ≤ ∑ d ∈ (chargedDigests t).erase digest, (size d : ℤ) :=
        Finset.sum_nonneg (fun d _ ↦ Int.natCast_nonneg _)
      have hbooks := h.books.physicalBytes
      have hdraft := h.sized.draftPhysical_nonneg
      rw [h.sized.contentPhysical_eq] at hbooks
      have henough : t.site.physicalBytes ≥ charge.physicalBytes := by
        rw [hphysical]
        dsimp only at hsum ⊢
        omega
      unfold refundSite
      rw [if_pos henough]
      unfold ThemeTables.addPhysical
      rw [hphysical]
      dsimp only at hsum ⊢
      omega

/-- A collected digest is in no retained revision. -/
theorem Collected.unused_digest {charge : RetainedCharge} (h : Sound size draftSize t)
    (collected : Collected owner digest charge t t') : totalUses t digest = 0 := by
  rw [← h.books.eligible, collected.idle]

end Collection

end Jaunder.Storage.ThemePublication
