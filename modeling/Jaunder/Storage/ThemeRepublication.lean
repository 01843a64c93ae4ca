import Jaunder.Storage.ThemeContentRuns

namespace Jaunder.Storage.ThemeRepublication

open Foundation.Ledger Foundation.Outcome Foundation.Run
open Jaunder.Common.Hash Jaunder.Common.Owned
open Jaunder.Host.ThemePackage
open Jaunder.Storage.ThemeAccounting Jaunder.Storage.ThemeAssetManager Jaunder.Storage.ThemeBooks
open Jaunder.Storage.ThemeContentRuns Jaunder.Storage.ThemeDrafts Jaunder.Storage.ThemePublication
open Jaunder.Storage.Themes Jaunder.Storage.WriteScope

section Quotas

variable (t : ThemeTables) (owner : ThemeOwner)

/-- What an owner is charged for a digest that is new to it. -/
def newLogical (charge : ThemeContentCharge) : ℤ :=
  if (t.charges.lookup (owner, charge.digest)).isSome then 0 else charge.logicalBytes

/-- What the site is charged for a digest that nobody is charged for. -/
def newPhysical (charge : ThemeContentCharge) : ℤ :=
  if ∃ key ∈ t.charges.keys, key.2 = charge.digest then 0 else charge.physicalBytes

/-- There is room for one revision more and for the contents that are new. -/
structure QuotasPermit (t : ThemeTables) (admission : ThemePublicationAdmission) : Prop where
  siteRevisions : t.site.retainedRevisions < admission.limits.siteRetainedRevisions
  ownerRevisions : (t.ownerQuota admission.owner).retainedRevisions < admission.limits.retainedRevisions
  logical : (t.ownerQuota admission.owner).logicalBytes +
    (admission.charges.map (newLogical t admission.owner)).sum ≤ admission.limits.logicalBytes
  physical : t.site.physicalBytes + (admission.charges.map (newPhysical t)).sum ≤
    admission.limits.sitePhysicalBytes

/-- Every path that an image of the theme is bound to is one of the package. -/
def PathsExist (themeId : ℤ) (compiled : CompiledThemeRevision) : Prop :=
  ∀ b ∈ t.boundPaths, b.themeId = themeId → ∃ a ∈ compiled.package.assets.toList, a.1 = b.path

def currentDigest (themeId : ℤ) : Option ContentHash :=
  (t.themes.lookup themeId).bind ThemeRow.currentRevision

/-- The digest is the current one, or that of no revision that the theme retains. -/
def NotReplaced (themeId : ℤ) (digest : ContentHash) : Prop :=
  currentDigest t themeId = some digest ∨ ∀ r ∈ revisionsOf t themeId, r.revision.digest ≠ digest

/-- The theme is in the catalog of the owner, which has a quota row. -/
structure Standing (t : ThemeTables) (owner : ThemeOwner) (themeId : ℤ) : Prop where
  owned : ownerOf t themeId = some owner
  quota : ∃ quota, t.owners.lookup owner = some quota

end Quotas

section Contents

variable {sha256 : List UInt8 → ContentHash} {compiled : CompiledThemeRevision} {owner : ThemeOwner}
  {limits : ThemeQuotaLimits} {themeId now : ℤ} {t t' : ThemeTables} {charge : ThemeContentCharge}
  {charges : List ThemeContentCharge}

/-- Sorted and without repetitions, the digests ascend. -/
theorem chargesAscend_blobs (sha256 : List UInt8 → ContentHash) (compiled : CompiledThemeRevision) :
    chargesAscend ((blobs sha256 compiled).map ThemeAssetManager.charge) = true := by
  have hsorted : (sortBlobs (compiled.contents.map (blobOf sha256))).Pairwise
      (fun a b ↦ a.digest.value ≤ b.digest.value) := by
    have htotal : Std.Total fun a b : Blob ↦ a.digest.value ≤ b.digest.value :=
      ⟨fun a b ↦ le_total _ _⟩
    have htrans : IsTrans Blob fun a b ↦ a.digest.value ≤ b.digest.value :=
      ⟨fun _ _ _ hab hbc ↦ le_trans hab hbc⟩
    exact List.pairwise_insertionSort _ _
  have hle : (blobs sha256 compiled).Pairwise (fun a b ↦ a.digest.value ≤ b.digest.value) :=
    hsorted.sublist (List.destutter_sublist _ _)
  have hne : (blobs sha256 compiled).IsChain (fun a b ↦ a.digest ≠ b.digest) :=
    List.isChain_destutter _ _
  have hlt : (blobs sha256 compiled).IsChain (fun a b ↦ a.digest.value < b.digest.value) := by
    rw [List.isChain_iff_getElem] at hne ⊢
    intro i hi
    refine lt_of_le_of_ne (hle.isChain.getElem i hi) fun heq ↦ hne i hi ?_
    exact (ContentHash.mk.injEq _ _ _ _).mpr heq
  have htrans : Trans (fun a b : Blob ↦ a.digest.value < b.digest.value)
      (fun a b : Blob ↦ a.digest.value < b.digest.value)
      (fun a b : Blob ↦ a.digest.value < b.digest.value) := ⟨fun hab hbc ↦ lt_trans hab hbc⟩
  exact decide_eq_true (List.pairwise_map.mpr (List.isChain_iff_pairwise.mp hlt))

theorem assets_nodup (sha256 : List UInt8 → ContentHash) (compiled : CompiledThemeRevision) :
    ((assets sha256 compiled).map ThemePackageAsset.path).Nodup := by
  have hpaths : (assets sha256 compiled).map ThemePackageAsset.path =
      compiled.package.assets.toList.map Prod.fst := by
    rw [assets, List.map_map]
    rfl
  rw [hpaths]
  refine List.pairwise_map.mpr (compiled.package.ordered.imp fun {a b} hlt heq ↦ ?_)
  rw [heq] at hlt
  exact String.lt_irrefl _ hlt

theorem newLogical_congr {c : ThemeContentCharge} {row : RetainedCharge}
    (hcharges : t'.charges = t.charges.insert (owner, charge.digest) row)
    (hne : c.digest ≠ charge.digest) : newLogical t' owner c = newLogical t owner c := by
  have hkey : (owner, c.digest) ≠ (owner, charge.digest) := fun h ↦ hne (Prod.mk.inj h).2
  rw [newLogical, newLogical, hcharges, Finmap.lookup_insert_of_ne _ hkey]

theorem newPhysical_congr {c : ThemeContentCharge} {row : RetainedCharge}
    (hcharges : t'.charges = t.charges.insert (owner, charge.digest) row)
    (hne : c.digest ≠ charge.digest) : newPhysical t' c = newPhysical t c := by
  rw [newPhysical, newPhysical, hcharges]
  refine if_congr ⟨?_, ?_⟩ rfl rfl
  · rintro ⟨key, hkey, hdigest⟩
    rcases (Finmap.mem_insert.mp (Finmap.mem_keys.mp hkey)) with rfl | hmem
    · exact absurd hdigest.symm hne
    · exact ⟨key, Finmap.mem_keys.mpr hmem, hdigest⟩
  · rintro ⟨key, hkey, hdigest⟩
    exact ⟨key, Finmap.mem_keys.mpr (Finmap.mem_insert.mpr (.inr (Finmap.mem_keys.mp hkey))), hdigest⟩

/-- What the attachment of one content leaves. -/
structure Attached (owner : ThemeOwner) (charge : ThemeContentCharge) (t t' : ThemeTables) : Prop where
  themes : t'.themes = t.themes
  revisions : t'.revisions = t.revisions
  charges : ∃ row, t'.charges = t.charges.insert (owner, charge.digest) row
  eligibility : ∃ row, t'.eligibility = t.eligibility.insert charge.digest row
  quota : ∃ quota, t'.owners.lookup owner = some quota
  logical : (t'.ownerQuota owner).logicalBytes =
    (t.ownerQuota owner).logicalBytes + newLogical t owner charge
  physical : t'.site.physicalBytes = t.site.physicalBytes + newPhysical t charge

theorem chargeBytes_succeeds {quota : OwnerQuota} (hquota : t.owners.lookup owner = some quota)
    (hlogical : quota.logicalBytes + newLogical t owner charge ≤ limits.logicalBytes)
    (hphysical : t.site.physicalBytes + newPhysical t charge ≤ limits.sitePhysicalBytes) :
    ∃ t', chargeBytes t owner limits charge = .ok t' ∧ ∃ quota, t'.owners.lookup owner = some quota := by
  rw [chargeBytes]
  by_cases hcharged : (t.charges.lookup (owner, charge.digest)).isSome = true
  · exact ⟨t, if_pos hcharged, quota, hquota⟩
  · rw [newLogical, if_neg hcharged] at hlogical
    have hpaid : quota.logicalBytes ≤ limits.logicalBytes - charge.logicalBytes := by omega
    rw [if_neg hcharged, hquota, orError_some, ok_bind, require_pos hpaid, ok_bind]
    have hsome : ∃ q, (t.setLogical owner (quota.logicalBytes + charge.logicalBytes)).owners.lookup
        owner = some q := ⟨_, Finmap.lookup_insert _⟩
    by_cases hother : ∃ key ∈ t.charges.keys, key.2 = charge.digest
    · exact ⟨_, if_pos hother, hsome⟩
    · rw [newPhysical, if_neg hother] at hphysical
      have hroom : t.site.physicalBytes ≤ limits.sitePhysicalBytes - charge.physicalBytes := by omega
      simp only
      rw [if_neg hother, require_pos hroom, ok_bind]
      exact ⟨_, rfl, hsome⟩

theorem attachContent_succeeds {quota : OwnerQuota} {row : EligibilityRow}
    (hquota : t.owners.lookup owner = some quota)
    (hrow : t.eligibility.lookup charge.digest = some row)
    (hlogical : quota.logicalBytes + newLogical t owner charge ≤ limits.logicalBytes)
    (hphysical : t.site.physicalBytes + newPhysical t charge ≤ limits.sitePhysicalBytes) :
    ∃ t', attachContent owner limits t charge = .ok t' ∧ Attached owner charge t t' := by
  obtain ⟨p, hp, hsome⟩ := chargeBytes_succeeds hquota hlogical hphysical
  have paid := chargeBytes_paid hp
  have hframe := paid.frame
  have hattach : attachContent owner limits t charge = .ok { p with
      charges := t.charges.insert (owner, charge.digest)
        (oneMore charge (t.charges.lookup (owner, charge.digest)))
      eligibility := t.eligibility.insert charge.digest
        { row with liveReferences := row.liveReferences + 1 } } := by
    rw [attachContent, hrow, orError_some, ok_bind, hp, ok_bind]
  refine ⟨_, hattach, ?_, ?_, ⟨_, rfl⟩, ⟨_, rfl⟩, hsome, ?_, ?_⟩
  · rw [hframe]
  · rw [hframe]
  · refine (paid.logical owner).trans ?_
    rw [newLogical]
    cases t.charges.lookup (owner, charge.digest) with
    | none => simp
    | some old => simp
  · refine paid.physical.trans ?_
    rw [newPhysical]
    exact congrArg _ (if_congr mem_chargedDigests rfl rfl)

/-- The contents are attached one after the other, as long as there is room for all that is new. -/
theorem attachAll_succeeds {quota : OwnerQuota} (hquota : t.owners.lookup owner = some quota)
    (hdistinct : (charges.map ThemeContentCharge.digest).Nodup)
    (hrows : ∀ c ∈ charges, ∃ row, t.eligibility.lookup c.digest = some row)
    (hnonneg : ∀ c ∈ charges, 0 ≤ c.logicalBytes ∧ 0 ≤ c.physicalBytes)
    (hlogical : (t.ownerQuota owner).logicalBytes + (charges.map (newLogical t owner)).sum ≤
      limits.logicalBytes)
    (hphysical : t.site.physicalBytes + (charges.map (newPhysical t)).sum ≤ limits.sitePhysicalBytes) :
    ∃ t', charges.foldlM (attachContent owner limits) t = .ok t' ∧ t'.themes = t.themes ∧
      t'.revisions = t.revisions := by
  induction charges generalizing t quota with
  | nil => exact ⟨t, rfl, rfl, rfl⟩
  | cons c charges ih =>
    rw [List.map_cons, List.nodup_cons] at hdistinct
    rw [List.map_cons, List.sum_cons] at hlogical hphysical
    have hquota' := ownerQuota_of_lookup hquota
    have hrest := fun d hd ↦ hnonneg d (List.mem_cons_of_mem c hd)
    have hlogical' : 0 ≤ (charges.map (newLogical t owner)).sum := by
      refine List.sum_nonneg fun x hx ↦ ?_
      obtain ⟨d, hd, rfl⟩ := List.mem_map.mp hx
      rw [newLogical]
      split
      · exact le_rfl
      · exact (hrest d hd).1
    have hphysical' : 0 ≤ (charges.map (newPhysical t)).sum := by
      refine List.sum_nonneg fun x hx ↦ ?_
      obtain ⟨d, hd, rfl⟩ := List.mem_map.mp hx
      rw [newPhysical]
      split
      · exact le_rfl
      · exact (hrest d hd).2
    obtain ⟨row, hrow⟩ := hrows c List.mem_cons_self
    rw [hquota'] at hlogical
    have hpaid : quota.logicalBytes + newLogical t owner c ≤ limits.logicalBytes := by omega
    have hroom : t.site.physicalBytes + newPhysical t c ≤ limits.sitePhysicalBytes := by omega
    obtain ⟨t₁, hattach, attached⟩ := attachContent_succeeds hquota hrow hpaid hroom
    have hne : ∀ d ∈ charges, d.digest ≠ c.digest := fun d hd heq ↦
      hdistinct.1 (heq ▸ List.mem_map_of_mem hd)
    obtain ⟨charged, hcharges⟩ := attached.charges
    obtain ⟨eligible, heligibility⟩ := attached.eligibility
    obtain ⟨quota₁, hquota₁⟩ := attached.quota
    have hsame : charges.map (newLogical t₁ owner) = charges.map (newLogical t owner) :=
      List.map_congr_left fun d hd ↦ newLogical_congr hcharges (hne d hd)
    have hsame' : charges.map (newPhysical t₁) = charges.map (newPhysical t) :=
      List.map_congr_left fun d hd ↦ newPhysical_congr hcharges (hne d hd)
    have hrows₁ : ∀ d ∈ charges, ∃ row, t₁.eligibility.lookup d.digest = some row := by
      intro d hd
      rw [heligibility, Finmap.lookup_insert_of_ne _ (hne d hd)]
      exact hrows d (List.mem_cons_of_mem c hd)
    have hphysicalEq := attached.physical
    have hlogicalEq := attached.logical
    rw [hquota'] at hlogicalEq
    obtain ⟨t', hrun, hthemes, hrevisions⟩ := ih hquota₁ hdistinct.2 hrows₁ hrest
      (by rw [hsame]; omega) (by rw [hsame']; omega)
    refine ⟨t', ?_, hthemes.trans attached.themes, hrevisions.trans attached.revisions⟩
    rw [List.foldlM_cons, hattach]
    exact hrun

end Contents

section Admission

variable {sha256 : List UInt8 → ContentHash} {compiled : CompiledThemeRevision} {owner : ThemeOwner}
  {limits : ThemeQuotaLimits} {themeId now : ℤ} {t t' : ThemeTables} {es : List ThemeContentEligibility}
  {charges : List ThemeContentCharge}

/-- The upserts leave everything but the eligibility, where every digest gets a row. -/
structure Upserted (es : List ThemeContentEligibility) (t t' : ThemeTables) : Prop where
  frame : t' = { t with eligibility := t'.eligibility }
  kept : ∀ d row, t.eligibility.lookup d = some row → ∃ row, t'.eligibility.lookup d = some row
  added : ∀ e ∈ es, ∃ row, t'.eligibility.lookup e.digest = some row

theorem upsertAll_upserted (es : List ThemeContentEligibility) (t : ThemeTables) :
    Upserted es t (es.foldl upsertContentEligibility t) := by
  induction es generalizing t with
  | nil => exact ⟨rfl, fun _ row h ↦ ⟨row, h⟩, fun _ h ↦ absurd h List.not_mem_nil⟩
  | cons e es ih =>
    obtain ⟨hframe, hkept, hadded⟩ := ih (upsertContentEligibility t e)
    have hthis : ∃ row, (upsertContentEligibility t e).eligibility.lookup e.digest = some row :=
      ⟨_, Finmap.lookup_insert _⟩
    rw [List.foldl_cons]
    refine ⟨?_, fun d row hrow ↦ ?_, List.forall_mem_cons.mpr ⟨?_, hadded⟩⟩
    · exact hframe
    · by_cases hd : d = e.digest
      · obtain ⟨row', hrow'⟩ := hthis
        exact hkept d row' (hd ▸ hrow')
      · refine hkept d row ?_
        rwa [upsertContentEligibility, Finmap.lookup_insert_of_ne _ hd]
    · obtain ⟨row, hrow⟩ := hthis
      exact hkept e.digest row hrow

theorem attachRevisionContent_succeeds {quota : OwnerQuota}
    (hquota : t.owners.lookup owner = some quota) (hascend : chargesAscend charges = true)
    (hrows : ∀ c ∈ charges, ∃ row, t.eligibility.lookup c.digest = some row)
    (hnonneg : ∀ c ∈ charges, 0 ≤ c.logicalBytes ∧ 0 ≤ c.physicalBytes)
    (hsite : t.site.retainedRevisions < limits.siteRetainedRevisions)
    (howner : quota.retainedRevisions < limits.retainedRevisions)
    (hlogical : quota.logicalBytes + (charges.map (newLogical t owner)).sum ≤ limits.logicalBytes)
    (hphysical : t.site.physicalBytes + (charges.map (newPhysical t)).sum ≤ limits.sitePhysicalBytes) :
    ∃ t', attachRevisionContent t owner limits charges = .ok t' ∧ t'.themes = t.themes ∧
      t'.revisions = t.revisions := by
  rw [attachRevisionContent, require_pos hascend, ok_bind, retainRevision, require_pos hsite, ok_bind,
    hquota, orError_some, ok_bind, require_pos howner, ok_bind, ok_bind]
  refine attachAll_succeeds (Finmap.lookup_insert _) (chargesAscend_nodup hascend) hrows hnonneg ?_ hphysical
  rw [ownerQuota_of_lookup (Finmap.lookup_insert _)]
  exact hlogical

/-- A revision is recorded unless the theme already has one with its digest. -/
theorem recordRevision_iff {revision : ThemeRevision} {assets : List ThemePackageAsset} {row : ThemeRow}
    (hrow : t.themes.lookup revision.themeId = some row) (howner : row.owner = owner)
    (hnodup : (assets.map ThemePackageAsset.path).Nodup) :
    (∃ t', recordRevision t owner revision assets = .ok t' ∧
      currentDigest t' revision.themeId = some revision.digest) ↔
    ∀ r ∈ revisionsOf t revision.themeId, r.revision.digest ≠ revision.digest := by
  have hfresh : (¬t.revisions.any (fun r ↦ r.revision.themeId = revision.themeId ∧
      r.revision.digest = revision.digest)) ↔
      ∀ r ∈ revisionsOf t revision.themeId, r.revision.digest ≠ revision.digest := by
    rw [List.any_eq_true]
    constructor
    · intro h r hr heq
      obtain ⟨hmem, hid⟩ := List.mem_filter.mp hr
      exact h ⟨r, hmem, decide_eq_true ⟨of_decide_eq_true hid, heq⟩⟩
    · rintro h ⟨r, hmem, hboth⟩
      obtain ⟨hid, heq⟩ := of_decide_eq_true hboth
      exact h r (List.mem_filter.mpr ⟨hmem, decide_eq_true hid⟩) heq
  rw [recordRevision, hrow, orError_some, ok_bind, require_pos howner, ok_bind]
  constructor
  · rintro ⟨t', hok, -⟩
    obtain ⟨_, hnew, -⟩ := bind_eq_ok.mp hok
    exact hfresh.mp (require_eq_ok.mp hnew)
  · intro h
    rw [require_pos (hfresh.mpr h), ok_bind, require_pos hnodup, ok_bind]
    refine ⟨_, rfl, ?_⟩
    rw [currentDigest, Finmap.lookup_insert]
    rfl

/-- The contents of a package are attached where there is room for them. -/
theorem attachBlobs_succeeds {t₁ : ThemeTables} (quota : ∃ quota, t.owners.lookup owner = some quota)
    (hquotas : QuotasPermit t (admission sha256 owner limits themeId compiled now))
    (upserted : Upserted (admission sha256 owner limits themeId compiled now).eligibilities t t₁) :
    ∃ t₂, attachRevisionContent t₁ owner limits ((blobs sha256 compiled).map charge) = .ok t₂ ∧
      t₂.themes = t.themes ∧ t₂.revisions = t.revisions := by
  obtain ⟨quota, hquota⟩ := quota
  obtain ⟨hsite, howners, hlogical, hphysical⟩ := hquotas
  obtain ⟨hframe, -, hadded⟩ := upserted
  have howners₁ : t₁.owners = t.owners := by rw [hframe]
  have hsite₁ : t₁.site = t.site := by rw [hframe]
  have hcharges₁ : t₁.charges = t.charges := by rw [hframe]
  have hnewLogical : newLogical t₁ owner = newLogical t owner := by
    funext c
    rw [newLogical, newLogical, hcharges₁]
  have hnewPhysical : newPhysical t₁ = newPhysical t := by
    funext c
    rw [newPhysical, newPhysical, hcharges₁]
  have hrows : ∀ c ∈ (blobs sha256 compiled).map charge,
      ∃ row, t₁.eligibility.lookup c.digest = some row := by
    intro c hc
    obtain ⟨b, hb, rfl⟩ := List.mem_map.mp hc
    exact hadded _ (List.mem_map_of_mem hb)
  have hnonneg : ∀ c ∈ (blobs sha256 compiled).map charge,
      0 ≤ c.logicalBytes ∧ 0 ≤ c.physicalBytes := by
    intro c hc
    obtain ⟨b, -, rfl⟩ := List.mem_map.mp hc
    exact ⟨Int.natCast_nonneg _, Int.natCast_nonneg _⟩
  rw [admission] at hsite howners hlogical hphysical
  simp only at hsite howners hlogical hphysical
  rw [ownerQuota_of_lookup hquota] at howners hlogical
  obtain ⟨t₂, hattach, hthemes, hrevisions⟩ := attachRevisionContent_succeeds
    (by rw [howners₁]; exact hquota) (chargesAscend_blobs sha256 compiled) hrows hnonneg
    (by rw [hsite₁]; exact hsite) howners (by rw [hnewLogical]; exact hlogical)
    (by rw [hsite₁, hnewPhysical]; exact hphysical)
  refine ⟨t₂, hattach, ?_, ?_⟩
  · rw [hthemes, hframe]
  · rw [hrevisions, hframe]

/-- Where there is room and every bound path exists, a publication succeeds, and its revision becomes
the current one, unless it is an earlier one that has been replaced. -/
theorem admitPublication_iff (standing : Standing t owner themeId)
    (hquotas : QuotasPermit t (admission sha256 owner limits themeId compiled now))
    (hpaths : PathsExist t themeId compiled) :
    (∃ t', admitPublication t (admission sha256 owner limits themeId compiled now) = .ok t' ∧
      currentDigest t' themeId = some (compiled.revisionDigest sha256)) ↔
    NotReplaced t themeId (compiled.revisionDigest sha256) := by
  obtain ⟨row, hrow, howner⟩ := Option.map_eq_some_iff.mp standing.owned
  have hcurrent : currentDigest t themeId = row.currentRevision := by
    rw [currentDigest, hrow]
    rfl
  have hlookup : t.themes.lookup (revision sha256 themeId compiled).themeId = some row := hrow
  have hpersisted : admitPublication t (admission sha256 owner limits themeId compiled now) =
      (if row.currentRevision = some (compiled.revisionDigest sha256) then .ok t
      else do
        require ((t.boundPaths.filter (fun b ↦ b.themeId = themeId)).all
          (fun b ↦ (assets sha256 compiled).any (fun a ↦ a.path = b.path))) .rowNotFound
        let t ← attachRevisionContent ((admission sha256 owner limits themeId compiled
          now).eligibilities.foldl upsertContentEligibility t) owner limits
          ((blobs sha256 compiled).map charge)
        recordRevision t owner (revision sha256 themeId compiled) (assets sha256 compiled)) := by
    rw [admitPublication, admission]
    simp only
    rw [require_pos (chargesAscend_blobs sha256 compiled), ok_bind, hlookup, orError_some, ok_bind,
      require_pos howner, ok_bind]
    rfl
  rw [NotReplaced, hcurrent, hpersisted]
  by_cases hsame : row.currentRevision = some (compiled.revisionDigest sha256)
  · rw [if_pos hsame]
    exact iff_of_true ⟨t, rfl, hcurrent.trans hsame⟩ (.inl hsame)
  · have hbound : (t.boundPaths.filter (fun b ↦ b.themeId = themeId)).all
        (fun b ↦ (assets sha256 compiled).any (fun a ↦ a.path = b.path)) = true := by
      rw [List.all_eq_true]
      intro b hb
      obtain ⟨hmem, hid⟩ := List.mem_filter.mp hb
      obtain ⟨a, ha, hpath⟩ := hpaths b hmem (of_decide_eq_true hid)
      rw [List.any_eq_true]
      exact ⟨_, List.mem_map_of_mem ha, decide_eq_true hpath⟩
    obtain ⟨t₂, hattach, hthemes, hrevisions⟩ := attachBlobs_succeeds standing.quota hquotas
      (upsertAll_upserted _ t)
    rw [if_neg hsame, require_pos hbound, ok_bind, hattach, ok_bind, or_iff_right hsame]
    have hlookup₂ : t₂.themes.lookup (revision sha256 themeId compiled).themeId = some row := by
      rw [hthemes]
      exact hlookup
    have hrecord := recordRevision_iff hlookup₂ howner (assets_nodup sha256 compiled)
    rw [revisionsOf, hrevisions] at hrecord
    exact hrecord

end Admission

section Keeping

variable {text : NameText} {owner o : ThemeOwner} {limits : ThemeQuotaLimits} {themeId : ℤ}
  {t t' t'' : ThemeTables} {name : String} {draft : ThemeDraft}

/-- No theme changes its owner, and no quota row is lost. -/
structure Keeps (t t' : ThemeTables) : Prop where
  owners : ∀ id, ownerOf t' id = ownerOf t id
  quotas : ∀ o quota, t.owners.lookup o = some quota → ∃ quota, t'.owners.lookup o = some quota

theorem Keeps.refl (t : ThemeTables) : Keeps t t := ⟨fun _ ↦ rfl, fun _ quota h ↦ ⟨quota, h⟩⟩

theorem Keeps.trans (h : Keeps t t') (h' : Keeps t' t'') : Keeps t t'' where
  owners id := (h'.owners id).trans (h.owners id)
  quotas o quota hquota := by
    obtain ⟨quota', hquota'⟩ := h.quotas o quota hquota
    exact h'.quotas o quota' hquota'

theorem Keeps.of_insert {quota : OwnerQuota} (hthemes : t'.themes = t.themes)
    (howners : t'.owners = t.owners.insert owner quota) : Keeps t t' where
  owners id := by rw [ownerOf, ownerOf, hthemes]
  quotas o quota hquota := by
    rw [howners, lookup_insert_eq]
    split
    · exact ⟨_, rfl⟩
    · exact ⟨quota, hquota⟩

theorem Keeps.of_same (hthemes : t'.themes = t.themes) (howners : t'.owners = t.owners) : Keeps t t' where
  owners id := by rw [ownerOf, ownerOf, hthemes]
  quotas o quota hquota := by
    rw [howners]
    exact ⟨quota, hquota⟩

theorem Keeps.of_row {row row' : ThemeRow} (hrow : t.themes.lookup themeId = some row)
    (hthemes : t'.themes = t.themes.insert themeId row') (howner : row'.owner = row.owner)
    (howners : t'.owners = t.owners) : Keeps t t' where
  owners id := by
    rw [ownerOf, ownerOf, hthemes, lookup_insert_eq]
    split_ifs with hid
    · rw [hid, hrow]
      exact congrArg some howner
    · rfl
  quotas o quota hquota := by
    rw [howners]
    exact ⟨quota, hquota⟩

theorem Standing.keeps (h : Standing t owner themeId) (keeps : Keeps t t') : Standing t' owner themeId := by
  obtain ⟨howned, quota, hquota⟩ := h
  exact ⟨(keeps.owners themeId).trans howned, keeps.quotas owner quota hquota⟩

theorem chargeBytes_keeps {c : ThemeContentCharge} (h : chargeBytes t owner limits c = .ok t') :
    Keeps t t' := by
  rw [chargeBytes] at h
  split at h
  · obtain rfl := Except.ok.inj h
    exact .refl t
  · obtain ⟨quota, -, h⟩ := bind_eq_ok.mp h
    obtain ⟨_, -, h⟩ := bind_eq_ok.mp h
    have hpaid : Keeps t (t.setLogical owner (quota.logicalBytes + c.logicalBytes)) := .of_insert rfl rfl
    simp only at h
    split at h
    · obtain rfl := Except.ok.inj h
      exact hpaid
    · obtain ⟨_, -, h⟩ := bind_eq_ok.mp h
      obtain rfl := Except.ok.inj h
      exact hpaid.trans (.of_same rfl rfl)

theorem attachAll_keeps {charges : List ThemeContentCharge}
    (h : charges.foldlM (attachContent owner limits) t = .ok t') : Keeps t t' := by
  induction charges generalizing t with
  | nil =>
    obtain rfl := Except.ok.inj h
    exact .refl t
  | cons c charges ih =>
    rw [List.foldlM_cons] at h
    obtain ⟨t₁, hattach, h⟩ := bind_eq_ok.mp h
    obtain ⟨row, -, hattach⟩ := bind_eq_ok.mp hattach
    obtain ⟨p, hp, hattach⟩ := bind_eq_ok.mp hattach
    obtain rfl := Except.ok.inj hattach
    refine Keeps.trans ?_ (ih h)
    exact (chargeBytes_keeps hp).trans (.of_same rfl rfl)

theorem admitPublication_keeps {admission : ThemePublicationAdmission}
    (h : admitPublication t admission = .ok t') : Keeps t t' := by
  unfold admitPublication at h
  obtain ⟨_, -, h⟩ := bind_eq_ok.mp h
  obtain ⟨row, -, h⟩ := bind_eq_ok.mp h
  obtain ⟨_, -, h⟩ := bind_eq_ok.mp h
  dsimp only at h
  split_ifs at h
  · obtain rfl := Except.ok.inj h
    exact .refl t
  · obtain ⟨_, -, h⟩ := bind_eq_ok.mp h
    obtain ⟨t₂, hattach, hrecord⟩ := bind_eq_ok.mp h
    have hframe := (upsertAll_upserted admission.eligibilities t).frame
    have hupsert : Keeps t (admission.eligibilities.foldl upsertContentEligibility t) := by
      rw [hframe]
      exact .of_same rfl rfl
    obtain ⟨_, -, hattach⟩ := bind_eq_ok.mp hattach
    obtain ⟨t₃, hretain, hattach⟩ := bind_eq_ok.mp hattach
    obtain ⟨_, -, hretain⟩ := bind_eq_ok.mp hretain
    obtain ⟨quota, -, hretain⟩ := bind_eq_ok.mp hretain
    obtain ⟨_, -, hretain⟩ := bind_eq_ok.mp hretain
    obtain rfl := Except.ok.inj hretain
    obtain ⟨row, hrow, hrecord⟩ := bind_eq_ok.mp hrecord
    obtain ⟨_, -, hrecord⟩ := bind_eq_ok.mp hrecord
    obtain ⟨_, -, hrecord⟩ := bind_eq_ok.mp hrecord
    obtain ⟨_, -, hrecord⟩ := bind_eq_ok.mp hrecord
    obtain rfl := Except.ok.inj hrecord
    have hrecorded : Keeps t₂ { t₂ with
        revisions := t₂.revisions ++ [⟨admission.revision, admission.assets⟩]
        themes := t₂.themes.insert admission.revision.themeId
          { row with currentRevision := some admission.revision.digest } } :=
      .of_row (orError_eq_ok.mp hrow) rfl rfl rfl
    have hattached := attachAll_keeps hattach
    refine (hupsert.trans ?_).trans (hattached.trans hrecorded)
    exact .of_insert rfl rfl

/-- The name is new, the revision and everything else stay. -/
theorem renameTheme_ok (h : renameTheme text t owner themeId name = .ok t') :
    ∃ row row', t.themes.lookup themeId = some row ∧ t'.themes = t.themes.insert themeId row' ∧
      row'.owner = row.owner ∧ row'.currentRevision = row.currentRevision ∧ t'.owners = t.owners ∧
      t'.revisions = t.revisions := by
  obtain ⟨label, -, h⟩ := bind_eq_ok.mp h
  obtain ⟨row, hrow, h⟩ := bind_eq_ok.mp h
  obtain ⟨_, -, h⟩ := bind_eq_ok.mp h
  obtain ⟨_, -, h⟩ := bind_eq_ok.mp h
  obtain rfl := Except.ok.inj h
  exact ⟨row, _, orError_eq_ok.mp hrow, rfl, rfl, rfl, rfl, rfl⟩

theorem renameTheme_keeps (h : renameTheme text t owner themeId name = .ok t') : Keeps t t' := by
  obtain ⟨row, row', hrow, hthemes, howner, -, howners, -⟩ := renameTheme_ok h
  exact .of_row hrow hthemes howner howners

theorem replaceDraft_keeps (h : replaceDraft t owner draft limits = .ok t') : Keeps t t' := by
  obtain ⟨old, oldRow, bytes, -, replaced⟩ := replaceDraft_replaced h
  exact .of_insert replaced.themes replaced.owners

end Keeping

/-- The writes to the drafts and revisions of themes. -/
inductive Write
  | replaceDraft (owner : ThemeOwner) (themeId : ℤ) (package : ValidatedThemePackage)
      (limits : ThemeQuotaLimits)
  | publish (owner : ThemeOwner) (limits : ThemeQuotaLimits) (themeId : ℤ)
      (compiled : CompiledThemeRevision) (now : ℤ)
  | save (owner : ThemeOwner) (limits : ThemeQuotaLimits) (change : ThemeEditorChange)
      (compiled : CompiledThemeRevision) (now : ℤ)

section Writes

variable (sha256 : List UInt8 → ContentHash) (text : NameText)

def perform (t : ThemeTables) : Write → Option ThemeTables
  | .replaceDraft owner themeId package limits =>
    (replaceDraft t owner (draftOf sha256 themeId package) limits).toOption
  | .publish owner limits themeId compiled now =>
    (admitPublication t (admission sha256 owner limits themeId compiled now)).toOption
  | .save owner limits change compiled now =>
    ((persist text t owner limits change
      (admission sha256 owner limits change.themeId compiled now)).map Prod.fst).toOption

def writeStep (t : ThemeTables) (event : Write × Commit) : ThemeTables :=
  if event.2.applies then (perform sha256 text t event.1).getD t else t

/-- The bindings that a save leaves. -/
def rebind (t : ThemeTables) (change : ThemeEditorChange) : ThemeTables :=
  { t with
    boundPaths := t.boundPaths.filter (fun b ↦ b.themeId ≠ change.themeId) ++ change.boundPaths }

/-- What a save writes before it publishes: the draft, the name and the bindings. -/
def Prepared (t : ThemeTables) (owner : ThemeOwner) (limits : ThemeQuotaLimits)
    (change : ThemeEditorChange) (prepared : ThemeTables) : Prop :=
  copySnapshot t owner change.themeId = .ok change.expected ∧
    ∃ t₁ t₂, replaceDraft t owner change.draft limits = .ok t₁ ∧
      renameTheme text t₁ owner change.themeId change.name = .ok t₂ ∧
      prepared = rebind t₂ change

end Writes

section Runs

variable {sha256 : List UInt8 → ContentHash} {text : NameText} {owner o : ThemeOwner}
  {limits : ThemeQuotaLimits} {themeId now : ℤ} {t t' p : ThemeTables} {change : ThemeEditorChange}
  {compiled : CompiledThemeRevision} {candidate : ThemePublicationAdmission}

theorem Prepared.keeps (h : Prepared text t owner limits change p) : Keeps t p := by
  obtain ⟨-, t₁, t₂, hdraft, hname, rfl⟩ := h
  exact ((replaceDraft_keeps hdraft).trans (renameTheme_keeps hname)).trans (.of_same rfl rfl)

/-- A save changes neither the current revision nor the retained ones before it publishes. -/
theorem Prepared.notReplaced (h : Prepared text t owner limits change p) (digest : ContentHash) :
    NotReplaced p change.themeId digest ↔ NotReplaced t change.themeId digest := by
  obtain ⟨-, t₁, t₂, hdraft, hname, rfl⟩ := h
  obtain ⟨old, oldRow, bytes, -, replaced⟩ := replaceDraft_replaced hdraft
  obtain ⟨row, row', hrow, hthemes, -, hrevision, -, hrevisions⟩ := renameTheme_ok hname
  have hcurrent : currentDigest (rebind t₂ change) change.themeId = currentDigest t change.themeId := by
    have hlookup : (rebind t₂ change).themes.lookup change.themeId = some row' := by
      have hsame : (rebind t₂ change).themes = t₂.themes := rfl
      rw [hsame, hthemes, Finmap.lookup_insert]
    rw [currentDigest, currentDigest, hlookup, ← replaced.themes, hrow]
    exact hrevision
  have hretained : revisionsOf (rebind t₂ change) change.themeId = revisionsOf t change.themeId := by
    rw [revisionsOf, revisionsOf, ← replaced.revisions, ← hrevisions]
    rfl
  rw [NotReplaced, NotReplaced, hcurrent, hretained]

/-- A prepared save publishes if the theme is selected. -/
theorem persist_eq (h : Prepared text t owner limits change p) :
    persist text t owner limits change candidate =
      (if t.selections.lookup owner = some (.custom change.themeId) then do
        let t' ← admitPublication p candidate
        .ok (t', change.expected.entry.currentRevision ≠ some candidate.revision.digest)
      else .ok (p, false)) := by
  obtain ⟨hsnapshot, t₁, t₂, hdraft, hname, rfl⟩ := h
  have hmap : (Except.ok t₁ : Except ReplaceDraftError ThemeTables).mapError
      (fun _ ↦ ThemeError.protocol "theme draft replacement failed") = .ok t₁ := rfl
  rw [persist, hsnapshot, ok_bind, require_pos rfl, ok_bind]
  simp only
  rw [hdraft, hmap, ok_bind, hname, ok_bind]
  rfl

theorem persist_keeps {applied : Bool}
    (h : persist text t owner limits change candidate = .ok (t', applied)) : Keeps t t' := by
  obtain ⟨current, hcurrent, h'⟩ := bind_eq_ok.mp h
  obtain ⟨_, hexpected, h'⟩ := bind_eq_ok.mp h'
  obtain ⟨t₁, hdraft, h'⟩ := bind_eq_ok.mp h'
  obtain ⟨t₂, hname, -⟩ := bind_eq_ok.mp h'
  have hprepared : Prepared text t owner limits change (rebind t₂ change) := by
    refine ⟨?_, t₁, t₂, mapError_eq_ok.mp hdraft, hname, rfl⟩
    rw [hcurrent, require_eq_ok.mp hexpected]
  rw [persist_eq hprepared] at h
  split at h
  · obtain ⟨t₃, hpersisted, h⟩ := bind_eq_ok.mp h
    obtain rfl := (Prod.mk.inj (Except.ok.inj h)).1
    exact hprepared.keeps.trans (admitPublication_keeps hpersisted)
  · obtain rfl := (Prod.mk.inj (Except.ok.inj h)).1
    exact hprepared.keeps

theorem perform_keeps {write : Write} (h : perform sha256 text t write = some t') : Keeps t t' := by
  have hok : ∀ {ε : Type} {x : Except ε ThemeTables}, x.toOption = some t' → x = .ok t' := by
    intro ε x hx
    cases x with
    | error e => cases hx
    | ok t => rw [Option.some.inj hx]
  cases write with
  | replaceDraft owner themeId package limits => exact replaceDraft_keeps (hok h)
  | publish owner limits themeId compiled now => exact admitPublication_keeps (hok h)
  | save owner limits change compiled now =>
    have hmap := hok h
    cases hpersist : persist text t owner limits change
        (admission sha256 owner limits change.themeId compiled now) with
    | error e =>
      rw [hpersist] at hmap
      cases hmap
    | ok result =>
      rw [hpersist] at hmap
      obtain rfl := Except.ok.inj hmap
      exact persist_keeps hpersist

theorem run_keeps (events : List (Write × Commit)) :
    Keeps t (run (writeStep sha256 text) t events) := by
  refine run_preserves (P := Keeps t) (fun t' event h _ ↦ ?_) (.refl t) (along_true t events)
  rw [writeStep]
  split
  · cases hperform : perform sha256 text t' event.1 with
    | none => exact h
    | some t'' => exact h.trans (perform_keeps hperform)
  · exact h

theorem createTheme_standing {name : String} {draft : ThemeDraft}
    (h : createTheme text t owner name draft limits themeId = .ok t') : Standing t' owner themeId := by
  obtain ⟨row, bytes, -, created⟩ := createTheme_created h
  refine ⟨?_, ?_⟩
  · rw [ownerOf, created.themes, Finmap.lookup_insert]
    exact congrArg some created.owner_eq
  · rw [created.owners, Finmap.lookup_insert]
    exact ⟨_, rfl⟩

/-- In every run of writes to drafts and revisions after the creation of a theme: where the quotas
permit it and every bound path exists, a publication or a save of the selected theme publishes the
package unless its revision is an earlier one that has been replaced. A save of a theme that is not
selected publishes nothing. -/
theorem publication_iff {t₀ t₁ : ThemeTables} {name : String} {draft : ThemeDraft}
    {quotas : ThemeQuotaLimits} (hcreate : createTheme text t₀ owner name draft quotas themeId = .ok t₁)
    (events : List (Write × Commit)) :
    let t := run (writeStep sha256 text) t₁ events
    (∀ limits compiled now,
      QuotasPermit t (admission sha256 owner limits themeId compiled now) → PathsExist t themeId compiled →
      ((∃ t', admitPublication t (admission sha256 owner limits themeId compiled now) = .ok t' ∧
          currentDigest t' themeId = some (compiled.revisionDigest sha256)) ↔
        NotReplaced t themeId (compiled.revisionDigest sha256))) ∧
    ∀ limits change compiled now p, change.themeId = themeId → Prepared text t owner limits change p →
      let candidate := admission sha256 owner limits themeId compiled now
      if t.selections.lookup owner = some (.custom themeId) then
        QuotasPermit p candidate → PathsExist p themeId compiled →
        ((∃ t' applied, persist text t owner limits change candidate = .ok (t', applied) ∧
            currentDigest t' themeId = some (compiled.revisionDigest sha256)) ↔
          NotReplaced t themeId (compiled.revisionDigest sha256))
      else persist text t owner limits change candidate = .ok (p, false) := by
  intro t
  have standing : Standing t owner themeId := (createTheme_standing hcreate).keeps (run_keeps events)
  refine ⟨fun limits compiled now hquotas hpaths ↦ admitPublication_iff standing hquotas hpaths,
    fun limits change compiled now p hid hprepared ↦ ?_⟩
  subst hid
  intro candidate
  by_cases hselected : t.selections.lookup owner = some (.custom change.themeId)
  · rw [if_pos hselected, persist_eq hprepared, if_pos hselected, ← hprepared.notReplaced]
    intro hquotas hpaths
    rw [← admitPublication_iff (standing.keeps hprepared.keeps) hquotas hpaths]
    constructor
    · rintro ⟨t', applied, hok, hcurrent⟩
      obtain ⟨t'', hpersisted, hok⟩ := bind_eq_ok.mp hok
      obtain rfl := (Prod.mk.inj (Except.ok.inj hok)).1
      exact ⟨t'', hpersisted, hcurrent⟩
    · rintro ⟨t', hpersisted, hcurrent⟩
      exact ⟨t', _, by rw [hpersisted, ok_bind], hcurrent⟩
  · rw [if_neg hselected, persist_eq hprepared, if_neg hselected]

end Runs

instance (t : ThemeTables) (a : ThemePublicationAdmission) : Decidable (QuotasPermit t a) :=
  decidable_of_iff (_ ∧ _ ∧ _ ∧ _) ⟨fun ⟨h₁, h₂, h₃, h₄⟩ ↦ ⟨h₁, h₂, h₃, h₄⟩,
    fun ⟨h₁, h₂, h₃, h₄⟩ ↦ ⟨h₁, h₂, h₃, h₄⟩⟩

instance (t : ThemeTables) (themeId : ℤ) (compiled : CompiledThemeRevision) :
    Decidable (PathsExist t themeId compiled) := by
  unfold PathsExist
  infer_instance

def barePackage : ValidatedThemePackage where
  manifest := bytesOf "\x7b\"assets\":\x7b\x7d,\"defaults\":\x7b\x7d,\"name\":\"Plain\",\"schema\":1,\"style_contract\":1\x7d"
  css := bytesOf "p\x7bcolor:red\x7d"
  assets := ⟨[], by decide⟩
  ordered := .nil

/-- The same stylesheet under another name. -/
def renamedPackage : ValidatedThemePackage where
  manifest := bytesOf "\x7b\"assets\":\x7b\x7d,\"defaults\":\x7b\x7d,\"name\":\"Plainer\",\"schema\":1,\"style_contract\":1\x7d"
  css := bytesOf "p\x7bcolor:red\x7d"
  assets := ⟨[], by decide⟩
  ordered := .nil

/-- The SHA-256 digests of what the two packages hash, which their lengths tell apart. -/
def packageSha256 (bytes : List UInt8) : ContentHash :=
  match bytes.length with
  | 74 => plainCssSha256
  | 131 => ⟨"ca5134a1777808b44be2c707e65bbd0d006e40f2f0fe0a2a92ee44c5e9529213", by decide +kernel⟩
  | 133 => ⟨"469e55941b67c21dde46f7766c6954850791e67c137162e8bcadf62dcddf1419", by decide +kernel⟩
  | 145 => ⟨"fbcc3f468751241c9d660047bded88a3592dd3a4b106fdb3465b631cf78cabe9", by decide +kernel⟩
  | _ => ⟨"9fa7f66865c886eb3e7f04d8ca89afa3ca29e57c179b472d6d0648e307603eff", by decide +kernel⟩

/-- The site's theme after its creation. -/
def plainTables : ThemeTables :=
  (createTheme asciiNames ThemeTables.empty .site "Plain" (draftOf packageSha256 1 barePackage)
    productionLimits 1).toOption.getD ThemeTables.empty

theorem plainTables_created : createTheme asciiNames ThemeTables.empty .site "Plain"
    (draftOf packageSha256 1 barePackage) productionLimits 1 = .ok plainTables := by
  rfl

theorem plain_published : ∃ t', admitPublication plainTables
    (admission packageSha256 .site productionLimits 1 (compile barePackage) 100) = .ok t' ∧
      currentDigest t' 1 = some ((compile barePackage).revisionDigest packageSha256) := by
  refine ((publication_iff plainTables_created []).1 productionLimits (compile barePackage) 100 ?_ ?_).mpr
    (.inr ?_)
  · show QuotasPermit plainTables _
    decide +kernel
  · show PathsExist plainTables _ _
    decide +kernel
  · show ∀ r ∈ revisionsOf plainTables 1, _
    decide +kernel

/-- The theme goes from one package to another, and then back to the first. -/
def thereAndBack : List (Write × Commit) :=
  [(.publish .site productionLimits 1 (compile barePackage) 100, .confirmed),
    (.replaceDraft .site 1 renamedPackage productionLimits, .confirmed),
    (.publish .site productionLimits 1 (compile renamedPackage) 200, .confirmed),
    (.replaceDraft .site 1 barePackage productionLimits, .confirmed)]

/-- The first package cannot be published again. -/
theorem return_rejected :
    let t := run (writeStep packageSha256 asciiNames) plainTables thereAndBack
    let candidate := admission packageSha256 .site productionLimits 1 (compile barePackage) 300
    QuotasPermit t candidate ∧ PathsExist t 1 (compile barePackage) ∧
      (admitPublication t candidate).toOption.isNone = true := by
  decide +kernel

end Jaunder.Storage.ThemeRepublication
