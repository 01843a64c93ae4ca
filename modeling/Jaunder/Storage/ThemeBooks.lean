import Jaunder.Storage.Themes

namespace Jaunder.Storage.ThemeBooks

open Foundation.Ledger Foundation.Outcome
open Jaunder.Common.Hash
open Jaunder.Storage.Themes

section Books

variable (t : ThemeTables) (owner : ThemeOwner) (digest : ContentHash)

def ownerOf (themeId : ℤ) : Option ThemeOwner := (t.themes.lookup themeId).map ThemeRow.owner

def chargeLive : ℤ := entry (fun _ row ↦ row.liveReferences) t.charges (owner, digest)

def eligibleLive : ℤ := entry (fun _ row ↦ row.liveReferences) t.eligibility digest

def ownedRevisions : List RetainedRevision :=
  t.revisions.filter (fun r ↦ ownerOf t r.revision.themeId = some owner)

/-- How often the stylesheets and the assets of the revisions of an owner name a digest. -/
def uses : ℤ := ((ownedRevisions t owner).flatMap RetainedRevision.digests).count digest

def totalUses : ℤ := (t.revisions.flatMap RetainedRevision.digests).count digest

def activeThemes : ℤ := total (fun _ row ↦ if row.owner = owner then 1 else 0) t.themes

def draftLogical : ℤ :=
  total (fun id charge ↦ if ownerOf t id = some owner then charge.logicalBytes else 0) t.draftCharges

def contentLogical : ℤ :=
  total (fun key charge ↦ if key.1 = owner then charge.logicalBytes else 0) t.charges

def draftLive (source : ContentHash) : ℤ :=
  entry (fun _ row ↦ row.liveReferences) t.draftContents source

def draftUses (source : ContentHash) : ℤ :=
  total (fun _ charge ↦ if charge.sourceDigest = source then 1 else 0) t.draftCharges

def draftPhysical : ℤ := total (fun _ row ↦ row.physicalBytes) t.draftContents

/-- Every charged digest with its bytes, however many owners it is charged to. -/
def contentBytes : Finset (ContentHash × ℤ) :=
  (t.charges.entries.map (fun e ↦ (e.1.2, e.2.physicalBytes))).toFinset

def contentPhysical : ℤ := ∑ p ∈ contentBytes t, p.2

end Books

/-- The reference counters are the numbers of uses, and the quota counters are the sums of the rows
that they summarize. -/
structure Accounted (t : ThemeTables) : Prop where
  charged : ∀ owner digest, chargeLive t owner digest = uses t owner digest
  eligible : ∀ digest, eligibleLive t digest = totalUses t digest
  siteRevisions : t.site.retainedRevisions = t.revisions.length
  ownerRevisions : ∀ owner, (t.ownerQuota owner).retainedRevisions = (ownedRevisions t owner).length
  activeThemes : ∀ owner, (t.ownerQuota owner).activeThemes = activeThemes t owner
  logicalBytes : ∀ owner, (t.ownerQuota owner).logicalBytes =
    draftLogical t owner + contentLogical t owner
  physicalBytes : t.site.physicalBytes = draftPhysical t + contentPhysical t
  draftReferences : ∀ source, draftLive t source = draftUses t source

def chargedDigests (t : ThemeTables) : Finset ContentHash := t.charges.keys.image Prod.snd

/-- The digests determine the sizes. -/
structure Sized (size draftSize : ContentHash → ℕ) (t : ThemeTables) : Prop where
  charges : ∀ key row, t.charges.lookup key = some row →
    row.logicalBytes = size key.2 ∧ row.physicalBytes = size key.2
  drafts : ∀ id row, t.draftCharges.lookup id = some row →
    row.logicalBytes = draftSize row.sourceDigest
  draftContents : ∀ source row, t.draftContents.lookup source = some row →
    row.physicalBytes = draftSize source ∧ 0 < row.liveReferences

structure Sound (size draftSize : ContentHash → ℕ) (t : ThemeTables) : Prop where
  books : Accounted t
  sized : Sized size draftSize t
  drafted : ∀ id, id ∈ t.themes.keys ↔ id ∈ t.draftCharges.keys
  revised : ∀ r ∈ t.revisions, r.revision.themeId ∈ t.themes.keys

variable {size draftSize : ContentHash → ℕ} {t t' : ThemeTables} {owner o : ThemeOwner}
  {digest d : ContentHash} {quota : OwnerQuota}

section Quotas

theorem ownerQuota_of_lookup (h : t.owners.lookup owner = some quota) :
    t.ownerQuota owner = quota := by
  unfold ThemeTables.ownerQuota
  rw [h]
  rfl

theorem ownerQuota_of_insert (h : t'.owners = t.owners.insert owner quota) (o : ThemeOwner) :
    t'.ownerQuota o = if o = owner then quota else t.ownerQuota o := by
  unfold ThemeTables.ownerQuota
  rw [h, lookup_insert_eq]
  split_ifs
  · rfl
  · rfl

theorem owns_iff {id : ℤ} : t.owns owner id = true ↔ ownerOf t id = some owner := by
  unfold ThemeTables.owns ownerOf
  cases t.themes.lookup id with
  | none => simp
  | some row => simp

end Quotas

section Content

theorem mem_chargedDigests : d ∈ chargedDigests t ↔ ∃ key ∈ t.charges.keys, key.2 = d := by
  rw [chargedDigests, Finset.mem_image]

theorem Sized.contentBytes_eq (h : Sized size draftSize t) :
    contentBytes t = (chargedDigests t).image (fun d ↦ (d, (size d : ℤ))) := by
  ext p
  rw [contentBytes, Multiset.mem_toFinset, Multiset.mem_map, Finset.mem_image]
  constructor
  · rintro ⟨e, he, rfl⟩
    have hlookup := Finmap.lookup_eq_some_iff.mpr he
    refine ⟨e.1.2, mem_chargedDigests.mpr ⟨e.1, ?_, rfl⟩, ?_⟩
    · exact mem_keys_of_lookup hlookup
    · rw [(h.charges e.1 e.2 hlookup).2]
  · rintro ⟨d, hd, rfl⟩
    obtain ⟨key, hkey, rfl⟩ := mem_chargedDigests.mp hd
    obtain ⟨row, hrow⟩ := Finmap.mem_iff.mp (Finmap.mem_keys.mp hkey)
    exact ⟨⟨key, row⟩, Finmap.lookup_eq_some_iff.mp hrow, by rw [(h.charges key row hrow).2]⟩

theorem Sized.contentPhysical_eq (h : Sized size draftSize t) :
    contentPhysical t = ∑ d ∈ chargedDigests t, (size d : ℤ) := by
  rw [contentPhysical, h.contentBytes_eq, Finset.sum_image]
  exact fun a _ b _ hab ↦ (Prod.mk.inj hab).1

theorem Sized.contentPhysical_nonneg (h : Sized size draftSize t) : 0 ≤ contentPhysical t := by
  rw [h.contentPhysical_eq]
  exact Finset.sum_nonneg (fun d _ ↦ Int.natCast_nonneg _)

theorem Sized.contentLogical_nonneg (h : Sized size draftSize t) : 0 ≤ contentLogical t owner := by
  refine total_nonneg (fun key row hrow ↦ ?_)
  split_ifs
  · rw [(h.charges key row hrow).1]
    exact Int.natCast_nonneg _
  · exact le_rfl

theorem Sized.draftLogical_nonneg (h : Sized size draftSize t) : 0 ≤ draftLogical t owner := by
  refine total_nonneg (fun id charge hlookup ↦ ?_)
  split_ifs
  · rw [h.drafts id charge hlookup]
    exact Int.natCast_nonneg _
  · exact le_rfl

theorem Sized.draftPhysical_nonneg (h : Sized size draftSize t) : 0 ≤ draftPhysical t := by
  refine total_nonneg (fun source row hlookup ↦ ?_)
  rw [(h.draftContents source row hlookup).1]
  exact Int.natCast_nonneg _

end Content

/-- A change of the content counters: `n` gives the new references of the owner to each digest and
`k` the new revisions; the drafts, the themes and the revisions stay. -/
structure Booked (size draftSize : ContentHash → ℕ) (owner : ThemeOwner) (n : ContentHash → ℤ)
    (k : ℤ) (t t' : ThemeTables) : Prop where
  themes : t'.themes = t.themes
  drafts : t'.drafts = t.drafts
  draftCharges : t'.draftCharges = t.draftCharges
  draftContents : t'.draftContents = t.draftContents
  revisions : t'.revisions = t.revisions
  charged : ∀ o d, chargeLive t' o d = chargeLive t o d + if o = owner then n d else 0
  eligible : ∀ d, eligibleLive t' d = eligibleLive t d + n d
  siteRevisions : t'.site.retainedRevisions = t.site.retainedRevisions + k
  ownerRevisions : ∀ o, (t'.ownerQuota o).retainedRevisions =
    (t.ownerQuota o).retainedRevisions + if o = owner then k else 0
  activeThemes : ∀ o, (t'.ownerQuota o).activeThemes = (t.ownerQuota o).activeThemes
  logical : ∀ o, (t'.ownerQuota o).logicalBytes - contentLogical t' o =
    (t.ownerQuota o).logicalBytes - contentLogical t o
  physical : t'.site.physicalBytes - contentPhysical t' = t.site.physicalBytes - contentPhysical t
  sized : Sized size draftSize t'

section Booking

variable {n m : ContentHash → ℤ} {k l : ℤ} {t'' : ThemeTables}

theorem Booked.refl (h : Sized size draftSize t) :
    Booked size draftSize owner (fun _ ↦ 0) 0 t t where
  themes := rfl
  drafts := rfl
  draftCharges := rfl
  draftContents := rfl
  revisions := rfl
  charged o d := by rw [ite_self, add_zero]
  eligible d := (add_zero _).symm
  siteRevisions := (add_zero _).symm
  ownerRevisions o := by rw [ite_self, add_zero]
  activeThemes _ := rfl
  logical _ := rfl
  physical := rfl
  sized := h

theorem Booked.trans (h : Booked size draftSize owner n k t t')
    (h' : Booked size draftSize owner m l t' t'') :
    Booked size draftSize owner (fun d ↦ n d + m d) (k + l) t t'' where
  themes := h'.themes.trans h.themes
  drafts := h'.drafts.trans h.drafts
  draftCharges := h'.draftCharges.trans h.draftCharges
  draftContents := h'.draftContents.trans h.draftContents
  revisions := h'.revisions.trans h.revisions
  charged o d := by
    rw [h'.charged, h.charged]
    split_ifs
    · ring
    · ring
  eligible d := by
    rw [h'.eligible, h.eligible]
    ring
  siteRevisions := by
    rw [h'.siteRevisions, h.siteRevisions]
    ring
  ownerRevisions o := by
    rw [h'.ownerRevisions, h.ownerRevisions]
    split_ifs
    · ring
    · ring
  activeThemes o := (h'.activeThemes o).trans (h.activeThemes o)
  logical o := (h'.logical o).trans (h.logical o)
  physical := h'.physical.trans h.physical
  sized := h'.sized

theorem Booked.congr (h : Booked size draftSize owner n k t t') (hn : ∀ d, n d = m d)
    (hk : k = l) : Booked size draftSize owner m l t t' := by
  obtain rfl : n = m := funext hn
  subst hk
  exact h

/-- What the rows of the content tables contribute, before and after the row of one key changes. -/
theorem chargeLive_insert {row : RetainedCharge}
    (h : t'.charges = t.charges.insert (owner, digest) row) (o : ThemeOwner) (d : ContentHash) :
    chargeLive t' o d = if o = owner ∧ d = digest then row.liveReferences else chargeLive t o d := by
  unfold chargeLive
  rw [h, entry_insert]
  simp only [Prod.mk.injEq]

theorem eligibleLive_insert {row : EligibilityRow}
    (h : t'.eligibility = t.eligibility.insert digest row) (d : ContentHash) :
    eligibleLive t' d = if d = digest then row.liveReferences else eligibleLive t d := by
  unfold eligibleLive
  rw [h, entry_insert]

theorem contentLogical_insert {row : RetainedCharge}
    (h : t'.charges = t.charges.insert (owner, digest) row) (o : ThemeOwner) :
    contentLogical t' o = contentLogical t o +
      if o = owner then row.logicalBytes -
        entry (fun _ row ↦ row.logicalBytes) t.charges (owner, digest) else 0 := by
  unfold contentLogical
  rw [h, total_insert]
  unfold entry
  cases t.charges.lookup (owner, digest) with
  | none =>
    by_cases ho : o = owner
    · simp [ho]
    · simp [ho, Ne.symm ho]
  | some old =>
    by_cases ho : o = owner
    · simp only [ho, Option.elim_some, if_true]
      ring
    · simp [ho, Ne.symm ho]

theorem chargedDigests_insert {row : RetainedCharge}
    (h : t'.charges = t.charges.insert (owner, digest) row) :
    chargedDigests t' = insert digest (chargedDigests t) := by
  ext d
  rw [mem_chargedDigests, Finset.mem_insert, mem_chargedDigests, h]
  simp only [Finmap.mem_keys, Finmap.mem_insert]
  constructor
  · rintro ⟨key, rfl | hkey, rfl⟩
    · exact .inl rfl
    · exact .inr ⟨key, hkey, rfl⟩
  · rintro (rfl | ⟨key, hkey, rfl⟩)
    · exact ⟨(owner, d), .inl rfl, rfl⟩
    · exact ⟨key, .inr hkey, rfl⟩

theorem Sized.insert_charge {row : RetainedCharge} (h : Sized size draftSize t)
    (hcharges : t'.charges = t.charges.insert (owner, digest) row)
    (hdrafts : t'.draftCharges = t.draftCharges) (hcontents : t'.draftContents = t.draftContents)
    (hlogical : row.logicalBytes = size digest) (hphysical : row.physicalBytes = size digest) :
    Sized size draftSize t' where
  charges key row' hrow := by
    rw [hcharges, lookup_insert_eq] at hrow
    split_ifs at hrow with hkey
    · rw [hkey, ← Option.some.inj hrow]
      exact ⟨hlogical, hphysical⟩
    · exact h.charges key row' hrow
  drafts := by
    rw [hdrafts]
    exact h.drafts
  draftContents := by
    rw [hcontents]
    exact h.draftContents

theorem Booked.sound (h : Sound size draftSize t)
    (booked : Booked size draftSize owner (fun _ ↦ 0) 0 t t') : Sound size draftSize t' := by
  have hown : ∀ o, ownedRevisions t' o = ownedRevisions t o := by
    intro o
    unfold ownedRevisions ownerOf
    rw [booked.revisions, booked.themes]
  refine ⟨⟨fun o d ↦ ?_, fun d ↦ ?_, ?_, fun o ↦ ?_, fun o ↦ ?_, fun o ↦ ?_, ?_, fun s ↦ ?_⟩,
    booked.sized, fun id ↦ ?_, fun r hr ↦ ?_⟩
  · rw [booked.charged, ite_self, add_zero, h.books.charged, uses, uses, hown]
  · rw [booked.eligible, add_zero, h.books.eligible, totalUses, totalUses, booked.revisions]
  · rw [booked.siteRevisions, add_zero, h.books.siteRevisions, booked.revisions]
  · rw [booked.ownerRevisions, ite_self, add_zero, h.books.ownerRevisions, hown]
  · rw [booked.activeThemes, h.books.activeThemes]
    unfold ThemeBooks.activeThemes
    rw [booked.themes]
  · have hdraft : draftLogical t' o = draftLogical t o := by
      unfold draftLogical ownerOf
      rw [booked.draftCharges, booked.themes]
    have hlogical := booked.logical o
    have hbooks := h.books.logicalBytes o
    omega
  · have hdraft : draftPhysical t' = draftPhysical t := by
      unfold draftPhysical
      rw [booked.draftContents]
    have hphysical := booked.physical
    have hbooks := h.books.physicalBytes
    omega
  · have hlive : draftLive t' s = draftLive t s := by
      unfold draftLive
      rw [booked.draftContents]
    rw [hlive, h.books.draftReferences]
    unfold draftUses
    rw [booked.draftCharges]
  · rw [booked.themes, booked.draftCharges, h.drafted]
  · rw [booked.revisions] at hr
    rw [booked.themes]
    exact h.revised r hr

end Booking

section Attaching

variable {limits : ThemeQuotaLimits} {charge : ThemeContentCharge}

structure Paid (owner : ThemeOwner) (charge : ThemeContentCharge) (t t' : ThemeTables) : Prop where
  frame : t' = { t with site := t'.site, owners := t'.owners }
  siteRevisions : t'.site.retainedRevisions = t.site.retainedRevisions
  ownerRevisions : ∀ o, (t'.ownerQuota o).retainedRevisions = (t.ownerQuota o).retainedRevisions
  activeThemes : ∀ o, (t'.ownerQuota o).activeThemes = (t.ownerQuota o).activeThemes
  logical : ∀ o, (t'.ownerQuota o).logicalBytes = (t.ownerQuota o).logicalBytes +
    if o = owner ∧ t.charges.lookup (owner, charge.digest) = none then charge.logicalBytes else 0
  physical : t'.site.physicalBytes = t.site.physicalBytes +
    if charge.digest ∈ chargedDigests t then 0 else charge.physicalBytes

theorem setLogical_quota (t : ThemeTables) (owner : ThemeOwner) (bytes : ℤ) (o : ThemeOwner) :
    (t.setLogical owner bytes).ownerQuota o =
      if o = owner then { t.ownerQuota owner with logicalBytes := bytes } else t.ownerQuota o :=
  ownerQuota_of_insert rfl o

theorem chargeBytes_paid (h : chargeBytes t owner limits charge = .ok t') : Paid owner charge t t' := by
  unfold chargeBytes at h
  by_cases hcharged : (t.charges.lookup (owner, charge.digest)).isSome = true
  · rw [if_pos hcharged] at h
    obtain rfl := Except.ok.inj h
    obtain ⟨row, hrow⟩ := Option.isSome_iff_exists.mp hcharged
    have hmem : charge.digest ∈ chargedDigests t :=
      mem_chargedDigests.mpr ⟨(owner, charge.digest),
        mem_keys_of_lookup hrow, rfl⟩
    refine ⟨rfl, rfl, fun _ ↦ rfl, fun _ ↦ rfl, fun o ↦ ?_, ?_⟩
    · rw [hrow]
      simp
    · rw [if_pos hmem, add_zero]
  · rw [if_neg hcharged] at h
    have hnone : t.charges.lookup (owner, charge.digest) = none :=
      Option.not_isSome_iff_eq_none.mp hcharged
    obtain ⟨quota, hquota, h⟩ := bind_eq_ok.mp h
    obtain ⟨-, -, h⟩ := bind_eq_ok.mp h
    have hq := ownerQuota_of_lookup (orError_eq_ok.mp hquota)
    have hlogical : ∀ o, ((t.setLogical owner (quota.logicalBytes + charge.logicalBytes)).ownerQuota
        o).logicalBytes = (t.ownerQuota o).logicalBytes + if o = owner ∧
          t.charges.lookup (owner, charge.digest) = none then charge.logicalBytes else 0 := by
      intro o
      rw [setLogical_quota, hnone]
      by_cases ho : o = owner
      · simp [ho, hq]
      · simp [ho]
    have hactive : ∀ o, ((t.setLogical owner (quota.logicalBytes + charge.logicalBytes)).ownerQuota
        o).activeThemes = (t.ownerQuota o).activeThemes := by
      intro o
      rw [setLogical_quota]
      split_ifs with ho
      · rw [ho]
      · rfl
    have hrevisions : ∀ o, ((t.setLogical owner (quota.logicalBytes + charge.logicalBytes)).ownerQuota
        o).retainedRevisions = (t.ownerQuota o).retainedRevisions := by
      intro o
      rw [setLogical_quota]
      split_ifs with ho
      · rw [ho]
      · rfl
    dsimp only at h
    split_ifs at h with hother
    · obtain rfl := Except.ok.inj h
      exact ⟨rfl, rfl, hrevisions, hactive, hlogical,
        by rw [if_pos (mem_chargedDigests.mpr hother), add_zero]; rfl⟩
    · obtain ⟨-, -, h⟩ := bind_eq_ok.mp h
      obtain rfl := Except.ok.inj h
      exact ⟨rfl, rfl, hrevisions, hactive, hlogical,
        by rw [if_neg (fun hmem ↦ hother (mem_chargedDigests.mp hmem))]; rfl⟩

theorem attachContent_booked (hsized : Sized size draftSize t)
    (h : attachContent owner limits t charge = .ok t')
    (hlogical : charge.logicalBytes = size charge.digest)
    (hphysical : charge.physicalBytes = size charge.digest) :
    Booked size draftSize owner (fun d ↦ if d = charge.digest then 1 else 0) 0 t t' := by
  obtain ⟨row, hrow, h⟩ := bind_eq_ok.mp h
  obtain ⟨p, hpaid, h⟩ := bind_eq_ok.mp h
  have paid := chargeBytes_paid hpaid
  have hframe := paid.frame
  obtain rfl := Except.ok.inj h
  have hlive : (oneMore charge (t.charges.lookup (owner, charge.digest))).liveReferences =
      chargeLive t owner charge.digest + 1 := by
    rw [chargeLive, entry]
    cases t.charges.lookup (owner, charge.digest) with
    | none => rfl
    | some old => rfl
  have hbytes : (oneMore charge (t.charges.lookup (owner, charge.digest))).logicalBytes =
        size charge.digest ∧
      (oneMore charge (t.charges.lookup (owner, charge.digest))).physicalBytes =
        size charge.digest := by
    cases hold : t.charges.lookup (owner, charge.digest) with
    | none => exact ⟨hlogical, hphysical⟩
    | some old => exact hsized.charges _ old hold
  have hsized' : Sized size draftSize { p with
      charges := t.charges.insert (owner, charge.digest)
        (oneMore charge (t.charges.lookup (owner, charge.digest)))
      eligibility := t.eligibility.insert charge.digest
        { row with liveReferences := row.liveReferences + 1 } } :=
    hsized.insert_charge rfl (by rw [hframe]) (by rw [hframe]) hbytes.1 hbytes.2
  refine ⟨by rw [hframe], by rw [hframe], by rw [hframe], by rw [hframe], by rw [hframe],
    fun o d ↦ ?_, fun d ↦ ?_, ?_, fun o ↦ ?_, paid.activeThemes, fun o ↦ ?_, ?_, hsized'⟩
  · rw [chargeLive_insert rfl o d, hlive]
    by_cases ho : o = owner
    · subst ho
      by_cases hd : d = charge.digest
      · simp [hd]
      · simp [hd]
    · simp [ho]
  · rw [eligibleLive_insert rfl d]
    by_cases hd : d = charge.digest
    · rw [if_pos hd, if_pos hd, hd, eligibleLive, entry_of_lookup (orError_eq_ok.mp hrow)]
    · rw [if_neg hd, if_neg hd, add_zero]
  · rw [add_zero]
    exact paid.siteRevisions
  · rw [ite_self, add_zero]
    exact paid.ownerRevisions o
  · have hquota := paid.logical o
    have hentry : entry (fun _ row ↦ row.logicalBytes) t.charges (owner, charge.digest) =
        if t.charges.lookup (owner, charge.digest) = none then 0 else (size charge.digest : ℤ) := by
      cases hold : t.charges.lookup (owner, charge.digest) with
      | none => exact entry_of_none hold
      | some old =>
        rw [entry_of_lookup hold, (hsized.charges _ old hold).1]
        simp
    rw [contentLogical_insert rfl o, hbytes.1, hentry]
    change (p.ownerQuota o).logicalBytes - _ = _
    rw [hquota, hlogical]
    by_cases ho : o = owner
    · by_cases hnone : t.charges.lookup (owner, charge.digest) = none
      · simp only [ho, hnone, and_self, if_true]
        ring
      · simp [ho, hnone]
    · simp [ho]
  · have hsite := paid.physical
    rw [hsized'.contentPhysical_eq, hsized.contentPhysical_eq, chargedDigests_insert rfl]
    change p.site.physicalBytes - _ = _
    rw [hsite, hphysical]
    by_cases hmem : charge.digest ∈ chargedDigests t
    · rw [if_pos hmem, Finset.insert_eq_of_mem hmem, add_zero]
    · rw [if_neg hmem, Finset.sum_insert hmem]
      ring

theorem attachAll_booked {charges : List ThemeContentCharge} (hsized : Sized size draftSize t)
    (hcharges : ∀ c ∈ charges, c.logicalBytes = size c.digest ∧ c.physicalBytes = size c.digest)
    (h : charges.foldlM (attachContent owner limits) t = .ok t') :
    Booked size draftSize owner
      (fun d ↦ ((charges.map ThemeContentCharge.digest).count d : ℤ)) 0 t t' := by
  induction charges generalizing t with
  | nil =>
    obtain rfl := pure_eq_ok.mp h
    exact (Booked.refl hsized).congr (fun _ ↦ rfl) rfl
  | cons c charges ih =>
    rw [List.foldlM_cons] at h
    obtain ⟨t₁, hc, h⟩ := bind_eq_ok.mp h
    obtain ⟨hlogical, hphysical⟩ := hcharges c List.mem_cons_self
    have hfirst := attachContent_booked hsized hc hlogical hphysical
    have hrest := ih hfirst.sized (fun c hmem ↦ hcharges c (List.mem_cons_of_mem _ hmem)) h
    refine (hfirst.trans hrest).congr (fun d ↦ ?_) (add_zero _)
    rw [List.map_cons, List.count_cons]
    by_cases hd : d = c.digest
    · simp [hd, add_comm]
    · simp [hd, Ne.symm hd]

/-- Both revision counters move by `n`. -/
theorem recount_booked {n : ℤ} (hsized : Sized size draftSize t)
    (hquota : t.owners.lookup owner = some quota) :
    Booked size draftSize owner (fun _ ↦ 0) n t { t with
      site := { t.site with retainedRevisions := t.site.retainedRevisions + n }
      owners := t.owners.insert owner
        { quota with retainedRevisions := quota.retainedRevisions + n } } := by
  have hq := ownerQuota_of_lookup hquota
  refine { Booked.refl hsized with
    siteRevisions := rfl
    ownerRevisions := fun o ↦ ?_
    activeThemes := fun o ↦ ?_
    logical := fun o ↦ ?_
    sized := ⟨hsized.charges, hsized.drafts, hsized.draftContents⟩ }
  all_goals rw [ownerQuota_of_insert rfl o]
  · by_cases ho : o = owner
    · simp [ho, hq]
    · simp [ho]
  · by_cases ho : o = owner
    · simp [ho, hq]
    · simp [ho]
  · by_cases ho : o = owner
    · rw [if_pos ho, ho, hq]
      rfl
    · rw [if_neg ho]
      rfl

theorem retainRevision_booked (hsized : Sized size draftSize t)
    (h : retainRevision t owner limits = .ok t') :
    Booked size draftSize owner (fun _ ↦ 0) 1 t t' := by
  obtain ⟨-, -, h⟩ := bind_eq_ok.mp h
  obtain ⟨quota, hquota, h⟩ := bind_eq_ok.mp h
  obtain ⟨-, -, h⟩ := bind_eq_ok.mp h
  obtain rfl := Except.ok.inj h
  exact recount_booked hsized (orError_eq_ok.mp hquota)

theorem upsert_booked {e : ThemeContentEligibility} (hsized : Sized size draftSize t) :
    Booked size draftSize owner (fun _ ↦ 0) 0 t (upsertContentEligibility t e) := by
  refine { Booked.refl hsized with
    eligible := fun d ↦ ?_
    sized := ⟨hsized.charges, hsized.drafts, hsized.draftContents⟩ }
  rw [add_zero, upsertContentEligibility, eligibleLive_insert rfl d]
  by_cases hd : d = e.digest
  · rw [if_pos hd, hd, eligibleLive, entry]
    cases t.eligibility.lookup e.digest with
    | none => rfl
    | some row => rfl
  · rw [if_neg hd]

theorem upsertAll_booked {es : List ThemeContentEligibility} (hsized : Sized size draftSize t) :
    Booked size draftSize owner (fun _ ↦ 0) 0 t (es.foldl upsertContentEligibility t) := by
  induction es generalizing t with
  | nil => exact Booked.refl hsized
  | cons e es ih =>
    have hfirst : Booked size draftSize owner (fun _ ↦ 0) 0 t (upsertContentEligibility t e) :=
      upsert_booked hsized
    exact (hfirst.trans (ih hfirst.sized)).congr (fun _ ↦ rfl) rfl

theorem attachRevisionContent_booked {charges : List ThemeContentCharge}
    (hsized : Sized size draftSize t)
    (hcharges : ∀ c ∈ charges, c.logicalBytes = size c.digest ∧ c.physicalBytes = size c.digest)
    (h : attachRevisionContent t owner limits charges = .ok t') :
    Booked size draftSize owner
      (fun d ↦ ((charges.map ThemeContentCharge.digest).count d : ℤ)) 1 t t' := by
  obtain ⟨-, -, h⟩ := bind_eq_ok.mp h
  obtain ⟨t₁, hretain, h⟩ := bind_eq_ok.mp h
  have hfirst := retainRevision_booked hsized hretain
  have hrest := attachAll_booked hfirst.sized hcharges h
  exact (hfirst.trans hrest).congr (fun d ↦ zero_add _) rfl

end Attaching

section Detaching

variable {until_ : ℤ} {charge : ContentHash × ℤ}

theorem detachContent_booked (hsized : Sized size draftSize t)
    (h : detachContent owner until_ t charge = .ok t') :
    Booked size draftSize owner (fun d ↦ if charge.1 = d then -charge.2 else 0) 0 t t' := by
  obtain ⟨charged, hcharged, h⟩ := bind_eq_ok.mp h
  obtain ⟨row, hrow, h⟩ := bind_eq_ok.mp h
  obtain ⟨-, -, h⟩ := bind_eq_ok.mp h
  have hlookup := orError_eq_ok.mp hcharged
  have hmem : charge.1 ∈ chargedDigests t :=
    mem_chargedDigests.mpr ⟨(owner, charge.1),
      mem_keys_of_lookup hlookup, rfl⟩
  obtain ⟨hlogical, hphysical⟩ := hsized.charges _ charged hlookup
  obtain rfl := Except.ok.inj h
  set t' : ThemeTables := { t with
    charges := t.charges.insert (owner, charge.1)
      { charged with liveReferences := charged.liveReferences - charge.2 }
    eligibility := t.eligibility.insert charge.1 { row with
      liveReferences := row.liveReferences - charge.2
      retainedUntil := if row.retainedUntil > until_ then row.retainedUntil else until_ } } with ht'
  have hsized' : Sized size draftSize t' := hsized.insert_charge rfl rfl rfl hlogical hphysical
  refine { Booked.refl hsized with
    charged := fun o d ↦ ?_
    eligible := fun d ↦ ?_
    logical := fun o ↦ ?_
    physical := ?_
    sized := hsized' }
  · rw [chargeLive_insert rfl o d]
    by_cases ho : o = owner
    · subst ho
      by_cases hd : d = charge.1
      · rw [if_pos ⟨rfl, hd⟩, if_pos rfl, if_pos hd.symm, hd, chargeLive, entry_of_lookup hlookup]
        ring
      · rw [if_neg (fun hand ↦ hd hand.2), if_pos rfl, if_neg (Ne.symm hd), add_zero]
    · rw [if_neg (fun hand ↦ ho hand.1), if_neg ho, add_zero]
  · rw [eligibleLive_insert rfl d]
    by_cases hd : d = charge.1
    · rw [if_pos hd, if_pos hd.symm, hd, eligibleLive, entry_of_lookup (orError_eq_ok.mp hrow)]
      ring
    · rw [if_neg hd, if_neg (Ne.symm hd), add_zero]
  · rw [contentLogical_insert rfl o, entry_of_lookup hlookup]
    by_cases ho : o = owner
    · rw [if_pos ho, sub_self, add_zero]
      rfl
    · rw [if_neg ho, add_zero]
      rfl
  · rw [hsized'.contentPhysical_eq, hsized.contentPhysical_eq, chargedDigests_insert rfl,
      Finset.insert_eq_of_mem hmem]

theorem detachContent_succeeds (hpos : 0 < charge.2) (hcharge : charge.2 ≤ chargeLive t owner charge.1)
    (heligible : charge.2 ≤ eligibleLive t charge.1) :
    ∃ t', detachContent owner until_ t charge = .ok t' := by
  cases hcharged : t.charges.lookup (owner, charge.1) with
  | none =>
    rw [chargeLive, entry_of_none hcharged] at hcharge
    omega
  | some charged =>
    cases hrow : t.eligibility.lookup charge.1 with
    | none =>
      rw [eligibleLive, entry_of_none hrow] at heligible
      omega
    | some row =>
      rw [chargeLive, entry_of_lookup hcharged] at hcharge
      rw [eligibleLive, entry_of_lookup hrow] at heligible
      unfold detachContent
      rw [hcharged, orError_some, ok_bind, hrow, orError_some, ok_bind,
        require_pos ⟨hcharge, heligible⟩, ok_bind]
      exact ⟨_, rfl⟩

theorem detachAll_booked {charges : List (ContentHash × ℤ)} (hsized : Sized size draftSize t)
    (h : charges.foldlM (detachContent owner until_) t = .ok t') :
    Booked size draftSize owner (fun d ↦ -posted charges d) 0 t t' := by
  induction charges generalizing t with
  | nil =>
    obtain rfl := pure_eq_ok.mp h
    exact (Booked.refl hsized).congr (fun _ ↦ rfl) rfl
  | cons c charges ih =>
    rw [List.foldlM_cons] at h
    obtain ⟨t₁, hc, h⟩ := bind_eq_ok.mp h
    have hfirst := detachContent_booked hsized hc
    refine (hfirst.trans (ih hfirst.sized h)).congr (fun d ↦ ?_) (add_zero _)
    rw [posted_cons]
    split_ifs
    · ring
    · ring

/-- The guards let the removal of references through that are there. -/
theorem detachAll_succeeds {charges : List (ContentHash × ℤ)} (hsized : Sized size draftSize t)
    (hpos : ∀ c ∈ charges, 0 < c.2) (hcharge : ∀ d, posted charges d ≤ chargeLive t owner d)
    (heligible : ∀ d, posted charges d ≤ eligibleLive t d) :
    ∃ t', charges.foldlM (detachContent owner until_) t = .ok t' := by
  induction charges generalizing t with
  | nil => exact ⟨t, rfl⟩
  | cons c charges ih =>
    have hrest : 0 ≤ posted charges c.1 :=
      posted_nonneg (fun p hp ↦ (hpos p (List.mem_cons_of_mem _ hp)).le)
    have hself : posted (c :: charges) c.1 = c.2 + posted charges c.1 := by
      rw [posted_cons, if_pos rfl]
    have hc := hcharge c.1
    have he := heligible c.1
    obtain ⟨t₁, ht₁⟩ : ∃ t₁, detachContent owner until_ t c = .ok t₁ :=
      detachContent_succeeds (hpos c List.mem_cons_self) (by omega) (by omega)
    have booked := detachContent_booked hsized ht₁
    rw [List.foldlM_cons, ht₁, ok_bind]
    refine ih booked.sized (fun c hmem ↦ hpos c (List.mem_cons_of_mem _ hmem)) (fun d ↦ ?_)
      (fun d ↦ ?_)
    · have hd := hcharge d
      rw [posted_cons] at hd
      rw [booked.charged, if_pos rfl]
      split_ifs at hd ⊢
      · omega
      · omega
    · have hd := heligible d
      rw [posted_cons] at hd
      rw [booked.eligible]
      split_ifs at hd ⊢
      · omega
      · omega

theorem releaseRevisions_booked {n : ℤ} (hsized : Sized size draftSize t)
    (h : releaseRevisions t owner n = .ok t') :
    Booked size draftSize owner (fun _ ↦ 0) (-n) t t' := by
  obtain ⟨-, -, h⟩ := bind_eq_ok.mp h
  obtain ⟨quota, hquota, h⟩ := bind_eq_ok.mp h
  obtain ⟨-, -, h⟩ := bind_eq_ok.mp h
  obtain rfl := Except.ok.inj h
  exact recount_booked hsized (orError_eq_ok.mp hquota)

end Detaching

end Jaunder.Storage.ThemeBooks
