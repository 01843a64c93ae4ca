import Jaunder.Storage.ThemeAssetManager
import Jaunder.Storage.ThemeBooks

namespace Jaunder.Storage.SystemThemes

open Foundation.Ledger Foundation.Outcome
open Jaunder.Common.Hash Jaunder.Common.Owned
open Jaunder.Host.ThemePackage
open Jaunder.Storage.ThemeAssetManager Jaunder.Storage.ThemeBooks Jaunder.Storage.Themes

structure ApplicationStylesheet where
  bytes : Vec UInt8

def ApplicationStylesheet.content (application : ApplicationStylesheet) : CompiledThemeContent :=
  ⟨"text/css; charset=utf-8", application.bytes⟩

/-- One bundled theme, compiled like any other package. -/
structure BundledThemePackage where
  theme : Theme
  revision : CompiledThemeRevision

/-- The styling inputs of one release. -/
structure SystemArtifactInventory where
  application : ApplicationStylesheet
  themes : List BundledThemePackage
  three : themes.length = 3

/-- Every content of a release. -/
def SystemArtifactInventory.contents (inventory : SystemArtifactInventory) :
    List CompiledThemeContent :=
  inventory.application.content :: inventory.themes.flatMap (fun p ↦ p.revision.contents)

structure SystemContent where
  mime : String
  references : ℤ

def addContentReference (contents : Keyed ContentHash SystemContent)
    (content : ContentHash × String) : Except ThemeError (Keyed ContentHash SystemContent) :=
  let entry := (contents.lookup content.1).getD ⟨content.2, 0⟩
  if entry.mime = content.2 then
    .ok (contents.insert content.1 { entry with references := entry.references + 1 })
  else .error (.protocol "system content digest has conflicting MIME types")

structure SystemThemeAdmission where
  application : ContentHash
  applicationMime : String
  revisions : List SystemRevisionRow
  contents : Keyed ContentHash SystemContent
  now : ℤ
  detachedUntil : ℤ

section Inventory

variable (sha256 : List UInt8 → ContentHash)

/-- The digests of a package with their MIME types, each digest where it comes first. -/
def packageRoles (package : BundledThemePackage) : List (ContentHash × String) :=
  package.revision.contents.foldl (fun seen content ↦
    if content.digest sha256 ∈ seen.map Prod.fst then seen
    else seen ++ [(content.digest sha256, content.mime)]) []

def systemRevision (package : BundledThemePackage) : SystemRevisionRow where
  theme := package.theme
  digest := package.revision.revisionDigest sha256
  sourceDigest := package.revision.package.sourceDigest sha256
  stylesheetDigest := package.revision.stylesheetContent.digest sha256
  manifest := package.revision.package.manifest
  assets := assets sha256 package.revision

def fromInventory (inventory : SystemArtifactInventory) (now : ℤ) :
    Except ThemeError SystemThemeAdmission := do
  require (now + contentRetentionSeconds < 2 ^ 63)
    (.protocol "system content retention deadline overflow")
  let application := inventory.application.content
  let contents ← (inventory.themes.flatMap (packageRoles sha256)).foldlM addContentReference
    ((∅ : Keyed ContentHash SystemContent).insert (application.digest sha256) ⟨application.mime, 1⟩)
  .ok
    { application := application.digest sha256
      applicationMime := application.mime
      revisions := inventory.themes.map (systemRevision sha256)
      contents := contents
      now := now
      detachedUntil := now + contentRetentionSeconds }

end Inventory

def liveSystemReferences (t : ThemeTables) : Finset ContentHash :=
  t.systemReferences.keys.filter (fun digest ↦
    (t.systemReferences.lookup digest).any (fun row ↦ row.liveReferences > 0))

instance : Std.Total (fun a b : ContentHash ↦ a.value ≤ b.value) := ⟨fun a b ↦ String.le_total a.value b.value⟩

instance : IsTrans ContentHash (fun a b ↦ a.value ≤ b.value) := ⟨fun _ _ _ ↦ String.le_trans⟩

instance : Std.Antisymm (fun a b : ContentHash ↦ a.value ≤ b.value) :=
  ⟨fun a b hab hba ↦ by
    cases a
    cases b
    cases String.le_antisymm hab hba
    rfl⟩

/-- `INSERT … ON CONFLICT DO NOTHING` into the eligibility table. -/
def reserveContent (admission : SystemThemeAdmission) (t : ThemeTables) (digest : ContentHash) :
    ThemeTables :=
  match admission.contents.lookup digest, t.eligibility.lookup digest with
  | some content, none =>
    { t with eligibility := t.eligibility.insert digest ⟨content.mime, admission.now, 0⟩ }
  | _, _ => t

/-- The serving MIME type of incoming content stays what it is. -/
def checkMime (admission : SystemThemeAdmission) (t : ThemeTables) (digest : ContentHash) :
    Except ThemeError Unit :=
  match admission.contents.lookup digest with
  | none => .ok ()
  | some content => do
    let row ← orError (t.eligibility.lookup digest) .rowNotFound
    require (row.mime = content.mime)
      (.protocol "system content conflicts with existing serving MIME")

def newCount (admission : SystemThemeAdmission) (digest : ContentHash) : ℤ :=
  (admission.contents.lookup digest).elim 0 SystemContent.references

/-- The counters of one digest go from the previous inventory to the incoming one. -/
def moveReferences (admission : SystemThemeAdmission) (digest : ContentHash) (old : SystemReference)
    (t : ThemeTables) : Except ThemeError ThemeTables := do
  let delta := newCount admission digest - old.liveReferences
  let deadline := if delta < 0 then max old.retainedUntil admission.detachedUntil
    else old.retainedUntil
  let row ← orError (t.eligibility.lookup digest) .rowNotFound
  require (delta < 0 → row.liveReferences ≥ -delta) .rowNotFound
  .ok { t with
    eligibility := t.eligibility.insert digest { row with
      liveReferences := row.liveReferences + delta
      retainedUntil :=
        if delta < 0 ∧ row.retainedUntil < deadline then deadline else row.retainedUntil }
    systemReferences := t.systemReferences.insert digest ⟨newCount admission digest, deadline⟩ }

def admitDigest (admission : SystemThemeAdmission) (previous : Keyed ContentHash SystemReference)
    (t : ThemeTables) (digest : ContentHash) : Except ThemeError ThemeTables := do
  let old := (previous.lookup digest).getD ⟨0, admission.now⟩
  checkMime admission t digest
  if old.liveReferences = newCount admission digest then .ok t
  else moveReferences admission digest old t

/-- The rows of a revision and of its assets, where they are missing, and the current revision of
its theme. -/
def recordSystemRevision (t : ThemeTables) (revision : SystemRevisionRow) : ThemeTables :=
  let known := fun r : SystemRevisionRow ↦ r.theme = revision.theme ∧ r.digest = revision.digest
  let add := fun (kept : List ThemePackageAsset) (asset : ThemePackageAsset) ↦
    if kept.any (fun a ↦ a.path = asset.path) then kept else kept ++ [asset]
  { t with
    systemRevisions :=
      if t.systemRevisions.any (fun r ↦ known r) then
        t.systemRevisions.map (fun r ↦
          if known r then { r with assets := revision.assets.foldl add r.assets } else r)
      else t.systemRevisions ++ [{ revision with assets := revision.assets.foldl add [] }]
    systemCurrent := t.systemCurrent.insert revision.theme revision.digest }

/-- `admit`. -/
def admitSystemInventory (t : ThemeTables) (admission : SystemThemeAdmission) :
    Except ThemeError ThemeTables := do
  let previous := t.systemReferences
  let digests := ascending (fun a b : ContentHash ↦ a.value ≤ b.value)
    (liveSystemReferences t ∪ admission.contents.keys)
  let t := digests.foldl (reserveContent admission) t
  let t ← digests.foldlM (admitDigest admission previous) t
  let t := admission.revisions.foldl recordSystemRevision t
  .ok { t with systemApplication := some (admission.application, admission.applicationMime) }

/-- `collect`. -/
def collectSystemContent (t : ThemeTables) (digest : ContentHash) (now : ℤ) :
    Except ThemeError ThemeTables := do
  let reference ← orError (t.systemReferences.lookup digest) .rowNotFound
  let row ← orError (t.eligibility.lookup digest) .rowNotFound
  require (reference.liveReferences = 0 ∧ reference.retainedUntil ≤ now ∧ row.liveReferences = 0 ∧
    row.retainedUntil ≤ now ∧ ¬∃ key ∈ t.charges.keys, key.2 = digest) .rowNotFound
  deleteEligibility { t with systemReferences := t.systemReferences.erase digest } digest now

section Roles

variable {sha256 : List UInt8 → ContentHash} {package : BundledThemePackage}
  {inventory : SystemArtifactInventory} {contents contents' : Keyed ContentHash SystemContent}
  {admission : SystemThemeAdmission} {d : ContentHash} {now : ℤ}

/-- The roles that the digests play in a release: each theme counts a digest once. -/
def roles (sha256 : List UInt8 → ContentHash) (inventory : SystemArtifactInventory) :
    List ContentHash :=
  inventory.application.content.digest sha256 ::
    (inventory.themes.flatMap (packageRoles sha256)).map Prod.fst

theorem mem_packageRoles : d ∈ (packageRoles sha256 package).map Prod.fst ↔
    d ∈ package.revision.contents.map (CompiledThemeContent.digest sha256) := by
  have hfold : ∀ (l : List CompiledThemeContent) (seen : List (ContentHash × String)),
      d ∈ (l.foldl (fun seen content ↦
        if content.digest sha256 ∈ seen.map Prod.fst then seen
        else seen ++ [(content.digest sha256, content.mime)]) seen).map Prod.fst ↔
      d ∈ seen.map Prod.fst ∨ d ∈ l.map (CompiledThemeContent.digest sha256) := by
    intro l
    induction l with
    | nil => simp
    | cons content l ih =>
      intro seen
      rw [List.foldl_cons, ih, List.map_cons, List.mem_cons]
      split_ifs with hseen
      · constructor
        · rintro (h | h)
          · exact .inl h
          · exact .inr (.inr h)
        · rintro (h | rfl | h)
          · exact .inl h
          · exact .inl hseen
          · exact .inr h
      · rw [List.map_append, List.mem_append, List.map_singleton, List.mem_singleton, or_assoc]
  unfold packageRoles
  rw [hfold]
  simp

theorem mem_roles : d ∈ roles sha256 inventory ↔
    d ∈ inventory.contents.map (CompiledThemeContent.digest sha256) := by
  unfold roles SystemArtifactInventory.contents
  rw [List.map_cons, List.mem_cons, List.mem_cons, List.map_flatMap, List.map_flatMap,
    List.mem_flatMap, List.mem_flatMap]
  simp only [mem_packageRoles]

theorem addContentReference_references {content : ContentHash × String}
    (h : addContentReference contents content = .ok contents') :
    entry (fun _ c ↦ c.references) contents' d =
      entry (fun _ c ↦ c.references) contents d + if d = content.1 then 1 else 0 := by
  unfold addContentReference at h
  dsimp only at h
  split_ifs at h
  obtain rfl := Except.ok.inj h
  rw [entry_insert]
  split_ifs with hd
  · subst hd
    unfold entry
    cases contents.lookup content.1 with
    | none => rfl
    | some c => rfl
  · rw [add_zero]

theorem addAll_references {roles : List (ContentHash × String)}
    (h : roles.foldlM addContentReference contents = .ok contents') :
    entry (fun _ c ↦ c.references) contents' d =
      entry (fun _ c ↦ c.references) contents d + (roles.map Prod.fst).count d := by
  induction roles generalizing contents with
  | nil =>
    obtain rfl := Except.ok.inj h
    simp
  | cons role roles ih =>
    rw [List.foldlM_cons] at h
    obtain ⟨next, hnext, h⟩ := bind_eq_ok.mp h
    rw [ih h, addContentReference_references hnext, List.map_cons, List.count_cons]
    by_cases hd : d = role.1
    · subst hd
      rw [if_pos rfl, beq_self_eq_true, if_pos rfl]
      push_cast
      ring
    · simp [hd, Ne.symm hd]

theorem addAll_keys {roles : List (ContentHash × String)}
    (h : roles.foldlM addContentReference contents = .ok contents') (hd : d ∈ contents'.keys) :
    d ∈ contents.keys ∨ d ∈ roles.map Prod.fst := by
  induction roles generalizing contents with
  | nil =>
    obtain rfl := Except.ok.inj h
    exact .inl hd
  | cons role roles ih =>
    rw [List.foldlM_cons] at h
    obtain ⟨next, hnext, h⟩ := bind_eq_ok.mp h
    rcases ih h with hd | hd
    · unfold addContentReference at hnext
      dsimp only at hnext
      split_ifs at hnext
      obtain rfl := Except.ok.inj hnext
      rcases Finmap.mem_insert.mp (Finmap.mem_keys.mp hd) with rfl | hd
      · exact .inr List.mem_cons_self
      · exact .inl (Finmap.mem_keys.mpr hd)
    · exact .inr (List.mem_cons_of_mem _ hd)

/-- An admission names contents of its inventory. -/
theorem fromInventory_keys (h : fromInventory sha256 inventory now = .ok admission)
    (hd : d ∈ admission.contents.keys) :
    d ∈ inventory.contents.map (CompiledThemeContent.digest sha256) := by
  obtain ⟨_, -, h⟩ := bind_eq_ok.mp h
  obtain ⟨contents, hcontents, h⟩ := bind_eq_ok.mp h
  obtain rfl := Except.ok.inj h
  rw [← mem_roles, roles, List.mem_cons]
  rcases addAll_keys hcontents hd with hd | hd
  · rcases Finmap.mem_insert.mp (Finmap.mem_keys.mp hd) with rfl | hd
    · exact .inl rfl
    · exact absurd hd Finmap.notMem_empty
  · exact .inr hd

theorem newCount_eq_entry :
    newCount admission d = entry (fun _ c ↦ c.references) admission.contents d := by
  unfold newCount entry
  cases admission.contents.lookup d with
  | none => rfl
  | some c => rfl

/-- What an admission asks for. -/
theorem fromInventory_ok (h : fromInventory sha256 inventory now = .ok admission) :
    admission.now = now ∧ admission.detachedUntil = now + contentRetentionSeconds ∧
      ∀ d, newCount admission d = (roles sha256 inventory).count d := by
  obtain ⟨_, -, h⟩ := bind_eq_ok.mp h
  obtain ⟨contents, hcontents, h⟩ := bind_eq_ok.mp h
  obtain rfl := Except.ok.inj h
  refine ⟨rfl, rfl, fun d ↦ ?_⟩
  rw [newCount_eq_entry, addAll_references hcontents, entry_insert, roles, List.count_cons]
  by_cases hd : d = inventory.application.content.digest sha256
  · simp [hd, add_comm]
  · simp [hd, Ne.symm hd]

end Roles

section Admission

variable {admission : SystemThemeAdmission} {t t₁ t' : ThemeTables} {d digest : ContentHash}
  {digests : List ContentHash} {previous : Keyed ContentHash SystemReference}

/-- The references of the current release to a digest. -/
def systemLive (t : ThemeTables) (digest : ContentHash) : ℤ :=
  entry (fun _ row ↦ row.liveReferences) t.systemReferences digest

/-- A row of the eligibility table that lasts until a deadline at least. -/
def Kept (deadline : ℤ) (digest : ContentHash) (t : ThemeTables) : Prop :=
  ∃ row, t.eligibility.lookup digest = some row ∧ deadline ≤ row.retainedUntil

/-- The admission of some digests: the counters of each of them move together. -/
structure Admitted (admission : SystemThemeAdmission) (digests : List ContentHash)
    (t t' : ThemeTables) : Prop where
  charges : t'.charges = t.charges
  counted : ∀ d ∈ digests, systemLive t' d = newCount admission d
  others : ∀ d, d ∉ digests → t'.systemReferences.lookup d = t.systemReferences.lookup d
  shift : ∀ d, eligibleLive t' d - systemLive t' d = eligibleLive t d - systemLive t d
  kept : ∀ deadline d, Kept deadline d t → Kept deadline d t'
  detached : ∀ d ∈ digests, newCount admission d < systemLive t d →
    Kept admission.detachedUntil d t'
  rows : ∀ d ∈ t'.eligibility, d ∈ t.eligibility

theorem systemLive_congr (h : t'.systemReferences.lookup d = t.systemReferences.lookup d) :
    systemLive t' d = systemLive t d := by
  unfold systemLive entry
  rw [h]

theorem systemLive_insert {row : SystemReference}
    (h : t'.systemReferences = t.systemReferences.insert digest row) :
    systemLive t' d = if d = digest then row.liveReferences else systemLive t d := by
  unfold systemLive
  rw [h, entry_insert]

theorem kept_insert {deadline : ℤ} {row row' : EligibilityRow}
    (hrow : t.eligibility.lookup digest = some row)
    (hlater : row.retainedUntil ≤ row'.retainedUntil)
    (h : t'.eligibility = t.eligibility.insert digest row') (hkept : Kept deadline d t) :
    Kept deadline d t' := by
  obtain ⟨kept, hlookup, hdeadline⟩ := hkept
  unfold Kept
  rw [h, lookup_insert_eq]
  split_ifs with hd
  · rw [hd, hrow] at hlookup
    obtain rfl := Option.some.inj hlookup
    exact ⟨row', rfl, hdeadline.trans hlater⟩
  · exact ⟨kept, hlookup, hdeadline⟩

theorem admitDigest_admitted (hprevious : previous.lookup digest = t.systemReferences.lookup digest)
    (h : admitDigest admission previous t digest = .ok t') : Admitted admission [digest] t t' := by
  unfold admitDigest at h
  dsimp only at h
  obtain ⟨_, -, h⟩ := bind_eq_ok.mp h
  have hold : ((previous.lookup digest).getD ⟨0, admission.now⟩).liveReferences =
      systemLive t digest := by
    rw [hprevious]
    unfold systemLive entry
    cases t.systemReferences.lookup digest with
    | none => rfl
    | some row => rfl
  by_cases heq : ((previous.lookup digest).getD ⟨0, admission.now⟩).liveReferences =
      newCount admission digest
  · rw [if_pos heq] at h
    obtain rfl := Except.ok.inj h
    refine ⟨rfl, fun d hd ↦ ?_, fun _ _ ↦ rfl, fun _ ↦ rfl, fun _ _ hkept ↦ hkept,
      fun d hd hless ↦ ?_, fun _ hd ↦ hd⟩
    · rw [List.mem_singleton.mp hd, ← hold, heq]
    · rw [List.mem_singleton.mp hd, ← hold, heq] at hless
      exact absurd hless (lt_irrefl _)
  · rw [if_neg heq] at h
    generalize (previous.lookup digest).getD ⟨0, admission.now⟩ = old at hold h
    unfold moveReferences at h
    dsimp only at h
    obtain ⟨row, hrow, h⟩ := bind_eq_ok.mp h
    obtain ⟨_, hguard, h⟩ := bind_eq_ok.mp h
    have hrow := orError_eq_ok.mp hrow
    have hguard := require_eq_ok.mp hguard
    have heligibility := congrArg ThemeTables.eligibility (Except.ok.inj h).symm
    have hreferences := congrArg ThemeTables.systemReferences (Except.ok.inj h).symm
    have hcharges := congrArg ThemeTables.charges (Except.ok.inj h).symm
    dsimp only at heligibility hreferences hcharges
    have hlive : ∀ d, systemLive t' d = if d = digest then newCount admission digest
        else systemLive t d := fun d ↦ systemLive_insert hreferences
    refine ⟨hcharges, fun d hd ↦ ?_, fun d hd ↦ ?_, fun d ↦ ?_, fun deadline d hkept ↦ ?_,
      fun d hd hless ↦ ?_, fun d hd ↦ ?_⟩
    · rw [List.mem_singleton.mp hd, hlive, if_pos rfl]
    · rw [hreferences, lookup_insert_eq, if_neg (fun heq ↦ hd (List.mem_singleton.mpr heq))]
    · rw [hlive, eligibleLive_insert heligibility]
      by_cases hd : d = digest
      · have hentry : eligibleLive t digest = row.liveReferences := entry_of_lookup hrow
        rw [if_pos hd, if_pos hd, hd, hentry, ← hold]
        ring
      · rw [if_neg hd, if_neg hd]
    · refine kept_insert hrow ?_ heligibility hkept
      dsimp only
      generalize (if newCount admission digest - old.liveReferences < 0 then
        max old.retainedUntil admission.detachedUntil else old.retainedUntil) = until_
      split_ifs with hlater
      · exact hlater.2.le
      · exact le_rfl
    · obtain rfl := List.mem_singleton.mp hd
      have hdelta : newCount admission d - old.liveReferences < 0 := by omega
      rw [if_pos hdelta] at heligibility
      have hdeadline := le_max_right old.retainedUntil admission.detachedUntil
      unfold Kept
      rw [heligibility, lookup_insert_eq, if_pos rfl]
      refine ⟨_, rfl, ?_⟩
      dsimp only
      split_ifs with hlater
      · exact hdeadline
      · have : ¬row.retainedUntil < max old.retainedUntil admission.detachedUntil :=
          fun hless ↦ hlater ⟨hdelta, hless⟩
        omega
    · rw [heligibility, Finmap.mem_insert] at hd
      rcases hd with rfl | hd
      · exact Finmap.mem_of_lookup_eq_some hrow
      · exact hd

theorem admitAll_admitted (hnodup : digests.Nodup)
    (hprevious : ∀ d ∈ digests, previous.lookup d = t.systemReferences.lookup d)
    (h : digests.foldlM (admitDigest admission previous) t = .ok t') :
    Admitted admission digests t t' := by
  induction digests generalizing t with
  | nil =>
    obtain rfl := Except.ok.inj h
    refine ⟨rfl, fun d hd ↦ ?_, fun _ _ ↦ rfl, fun _ ↦ rfl, fun _ _ hkept ↦ hkept, fun d hd ↦ ?_,
      fun _ hd ↦ hd⟩
    · cases hd
    · cases hd
  | cons digest digests ih =>
    obtain ⟨hfresh, hnodup⟩ := List.nodup_cons.mp hnodup
    rw [List.foldlM_cons] at h
    obtain ⟨t₁, hfirst, h⟩ := bind_eq_ok.mp h
    have first := admitDigest_admitted (hprevious digest List.mem_cons_self) hfirst
    have hothers : ∀ d ∈ digests, t₁.systemReferences.lookup d = t.systemReferences.lookup d := by
      intro d hd
      refine first.others d (fun hmem ↦ ?_)
      rw [List.mem_singleton.mp hmem] at hd
      exact hfresh hd
    have rest := ih hnodup
      (fun d hd ↦ (hprevious d (List.mem_cons_of_mem _ hd)).trans (hothers d hd).symm) h
    refine ⟨rest.charges.trans first.charges, fun d hd ↦ ?_, fun d hd ↦ ?_,
      fun d ↦ (rest.shift d).trans (first.shift d),
      fun deadline d hkept ↦ rest.kept deadline d (first.kept deadline d hkept), fun d hd hless ↦ ?_,
      fun d hd ↦ first.rows d (rest.rows d hd)⟩
    · rcases List.mem_cons.mp hd with rfl | hd
      · rw [systemLive_congr (rest.others d hfresh)]
        exact first.counted d (List.mem_singleton_self d)
      · exact rest.counted d hd
    · obtain ⟨hne, hd⟩ := not_or.mp (fun hor ↦ hd (List.mem_cons.mpr hor))
      exact (rest.others d hd).trans (first.others d (fun hmem ↦ hne (List.mem_singleton.mp hmem)))
    · rcases List.mem_cons.mp hd with rfl | hd
      · exact rest.kept _ d (first.detached d (List.mem_singleton_self d) hless)
      · rw [← systemLive_congr (hothers d hd)] at hless
        exact rest.detached d hd hless

/-- The reservations give no digest a reference. -/
structure Reserved (admission : SystemThemeAdmission) (t t' : ThemeTables) : Prop where
  charges : t'.charges = t.charges
  system : t'.systemReferences = t.systemReferences
  live : ∀ d, eligibleLive t' d = eligibleLive t d
  kept : ∀ deadline d, Kept deadline d t → Kept deadline d t'
  rows : ∀ d ∈ t'.eligibility, d ∈ t.eligibility ∨ d ∈ admission.contents.keys

theorem Reserved.refl : Reserved admission t t :=
  ⟨rfl, rfl, fun _ ↦ rfl, fun _ _ hkept ↦ hkept, fun _ hd ↦ .inl hd⟩

theorem reserveContent_reserved : Reserved admission t (reserveContent admission t digest) := by
  unfold reserveContent
  cases hcontent : admission.contents.lookup digest with
  | none => exact .refl
  | some content =>
    cases hrow : t.eligibility.lookup digest with
    | some row => exact .refl
    | none =>
      refine ⟨rfl, rfl, fun d ↦ ?_, fun deadline d hkept ↦ ?_, fun d hd ↦ ?_⟩
      · rw [eligibleLive_insert rfl]
        by_cases hd : d = digest
        · rw [if_pos hd, hd]
          exact (entry_of_none hrow).symm
        · rw [if_neg hd]
      · obtain ⟨row, hlookup, hdeadline⟩ := hkept
        refine ⟨row, ?_, hdeadline⟩
        dsimp only
        rw [lookup_insert_eq, if_neg]
        · exact hlookup
        · rintro rfl
          rw [hrow] at hlookup
          cases hlookup
      · rcases Finmap.mem_insert.mp hd with rfl | hd
        · exact .inr (mem_keys_of_lookup hcontent)
        · exact .inl hd

theorem reserveAll_reserved : Reserved admission t (digests.foldl (reserveContent admission) t) := by
  induction digests generalizing t with
  | nil => exact .refl
  | cons digest digests ih =>
    rw [List.foldl_cons]
    have first : Reserved admission t (reserveContent admission t digest) := reserveContent_reserved
    have rest := ih (t := reserveContent admission t digest)
    refine ⟨rest.charges.trans first.charges, rest.system.trans first.system,
      fun d ↦ (rest.live d).trans (first.live d),
      fun deadline d h ↦ rest.kept deadline d (first.kept deadline d h), fun d hd ↦ ?_⟩
    rcases rest.rows d hd with hd | hd
    · exact first.rows d hd
    · exact .inr hd

theorem recordSystemRevision_frame {revisions : List SystemRevisionRow} :
    (revisions.foldl recordSystemRevision t).charges = t.charges ∧
      (revisions.foldl recordSystemRevision t).eligibility = t.eligibility ∧
      (revisions.foldl recordSystemRevision t).systemReferences = t.systemReferences := by
  induction revisions generalizing t with
  | nil => exact ⟨rfl, rfl, rfl⟩
  | cons revision revisions ih =>
    rw [List.foldl_cons]
    exact ih

/-- What a release leaves of the previous one. -/
structure Advanced (admission : SystemThemeAdmission) (t t' : ThemeTables) : Prop where
  charges : t'.charges = t.charges
  counted : ∀ d, systemLive t' d = newCount admission d
  shift : ∀ d, eligibleLive t' d - systemLive t' d = eligibleLive t d - systemLive t d
  kept : ∀ deadline d, Kept deadline d t → Kept deadline d t'
  detached : ∀ d, newCount admission d < systemLive t d → Kept admission.detachedUntil d t'

theorem mem_liveSystemReferences : d ∈ liveSystemReferences t ↔ 0 < systemLive t d := by
  unfold liveSystemReferences systemLive entry
  rw [Finset.mem_filter]
  cases hlookup : t.systemReferences.lookup d with
  | none => simp
  | some row =>
    have hkey := mem_keys_of_lookup hlookup
    simp [hkey]

theorem newCount_of_not_mem (h : d ∉ admission.contents.keys) : newCount admission d = 0 := by
  unfold newCount
  rw [lookup_of_not_mem_keys h]
  rfl

/-- The stages of an admission. -/
theorem admitSystemInventory_stages (h : admitSystemInventory t admission = .ok t') :
    ∃ digests t₁ t₂, (∀ d, d ∈ digests ↔ 0 < systemLive t d ∨ d ∈ admission.contents.keys) ∧
      Reserved admission t t₁ ∧ Admitted admission digests t₁ t₂ ∧ t'.charges = t₂.charges ∧
      t'.eligibility = t₂.eligibility ∧ t'.systemReferences = t₂.systemReferences := by
  obtain ⟨t₂, hadmitted, h⟩ := bind_eq_ok.mp h
  have hmem : ∀ d, d ∈ ascending (fun a b : ContentHash ↦ a.value ≤ b.value)
      (liveSystemReferences t ∪ admission.contents.keys) ↔
        0 < systemLive t d ∨ d ∈ admission.contents.keys := by
    intro d
    rw [mem_ascending, Finset.mem_union, mem_liveSystemReferences]
  have reserved := @reserveAll_reserved admission t (ascending (fun a b : ContentHash ↦ a.value ≤ b.value)
    (liveSystemReferences t ∪ admission.contents.keys))
  have admitted := admitAll_admitted ascending_nodup (fun d _ ↦ by rw [reserved.system]) hadmitted
  obtain ⟨hcharges, heligibility, hreferences⟩ :=
    @recordSystemRevision_frame t₂ admission.revisions
  refine ⟨_, _, t₂, hmem, reserved, admitted, ?_, ?_, ?_⟩
  · rw [← Except.ok.inj h]
    exact hcharges
  · rw [← Except.ok.inj h]
    exact heligibility
  · rw [← Except.ok.inj h]
    exact hreferences

theorem admitSystemInventory_rows (h : admitSystemInventory t admission = .ok t') :
    ∀ d ∈ t'.eligibility, d ∈ t.eligibility ∨ d ∈ admission.contents.keys := by
  obtain ⟨digests, t₁, t₂, -, reserved, admitted, -, heligibility, -⟩ := admitSystemInventory_stages h
  intro d hd
  rw [heligibility] at hd
  exact reserved.rows d (admitted.rows d hd)

theorem admitSystemInventory_advanced (hnonneg : ∀ d, 0 ≤ systemLive t d)
    (h : admitSystemInventory t admission = .ok t') : Advanced admission t t' := by
  obtain ⟨digests, t₁, t₂, hmem, reserved, admitted, hcharges, heligibility, hreferences⟩ :=
    admitSystemInventory_stages h
  have hsystem : ∀ d, systemLive t₁ d = systemLive t d :=
    fun d ↦ systemLive_congr (by rw [reserved.system])
  have hsystem' : ∀ d, systemLive t' d = systemLive t₂ d :=
    fun d ↦ systemLive_congr (by rw [hreferences])
  have hlive' : ∀ d, eligibleLive t' d = eligibleLive t₂ d := by
    intro d
    unfold eligibleLive
    rw [heligibility]
  have hkept' : ∀ deadline d, Kept deadline d t₂ → Kept deadline d t' := by
    intro deadline d hkept
    unfold Kept
    rw [heligibility]
    exact hkept
  refine ⟨hcharges.trans (admitted.charges.trans reserved.charges), fun d ↦ ?_, fun d ↦ ?_,
    fun deadline d h ↦ hkept' deadline d (admitted.kept deadline d (reserved.kept deadline d h)),
    fun d hless ↦ ?_⟩
  · rw [hsystem']
    by_cases hd : d ∈ digests
    · exact admitted.counted d hd
    · obtain ⟨hidle, habsent⟩ := not_or.mp (fun hor ↦ hd ((hmem d).mpr hor))
      rw [systemLive_congr (admitted.others d hd), hsystem, newCount_of_not_mem habsent]
      exact le_antisymm (not_lt.mp hidle) (hnonneg d)
  · have hshift := admitted.shift d
    rw [hsystem, reserved.live] at hshift
    rw [hsystem', hlive', hshift]
  · have hd : d ∈ digests := by
      by_contra hd
      obtain ⟨hidle, habsent⟩ := not_or.mp (fun hor ↦ hd ((hmem d).mpr hor))
      rw [newCount_of_not_mem habsent] at hless
      exact hidle hless
    rw [← hsystem] at hless
    exact hkept' _ d (admitted.detached d hd hless)

end Admission

end Jaunder.Storage.SystemThemes
