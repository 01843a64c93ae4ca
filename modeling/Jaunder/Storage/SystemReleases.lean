import Jaunder.Storage.ThemeAccounting
import Jaunder.Storage.ThemeReferences

namespace Jaunder.Storage.SystemReleases

open Foundation.Ledger Foundation.Outcome Foundation.Run
open Jaunder.Common.Hash Jaunder.Common.Owned
open Jaunder.Host.ThemePackage
open Jaunder.Storage.SystemThemes Jaunder.Storage.ThemeAssetManager Jaunder.Storage.ThemeBooks
open Jaunder.Storage.ThemePublication Jaunder.Storage.ThemeReferences Jaunder.Storage.Themes
open Jaunder.Storage.WriteScope

/-- The mutations of the custom catalogs, the installations of a release and the collections of
what the releases left. -/
inductive Operation
  | custom (operation : ThemeAccounting.Operation)
  | install (inventory : SystemArtifactInventory) (now : ℤ)
  | collectSystem (digest : ContentHash) (now : ℤ)

/-- The tables and the latest inventory that was admitted. -/
structure Release where
  tables : ThemeTables
  latest : Option SystemArtifactInventory

def Release.first : Release := ⟨.empty, none⟩

section Runs

variable (sha256 : List UInt8 → ContentHash) (text : NameText)

def execute (r : Release) : Operation → Option Release
  | .custom operation =>
    (ThemeAccounting.execute sha256 text r.tables operation).map (fun t ↦ ⟨t, r.latest⟩)
  | .install inventory now =>
    ((fromInventory sha256 inventory now).bind (admitSystemInventory r.tables)).toOption.map
      (fun t ↦ ⟨t, some inventory⟩)
  | .collectSystem digest now =>
    (collectSystemContent r.tables digest now).toOption.map (fun t ↦ ⟨t, r.latest⟩)

def step (r : Release) (event : Operation × Commit) : Release :=
  if event.2.applies then (execute sha256 text r event.1).getD r else r

/-- The digests of the latest release. -/
def Release.digests (r : Release) : List ContentHash :=
  (r.latest.elim [] SystemArtifactInventory.contents).map (CompiledThemeContent.digest sha256)

end Runs

/-- What an operation collects, at which time. -/
def collects : Operation → Option (ContentHash × ℤ)
  | .custom (.collect _ digest now) => some (digest, now)
  | .collectSystem digest now => some (digest, now)
  | _ => none

/-- A row lasts through the events, until one of them collects it no sooner than its deadline. -/
def LastsThrough (sha256 : List UInt8 → ContentHash) (text : NameText) (deadline : ℤ)
    (digest : ContentHash) (r : Release) (events : List (Operation × Commit)) : Prop :=
  Kept deadline digest (run (step sha256 text) r events).tables ∨
    ∃ before event after now, events = before ++ event :: after ∧
      Kept deadline digest (run (step sha256 text) r before).tables ∧
      collects event.1 = some (digest, now) ∧ deadline ≤ now ∧
      (run (step sha256 text) r (before ++ [event])).tables.eligibility.lookup digest = none

section Collection

variable {t t' : ThemeTables} {owner : ThemeOwner} {digest d : ContentHash} {now deadline : ℤ}

/-- A collection takes no reference, and a row only at its deadline. -/
structure Cleared (digest : ContentHash) (now : ℤ) (t t' : ThemeTables) : Prop where
  shift : ∀ d, eligibleLive t' d - customLive t' d = eligibleLive t d - customLive t d
  system : ∀ d, systemLive t' d = systemLive t d
  kept : ∀ deadline d, Kept deadline d t → Kept deadline d t' ∨
    d = digest ∧ deadline ≤ now ∧ t'.eligibility.lookup d = none

theorem eligibleLive_erase (h : t'.eligibility = t.eligibility.erase digest)
    (hidle : eligibleLive t digest = 0) (d : ContentHash) : eligibleLive t' d = eligibleLive t d := by
  unfold eligibleLive at hidle ⊢
  rw [h, entry_erase]
  split_ifs with hd
  · rw [hd, hidle]
  · rfl

theorem customLive_erase (h : t'.charges = t.charges.erase (owner, digest))
    (hidle : chargeLive t owner digest = 0) (d : ContentHash) : customLive t' d = customLive t d := by
  unfold customLive
  have hentry : entry (fun key row ↦ if key.2 = d then row.liveReferences else 0) t.charges
      (owner, digest) = 0 := by
    unfold chargeLive entry at hidle
    unfold entry
    cases hlookup : t.charges.lookup (owner, digest) with
    | none => rfl
    | some row =>
      rw [hlookup] at hidle
      have hzero : row.liveReferences = 0 := hidle
      simp [hzero]
  rw [h, total_erase, hentry, sub_zero]

theorem systemLive_erase (h : t'.systemReferences = t.systemReferences.erase digest)
    (hidle : systemLive t digest = 0) (d : ContentHash) : systemLive t' d = systemLive t d := by
  unfold systemLive at hidle ⊢
  rw [h, entry_erase]
  split_ifs with hd
  · rw [hd, hidle]
  · rfl

theorem kept_erase {row : EligibilityRow} (hrow : t.eligibility.lookup digest = some row)
    (hnow : row.retainedUntil ≤ now) (h : t'.eligibility = t.eligibility.erase digest)
    (hkept : Kept deadline d t) :
    Kept deadline d t' ∨ d = digest ∧ deadline ≤ now ∧ t'.eligibility.lookup d = none := by
  obtain ⟨kept, hlookup, hdeadline⟩ := hkept
  by_cases hd : d = digest
  · rw [hd, hrow] at hlookup
    obtain rfl := Option.some.inj hlookup
    refine .inr ⟨hd, hdeadline.trans hnow, ?_⟩
    rw [h, lookup_erase_eq, if_pos hd]
  · refine .inl ⟨kept, ?_, hdeadline⟩
    rw [h, lookup_erase_eq, if_neg hd]
    exact hlookup

theorem deleteSystemReference_live (d : ContentHash) :
    systemLive (deleteSystemReference t digest now) d = systemLive t d := by
  unfold deleteSystemReference
  split_ifs with h
  · refine systemLive_erase rfl ?_ d
    unfold systemLive entry
    cases hlookup : t.systemReferences.lookup digest with
    | none => rfl
    | some row =>
      rw [hlookup] at h
      exact (of_decide_eq_true h).1
  · rfl

theorem collectRetainedContent_cleared (h : collectRetainedContent t owner digest now = .ok t') :
    Cleared digest now t t' := by
  obtain ⟨charge, hcharge, h⟩ := bind_eq_ok.mp h
  obtain ⟨row, hrow, h⟩ := bind_eq_ok.mp h
  obtain ⟨_, hguard, h⟩ := bind_eq_ok.mp h
  obtain ⟨hunused, hidle, hnow⟩ := require_eq_ok.mp hguard
  have hrow := orError_eq_ok.mp hrow
  have hcharged : chargeLive t owner digest = 0 := by
    rw [chargeLive, entry_of_lookup (orError_eq_ok.mp hcharge), hunused]
  have heligible : eligibleLive t digest = 0 := by
    rw [eligibleLive, entry_of_lookup hrow, hidle]
  have hpaid := @refundOwner_frame { t with charges := t.charges.erase (owner, digest) } owner
    charge.logicalBytes
  dsimp only at h
  generalize refundOwner { t with charges := t.charges.erase (owner, digest) } owner
    charge.logicalBytes = paid at h hpaid
  have hcharges : paid.charges = t.charges.erase (owner, digest) := by rw [hpaid]
  have heligibility : paid.eligibility = t.eligibility := by rw [hpaid]
  have hreferences : paid.systemReferences = t.systemReferences := by rw [hpaid]
  by_cases hremaining : ∃ key ∈ paid.charges.keys, key.2 = digest
  · rw [if_pos hremaining] at h
    obtain rfl := Except.ok.inj h
    have same : Moved [] { t with charges := t.charges.erase (owner, digest) } paid :=
      .of_same hcharges heligibility hreferences
    refine ⟨fun d ↦ (same.shift d).trans (congrArg _ (customLive_erase rfl hcharged d)), fun d ↦ ?_,
      fun deadline d h ↦ .inl (same.kept deadline d h)⟩
    exact systemLive_congr (by rw [hreferences])
  · rw [if_neg hremaining] at h
    obtain ⟨t₁, hdelete, h⟩ := bind_eq_ok.mp h
    have hreferences₁ := @deleteSystemReference_frame paid digest now
    have hlive := @deleteSystemReference_live paid digest now
    generalize deleteSystemReference paid digest now = freed at hdelete hreferences₁ hlive
    have heligibility₁ : freed.eligibility = t.eligibility := by
      rw [hreferences₁]
      exact heligibility
    have hcharges₁ : freed.charges = t.charges.erase (owner, digest) := by
      rw [hreferences₁]
      exact hcharges
    obtain ⟨hframe, -⟩ := deleteEligibility_ok hdelete
    have herased : t₁.eligibility = t.eligibility.erase digest := by
      unfold deleteEligibility at hdelete
      have hexpired : (freed.eligibility.lookup digest).any
          (fun row ↦ row.liveReferences = 0 ∧ row.retainedUntil ≤ now) = true := by
        rw [heligibility₁, hrow]
        exact decide_eq_true ⟨hidle, hnow⟩
      rw [if_pos hexpired] at hdelete
      obtain ⟨_, -, hdelete⟩ := bind_eq_ok.mp hdelete
      rw [← Except.ok.inj hdelete]
      dsimp only
      rw [heligibility₁]
    have hcharges₂ : t₁.charges = t.charges.erase (owner, digest) := by
      rw [hframe]
      exact hcharges₁
    have hreferences₂ : t₁.systemReferences = freed.systemReferences := by rw [hframe]
    rw [refundSite_frame] at h
    obtain rfl := Except.ok.inj h
    refine ⟨fun d ↦ ?_, fun d ↦ ?_, fun deadline d hkept ↦ kept_erase hrow hnow herased hkept⟩
    · exact congrArg₂ _ (eligibleLive_erase herased heligible d) (customLive_erase hcharges₂ hcharged d)
    · have hfreed : systemLive t₁ d = systemLive freed d := systemLive_congr (by rw [hreferences₂])
      have hpaidLive : systemLive paid d = systemLive t d := systemLive_congr (by rw [hreferences])
      exact (hfreed.trans (hlive d)).trans hpaidLive

theorem collectSystemContent_cleared (h : collectSystemContent t digest now = .ok t') :
    Cleared digest now t t' := by
  obtain ⟨reference, hreference, h⟩ := bind_eq_ok.mp h
  obtain ⟨row, hrow, h⟩ := bind_eq_ok.mp h
  obtain ⟨_, hguard, h⟩ := bind_eq_ok.mp h
  obtain ⟨hunused, -, hidle, hnow, -⟩ := require_eq_ok.mp hguard
  have hrow := orError_eq_ok.mp hrow
  have hsystem : systemLive t digest = 0 := by
    rw [systemLive, entry_of_lookup (orError_eq_ok.mp hreference), hunused]
  have heligible : eligibleLive t digest = 0 := by
    rw [eligibleLive, entry_of_lookup hrow, hidle]
  obtain ⟨hframe, heligibility⟩ := deleteEligibility_ok h
  have hreferences : t'.systemReferences = t.systemReferences.erase digest := by rw [hframe]
  have hcharges : t'.charges = t.charges := by rw [hframe]
  have hcustom : ∀ d, customLive t' d = customLive t d := by
    intro d
    unfold customLive
    rw [hcharges]
  refine ⟨fun d ↦ ?_, systemLive_erase hreferences hsystem, fun deadline d hkept ↦ ?_⟩
  · rcases heligibility with heq | heq
    · have hsame : eligibleLive t' d = eligibleLive t d := by
        unfold eligibleLive
        rw [heq]
      rw [hsame, hcustom]
    · exact congrArg₂ _ (eligibleLive_erase (t := t) heq heligible d) (hcustom d)
  · rcases heligibility with heq | heq
    · refine .inl ?_
      unfold Kept
      rw [heq]
      exact hkept
    · exact kept_erase hrow hnow heq hkept

/-- Before its deadline a row is not collected. -/
theorem collect_fails (hkept : Kept deadline digest t) (hnow : now < deadline) :
    (collectRetainedContent t owner digest now).toOption = none ∧
      (collectSystemContent t digest now).toOption = none := by
  obtain ⟨row, hlookup, hdeadline⟩ := hkept
  constructor
  · cases h : collectRetainedContent t owner digest now with
    | error e => rfl
    | ok t' =>
      obtain ⟨charge, -, h⟩ := bind_eq_ok.mp h
      obtain ⟨row', hrow, h⟩ := bind_eq_ok.mp h
      obtain ⟨_, hguard, -⟩ := bind_eq_ok.mp h
      have hexpired := (require_eq_ok.mp hguard).2.2
      obtain rfl := Option.some.inj (hlookup.symm.trans (orError_eq_ok.mp hrow))
      omega
  · cases h : collectSystemContent t digest now with
    | error e => rfl
    | ok t' =>
      obtain ⟨reference, -, h⟩ := bind_eq_ok.mp h
      obtain ⟨row', hrow, h⟩ := bind_eq_ok.mp h
      obtain ⟨_, hguard, -⟩ := bind_eq_ok.mp h
      have hexpired := (require_eq_ok.mp hguard).2.2.2.1
      obtain rfl := Option.some.inj (hlookup.symm.trans (orError_eq_ok.mp hrow))
      omega

end Collection

section Invariant

variable {sha256 : List UInt8 → ContentHash} {text : NameText} {r r' : Release}
  {event : Operation × Commit} {events : List (Operation × Commit)} {deadline : ℤ} {d : ContentHash}

/-- How many roles of the latest release a digest plays. -/
def Release.count (sha256 : List UInt8 → ContentHash) (r : Release) (digest : ContentHash) : ℤ :=
  r.latest.elim 0 (fun inventory ↦ (roles sha256 inventory).count digest)

/-- Both kinds of references add up to the shared counter, and those of the system are the roles of
the latest release. -/
structure Consistent (sha256 : List UInt8 → ContentHash) (r : Release) : Prop where
  live : ∀ d, eligibleLive r.tables d = systemLive r.tables d + customLive r.tables d
  counted : ∀ d, systemLive r.tables d = r.count sha256 d

theorem Release.count_nonneg : 0 ≤ r.count sha256 d := by
  unfold Release.count
  cases r.latest with
  | none => exact le_rfl
  | some inventory => exact Int.natCast_nonneg _

theorem Release.count_pos : 0 < r.count sha256 d ↔ d ∈ r.digests sha256 := by
  unfold Release.count Release.digests
  cases r.latest with
  | none => simp
  | some inventory =>
    change 0 < (((roles sha256 inventory).count d : ℕ) : ℤ) ↔ _
    rw [Int.natCast_pos, List.count_pos_iff, mem_roles]
    rfl

theorem execute_custom {operation : ThemeAccounting.Operation} {t t' : ThemeTables}
    (h : ThemeAccounting.execute sha256 text t operation = some t') :
    (∃ added, Moved added t t') ∨
      ∃ digest now, collects (.custom operation) = some (digest, now) ∧ Cleared digest now t t' := by
  have hok : ∀ {ε : Type} {x : Except ε ThemeTables}, x.toOption = some t' → x = .ok t' := by
    intro ε x hx
    cases x with
    | error e => cases hx
    | ok t => rw [Option.some.inj hx]
  cases operation with
  | create owner name package limits id => exact .inl ⟨[], createTheme_moved (hok h)⟩
  | replaceDraft owner themeId package limits => exact .inl ⟨[], replaceDraft_moved (hok h)⟩
  | publish owner limits themeId compiled now => 
    exact .inl ⟨_, admitPublication_moved (fun _ he ↦ List.mem_map_of_mem he) (hok h)⟩
  | remove owner themeId retainedUntil => exact .inl ⟨[], removeTheme_moved (hok h)⟩
  | collect owner digest now =>
    exact .inr ⟨digest, now, rfl, collectRetainedContent_cleared (hok h)⟩
  | edit boundPaths selections =>
    obtain rfl := Option.some.inj h
    exact .inl ⟨[], .of_same rfl rfl rfl⟩

theorem execute_install {inventory : SystemArtifactInventory} {now : ℤ}
    (h : execute sha256 text r (.install inventory now) = some r') :
    ∃ admission, fromInventory sha256 inventory now = .ok admission ∧
      admitSystemInventory r.tables admission = .ok r'.tables ∧ r'.latest = some inventory := by
  obtain ⟨t', hadmitted, rfl⟩ := Option.map_eq_some_iff.mp h
  cases hinventory : fromInventory sha256 inventory now with
  | error e =>
    rw [hinventory] at hadmitted
    cases hadmitted
  | ok admission =>
    rw [hinventory] at hadmitted
    refine ⟨admission, rfl, ?_, rfl⟩
    cases hok : admitSystemInventory r.tables admission with
    | error e =>
      simp only [Except.bind, hok] at hadmitted
      cases hadmitted
    | ok t =>
      simp only [Except.bind, hok] at hadmitted
      rw [Option.some.inj hadmitted]

/-- What one operation does to the contents. -/
theorem execute_cases {operation : Operation} (h : execute sha256 text r operation = some r') :
    ((∃ added, Moved added r.tables r'.tables) ∧ r'.latest = r.latest) ∨
    (∃ digest now, collects operation = some (digest, now) ∧
      Cleared digest now r.tables r'.tables ∧ r'.latest = r.latest) ∨
    ∃ inventory now admission, operation = .install inventory now ∧
      fromInventory sha256 inventory now = .ok admission ∧
      admitSystemInventory r.tables admission = .ok r'.tables ∧ r'.latest = some inventory := by
  cases operation with
  | custom operation =>
    obtain ⟨t', hexecute, rfl⟩ := Option.map_eq_some_iff.mp h
    rcases execute_custom hexecute with hmoved | ⟨digest, now, hcollects, hcleared⟩
    · exact .inl ⟨hmoved, rfl⟩
    · exact .inr (.inl ⟨digest, now, hcollects, hcleared, rfl⟩)
  | install inventory now =>
    obtain ⟨admission, hinventory, hadmitted, hlatest⟩ := execute_install h
    exact .inr (.inr ⟨inventory, now, admission, rfl, hinventory, hadmitted, hlatest⟩)
  | collectSystem digest now =>
    obtain ⟨t', hcollect, rfl⟩ := Option.map_eq_some_iff.mp h
    cases hok : collectSystemContent r.tables digest now with
    | error e =>
      rw [hok] at hcollect
      cases hcollect
    | ok t =>
      rw [hok] at hcollect
      obtain rfl := Option.some.inj hcollect
      exact .inr (.inl ⟨digest, now, rfl, collectSystemContent_cleared hok, rfl⟩)

theorem step_cases (C : Release → Prop) (hsame : C r)
    (hexecute : ∀ r', execute sha256 text r event.1 = some r' → C r') :
    C (step sha256 text r event) := by
  unfold step
  split_ifs
  · cases h : execute sha256 text r event.1 with
    | none => exact hsame
    | some r' => exact hexecute r' h
  · exact hsame

theorem Consistent.nonneg (h : Consistent sha256 r) (d : ContentHash) : 0 ≤ systemLive r.tables d := by
  rw [h.counted]
  exact Release.count_nonneg

theorem execute_consistent {operation : Operation} (h : Consistent sha256 r)
    (hexecute : execute sha256 text r operation = some r') : Consistent sha256 r' := by
  rcases execute_cases hexecute with ⟨⟨added, hmoved⟩, hlatest⟩ | ⟨digest, now, -, hcleared, hlatest⟩ |
    ⟨inventory, now, admission, rfl, hinventory, hadmitted, hlatest⟩
  · have hsystem : ∀ d, systemLive r'.tables d = systemLive r.tables d :=
      fun d ↦ systemLive_congr (by rw [hmoved.system])
    refine ⟨fun d ↦ ?_, fun d ↦ ?_⟩
    · have hshift := hmoved.shift d
      have hlive := h.live d
      rw [hsystem]
      omega
    · rw [hsystem, h.counted, Release.count, Release.count, hlatest]
  · refine ⟨fun d ↦ ?_, fun d ↦ ?_⟩
    · have hshift := hcleared.shift d
      have hlive := h.live d
      rw [hcleared.system]
      omega
    · rw [hcleared.system, h.counted, Release.count, Release.count, hlatest]
  · have advanced := admitSystemInventory_advanced h.nonneg hadmitted
    refine ⟨fun d ↦ ?_, fun d ↦ ?_⟩
    · have hshift := advanced.shift d
      have hlive := h.live d
      have hcustom : customLive r'.tables d = customLive r.tables d := by
        unfold customLive
        rw [advanced.charges]
      omega
    · rw [advanced.counted, (fromInventory_ok hinventory).2.2, Release.count, hlatest]
      rfl

theorem step_consistent (h : Consistent sha256 r) : Consistent sha256 (step sha256 text r event) :=
  step_cases (Consistent sha256) h (fun _ ↦ execute_consistent h)

theorem first_consistent : Consistent sha256 Release.first := ⟨fun _ ↦ rfl, fun _ ↦ rfl⟩

theorem run_consistent (h : Consistent sha256 r) :
    Consistent sha256 (run (step sha256 text) r events) :=
  run_preserves (C := fun _ _ ↦ True) (fun _ _ h _ ↦ step_consistent h) h (along_true _ _)

theorem step_kept (h : Consistent sha256 r) (hkept : Kept deadline d r.tables) :
    Kept deadline d (step sha256 text r event).tables ∨
      ∃ now, collects event.1 = some (d, now) ∧ deadline ≤ now ∧
        (step sha256 text r event).tables.eligibility.lookup d = none := by
  refine step_cases (fun r' ↦ Kept deadline d r'.tables ∨ ∃ now, collects event.1 = some (d, now) ∧
    deadline ≤ now ∧ r'.tables.eligibility.lookup d = none) (.inl hkept) (fun r' hexecute ↦ ?_)
  rcases execute_cases hexecute with ⟨⟨added, hmoved⟩, -⟩ | ⟨digest, now, hcollects, hcleared, -⟩ |
    ⟨inventory, now, admission, hinstall, -, hadmitted, -⟩
  · exact .inl (hmoved.kept deadline d hkept)
  · rcases hcleared.kept deadline d hkept with hkept | ⟨rfl, hnow, hgone⟩
    · exact .inl hkept
    · exact .inr ⟨now, hcollects, hnow, hgone⟩
  · exact .inl ((admitSystemInventory_advanced h.nonneg hadmitted).kept deadline d hkept)

theorem run_kept (h : Consistent sha256 r) (hkept : Kept deadline d r.tables) :
    LastsThrough sha256 text deadline d r events := by
  induction events generalizing r with
  | nil => exact .inl hkept
  | cons event events ih =>
    rcases @step_kept sha256 text r event deadline d h hkept with hnext | ⟨now, hcollects, hnow, hgone⟩
    · rcases ih (step_consistent h) hnext with
        hend | ⟨before, e, after, now, rfl, hbefore, hcollects, hnow, hgone⟩
      · exact .inl hend
      · exact .inr ⟨event :: before, e, after, now, rfl, hbefore, hcollects, hnow, hgone⟩
    · exact .inr ⟨[], event, events, now, rfl, hkept, hcollects, hnow, hgone⟩

/-- A digest that leaves the release is kept for the retention period. -/
theorem install_kept {inventory : SystemArtifactInventory} {now : ℤ} (h : Consistent sha256 r)
    (hexecute : execute sha256 text r (.install inventory now) = some r')
    (hold : d ∈ r.digests sha256)
    (hnew : d ∉ inventory.contents.map (CompiledThemeContent.digest sha256)) :
    Kept (now + contentRetentionSeconds) d r'.tables := by
  obtain ⟨admission, hinventory, hadmitted, -⟩ := execute_install hexecute
  obtain ⟨-, huntil, hcount⟩ := fromInventory_ok hinventory
  have hless : newCount admission d < systemLive r.tables d := by
    rw [hcount, h.counted, List.count_eq_zero_of_not_mem (fun hmem ↦ hnew (mem_roles.mp hmem))]
    exact Release.count_pos.mpr hold
  rw [← huntil]
  exact (admitSystemInventory_advanced h.nonneg hadmitted).detached d hless

end Invariant

/-- Along every run the shared counter is the system's and the custom references together, the system
refers to the digests of the latest release, and a row keeps its deadline until a collection takes it
no sooner; a digest that leaves the release gets the retention period. -/
theorem releases_retained (sha256 : List UInt8 → ContentHash) (text : NameText)
    (events : List (Operation × Commit)) :
    let r := run (step sha256 text) Release.first events
    (∀ d, eligibleLive r.tables d = systemLive r.tables d + customLive r.tables d) ∧
      (∀ d, 0 < systemLive r.tables d ↔ d ∈ r.digests sha256) ∧
      (∀ d row later, r.tables.eligibility.lookup d = some row →
        LastsThrough sha256 text row.retainedUntil d r later) ∧
      (∀ d inventory now r' later, d ∈ r.digests sha256 →
        d ∉ inventory.contents.map (CompiledThemeContent.digest sha256) →
        execute sha256 text r (.install inventory now) = some r' →
        LastsThrough sha256 text (now + contentRetentionSeconds) d r' later) ∧
      ∀ d deadline owner now, Kept deadline d r.tables → now < deadline →
        (collectRetainedContent r.tables owner d now).toOption = none ∧
          (collectSystemContent r.tables d now).toOption = none := by
  intro r
  have h : Consistent sha256 r := run_consistent first_consistent
  refine ⟨h.live, fun d ↦ ?_, fun d row later hlookup ↦ ?_,
    fun d inventory now r' later hold hnew hexecute ↦ ?_, fun d deadline owner now ↦ collect_fails⟩
  · rw [h.counted]
    exact Release.count_pos
  · exact run_kept h ⟨row, hlookup, le_rfl⟩
  · exact run_kept (execute_consistent h hexecute) (install_kept h hexecute hold hnew)

def bundled (theme : Theme) : BundledThemePackage :=
  ⟨theme, ThemeAccounting.compile ThemeAccounting.plainPackage⟩

def releaseOf (application : String) : SystemArtifactInventory where
  application := ⟨ThemeAccounting.bytesOf application⟩
  themes := [bundled .terminal, bundled .studio, bundled .reader]
  three := rfl

def digestA : ContentHash :=
  ⟨"5f546eb4606b5c2b7d2a449a5cc2bbb477ed5a246c7051ce871b12f2dbfc8419", by decide +kernel⟩

/-- The SHA-256 digests of the sample contents. -/
def releaseSha256 (bytes : List UInt8) : ContentHash :=
  if bytes = (ThemeAccounting.bytesOf "a\x7b\x7d").toList then digestA
  else if bytes = (ThemeAccounting.bytesOf "b\x7b\x7d").toList then
    ⟨"ef2a875407aca2dd75a7a1dccc3b202918a9bc8e543e0b3def3f34ccd5e56a7b", by decide +kernel⟩
  else ThemeAccounting.sampleSha256 bytes

/-- A stylesheet is retained until 31537400, collected then, and installed again by a clock that went
back. -/
theorem reinstalled_earlier :
    let before := run (step releaseSha256 ThemeAccounting.asciiNames) Release.first
      [(.install (releaseOf "a\x7b\x7d") 100, .confirmed),
        (.install (releaseOf "b\x7b\x7d") 1100, .confirmed)]
    let after := run (step releaseSha256 ThemeAccounting.asciiNames) before
      [(.collectSystem digestA 31537400, .confirmed),
        (.install (releaseOf "a\x7b\x7d") 200, .confirmed)]
    (before.tables.eligibility.lookup digestA).map EligibilityRow.retainedUntil =
        some 31537400 ∧
      (after.tables.eligibility.lookup digestA).map EligibilityRow.retainedUntil = some 200 := by
  decide +kernel

end Jaunder.Storage.SystemReleases
