import Jaunder.Storage.SystemThemes
import Jaunder.Storage.ThemeContentRuns
import Jaunder.Storage.ThemeReferences

namespace Jaunder.Storage.ThemeContentDiscipline

open Foundation.Ledger Foundation.Locks Foundation.Outcome
open Jaunder.Common.Hash Jaunder.Common.Owned
open Jaunder.Host.ThemePackage
open Jaunder.Storage.SystemThemes Jaunder.Storage.ThemeAssetManager Jaunder.Storage.ThemeContentRuns
open Jaunder.Storage.ThemePublication Jaunder.Storage.ThemeReferences Jaunder.Storage.Themes
open Jaunder.Storage.WriteScope

section Rows

variable {sha256 : List UInt8 → ContentHash} {text : NameText} {t t' : ThemeTables} {p : Publication}
  {owner : ThemeOwner} {limits : ThemeQuotaLimits} {added : List ContentHash} {d digest : ContentHash}
  {now : ℤ}

theorem renameTheme_moved {themeId : ℤ} {name : String}
    (h : renameTheme text t owner themeId name = .ok t') : Moved added t t' := by
  obtain ⟨name, -, h⟩ := bind_eq_ok.mp h
  obtain ⟨row, -, h⟩ := bind_eq_ok.mp h
  obtain ⟨_, -, h⟩ := bind_eq_ok.mp h
  obtain ⟨_, -, h⟩ := bind_eq_ok.mp h
  obtain rfl := Except.ok.inj h
  exact .of_same rfl rfl rfl

theorem persist_moved {change : ThemeEditorChange} {candidate : ThemePublicationAdmission}
    {applied : Bool} (hadded : ∀ e ∈ candidate.eligibilities, e.digest ∈ added)
    (h : persist text t owner limits change candidate = .ok (t', applied)) : Moved added t t' := by
  obtain ⟨current, -, h⟩ := bind_eq_ok.mp h
  obtain ⟨_, -, h⟩ := bind_eq_ok.mp h
  obtain ⟨t₁, hdraft, h⟩ := bind_eq_ok.mp h
  obtain ⟨t₂, hname, h⟩ := bind_eq_ok.mp h
  have hsaved : Moved added t { t₂ with
      boundPaths := t₂.boundPaths.filter (fun b ↦ b.themeId ≠ change.themeId) ++ change.boundPaths } :=
    ((replaceDraft_moved (mapError_eq_ok.mp hdraft)).trans (renameTheme_moved hname)).trans
      (.of_same rfl rfl rfl)
  dsimp only at h
  split_ifs at h
  · obtain ⟨t₃, hadmitted, h⟩ := bind_eq_ok.mp h
    obtain ⟨rfl, -⟩ := Prod.mk.inj (Except.ok.inj h)
    exact hsaved.trans (admitPublication_moved hadded hadmitted)
  · obtain ⟨rfl, -⟩ := Prod.mk.inj (Except.ok.inj h)
    exact hsaved

/-- A publication gives rows to what it has installed. -/
theorem transact_rows {applied : Bool} (h : p.transact sha256 text t = .ok (t', applied)) :
    ∀ d ∈ t'.eligibility, d ∈ t.eligibility ∨ d ∈ p.digests sha256 := by
  have hadded : ∀ (owner : ThemeOwner) (limits : ThemeQuotaLimits) (themeId : ℤ)
      (compiled : CompiledThemeRevision) (now : ℤ),
      ∀ e ∈ (admission sha256 owner limits themeId compiled now).eligibilities,
        e.digest ∈ (blobs sha256 compiled).map Blob.digest := by
    intro owner limits themeId compiled now e he
    obtain ⟨blob, hblob, rfl⟩ := List.mem_map.mp he
    exact List.mem_map_of_mem hblob
  cases p with
  | revision owner limits themeId compiled now =>
    simp only [Publication.transact] at h
    cases hadmitted : admitPublication t (admission sha256 owner limits themeId compiled now) with
    | error e =>
      rw [hadmitted] at h
      cases h
    | ok t₁ =>
      rw [hadmitted] at h
      obtain ⟨rfl, -⟩ := Prod.mk.inj (Except.ok.inj h)
      exact (admitPublication_moved (hadded _ _ _ _ _) hadmitted).rows
  | editor owner limits change compiled now => exact (persist_moved (hadded _ _ _ _ _) h).rows
  | release inventory now =>
    obtain ⟨admission, hinventory, h⟩ := bind_eq_ok.mp h
    obtain ⟨t₁, hadmitted, h⟩ := bind_eq_ok.mp h
    obtain ⟨rfl, -⟩ := Prod.mk.inj (Except.ok.inj h)
    intro d hd
    rcases admitSystemInventory_rows hadmitted d hd with hd | hd
    · exact .inl hd
    · exact .inr (mem_contentBlobs_digest.mpr (fromInventory_keys hinventory hd))

theorem collectSystemContent_rows (h : collectSystemContent t digest now = .ok t') :
    ∀ d ∈ t'.eligibility, d ∈ t.eligibility := by
  obtain ⟨reference, -, h⟩ := bind_eq_ok.mp h
  obtain ⟨row, -, h⟩ := bind_eq_ok.mp h
  obtain ⟨_, -, h⟩ := bind_eq_ok.mp h
  intro d hd
  rcases (deleteEligibility_ok h).2 with heq | heq
  · rw [heq] at hd
    exact hd
  · rw [heq, Finmap.mem_erase] at hd
    exact hd.2

theorem collectRetainedContent_rows (h : collectRetainedContent t owner digest now = .ok t') :
    ∀ d ∈ t'.eligibility, d ∈ t.eligibility := by
  obtain ⟨charge, collected⟩ := collectRetainedContent_collected h
  intro d hd
  rcases collected.eligibility with heq | heq
  · rw [heq] at hd
    exact hd
  · rw [heq, Finmap.mem_erase] at hd
    exact hd.2

/-- A mutation that neither publishes nor collects adds no row. -/
theorem mutate_rows {w w' : World} {operation : ThemeAccounting.Operation} {commit : Commit}
    (h : mutate sha256 text w operation commit = some w') :
    w' = { w with tables := w'.tables } ∧
      ∀ d ∈ w'.tables.eligibility, d ∈ w.tables.eligibility := by
  have hok : ∀ {ε : Type} {x : Except ε ThemeTables} {t : ThemeTables}, x.toOption = some t → x = .ok t := by
    intro ε x t hx
    cases x with
    | error e => cases hx
    | ok t => rw [Option.some.inj hx]
  have hrows : ∀ t, ThemeAccounting.execute sha256 text w.tables operation = some t →
      ∀ d ∈ t.eligibility, d ∈ w.tables.eligibility := by
    intro t hexecute
    have hmoved : Moved [] w.tables t := by
      cases operation with
      | create owner name package limits id => exact createTheme_moved (hok hexecute)
      | replaceDraft owner themeId package limits => exact replaceDraft_moved (hok hexecute)
      | publish owner limits themeId compiled now => cases h
      | remove owner themeId retainedUntil => exact removeTheme_moved (hok hexecute)
      | collect owner digest now => cases h
      | edit boundPaths selections =>
        obtain rfl := Option.some.inj hexecute
        exact .of_same rfl rfl rfl
    intro d hd
    rcases hmoved.rows d hd with hd | hd
    · exact hd
    · cases hd
  have hstep : w' = { w with tables := ThemeAccounting.step sha256 text w.tables (operation, commit) } := by
    unfold mutate at h
    split at h
    · cases h
    · cases h
    · exact (Option.some.inj h).symm
  rw [hstep]
  refine ⟨rfl, fun d hd ↦ ?_⟩
  dsimp only at hd
  unfold ThemeAccounting.step at hd
  split_ifs at hd
  · cases hexecute : ThemeAccounting.execute sha256 text w.tables operation with
    | none =>
      rw [hexecute] at hd
      exact hd
    | some t =>
      rw [hexecute] at hd
      exact hrows t hexecute d hd
  · exact hd

end Rows

/-- The locks that an operation has taken. -/
def held : Activity → List ContentHash
  | .publication _ (.locking held _) => held
  | .publication _ (.installing held _ _) => held
  | .publication _ (.cleaning held _) => held
  | .publication _ (.unlinking held _ _) => held
  | .collect _ digest _ .locked _ => [digest]
  | .collect _ digest _ .detached _ => [digest]
  | .collect _ digest _ .unlinking _ => [digest]
  | .reconcile _ (.locked digest _) => [digest]
  | .reconcile _ (.unlinking digest _) => [digest]
  | _ => []

/-- A collection hands over to a reconciliation where that holds no lock. -/
def Resumable : Phase → Prop
  | .custom _ => True
  | .system _ => True
  | _ => False

/-- What an operation knows of the files and of the rows at its locks. -/
def Relies (sha256 : List UInt8 → ContentHash) (file row : ContentHash → Prop) : Activity → Prop
  | .publication p (.locking held pending) =>
    ∀ digest ∈ p.digests sha256, digest ∈ held ∨ digest ∈ pending
  | .publication p (.installing held pending installed) =>
    (∀ blob ∈ p.blobs sha256, blob.digest ∈ held ∧ (blob ∈ pending ∨ file blob.digest)) ∧
      (∀ blob ∈ pending, blob ∈ p.blobs sha256) ∧ ∀ digest ∈ installed, digest ∈ held
  | .publication _ (.cleaning held pending) => ∀ digest ∈ pending, digest ∈ held
  | .publication _ (.unlinking held digest pending) =>
    digest ∈ held ∧ ¬row digest ∧ ∀ digest ∈ pending, digest ∈ held
  | .collect _ digest _ stage rest =>
    (stage = .unlinking → ¬row digest) ∧ ∀ phase ∈ rest, Resumable phase
  | .reconcile _ (.unlinking digest _) => ¬row digest
  | _ => True

section Activities

variable {sha256 : List UInt8 → ContentHash} {file file' row row' : ContentHash → Prop} {a : Activity}

theorem Relies.mono (h : Relies sha256 file row a) (hfile : ∀ d ∈ held a, file d → file' d)
    (hrow : ∀ d ∈ held a, row' d → row d) : Relies sha256 file' row' a := by
  cases a with
  | idle => trivial
  | publication p stage =>
    cases stage with
    | requested => trivial
    | serialized => trivial
    | locking held pending => exact h
    | installing held pending installed =>
      obtain ⟨hblobs, hpending, hinstalled⟩ := h
      refine ⟨fun blob hblob ↦ ?_, hpending, hinstalled⟩
      obtain ⟨hheld, hplaced⟩ := hblobs blob hblob
      exact ⟨hheld, hplaced.imp id (hfile blob.digest hheld)⟩
    | cleaning held pending => exact h
    | unlinking held digest pending =>
      obtain ⟨hheld, habsent, hpending⟩ := h
      exact ⟨hheld, fun hmem ↦ habsent (hrow digest hheld hmem), hpending⟩
  | collect owner digest now stage rest =>
    refine ⟨?_, h.2⟩
    rintro rfl hmem
    exact h.1 rfl (hrow digest List.mem_cons_self hmem)
  | reconcile now phase =>
    cases phase with
    | unlinking digest pending => exact fun hmem ↦ h (hrow digest List.mem_cons_self hmem)
    | _ => trivial
  | finished => trivial
  | reconciled => trivial

end Activities

/-- What one operation in flight relies on. -/
structure Own (sha256 : List UInt8 → ContentHash) (w : World) (operation : ℕ) : Prop where
  locks : ∀ d ∈ held (w.activities operation), w.contentLocks d = some operation
  relies : Relies sha256 (· ∈ w.files) (· ∈ w.tables.eligibility) (w.activities operation)

/-- Every row has its file, every file is complete, and every operation has what it relies on. -/
structure Sound (sha256 : List UInt8 → ContentHash) (w : World) : Prop where
  intact : ∀ d ∈ w.tables.eligibility, d ∈ w.files
  complete : ∀ d bytes, w.files.lookup d = some bytes → sha256 bytes.toList = d
  fresh : ∀ operation, w.started ≤ operation → w.activities operation = .idle
  own : ∀ operation, Own sha256 w operation

/-- The discipline of one step: a file changes and a row comes under the lock of its digest, and the
locks of the others stay. -/
structure Turn (operation : ℕ) (w w' : World) : Prop where
  started : w.started ≤ w'.started
  others : ∀ o, o ≠ operation → w'.activities o = w.activities o
  locks : ∀ o d, o ≠ operation → w.contentLocks d = some o → w'.contentLocks d = some o
  files : ∀ d, w'.files.lookup d = w.files.lookup d ∨ w.contentLocks d = some operation
  rows : ∀ d ∈ w'.tables.eligibility, d ∈ w.tables.eligibility ∨ w.contentLocks d = some operation

section Discipline

variable {sha256 : List UInt8 → ContentHash} {text : NameText} {w w' : World} {operation o : ℕ}
  {a : Activity} {d digest : ContentHash}

theorem Own.kept (h : Own sha256 w o) (hne : o ≠ operation) (turn : Turn operation w w') :
    Own sha256 w' o := by
  have hactivity := turn.others o hne
  have hmine : ∀ d ∈ held (w.activities o), w.contentLocks d ≠ some operation := by
    intro d hd heq
    exact hne (Option.some.inj ((h.locks d hd).symm.trans heq))
  constructor
  · intro d hd
    rw [hactivity] at hd
    exact turn.locks o d hne (h.locks d hd)
  · rw [hactivity]
    refine h.relies.mono (fun d hd hfile ↦ ?_) (fun d hd hrow ↦ ?_)
    · have hsame := (turn.files d).resolve_right (hmine d hd)
      rw [← Finmap.lookup_isSome] at hfile ⊢
      rwa [hsame]
    · exact (turn.rows d hrow).resolve_right (hmine d hd)

theorem Sound.turn (h : Sound sha256 w) (hop : operation < w'.started) (turn : Turn operation w w')
    (hown : Own sha256 w' operation) (hintact : ∀ d ∈ w'.tables.eligibility, d ∈ w'.files)
    (hcomplete : ∀ d bytes, w'.files.lookup d = some bytes → sha256 bytes.toList = d) :
    Sound sha256 w' where
  intact := hintact
  complete := hcomplete
  fresh := by
    intro o ho
    have hne : o ≠ operation := by omega
    rw [turn.others o hne]
    exact h.fresh o (turn.started.trans ho)
  own := by
    intro o
    by_cases hne : o = operation
    · rw [hne]
      exact hown
    · exact (h.own o).kept hne turn

theorem Sound.lt_started (h : Sound sha256 w) (hactive : w.activities operation ≠ .idle) :
    operation < w.started := by
  by_contra hle
  exact hactive (h.fresh operation (by omega))

theorem turn_setActivity : Turn operation w (w.setActivity operation a) where
  started := le_rfl
  others _ hne := Function.update_of_ne hne _ _
  locks _ _ _ h := h
  files _ := .inl rfl
  rows _ hd := .inl hd

theorem turn_unlock : Turn operation w (w.unlock operation a) where
  started := le_rfl
  others _ hne := Function.update_of_ne hne _ _
  locks _ _ hne h := release_of_held hne h
  files _ := .inl rfl
  rows _ hd := .inl hd

theorem Turn.setTables {t : ThemeTables} (turn : Turn operation w w')
    (hrows : ∀ d ∈ t.eligibility, d ∈ w.tables.eligibility ∨ w.contentLocks d = some operation) :
    Turn operation w { w' with tables := t } :=
  { turn with rows := hrows }

theorem Turn.setFiles {files : Keyed ContentHash (Vec UInt8)} (turn : Turn operation w w')
    (hfiles : ∀ d, files.lookup d = w.files.lookup d ∨ w.contentLocks d = some operation) :
    Turn operation w { w' with files := files } :=
  { turn with files := hfiles }

/-- The next activity keeps the locks. -/
theorem setActivity_sound (h : Sound sha256 w) (hop : operation < w.started)
    (hheld : ∀ d ∈ held a, w.contentLocks d = some operation)
    (hrelies : Relies sha256 (· ∈ w.files) (· ∈ w.tables.eligibility) a) :
    Sound sha256 (w.setActivity operation a) := by
  have hactivity : (w.setActivity operation a).activities operation = a := Function.update_self _ _ _
  refine h.turn hop turn_setActivity ⟨?_, ?_⟩ h.intact h.complete
  · rw [hactivity]
    exact hheld
  · rw [hactivity]
    exact hrelies

/-- The next activity holds nothing. -/
theorem unlock_sound (h : Sound sha256 w) (hop : operation < w.started) (hheld : held a = [])
    (hrelies : ∀ file row, Relies sha256 file row a) : Sound sha256 (w.unlock operation a) := by
  have hactivity : (w.unlock operation a).activities operation = a := Function.update_self _ _ _
  refine h.turn hop turn_unlock ⟨?_, ?_⟩ h.intact h.complete
  · rw [hactivity, hheld]
    exact fun d hd ↦ absurd hd List.not_mem_nil
  · rw [hactivity]
    exact hrelies _ _

theorem finish_sound (h : Sound sha256 w) (hop : operation < w.started) :
    Sound sha256 (w.finish operation) := unlock_sound h hop rfl (fun _ _ ↦ trivial)

theorem acquire_sound (h : Sound sha256 w) (hop : operation < w.started)
    (hs : w.acquire operation a digest = some w')
    (hheld : ∀ d ∈ held a, d = digest ∨ w.contentLocks d = some operation)
    (hrelies : Relies sha256 (· ∈ w.files) (· ∈ w.tables.eligibility) a) : Sound sha256 w' := by
  obtain ⟨locks, hlocks, rfl⟩ := Option.map_eq_some_iff.mp hs
  have hactivity : (w.setActivity operation a).activities operation = a := Function.update_self _ _ _
  have turn : Turn operation w { w.setActivity operation a with contentLocks := locks } :=
    { turn_setActivity with locks := fun o d _ hheld ↦ acquire_of_held hlocks hheld }
  refine h.turn hop turn ⟨?_, ?_⟩ h.intact h.complete
  · intro d hd
    dsimp only at hd ⊢
    rw [hactivity] at hd
    rcases hheld d hd with rfl | hmine
    · exact acquire_self hlocks
    · exact acquire_of_held hlocks hmine
  · dsimp only
    rw [hactivity]
    exact hrelies

end Discipline

end Jaunder.Storage.ThemeContentDiscipline
