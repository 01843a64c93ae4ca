import Jaunder.Foundation.Run
import Jaunder.Storage.SystemReleases
import Jaunder.Storage.ThemeContentSteps

namespace Jaunder.Storage.ThemeContentSafety

open Foundation.Ledger Foundation.Locks Foundation.Outcome Foundation.Run
open Jaunder.Common.Hash Jaunder.Common.Owned
open Jaunder.Host.ThemePackage
open Jaunder.Storage.SystemThemes Jaunder.Storage.ThemeAssetManager
open Jaunder.Storage.ThemeContentDiscipline Jaunder.Storage.ThemeContentRuns
open Jaunder.Storage.ThemeContentSteps
open Jaunder.Storage.ThemePublication Jaunder.Storage.ThemeReferences Jaunder.Storage.Themes
open Jaunder.Storage.WriteScope

section Removals

variable {sha256 : List UInt8 → ContentHash} {text : NameText} {w w' : World} {operation : ℕ}
  {d digest : ContentHash} {p : Publication} {move : Move} {event : Event}

theorem acquire_files {a : Activity} (hs : w.acquire operation a digest = some w') :
    w'.files = w.files := by
  obtain ⟨locks, -, rfl⟩ := Option.map_eq_some_iff.mp hs
  rfl

theorem planPublication_files (hs : planPublication sha256 w operation p = some w') :
    w'.files = w.files := by
  unfold planPublication at hs
  cases p with
  | release inventory now =>
    dsimp only at hs
    split_ifs at hs
    · obtain rfl := Option.some.inj hs
      rfl
    · obtain rfl := Option.some.inj hs
      rfl
  | _ =>
    obtain rfl := Option.some.inj hs
    rfl

theorem installBlob_files {held' installed : List ContentHash} {blob : Blob} {pending : List Blob}
    {placement : Placement} (hd : d ∈ w.files) :
    d ∈ (installBlob sha256 w operation p held' blob pending installed placement).files := by
  have hinsert : d ∈ w.files.insert blob.digest blob.bytes := Finmap.mem_insert.mpr (.inr hd)
  unfold installBlob
  cases w.files.lookup blob.digest with
  | some bytes =>
    cases placement with
    | placed => exact hd
    | failed renamed => exact hd
  | none =>
    cases placement with
    | placed => exact hinsert
    | failed renamed =>
      cases renamed with
      | true => exact hinsert
      | false => exact hd

theorem commitPublication_files {held' installed : List ContentHash} {commit : Commit} :
    (commitPublication sha256 text w operation p held' installed commit).files = w.files := by
  unfold commitPublication
  cases p.transact sha256 text w.tables with
  | error e => rfl
  | ok result =>
    cases commit with
    | confirmed =>
      dsimp only
      split_ifs
      · rfl
      · rfl
    | _ => rfl

theorem commitCollect_files {owner : Option ThemeOwner} {now : ℤ} {rest : Option Phase}
    {commit : Commit} : (commitCollect w operation owner digest now rest commit).files = w.files := by
  unfold commitCollect
  cases collectContent w.tables owner digest now with
  | error e => rfl
  | ok t => cases commit <;> rfl

/-- What an unlink leaves where the file of `d` goes. -/
theorem unlinked {files files' : Keyed ContentHash (Vec UInt8)} {succeeds : Bool}
    (hfiles : files' = if succeeds then files.erase digest else files) (hd : d ∈ files)
    (hgone : d ∉ files') : d = digest := by
  by_contra hne
  refine hgone ?_
  rw [hfiles]
  split_ifs
  · exact Finmap.mem_erase.mpr ⟨hne, hd⟩
  · exact hd

theorem PublicationStep.unlinks {stage : PublicationStage} (h : Sound sha256 w)
    (hactivity : w.activities operation = .publication p stage)
    (hs : PublicationStep sha256 text w operation p stage move w') (hd : d ∈ w.files)
    (hgone : d ∉ w'.files) : d ∉ w.tables.eligibility ∧ w'.tables = w.tables := by
  have hrelies := (h.own operation).relies
  rw [hactivity] at hrelies
  cases hs with
  | planned hs =>
    rw [planPublication_files hs] at hgone
    exact absurd hd hgone
  | acquire hs =>
    rw [acquire_files hs] at hgone
    exact absurd hd hgone
  | install => exact absurd (installBlob_files hd) hgone
  | commit =>
    rw [commitPublication_files] at hgone
    exact absurd hd hgone
  | unlink =>
    obtain rfl := unlinked rfl hd hgone
    exact ⟨hrelies.2.1, rfl⟩
  | _ => exact absurd hd hgone

theorem CollectStep.unlinks {owner : Option ThemeOwner} {now : ℤ} {rest : Option Phase}
    {stage : CollectStage} (h : Sound sha256 w)
    (hactivity : w.activities operation = .collect owner digest now stage rest)
    (hs : CollectStep w operation owner digest now rest stage move w') (hd : d ∈ w.files)
    (hgone : d ∉ w'.files) : d ∉ w.tables.eligibility ∧ w'.tables = w.tables := by
  have hrelies := (h.own operation).relies
  rw [hactivity] at hrelies
  cases hs with
  | acquire hs =>
    rw [acquire_files hs] at hgone
    exact absurd hd hgone
  | commit =>
    rw [commitCollect_files] at hgone
    exact absurd hd hgone
  | unlink =>
    obtain rfl := unlinked rfl hd hgone
    exact ⟨hrelies.1 rfl, rfl⟩
  | _ => exact absurd hd hgone

theorem ReconcileStep.unlinks {now : ℤ} {phase : Phase} (h : Sound sha256 w)
    (hactivity : w.activities operation = .reconcile now phase)
    (hs : ReconcileStep sha256 w operation now phase move w') (hd : d ∈ w.files)
    (hgone : d ∉ w'.files) : d ∉ w.tables.eligibility ∧ w'.tables = w.tables := by
  have hrelies := (h.own operation).relies
  rw [hactivity] at hrelies
  cases hs with
  | acquire hs =>
    rw [acquire_files hs] at hgone
    exact absurd hd hgone
  | unlink =>
    obtain rfl := unlinked rfl hd hgone
    exact ⟨hrelies, rfl⟩
  | _ => exact absurd hd hgone

/-- A file goes only while its digest has no row. -/
theorem step_unlinks (h : Sound sha256 w) (hd : d ∈ w.files)
    (hgone : d ∉ (step sha256 text w event).files) :
    d ∉ w.tables.eligibility ∧ d ∉ (step sha256 text w event).tables.eligibility := by
  unfold step at hgone ⊢
  cases hs : next sha256 text w event with
  | none =>
    rw [hs] at hgone
    exact absurd hd hgone
  | some w' =>
    rw [hs] at hgone
    change d ∉ w'.files at hgone
    change _ ∧ d ∉ w'.tables.eligibility
    suffices hunlinks : d ∉ w.tables.eligibility ∧ w'.tables = w.tables by
      rw [hunlinks.2]
      exact ⟨hunlinks.1, hunlinks.1⟩
    cases event with
    | mutate mutation commit =>
      rw [(mutate_rows hs).1] at hgone
      exact absurd hd hgone
    | advance operation move =>
      simp only [next, advance] at hs
      cases hactivity : w.activities operation with
      | publication p stage =>
        rw [hactivity] at hs
        exact PublicationStep.unlinks h hactivity (advancePublication_step hs) hd hgone
      | collect owner digest now stage rest =>
        rw [hactivity] at hs
        exact CollectStep.unlinks h hactivity (advanceCollect_step hs) hd hgone
      | reconcile now phase =>
        rw [hactivity] at hs
        exact ReconcileStep.unlinks h hactivity (advanceReconcile_step hs) hd hgone
      | _ =>
        rw [hactivity] at hs
        cases hs
    | _ =>
      cases hs
      exact absurd hd hgone

end Removals

section Reconciliation

variable {sha256 : List UInt8 → ContentHash} {text : NameText} {w w' : World} {operation : ℕ}
  {move : Move}

/-- What a reconciliation has found out, while no other operation goes on. -/
def Swept (w : World) : Activity → Prop
  | .publication _ _ => False
  | .reconcile _ (.known known) => ∀ d ∈ known, d ∈ w.tables.eligibility
  | .reconcile _ (.reclaiming pending) => ∀ d ∈ w.files, d ∈ w.tables.eligibility ∨ d ∈ pending
  | .reconcile _ (.locked digest pending) =>
    ∀ d ∈ w.files, d ∈ w.tables.eligibility ∨ d = digest ∨ d ∈ pending
  | .reconcile _ (.unlinking digest pending) =>
    ∀ d ∈ w.files, d ∈ w.tables.eligibility ∨ d = digest ∨ d ∈ pending
  | .reconciled => ∀ d ∈ w.files, d ∈ w.tables.eligibility
  | _ => True

theorem mem_sortedKeys {keys : Finset ContentHash} {d : ContentHash} :
    d ∈ sortedKeys keys ↔ d ∈ keys := mem_ascending

theorem resume_swept {now : ℤ} {rest : Option Phase} (hrest : ∀ phase ∈ rest, Resumable phase) :
    Swept w (resume now rest) := by
  cases rest with
  | none => trivial
  | some phase =>
    cases phase with
    | custom pending => trivial
    | system pending => trivial
    | _ => exact absurd (hrest _ rfl) id

theorem CollectStep.swept {owner : Option ThemeOwner} {digest : ContentHash} {now : ℤ}
    {rest : Option Phase} {stage : CollectStage} (hrest : ∀ phase ∈ rest, Resumable phase)
    (hs : CollectStep w operation owner digest now rest stage move w') :
    Swept w' (w'.activities operation) := by
  cases hs with
  | acquire hs =>
    obtain ⟨locks, -, rfl⟩ := Option.map_eq_some_iff.mp hs
    dsimp only
    rw [setActivity_activity]
    trivial
  | @commit outcome =>
    unfold commitCollect
    cases collectContent w.tables owner digest now with
    | error e =>
      dsimp only
      rw [World.finish, unlock_activity]
      trivial
    | ok t =>
      cases outcome with
      | confirmed =>
        dsimp only
        rw [setActivity_activity]
        trivial
      | indeterminate applies =>
        dsimp only
        rw [unlock_activity]
        exact resume_swept hrest
      | failed =>
        dsimp only
        rw [World.finish, unlock_activity]
        trivial
  | keep hrow =>
    rw [unlock_activity]
    exact resume_swept hrest
  | free hrow =>
    rw [setActivity_activity]
    trivial
  | unlink =>
    dsimp only
    rw [unlock_activity]
    exact resume_swept hrest
  | abort =>
    rw [World.finish, unlock_activity]
    trivial

theorem advanceReconcile_swept {now : ℤ} {phase : Phase} (h : Swept w (.reconcile now phase))
    (hmove : move ≠ .unlink false)
    (hs : advanceReconcile sha256 w operation now phase move = some w') :
    Swept w' (w'.activities operation) := by
  unfold advanceReconcile at hs
  split at hs
  · cases hs
    rw [setActivity_activity]
    trivial
  · cases hs
    rw [setActivity_activity]
    trivial
  · cases hs
    rw [setActivity_activity]
    trivial
  · cases hs
    rw [setActivity_activity]
    trivial
  · cases hs
    rw [setActivity_activity]
    trivial
  · obtain rfl := Option.some.inj hs
    split_ifs
    · rw [setActivity_activity]
      trivial
    · rw [World.finish, unlock_activity]
      trivial
  · cases hs
    rw [setActivity_activity]
    intro d hd
    exact Finmap.mem_keys.mp (mem_sortedKeys.mp hd)
  · rename_i known
    cases hs
    rw [setActivity_activity]
    intro d hd
    by_cases hknown : d ∈ known
    · exact .inl (h d hknown)
    · refine .inr (List.mem_filter.mpr ⟨mem_sortedKeys.mpr (Finmap.mem_keys.mpr hd), ?_⟩)
      exact decide_eq_true hknown
  · obtain ⟨locks, -, rfl⟩ := Option.map_eq_some_iff.mp hs
    dsimp only
    rw [setActivity_activity]
    intro d hd
    exact (h d hd).imp id List.mem_cons.mp
  · cases hs
    rw [unlock_activity]
    intro d hd
    exact (h d hd).resolve_right List.not_mem_nil
  · obtain rfl := Option.some.inj hs
    split_ifs with hrow
    · rw [unlock_activity]
      intro d hd
      rcases h d hd with hd | rfl | hd
      · exact .inl hd
      · exact .inl hrow
      · exact .inr hd
    · rw [setActivity_activity]
      exact h
  · rename_i digest pending succeeds
    have hsucceeds : succeeds = true := by
      cases succeeds with
      | true => rfl
      | false => exact absurd rfl hmove
    subst hsucceeds
    cases hs
    dsimp only
    rw [unlock_activity]
    intro d hd
    dsimp only at hd ⊢
    rw [if_pos rfl, Finmap.mem_erase] at hd
    rcases h d hd.2 with hrow | heq | hpending
    · exact .inl hrow
    · exact absurd heq hd.1
    · exact .inr hpending
  · cases hs
    rw [World.finish, unlock_activity]
    trivial
  · cases hs

theorem step_swept (h : Sound sha256 w) (hswept : Swept w (w.activities operation))
    (hmove : move ≠ .unlink false) :
    Swept (step sha256 text w (.advance operation move))
      ((step sha256 text w (.advance operation move)).activities operation) := by
  unfold step
  cases hs : next sha256 text w (.advance operation move) with
  | none => exact hswept
  | some w' =>
    change Swept w' (w'.activities operation)
    have hrelies := (h.own operation).relies
    simp only [next, advance] at hs
    cases hactivity : w.activities operation with
    | publication p stage =>
      rw [hactivity] at hswept
      exact hswept.elim
    | collect owner digest now stage rest =>
      rw [hactivity] at hs hrelies
      exact CollectStep.swept hrelies.2 (advanceCollect_step hs)
    | reconcile now phase =>
      rw [hactivity] at hs hswept
      exact advanceReconcile_swept hswept hmove hs
    | _ =>
      rw [hactivity] at hs
      cases hs

theorem run_swept {moves : List Move} (h : Sound sha256 w) (hswept : Swept w (w.activities operation))
    (hmoves : ∀ move ∈ moves, move ≠ .unlink false) :
    Swept (run (step sha256 text) w (moves.map (Event.advance operation)))
      ((run (step sha256 text) w (moves.map (Event.advance operation))).activities operation) := by
  induction moves generalizing w with
  | nil => exact hswept
  | cons move moves ih =>
    rw [List.map_cons, run_cons]
    exact ih (step_sound h) (step_swept h hswept (hmoves move List.mem_cons_self))
      (fun m hm ↦ hmoves m (List.mem_cons_of_mem _ hm))

/-- No operation in flight, and every row has its complete file. -/
structure AtRest (sha256 : List UInt8 → ContentHash) (w : World) : Prop where
  intact : ∀ d ∈ w.tables.eligibility, d ∈ w.files
  complete : ∀ d bytes, w.files.lookup d = some bytes → sha256 bytes.toList = d
  idle : ∀ operation, w.activities operation = .idle

theorem AtRest.sound (h : AtRest sha256 w) : Sound sha256 w where
  intact := h.intact
  complete := h.complete
  fresh operation _ := h.idle operation
  own := by
    intro operation
    constructor
    · rw [h.idle operation]
      exact fun d hd ↦ absurd hd List.not_mem_nil
    · rw [h.idle operation]
      trivial

variable (sha256 text) in
/-- From a world at rest, under every interleaving, every row has its complete file; a file goes only
while its digest has no row; and when a reconciliation completes with no failed unlink and with no
other operation on its way, every file has a row. -/
theorem theme_content_safe (h : AtRest sha256 w) (events : List Event) :
    (∀ d ∈ (run (step sha256 text) w events).tables.eligibility,
      ∃ bytes, (run (step sha256 text) w events).files.lookup d = some bytes ∧
        sha256 bytes.toList = d) ∧
    (∀ event d, d ∈ (run (step sha256 text) w events).files →
      d ∉ (step sha256 text (run (step sha256 text) w events) event).files →
      d ∉ (run (step sha256 text) w events).tables.eligibility ∧
        d ∉ (step sha256 text (run (step sha256 text) w events) event).tables.eligibility) ∧
    ∀ operation now (moves : List Move),
      (run (step sha256 text) w events).activities operation = .reconcile now .requested →
      (∀ move ∈ moves, move ≠ .unlink false) →
      (run (step sha256 text) w (events ++ moves.map (.advance operation))).activities operation =
        .reconciled →
      ∀ d ∈ (run (step sha256 text) w (events ++ moves.map (.advance operation))).files,
        d ∈ (run (step sha256 text) w (events ++ moves.map (.advance operation))).tables.eligibility := by
  have hsound : Sound sha256 (run (step sha256 text) w events) := run_sound h.sound
  refine ⟨fun d hd ↦ ?_, fun event d hd hgone ↦ step_unlinks hsound hd hgone,
    fun operation now moves hactivity hmoves hdone ↦ ?_⟩
  · obtain ⟨bytes, hbytes⟩ := Finmap.mem_iff.mp (hsound.intact d hd)
    exact ⟨bytes, hbytes, hsound.complete d bytes hbytes⟩
  · rw [run_append] at hdone ⊢
    have hswept := @run_swept sha256 text _ operation moves hsound (by rw [hactivity]; trivial) hmoves
    rw [hdone] at hswept
    exact hswept

def emptyWorld : World where
  tables := .empty
  files := ∅
  contentLocks := fun _ ↦ none
  inventoryLock := none
  activities := fun _ ↦ .idle
  started := 0

theorem emptyWorld_atRest : AtRest sha256 emptyWorld :=
  ⟨fun _ hd ↦ absurd hd Finmap.notMem_empty, nofun, fun _ ↦ rfl⟩

/-- A release is installed, the next one loses its commit and leaves a file behind, and a
reconciliation begins. -/
def lostRelease : List Event :=
  [.publish (.release (SystemReleases.releaseOf "a\x7b\x7d") 100), .advance 0 .plan, .advance 0 .plan,
    .advance 0 .acquire, .advance 0 .acquire, .advance 0 .acquire, .advance 0 .plan,
    .advance 0 (.install .placed), .advance 0 (.install .placed), .advance 0 (.install .placed),
    .advance 0 (.commit .confirmed),
    .publish (.release (SystemReleases.releaseOf "b\x7b\x7d") 1100), .advance 1 .plan, .advance 1 .plan,
    .advance 1 .acquire, .advance 1 .acquire, .advance 1 .acquire, .advance 1 .acquire,
    .advance 1 .plan, .advance 1 (.install .placed), .advance 1 (.install .placed),
    .advance 1 (.install .placed), .advance 1 (.commit (.indeterminate false)), .reconcile 2000]

def reclaimOne : List Move :=
  [.plan, .plan, .plan, .plan, .plan, .plan, .plan, .plan, .acquire, .check true, .unlink true, .plan]

def isRequested : Activity → Bool
  | .reconcile now .requested => now = 2000
  | _ => false

def isReconciled : Activity → Bool
  | .reconciled => true
  | _ => false

theorem eq_of_isRequested {a : Activity} (h : isRequested a = true) : a = .reconcile 2000 .requested := by
  unfold isRequested at h
  split at h
  · rw [of_decide_eq_true h]
  · cases h

theorem eq_of_isReconciled {a : Activity} (h : isReconciled a = true) : a = .reconciled := by
  unfold isReconciled at h
  split at h
  · rfl
  · cases h

theorem lost_release_reclaimed :
    (run (step SystemReleases.releaseSha256 ThemeAccounting.asciiNames) emptyWorld
      lostRelease).files.keys.card = 4 ∧
    ∀ d ∈ (run (step SystemReleases.releaseSha256 ThemeAccounting.asciiNames) emptyWorld
      (lostRelease ++ reclaimOne.map (.advance 2))).files,
      d ∈ (run (step SystemReleases.releaseSha256 ThemeAccounting.asciiNames) emptyWorld
        (lostRelease ++ reclaimOne.map (.advance 2))).tables.eligibility := by
  have hruns : (isRequested ((run (step SystemReleases.releaseSha256 ThemeAccounting.asciiNames)
      emptyWorld lostRelease).activities 2) = true ∧
    (run (step SystemReleases.releaseSha256 ThemeAccounting.asciiNames) emptyWorld
      lostRelease).files.keys.card = 4) ∧
    isReconciled ((run (step SystemReleases.releaseSha256 ThemeAccounting.asciiNames) emptyWorld
      (lostRelease ++ reclaimOne.map (.advance 2))).activities 2) = true := by
    decide +kernel
  have hsafe := (theme_content_safe SystemReleases.releaseSha256 ThemeAccounting.asciiNames
    emptyWorld_atRest lostRelease).2.2
  have hmoves : ∀ move ∈ reclaimOne, move ≠ .unlink false := by decide
  have hstart := eq_of_isRequested hruns.1.1
  have hdone := eq_of_isReconciled hruns.2
  refine ⟨hruns.1.2, ?_⟩
  clear hruns
  -- with the moves a variable, the elaborator cannot start to evaluate the run
  generalize reclaimOne = moves at hmoves hdone ⊢
  exact hsafe 2 2000 moves hstart hmoves hdone

end Reconciliation

end Jaunder.Storage.ThemeContentSafety
