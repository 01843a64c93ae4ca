import Jaunder.Foundation.Run
import Jaunder.Storage.ThemeContentDiscipline

namespace Jaunder.Storage.ThemeContentSteps

open Foundation.Ledger Foundation.Locks Foundation.Outcome Foundation.Run
open Jaunder.Common.Hash Jaunder.Common.Owned
open Jaunder.Host.ThemePackage
open Jaunder.Storage.SystemThemes Jaunder.Storage.ThemeAssetManager
open Jaunder.Storage.ThemeContentDiscipline Jaunder.Storage.ThemeContentRuns
open Jaunder.Storage.ThemePublication Jaunder.Storage.ThemeReferences Jaunder.Storage.Themes
open Jaunder.Storage.WriteScope

section Steps

variable (sha256 : List UInt8 → ContentHash) (text : NameText) (w : World) (operation : ℕ)

/-- The steps of a publication. -/
inductive PublicationStep (p : Publication) : PublicationStage → Move → World → Prop
  | planned {w' : World} (h : planPublication sha256 w operation p = some w') :
      PublicationStep p .requested .plan w'
  | ordered : PublicationStep p .serialized .plan (w.setActivity operation (.publication p (.locking []
      (lockOrder (p.digests sha256 ++ sortedKeys (liveSystemReferences w.tables))))))
  | acquire {held pending : List ContentHash} {digest : ContentHash} {w' : World}
      (h : w.acquire operation (.publication p (.locking (digest :: held) pending)) digest = some w') :
      PublicationStep p (.locking held (digest :: pending)) .acquire w'
  | ready {held : List ContentHash} : PublicationStep p (.locking held []) .plan
      (w.setActivity operation (.publication p (.installing held (p.blobs sha256) [])))
  | install {held installed : List ContentHash} {blob : Blob} {pending : List Blob}
      {placement : Placement} :
      PublicationStep p (.installing held (blob :: pending) installed) (.install placement)
        (installBlob sha256 w operation p held blob pending installed placement)
  | commit {held installed : List ContentHash} {commit : Commit} :
      PublicationStep p (.installing held [] installed) (.commit commit)
        (commitPublication sha256 text w operation p held installed commit)
  | check {held pending : List ContentHash} {digest : ContentHash} {answers : Bool} :
      PublicationStep p (.cleaning held (digest :: pending)) (.check answers)
        (cleanUp w operation p held digest pending answers)
  | unlink {held pending : List ContentHash} {digest : ContentHash} {succeeds : Bool} :
      PublicationStep p (.unlinking held digest pending) (.unlink succeeds)
        { w.setActivity operation (.publication p (.cleaning held pending)) with
          files := if succeeds then w.files.erase digest else w.files }
  | finish {stage : PublicationStage} {move : Move} :
      PublicationStep p stage move (w.finish operation)

/-- The steps of a collection. -/
inductive CollectStep (owner : Option ThemeOwner) (digest : ContentHash) (now : ℤ)
    (rest : Option Phase) : CollectStage → Move → World → Prop
  | acquire {w' : World}
      (h : w.acquire operation (.collect owner digest now .locked rest) digest = some w') :
      CollectStep owner digest now rest .requested .acquire w'
  | commit {commit : Commit} : CollectStep owner digest now rest .locked (.commit commit)
      (commitCollect w operation owner digest now rest commit)
  | keep (hrow : digest ∈ w.tables.eligibility) :
      CollectStep owner digest now rest .detached (.check true)
        (w.unlock operation (resume now rest))
  | free (hrow : digest ∉ w.tables.eligibility) :
      CollectStep owner digest now rest .detached (.check true)
        (w.setActivity operation (.collect owner digest now .unlinking rest))
  | unlink {succeeds : Bool} : CollectStep owner digest now rest .unlinking (.unlink succeeds)
      { w.unlock operation (resume now rest) with
        files := if succeeds then w.files.erase digest else w.files }
  | abort {stage : CollectStage} : CollectStep owner digest now rest stage .abort (w.finish operation)

/-- The steps of a reconciliation; `plan` only reads. -/
inductive ReconcileStep (now : ℤ) : Phase → Move → World → Prop
  | plan {phase phase' : Phase} (hheld : held (.reconcile now phase) = [])
      (hheld' : held (.reconcile now phase') = [])
      (hrelies : ∀ file row, Relies sha256 file row (.reconcile now phase')) :
      ReconcileStep now phase .plan (w.setActivity operation (.reconcile now phase'))
  | collect {phase phase' : Phase} {owner : Option ThemeOwner} {digest : ContentHash}
      (hresumable : Resumable phase') :
      ReconcileStep now phase .plan
        (w.setActivity operation (.collect owner digest now .requested (some phase')))
  | acquire {digest : ContentHash} {pending : List ContentHash} {w' : World}
      (h : w.acquire operation (.reconcile now (.locked digest pending)) digest = some w') :
      ReconcileStep now (.reclaiming (digest :: pending)) .acquire w'
  | keep {digest : ContentHash} {pending : List ContentHash} (hrow : digest ∈ w.tables.eligibility) :
      ReconcileStep now (.locked digest pending) (.check true)
        (w.unlock operation (.reconcile now (.reclaiming pending)))
  | free {digest : ContentHash} {pending : List ContentHash} (hrow : digest ∉ w.tables.eligibility) :
      ReconcileStep now (.locked digest pending) (.check true)
        (w.setActivity operation (.reconcile now (.unlinking digest pending)))
  | unlink {digest : ContentHash} {pending : List ContentHash} {succeeds : Bool} :
      ReconcileStep now (.unlinking digest pending) (.unlink succeeds)
        { w.unlock operation (.reconcile now (.reclaiming pending)) with
          files := if succeeds then w.files.erase digest else w.files }
  | done : ReconcileStep now (.reclaiming []) .plan (w.unlock operation .reconciled)
  | finish {phase : Phase} {move : Move} : ReconcileStep now phase move (w.finish operation)

variable {sha256 text w operation} {move : Move} {w' : World}

theorem advancePublication_step {p : Publication} {stage : PublicationStage}
    (hs : advancePublication sha256 text w operation p stage move = some w') :
    PublicationStep sha256 text w operation p stage move w' := by
  unfold advancePublication at hs
  split at hs
  · exact .planned hs
  · cases hs
    exact .ordered
  · exact .acquire hs
  · cases hs
    exact .ready
  · cases hs
    exact .install
  · cases hs
    exact .commit
  · cases hs
    exact .check
  · cases hs
    exact .finish
  · cases hs
    exact .unlink
  · cases hs
    exact .finish
  · cases hs

theorem advanceCollect_step {owner : Option ThemeOwner} {digest : ContentHash} {now : ℤ}
    {rest : Option Phase} {stage : CollectStage}
    (hs : advanceCollect w operation owner digest now rest stage move = some w') :
    CollectStep w operation owner digest now rest stage move w' := by
  unfold advanceCollect at hs
  split at hs
  · exact .acquire hs
  · cases hs
    exact .commit
  · obtain rfl := Option.some.inj hs
    split_ifs with hrow
    · exact .keep hrow
    · exact .free hrow
  · cases hs
    exact .unlink
  · cases hs
    exact .abort
  · cases hs

theorem advanceReconcile_step {now : ℤ} {phase : Phase}
    (hs : advanceReconcile sha256 w operation now phase move = some w') :
    ReconcileStep sha256 w operation now phase move w' := by
  unfold advanceReconcile at hs
  split at hs
  · cases hs
    exact .plan rfl rfl (fun _ _ ↦ trivial)
  · cases hs
    exact .collect trivial
  · cases hs
    exact .plan rfl rfl (fun _ _ ↦ trivial)
  · cases hs
    exact .collect trivial
  · cases hs
    exact .plan rfl rfl (fun _ _ ↦ trivial)
  · obtain rfl := Option.some.inj hs
    split_ifs
    · exact .plan rfl rfl (fun _ _ ↦ trivial)
    · exact .finish
  · cases hs
    exact .plan rfl rfl (fun _ _ ↦ trivial)
  · cases hs
    exact .plan rfl rfl (fun _ _ ↦ trivial)
  · exact .acquire hs
  · cases hs
    exact .done
  · obtain rfl := Option.some.inj hs
    split_ifs with hrow
    · exact .keep hrow
    · exact .free hrow
  · cases hs
    exact .unlink
  · cases hs
    exact .finish
  · cases hs

end Steps

section Preservation

variable {sha256 : List UInt8 → ContentHash} {text : NameText} {w w' : World} {operation : ℕ}
  {a : Activity} {d digest : ContentHash} {p : Publication} {move : Move} {event : Event}

theorem mem_lockOrder {digests : List ContentHash} : d ∈ lockOrder digests ↔ d ∈ digests := by
  unfold lockOrder
  rw [List.mem_insertionSort, List.mem_dedup]

/-- An activity that takes its first step. -/
theorem free_sound (h : Sound sha256 w) (hop : operation < w.started) (hheld : held a = [])
    (hrelies : Relies sha256 (· ∈ w.files) (· ∈ w.tables.eligibility) a) :
    Sound sha256 (w.setActivity operation a) := by
  refine setActivity_sound h hop (fun d hd ↦ ?_) hrelies
  rw [hheld] at hd
  cases hd

theorem planPublication_sound (h : Sound sha256 w) (hop : operation < w.started)
    (hs : planPublication sha256 w operation p = some w') : Sound sha256 w' := by
  unfold planPublication at hs
  cases p with
  | release inventory now =>
    dsimp only at hs
    split_ifs at hs
    · obtain rfl := Option.some.inj hs
      exact finish_sound h hop
    · obtain rfl := Option.some.inj hs
      have hset : Sound sha256 (w.setActivity operation (.publication (.release inventory now) .serialized)) :=
        free_sound h hop rfl trivial
      exact ⟨hset.intact, hset.complete, hset.fresh, fun o ↦ ⟨(hset.own o).locks, (hset.own o).relies⟩⟩
  | revision owner limits themeId compiled now =>
    obtain rfl := Option.some.inj hs
    exact free_sound h hop rfl (fun d hd ↦ .inr (mem_lockOrder.mpr hd))
  | editor owner limits change compiled now =>
    obtain rfl := Option.some.inj hs
    exact free_sound h hop rfl (fun d hd ↦ .inr (mem_lockOrder.mpr hd))

/-- A publication that holds its locks goes on without a change. -/
theorem continue_sound {held' : List ContentHash} {stage : PublicationStage} (h : Sound sha256 w)
    (hop : operation < w.started) (hlocks : ∀ d ∈ held', w.contentLocks d = some operation)
    (hheld : held (.publication p stage) = held')
    (hrelies : Relies sha256 (· ∈ w.files) (· ∈ w.tables.eligibility) (.publication p stage)) :
    Sound sha256 (w.setActivity operation (.publication p stage)) := by
  refine setActivity_sound h hop ?_ hrelies
  rw [hheld]
  exact hlocks

/-- A complete blob comes to its path, under its lock. -/
theorem place_sound {bytes : Vec UInt8} (h : Sound sha256 w) (hop : operation < w.started)
    (hlock : w.contentLocks digest = some operation) (hbytes : sha256 bytes.toList = digest)
    (hheld : ∀ d ∈ held a, w.contentLocks d = some operation)
    (hrelies : Relies sha256 (· ∈ w.files.insert digest bytes) (· ∈ w.tables.eligibility) a) :
    Sound sha256 { w.setActivity operation a with files := w.files.insert digest bytes } := by
  have hactivity : (w.setActivity operation a).activities operation = a := Function.update_self _ _ _
  refine h.turn hop (turn_setActivity.setFiles (fun d ↦ ?_)) ⟨?_, ?_⟩ (fun d hd ↦ ?_)
    (fun d bytes' hlookup ↦ ?_)
  · rw [lookup_insert_eq]
    split_ifs with hd
    · rw [hd]
      exact .inr hlock
    · exact .inl rfl
  · dsimp only
    rw [hactivity]
    exact hheld
  · dsimp only
    rw [hactivity]
    exact hrelies
  · exact Finmap.mem_insert.mpr (.inr (h.intact d hd))
  · dsimp only at hlookup
    rw [lookup_insert_eq] at hlookup
    split_ifs at hlookup with hd
    · rw [hd, ← Option.some.inj hlookup]
      exact hbytes
    · exact h.complete d bytes' hlookup

/-- A file goes under its lock, where its digest has no row. -/
theorem unlink_sound {w₁ : World} {succeeds : Bool} (h : Sound sha256 w) (hop : operation < w₁.started)
    (turn : Turn operation w w₁) (hfiles : w₁.files = w.files) (htables : w₁.tables = w.tables)
    (hlock : w.contentLocks digest = some operation) (hrow : digest ∉ w.tables.eligibility)
    (hlocks : ∀ d ∈ held (w₁.activities operation), w₁.contentLocks d = some operation)
    (hrelies : ∀ file, Relies sha256 file (· ∈ w₁.tables.eligibility) (w₁.activities operation)) :
    Sound sha256 { w₁ with files := if succeeds then w₁.files.erase digest else w₁.files } := by
  refine h.turn hop (turn.setFiles (fun d ↦ ?_)) ⟨hlocks, hrelies _⟩ (fun d hd ↦ ?_)
    (fun d bytes hlookup ↦ ?_)
  · rw [hfiles]
    split_ifs
    · rw [lookup_erase_eq]
      split_ifs with hd
      · rw [hd]
        exact .inr hlock
      · exact .inl rfl
    · exact .inl rfl
  · dsimp only at hd ⊢
    rw [htables] at hd
    rw [hfiles]
    split_ifs
    · rw [Finmap.mem_erase]
      refine ⟨?_, h.intact d hd⟩
      rintro rfl
      exact hrow hd
    · exact h.intact d hd
  · dsimp only at hlookup
    rw [hfiles] at hlookup
    split_ifs at hlookup
    · rw [lookup_erase_eq] at hlookup
      split_ifs at hlookup
      exact h.complete d bytes hlookup
    · exact h.complete d bytes hlookup

/-- A transaction gives rows to files that are there, under their locks. -/
theorem commit_sound {w₁ : World} {t : ThemeTables} (h : Sound sha256 w) (hop : operation < w₁.started)
    (turn : Turn operation w w₁) (hfiles : w₁.files = w.files)
    (hrows : ∀ d ∈ t.eligibility, d ∈ w.tables.eligibility ∨
      (w.contentLocks d = some operation ∧ d ∈ w.files))
    (hlocks : ∀ d ∈ held (w₁.activities operation), w₁.contentLocks d = some operation)
    (hrelies : Relies sha256 (· ∈ w.files) (· ∈ t.eligibility) (w₁.activities operation)) :
    Sound sha256 { w₁ with tables := t } := by
  refine h.turn hop (turn.setTables (fun d hd ↦ (hrows d hd).imp id And.left)) ⟨hlocks, ?_⟩
    (fun d hd ↦ ?_) (fun d bytes hlookup ↦ ?_)
  · dsimp only
    rw [hfiles]
    exact hrelies
  · dsimp only at hd ⊢
    rw [hfiles]
    rcases hrows d hd with hd | ⟨-, hd⟩
    · exact h.intact d hd
    · exact hd
  · dsimp only at hlookup
    rw [hfiles] at hlookup
    exact h.complete d bytes hlookup

theorem setActivity_activity : (w.setActivity operation a).activities operation = a :=
  Function.update_self _ _ _

theorem unlock_activity : (w.unlock operation a).activities operation = a := Function.update_self _ _ _

theorem installBlob_sound {held' installed : List ContentHash} {blob : Blob} {pending : List Blob}
    {placement : Placement} (h : Sound sha256 w)
    (hactivity : w.activities operation = .publication p (.installing held' (blob :: pending) installed)) :
    Sound sha256 (installBlob sha256 w operation p held' blob pending installed placement) := by
  have hop := h.lt_started (by rw [hactivity]; simp)
  obtain ⟨hlocks, hrelies⟩ := h.own operation
  rw [hactivity] at hlocks hrelies
  obtain ⟨hblobs, hpending, hinstalled⟩ := hrelies
  have hblob := hpending blob List.mem_cons_self
  have hheld := (hblobs blob hblob).1
  have hbytes : sha256 blob.bytes.toList = blob.digest := by
    obtain ⟨content, -, rfl⟩ := mem_contentBlobs hblob
    rfl
  have hcleaning : Sound sha256 (w.setActivity operation (.publication p (.cleaning held' installed))) :=
    continue_sound h hop hlocks rfl hinstalled
  unfold installBlob
  cases hfile : w.files.lookup blob.digest with
  | some bytes =>
    cases placement with
    | placed =>
      dsimp only
      split_ifs with hverified
      · refine continue_sound h hop hlocks rfl ⟨fun b hb ↦ ?_, fun b hb ↦ ?_, hinstalled⟩
        · obtain ⟨hheldb, hplaced⟩ := hblobs b hb
          refine ⟨hheldb, ?_⟩
          rcases hplaced with hmem | hplaced
          · rcases List.mem_cons.mp hmem with rfl | hmem
            · exact .inr (Finmap.mem_of_lookup_eq_some hfile)
            · exact .inl hmem
          · exact .inr hplaced
        · exact hpending b (List.mem_cons_of_mem _ hb)
      · exact hcleaning
    | failed renamed => exact hcleaning
  | none =>
    cases placement with
    | placed =>
      refine place_sound h hop (hlocks _ hheld) hbytes hlocks ⟨fun b hb ↦ ?_, fun b hb ↦ ?_, fun d hd ↦ ?_⟩
      · obtain ⟨hheldb, hplaced⟩ := hblobs b hb
        refine ⟨hheldb, ?_⟩
        rcases hplaced with hmem | hplaced
        · rcases List.mem_cons.mp hmem with rfl | hmem
          · exact .inr (Finmap.mem_insert.mpr (.inl rfl))
          · exact .inl hmem
        · exact .inr (Finmap.mem_insert.mpr (.inr hplaced))
      · exact hpending b (List.mem_cons_of_mem _ hb)
      · rcases List.mem_append.mp hd with hd | hd
        · exact hinstalled d hd
        · rw [List.mem_singleton.mp hd]
          exact hheld
    | failed renamed =>
      cases renamed with
      | true => exact place_sound h hop (hlocks _ hheld) hbytes hlocks hinstalled
      | false => exact hcleaning

theorem commitPublication_sound {held' installed : List ContentHash} {commit : Commit}
    (h : Sound sha256 w)
    (hactivity : w.activities operation = .publication p (.installing held' [] installed)) :
    Sound sha256 (commitPublication sha256 text w operation p held' installed commit) := by
  have hop := h.lt_started (by rw [hactivity]; simp)
  obtain ⟨hlocks, hrelies⟩ := h.own operation
  rw [hactivity] at hlocks hrelies
  obtain ⟨hblobs, -, hinstalled⟩ := hrelies
  have hcleaning : Sound sha256 (w.setActivity operation (.publication p (.cleaning held' installed))) :=
    continue_sound h hop hlocks rfl hinstalled
  have hfinished : ∀ d ∈ held ((w.finish operation).activities operation),
      (w.finish operation).contentLocks d = some operation := by
    rw [World.finish, unlock_activity]
    exact fun d hd ↦ absurd hd List.not_mem_nil
  unfold commitPublication
  cases hadmitted : p.transact sha256 text w.tables with
  | error e => exact hcleaning
  | ok result =>
    obtain ⟨t, applied⟩ := result
    have hrows : ∀ d ∈ t.eligibility, d ∈ w.tables.eligibility ∨
        (w.contentLocks d = some operation ∧ d ∈ w.files) := by
      intro d hd
      rcases transact_rows hadmitted d hd with hd | hd
      · exact .inl hd
      · obtain ⟨blob, hblob, rfl⟩ := List.mem_map.mp hd
        obtain ⟨hheld, hplaced⟩ := hblobs blob hblob
        exact .inr ⟨hlocks _ hheld, hplaced.resolve_left List.not_mem_nil⟩
    have happlied : Sound sha256 { w.finish operation with tables := t } := by
      refine commit_sound h hop turn_unlock rfl hrows hfinished ?_
      rw [World.finish, unlock_activity]
      trivial
    cases commit with
    | failed => exact hcleaning
    | confirmed =>
      dsimp only
      split_ifs
      · exact happlied
      · refine commit_sound h hop turn_setActivity rfl hrows ?_ ?_
        · rw [setActivity_activity]
          exact hlocks
        · rw [setActivity_activity]
          exact hinstalled
    | indeterminate applies =>
      cases applies with
      | true => exact happlied
      | false => exact finish_sound h hop

theorem PublicationStep.sound {stage : PublicationStage} (h : Sound sha256 w)
    (hactivity : w.activities operation = .publication p stage)
    (hs : PublicationStep sha256 text w operation p stage move w') : Sound sha256 w' := by
  have hop := h.lt_started (by rw [hactivity]; simp)
  obtain ⟨hlocks, hrelies⟩ := h.own operation
  rw [hactivity] at hlocks hrelies
  cases hs with
  | planned hs => exact planPublication_sound h hop hs
  | ordered =>
    exact free_sound h hop rfl (fun d hd ↦ .inr (mem_lockOrder.mpr (List.mem_append_left _ hd)))
  | acquire hs =>
    refine acquire_sound h hop hs (fun d hd ↦ ?_) (fun d hd ↦ ?_)
    · rcases List.mem_cons.mp hd with hd | hd
      · exact .inl hd
      · exact .inr (hlocks d hd)
    · rcases hrelies d hd with hd | hd
      · exact .inl (List.mem_cons_of_mem _ hd)
      · rcases List.mem_cons.mp hd with rfl | hd
        · exact .inl List.mem_cons_self
        · exact .inr hd
  | ready =>
    refine continue_sound h hop hlocks rfl ⟨fun blob hblob ↦ ⟨?_, .inl hblob⟩, fun _ hblob ↦ hblob,
      fun d hd ↦ absurd hd List.not_mem_nil⟩
    exact (hrelies blob.digest (List.mem_map_of_mem hblob)).resolve_right List.not_mem_nil
  | install => exact installBlob_sound h hactivity
  | commit => exact commitPublication_sound h hactivity
  | @check held' pending digest answers =>
    have hpending : ∀ d ∈ pending, d ∈ held' := fun d hd ↦ hrelies d (List.mem_cons_of_mem _ hd)
    unfold cleanUp
    split_ifs with hfree
    · exact continue_sound h hop hlocks rfl ⟨hrelies digest List.mem_cons_self, hfree.2, hpending⟩
    · exact continue_sound h hop hlocks rfl hpending
  | unlink =>
    obtain ⟨hheld, hrow, hpending⟩ := hrelies
    refine unlink_sound h hop turn_setActivity rfl rfl (hlocks _ hheld) hrow ?_ (fun file ↦ ?_)
    · rw [setActivity_activity]
      exact hlocks
    · rw [setActivity_activity]
      exact hpending
  | finish => exact finish_sound h hop

theorem resume_released {now : ℤ} {rest : Option Phase} (hrest : ∀ phase ∈ rest, Resumable phase) :
    held (resume now rest) = [] ∧ ∀ file row, Relies sha256 file row (resume now rest) := by
  cases rest with
  | none => exact ⟨rfl, fun _ _ ↦ trivial⟩
  | some phase =>
    cases phase with
    | custom pending => exact ⟨rfl, fun _ _ ↦ trivial⟩
    | system pending => exact ⟨rfl, fun _ _ ↦ trivial⟩
    | _ => exact absurd (hrest _ rfl) id

theorem commitCollect_sound {owner : Option ThemeOwner} {now : ℤ} {rest : Option Phase}
    {commit : Commit} (h : Sound sha256 w)
    (hactivity : w.activities operation = .collect owner digest now .locked rest) :
    Sound sha256 (commitCollect w operation owner digest now rest commit) := by
  have hop := h.lt_started (by rw [hactivity]; simp)
  obtain ⟨hlocks, hrelies⟩ := h.own operation
  rw [hactivity] at hlocks hrelies
  obtain ⟨hheld, hreleased⟩ := @resume_released sha256 now rest hrelies.2
  unfold commitCollect
  cases hresult : collectContent w.tables owner digest now with
  | error e => exact finish_sound h hop
  | ok t =>
    have hsubset : ∀ d ∈ t.eligibility, d ∈ w.tables.eligibility := by
      cases owner with
      | none => exact collectSystemContent_rows hresult
      | some owner => exact collectRetainedContent_rows hresult
    cases commit with
    | failed => exact finish_sound h hop
    | confirmed =>
      refine commit_sound h hop turn_setActivity rfl (fun d hd ↦ .inl (hsubset d hd)) ?_ ?_
      · rw [setActivity_activity]
        exact hlocks
      · rw [setActivity_activity]
        exact ⟨nofun, hrelies.2⟩
    | indeterminate applies =>
      cases applies with
      | true =>
        refine commit_sound h hop turn_unlock rfl (fun d hd ↦ .inl (hsubset d hd)) ?_ ?_
        · rw [unlock_activity, hheld]
          exact fun d hd ↦ absurd hd List.not_mem_nil
        · rw [unlock_activity]
          exact hreleased _ _
      | false => exact unlock_sound h hop hheld hreleased

theorem CollectStep.sound {owner : Option ThemeOwner} {now : ℤ} {rest : Option Phase}
    {stage : CollectStage} (h : Sound sha256 w)
    (hactivity : w.activities operation = .collect owner digest now stage rest)
    (hs : CollectStep w operation owner digest now rest stage move w') : Sound sha256 w' := by
  have hop := h.lt_started (by rw [hactivity]; simp)
  obtain ⟨hlocks, hrelies⟩ := h.own operation
  rw [hactivity] at hlocks hrelies
  obtain ⟨hheld, hreleased⟩ := @resume_released sha256 now rest hrelies.2
  cases hs with
  | acquire hs =>
    exact acquire_sound h hop hs (fun d hd ↦ .inl (List.mem_singleton.mp hd)) ⟨nofun, hrelies.2⟩
  | commit => exact commitCollect_sound h hactivity
  | keep hrow => exact unlock_sound h hop hheld hreleased
  | free hrow => exact setActivity_sound h hop hlocks ⟨fun _ ↦ hrow, hrelies.2⟩
  | unlink =>
    refine unlink_sound h hop turn_unlock rfl rfl (hlocks digest List.mem_cons_self) (hrelies.1 rfl) ?_
      (fun file ↦ ?_)
    · rw [unlock_activity, hheld]
      exact fun d hd ↦ absurd hd List.not_mem_nil
    · rw [unlock_activity]
      exact hreleased _ _
  | abort => exact finish_sound h hop

theorem ReconcileStep.sound {now : ℤ} {phase : Phase} (h : Sound sha256 w)
    (hactivity : w.activities operation = .reconcile now phase)
    (hs : ReconcileStep sha256 w operation now phase move w') : Sound sha256 w' := by
  have hop := h.lt_started (by rw [hactivity]; simp)
  obtain ⟨hlocks, hrelies⟩ := h.own operation
  rw [hactivity] at hlocks hrelies
  cases hs with
  | plan hheld hheld' hreleased => exact free_sound h hop hheld' (hreleased _ _)
  | collect hresumable =>
    refine free_sound h hop rfl ⟨nofun, fun phase hphase ↦ ?_⟩
    rw [← Option.some.inj hphase]
    exact hresumable
  | acquire hs => exact acquire_sound h hop hs (fun d hd ↦ .inl (List.mem_singleton.mp hd)) trivial
  | keep hrow => exact unlock_sound h hop rfl (fun _ _ ↦ trivial)
  | free hrow => exact setActivity_sound h hop hlocks hrow
  | @unlink digest pending succeeds =>
    refine unlink_sound h hop turn_unlock rfl rfl (hlocks digest List.mem_cons_self) hrelies ?_
      (fun file ↦ ?_)
    · rw [unlock_activity]
      exact fun d hd ↦ absurd hd List.not_mem_nil
    · rw [unlock_activity]
      trivial
  | done => exact unlock_sound h hop rfl (fun _ _ ↦ trivial)
  | finish => exact finish_sound h hop

theorem advance_sound (h : Sound sha256 w) (hs : advance sha256 text w operation move = some w') :
    Sound sha256 w' := by
  unfold advance at hs
  cases hactivity : w.activities operation with
  | publication p stage =>
    rw [hactivity] at hs
    exact PublicationStep.sound h hactivity (advancePublication_step hs)
  | collect owner digest now stage rest =>
    rw [hactivity] at hs
    exact CollectStep.sound h hactivity (advanceCollect_step hs)
  | reconcile now phase =>
    rw [hactivity] at hs
    exact ReconcileStep.sound h hactivity (advanceReconcile_step hs)
  | _ =>
    rw [hactivity] at hs
    cases hs

theorem start_sound (h : Sound sha256 w) (hheld : held a = [])
    (hrelies : ∀ file row, Relies sha256 file row a) : Sound sha256 (w.start a) := by
  have turn : Turn w.started w (w.start a) :=
    { started := Nat.le_succ _
      others := fun o hne ↦ Function.update_of_ne hne _ _
      locks := fun _ _ _ hheld ↦ hheld
      files := fun _ ↦ .inl rfl
      rows := fun _ hd ↦ .inl hd }
  have hactivity : (w.start a).activities w.started = a := Function.update_self _ _ _
  refine h.turn (Nat.lt_succ_self _) turn ⟨?_, ?_⟩ h.intact h.complete
  · rw [hactivity, hheld]
    exact fun d hd ↦ absurd hd List.not_mem_nil
  · rw [hactivity]
    exact hrelies _ _

theorem mutate_sound {mutation : ThemeAccounting.Operation} {commit : Commit} (h : Sound sha256 w)
    (hs : mutate sha256 text w mutation commit = some w') : Sound sha256 w' := by
  obtain ⟨hw, hrows⟩ := mutate_rows hs
  rw [hw]
  have turn : ∀ o, Turn o w { w with tables := w'.tables } :=
    fun o ↦
      { started := le_rfl
        others := fun _ _ ↦ rfl
        locks := fun _ _ _ hheld ↦ hheld
        files := fun _ ↦ .inl rfl
        rows := fun d hd ↦ .inl (hrows d hd) }
  exact ⟨fun d hd ↦ h.intact d (hrows d hd), h.complete, h.fresh,
    fun o ↦ (h.own o).kept (Nat.succ_ne_self o).symm (turn (o + 1))⟩

theorem next_sound (h : Sound sha256 w) (hs : next sha256 text w event = some w') :
    Sound sha256 w' := by
  cases event with
  | publish p =>
    cases hs
    exact start_sound h rfl (fun _ _ ↦ trivial)
  | collect owner digest now =>
    cases hs
    exact start_sound h rfl (fun _ _ ↦ ⟨nofun, nofun⟩)
  | reconcile now =>
    cases hs
    exact start_sound h rfl (fun _ _ ↦ trivial)
  | mutate operation commit => exact mutate_sound h hs
  | advance operation move => exact advance_sound h hs

theorem step_sound (h : Sound sha256 w) : Sound sha256 (step sha256 text w event) := by
  unfold step
  cases hs : next sha256 text w event with
  | none => exact h
  | some w' => exact next_sound h hs

theorem run_sound {events : List Event} (h : Sound sha256 w) :
    Sound sha256 (run (step sha256 text) w events) :=
  run_preserves (P := Sound sha256) (fun _ _ h _ ↦ step_sound h) h (along_true w events)

end Preservation

end Jaunder.Storage.ThemeContentSteps
