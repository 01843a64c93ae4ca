import Jaunder.Server.BackupWorker

namespace Jaunder.Server.BackupWorker

open Foundation.Run (Along run)
open Jaunder.Common.Time (UtcInstant)

section Names

/-- What the worker writes of a backup. -/
def Backup.artifact : Backup → Artifact
  | .directory _ manifest others => .directory ⟨some manifest, others⟩
  | .archive _ bytes => .file bytes

def Backup.instant : Backup → UtcInstant
  | .directory instant _ _ => instant
  | .archive instant _ => instant

def Backup.name : Backup → OsString
  | .directory instant _ _ => backupPathForMode instant .directory
  | .archive instant _ => backupPathForMode instant .archive

/-- The backup is there and complete. -/
def Present (root : Directory) (b : Backup) : Prop := root.lookup b.name = some b.artifact

theorem ofText_append (s t : List Char) : ofText (s ++ t) = ofText s ++ ofText t := by
  rw [ofText, Foundation.Octets.utf8_append, List.map_append]
  rfl

theorem isText_ofText (s : List Char) : isText (ofText s) = true := by
  have hround : (ofText s).map UInt8.ofFin = Foundation.Octets.utf8 s := by
    rw [ofText, List.map_map]
    exact List.map_id _
  have hvalid : ByteArray.IsValidUTF8 s.utf8Encode := ByteArray.isValidUTF8_utf8Encode
  rw [isText, hround]
  exact ByteArray.validateUTF8_eq_true_iff.mpr hvalid

theorem isCandidate_backup (b : Backup) : isCandidate b.name b.artifact = true := by
  cases b with
  | directory instant manifest others => rfl
  | archive instant bytes =>
    have hsuffix : (ofText archiveSuffix).isSuffixOf
        (backupPathForMode instant .archive) = true := by
      rw [List.isSuffixOf_iff_suffix, backupPathForMode, ofText_append]
      exact List.suffix_append _ _
    rw [isCandidate, Backup.name, hsuffix, backupPathForMode, isText_ofText]
    exact Bool.or_true _

theorem stagingName_ne (name : OsString) (t : UtcInstant) : stagingName name t ≠ name := by
  intro h
  have hlength := congrArg List.length h
  rw [stagingName, List.length_append, List.length_append] at hlength
  have hdot : (ofText ['.']).length = 1 := rfl
  omega

end Names

section Candidates

variable {root : Directory} {name : OsString} {a : Attempt} {k : ℕ}

theorem mem_candidates : name ∈ candidates root ↔
    ∃ artifact, root.lookup name = some artifact ∧ isCandidate name artifact = true := by
  rw [candidates, List.mem_map]
  constructor
  · rintro ⟨⟨name, artifact⟩, hmem, rfl⟩
    obtain ⟨hmem, hcandidate⟩ := List.mem_filter.mp hmem
    exact ⟨artifact, AList.mem_lookup_iff.mpr hmem, hcandidate⟩
  · rintro ⟨artifact, hlookup, hcandidate⟩
    exact ⟨⟨name, artifact⟩, List.mem_filter.mpr ⟨AList.mem_lookup_iff.mp hlookup, hcandidate⟩, rfl⟩

theorem nodup_candidates (root : Directory) : (candidates root).Nodup :=
  root.keys_nodup.sublist (List.filter_sublist.map Sigma.fst)

theorem Present.mem_candidates {b : Backup} (h : Present root b) : b.name ∈ candidates root :=
  BackupWorker.mem_candidates.mpr ⟨b.artifact, h, isCandidate_backup b⟩

/-- The candidates that stay. -/
def kept (root : Directory) (k : ℕ) : List OsString :=
  let backups := (candidates root).mergeSort fun a b ↦ a ≤ b
  backups.drop (backups.length - k)

theorem excess_append_kept (root : Directory) (k : ℕ) :
    excess root k ++ kept root k = (candidates root).mergeSort fun a b ↦ a ≤ b :=
  List.take_append_drop _ _

theorem mem_candidates_iff_excess_or_kept :
    name ∈ candidates root ↔ name ∈ excess root k ∨ name ∈ kept root k := by
  rw [← List.mem_append, excess_append_kept, List.mem_mergeSort]

theorem excess_eq_nil (h : (candidates root).length ≤ k) : excess root k = [] := by
  rw [excess, List.length_mergeSort, Nat.sub_eq_zero_of_le h, List.take_zero]

theorem length_kept (h : excess root k ≠ []) : (kept root k).length = k := by
  rw [kept, List.length_drop, List.length_mergeSort]
  rcases Nat.le_total (candidates root).length k with hle | hle
  · exact absurd (excess_eq_nil hle) h
  · omega

/-- What is pruned comes before what stays. -/
theorem excess_lt_kept {other : OsString} (h : name ∈ excess root k) (hother : other ∈ kept root k) :
    name < other := by
  have hsorted := @List.pairwise_mergeSort OsString (fun a b ↦ decide (a ≤ b))
    (fun a b c hab hbc ↦ decide_eq_true ((of_decide_eq_true hab).trans (of_decide_eq_true hbc)))
    (fun a b ↦ by rw [Bool.or_eq_true, decide_eq_true_eq, decide_eq_true_eq]; exact le_total a b)
    (candidates root)
  have hnodup := (List.mergeSort_perm (candidates root) fun a b ↦ a ≤ b).nodup_iff.mpr
    (nodup_candidates root)
  rw [← excess_append_kept root k] at hsorted hnodup
  have hle := (List.pairwise_append.mp hsorted).2.2 name h other hother
  exact lt_of_le_of_ne (of_decide_eq_true hle) ((List.nodup_append.mp hnodup).2.2 name h other hother)

theorem nodup_kept (root : Directory) (k : ℕ) : (kept root k).Nodup := by
  have hnodup := (List.mergeSort_perm (candidates root) fun a b ↦ a ≤ b).nodup_iff.mpr
    (nodup_candidates root)
  exact hnodup.sublist (List.drop_sublist _ _)

theorem removeAll_lookup_of_not_mem {names : List OsString} (h : name ∉ names) :
    (removeAll a root names).1.lookup name = root.lookup name := by
  induction names generalizing root with
  | nil => rfl
  | cons other names ih =>
    have hne := List.ne_of_not_mem_cons h
    have hrest := List.not_mem_of_not_mem_cons h
    rw [removeAll]
    cases a.removalLeft other with
    | none => exact (ih hrest).trans (AList.lookup_erase_ne hne)
    | some artifact => exact AList.lookup_insert_ne hne

theorem removeAll_lookup_of_mem {names : List OsString} (h : name ∈ names)
    (hok : (removeAll a root names).2 = true) : (removeAll a root names).1.lookup name = none := by
  induction names generalizing root with
  | nil => exact absurd h List.not_mem_nil
  | cons other names ih =>
    rw [removeAll] at hok ⊢
    cases hleft : a.removalLeft other with
    | some artifact =>
      rw [hleft] at hok
      cases hok
    | none =>
      rw [hleft] at hok
      dsimp only at hok ⊢
      by_cases hmem : name ∈ names
      · exact ih hmem hok
      · obtain rfl : name = other := (List.mem_cons.mp h).resolve_right hmem
        rw [removeAll_lookup_of_not_mem hmem]
        exact AList.lookup_erase name root

theorem pruneBackups_lookup (h : name ∉ excess root k) :
    (pruneBackups root k a).1.lookup name = root.lookup name := by
  rw [pruneBackups]
  split
  · exact removeAll_lookup_of_not_mem h
  · rfl

theorem pruneBackups_lookup_excess (h : name ∈ excess root k)
    (hok : (pruneBackups root k a).2 = true) : (pruneBackups root k a).1.lookup name = none := by
  rw [pruneBackups] at hok ⊢
  split at hok
  · rw [if_pos ‹_›]
    exact removeAll_lookup_of_mem h hok
  · cases hok

end Candidates

section Export

variable {root root' : Directory} {name : OsString} {a : Attempt} {b c : Backup}

/-- The staging directory, when it is not removed. -/
def leftovers (a : Attempt) : ℕ := if a.mode = .archive ∧ a.stagingLeft ≠ none then 1 else 0

theorem writeTree_lookup_ne {other : OsString} (h : other ≠ name) :
    (writeTree root name a).1.lookup other = root.lookup other := by
  rw [writeTree]
  split
  · rfl
  · exact AList.lookup_insert_ne h
  · exact AList.lookup_insert_ne h

theorem writeTarGz_lookup_ne {other : OsString} (h : other ≠ name) :
    (writeTarGz root name a).1.lookup other = root.lookup other := by
  rw [writeTarGz]
  split
  · rfl
  · exact AList.lookup_insert_ne h
  · exact AList.lookup_insert_ne h

theorem dropStaging_lookup_ne {staging other : OsString} (h : other ≠ staging) :
    (dropStaging root staging a).lookup other = root.lookup other := by
  rw [dropStaging]
  split
  · exact AList.lookup_erase_ne h
  · exact AList.lookup_insert_ne h

theorem exportArchiveBackup_lookup_ne (hname : name ≠ backupPathForMode a.now .archive)
    (hstaging : name ≠ stagingName (backupPathForMode a.now .archive) a.stagedAt) :
    (exportArchiveBackup root a).1.lookup name = root.lookup name := by
  rw [exportArchiveBackup]
  dsimp only
  split
  · rfl
  · rw [dropStaging_lookup_ne hstaging]
    have hcreated : (root.insert (stagingName (backupPathForMode a.now .archive) a.stagedAt)
        (.directory ⟨none, []⟩)).lookup name = root.lookup name := AList.lookup_insert_ne hstaging
    have hwritten := (writeTree_lookup_ne (a := a) hstaging).trans hcreated
    split
    · exact hwritten
    · exact (writeTarGz_lookup_ne hname).trans hwritten

theorem exportDirectoryBackup_lookup_ne (hname : name ≠ backupPathForMode a.now .directory) :
    (exportDirectoryBackup root a).1.lookup name = root.lookup name := by
  rw [exportDirectoryBackup]
  dsimp only
  split
  · exact writeTree_lookup_ne hname
  · rfl

theorem exportArchiveBackup_some (h : (exportArchiveBackup root a).2 = some b) :
    b.instant = a.now ∧ b.name = backupPathForMode a.now .archive ∧
      Present (exportArchiveBackup root a).1 b ∧ b.name ∉ root ∧
      stagingName b.name a.stagedAt ∉ root := by
  rw [Present]
  rw [exportArchiveBackup] at h ⊢
  dsimp only at h ⊢
  split at h
  · cases h
  · rename_i hfree
    rw [if_neg hfree]
    dsimp only
    rw [not_or, not_or] at hfree
    split at h
    · cases h
    · rw [writeTarGz] at h ⊢
      split at h
      · cases h
      · cases h
      · rename_i bytes hbytes
        obtain rfl := Option.some.inj h
        refine ⟨rfl, rfl, ?_, hfree.1, hfree.2.1⟩
        have hne := (stagingName_ne (backupPathForMode a.now .archive) a.stagedAt).symm
        exact (dropStaging_lookup_ne hne).trans (AList.lookup_insert _)

theorem exportDirectoryBackup_some (h : (exportDirectoryBackup root a).2 = some b) :
    b.instant = a.now ∧ b.name = backupPathForMode a.now .directory ∧
      Present (exportDirectoryBackup root a).1 b ∧ emptyOrAbsent root b.name = true := by
  rw [Present]
  rw [exportDirectoryBackup] at h ⊢
  dsimp only at h ⊢
  split at h
  · rename_i hempty
    rw [if_pos hempty]
    dsimp only
    rw [writeTree] at h ⊢
    split at h
    · cases h
    · cases h
    · obtain rfl := Option.some.inj h
      exact ⟨rfl, rfl, AList.lookup_insert _, hempty⟩
  · cases h

/-- No backup is an empty directory. -/
theorem not_emptyOrAbsent (h : Present root b) : emptyOrAbsent root b.name = false := by
  rw [emptyOrAbsent, h]
  cases b <;> rfl

theorem exportBackup_some (h : (exportBackup root a).2 = some b) :
    b.instant = a.now ∧ b.name = backupPathForMode a.now a.mode ∧
      Present (exportBackup root a).1 b := by
  rw [exportBackup] at h ⊢
  cases hmode : a.mode with
  | directory =>
    rw [hmode] at h
    obtain ⟨hinstant, hname, hpresent, -⟩ := exportDirectoryBackup_some h
    exact ⟨hinstant, hname, hpresent⟩
  | archive =>
    rw [hmode] at h
    obtain ⟨hinstant, hname, hpresent, -⟩ := exportArchiveBackup_some h
    exact ⟨hinstant, hname, hpresent⟩

/-- A backup is written where no other one is. -/
theorem exportBackup_free (h : (exportBackup root a).2 = some b) (hc : Present root c) :
    c.name ≠ b.name := by
  intro hname
  rw [exportBackup] at h
  cases hmode : a.mode with
  | directory =>
    rw [hmode] at h
    have hempty := (exportDirectoryBackup_some h).2.2.2
    rw [← hname, not_emptyOrAbsent hc] at hempty
    cases hempty
  | archive =>
    rw [hmode] at h
    have hfree := (exportArchiveBackup_some h).2.2.2.1
    rw [← hname, ← AList.lookup_eq_none, hc] at hfree
    cases hfree

/-- An export leaves the backups that are there. -/
theorem exportBackup_kept (hc : Present root c) : Present (exportBackup root a).1 c := by
  rw [Present, exportBackup]
  cases a.mode with
  | directory =>
    rw [exportDirectoryBackup]
    dsimp only
    split
    · rename_i hempty
      have hne : c.name ≠ backupPathForMode a.now .directory := by
        intro hname
        rw [← hname, not_emptyOrAbsent hc] at hempty
        cases hempty
      exact (writeTree_lookup_ne hne).trans hc
    · exact hc
  | archive =>
    have hmem : c.name ∈ root := by
      rw [← AList.lookup_isSome, hc]
      rfl
    by_cases hfree : backupPathForMode a.now .archive ∈ root ∨
        stagingName (backupPathForMode a.now .archive) a.stagedAt ∈ root ∨ ¬a.staged = true
    · dsimp only
      rw [exportArchiveBackup, if_pos hfree]
      exact hc
    · rw [not_or, not_or] at hfree
      refine (exportArchiveBackup_lookup_ne (fun h ↦ hfree.1 (h ▸ hmem)) fun h ↦ ?_).trans hc
      exact hfree.2.1 (h ▸ hmem)

/-- Beside the backup, an export changes nothing but the staging directory. -/
theorem exportBackup_lookup_ne (h : (exportBackup root a).2 = some b) (hname : name ≠ b.name)
    (hstaging : leftovers a = 0 ∨ name ≠ stagingName b.name a.stagedAt) :
    (exportBackup root a).1.lookup name = root.lookup name := by
  rw [exportBackup] at h ⊢
  cases hmode : a.mode with
  | directory =>
    rw [hmode] at h
    rw [(exportDirectoryBackup_some h).2.1] at hname
    exact exportDirectoryBackup_lookup_ne hname
  | archive =>
    rw [hmode] at h
    obtain ⟨-, hpath, -, -, hfree⟩ := exportArchiveBackup_some h
    rw [hpath] at hname hstaging hfree
    dsimp only
    by_cases hne : name = stagingName (backupPathForMode a.now .archive) a.stagedAt
    · have hleft : a.stagingLeft = none := by
        by_contra hleft
        have hcount := hstaging.resolve_right (not_not.mpr hne)
        rw [leftovers, if_pos ⟨hmode, hleft⟩] at hcount
        cases hcount
      rw [hne, AList.lookup_eq_none.mpr hfree, exportArchiveBackup]
      dsimp only
      split
      · exact AList.lookup_eq_none.mpr hfree
      · rw [dropStaging, hleft]
        exact AList.lookup_erase _ _
    · exact exportArchiveBackup_lookup_ne hname hne

/-- An export leaves what is under other names. -/
theorem exportBackup_lookup_of_some {artifact : Artifact} (h : (exportBackup root a).2 = some b)
    (hname : name ≠ b.name) (hlookup : root.lookup name = some artifact) :
    (exportBackup root a).1.lookup name = some artifact := by
  rw [exportBackup_lookup_ne h hname, hlookup]
  by_cases hmode : a.mode = .archive
  · rw [exportBackup, hmode] at h
    refine .inr fun hstaging ↦ (exportArchiveBackup_some h).2.2.2.2 ?_
    rw [← hstaging, ← AList.lookup_isSome, hlookup]
    rfl
  · exact .inl (if_neg fun hleft ↦ hmode hleft.1)

theorem length_candidates_exportBackup (h : (exportBackup root a).2 = some b) :
    (candidates (exportBackup root a).1).length ≤ (candidates root).length + 1 + leftovers a := by
  have hsub : candidates (exportBackup root a).1 ⊆
      b.name :: (List.replicate (leftovers a) (stagingName b.name a.stagedAt) ++
        candidates root) := by
    intro name hmem
    rw [List.mem_cons, List.mem_append]
    by_cases hname : name = b.name
    · exact .inl hname
    · by_cases hstaging : leftovers a = 0 ∨ name ≠ stagingName b.name a.stagedAt
      · rw [mem_candidates, exportBackup_lookup_ne h hname hstaging, ← mem_candidates] at hmem
        exact .inr (.inr hmem)
      · rw [not_or, not_not] at hstaging
        exact .inr (.inl (List.mem_replicate.mpr hstaging))
  have hlength := ((nodup_candidates _).subperm hsub).length_le
  rw [List.length_cons, List.length_append, List.length_replicate] at hlength
  omega

end Export

section Runs

/-- The destination root, the backups that were ever completed there, and the last run's clock. -/
structure World where
  root : Directory
  written : List Backup
  clock : UtcInstant

def World.completed (w : World) (a : Attempt) : Option Backup :=
  if a.ready then (exportBackup w.root a).2 else none

/-- One scheduled run. -/
def World.step (k : ℕ) (w : World) (a : Attempt) : World where
  root := (runScheduledBackup w.root k a).1
  written := w.written ++ (w.completed a).toList
  clock := a.now

def World.succeeds (k : ℕ) (w : World) (a : Attempt) : Prop :=
  (runScheduledBackup w.root k a).2 ≠ none

/-- Fewer than `k` backups were written after it. -/
def Newest (k : ℕ) (written : List Backup) (b : Backup) : Prop :=
  b ∈ written ∧ (written.filter fun c ↦ b.instant < c.instant).length < k

/-- Anything may be in the root; the backups that the worker wrote earlier are there. -/
structure World.Start (w : World) : Prop where
  increasing : w.written.Pairwise fun b c ↦ b.instant < c.instant
  earlier : ∀ b ∈ w.written, b.instant ≤ w.clock
  present : ∀ b ∈ w.written, Present w.root b

/-- What retention is to do in a run that reports success. -/
structure Retained (k : ℕ) (w : World) (a : Attempt) (w' : World) : Prop where
  new : ∃ b, w'.written = w.written ++ [b] ∧ b.instant = a.now ∧
    b.name = backupPathForMode a.now a.mode ∧ Present w'.root b
  pruned : ∀ name artifact, w.root.lookup name = some artifact → name ∉ w'.root →
    ∃ b ∈ w.written, b.name = name ∧ b.artifact = artifact ∧
      ∀ c ∈ w'.written, Present w'.root c → b.instant < c.instant
  newest : ∀ b, Newest k w'.written b → Present w'.root b

/-- Every candidate is a backup of an earlier run, and their names are in the order of the runs. -/
structure Orderly (w : World) (a : Attempt) : Prop where
  complete : ∀ name ∈ candidates w.root, ∃ b ∈ w.written, b.name = name ∧ Present w.root b
  ordered : ∀ b ∈ w.written, ∀ c ∈ w.written, Present w.root b → Present w.root c →
    b.instant < c.instant → b.name < c.name
  precedes : ∀ b ∈ w.written, Present w.root b → b.name < backupPathForMode a.now a.mode
  fresh : ∀ b ∈ w.written, b.name ≠ backupPathForMode a.now a.mode
  cleaned : leftovers a = 0

/-- Nothing is to be pruned, or all candidates are backups. -/
def Safe (k : ℕ) (w : World) (a : Attempt) : Prop :=
  (candidates w.root).length + 1 + leftovers a ≤ k ∨ Orderly w a

structure Invariant (k : ℕ) (w : World) : Prop where
  increasing : w.written.Pairwise fun b c ↦ b.instant < c.instant
  earlier : ∀ b ∈ w.written, b.instant ≤ w.clock
  newest : ∀ b, Newest k w.written b → Present w.root b

variable {k : ℕ} {w : World} {a : Attempt} {b c new : Backup}

theorem World.Start.invariant (h : w.Start) : Invariant k w :=
  ⟨h.increasing, h.earlier, fun b hb ↦ h.present b hb.1⟩

theorem Newest.of_append (h : Newest k (w.written ++ [new]) b) (hb : b ∈ w.written) :
    Newest k w.written b := by
  refine ⟨hb, lt_of_le_of_lt ?_ h.2⟩
  rw [List.filter_append, List.length_append]
  exact Nat.le_add_right _ _

/-- The written backups after a completed export. -/
theorem increasing_append (h : Invariant k w) (hclock : w.clock < a.now) (hnew : new.instant = a.now) :
    (w.written ++ [new]).Pairwise fun b c ↦ b.instant < c.instant := by
  refine List.pairwise_append.mpr ⟨h.increasing, List.pairwise_singleton _ _, fun b hb c hc ↦ ?_⟩
  rw [List.mem_singleton.mp hc, hnew]
  exact (h.earlier b hb).trans_lt hclock

/-- Two of them were written at different instants. -/
theorem lt_or_eq_or_lt {written : List Backup}
    (h : written.Pairwise fun b c ↦ b.instant < c.instant) (hb : b ∈ written) (hc : c ∈ written) :
    b.instant < c.instant ∨ b = c ∨ c.instant < b.instant := by
  have hdistinct : (written.map Backup.instant).Nodup := List.pairwise_map.mpr (h.imp ne_of_lt)
  rcases lt_trichotomy b.instant c.instant with hlt | heq | hlt
  · exact .inl hlt
  · exact .inr (.inl (List.inj_on_of_nodup_map hdistinct hb hc heq))
  · exact .inr (.inr hlt)

section Orderly

variable {root : Directory} (h : Invariant k w) (hclock : w.clock < a.now) (horderly : Orderly w a)
  (hexport : exportBackup w.root a = (root, some new))

include hexport

theorem present_of_export (hc : c ∈ w.written ++ [new]) (hpresent : c = new ∨ Present w.root c) :
    Present root c := by
  rcases hpresent with rfl | hpresent
  · have hnew := (exportBackup_some (congrArg Prod.snd hexport)).2.2
    rwa [hexport] at hnew
  · have hkept := exportBackup_kept (a := a) hpresent
    rwa [hexport] at hkept

include horderly

theorem lookup_of_export {name : OsString} (hname : name ≠ new.name) :
    root.lookup name = w.root.lookup name := by
  have hsome := congrArg Prod.snd hexport
  have hlookup := exportBackup_lookup_ne hsome hname (.inl horderly.cleaned)
  rwa [hexport] at hlookup

/-- A backup that is there after the export is the new one or was there before. -/
theorem present_before (hc : c ∈ w.written) (hpresent : Present root c) : Present w.root c := by
  have hname := (exportBackup_some (congrArg Prod.snd hexport)).2.1
  have hne : c.name ≠ new.name := by
    rw [hname]
    exact horderly.fresh c hc
  rwa [Present, ← lookup_of_export horderly hexport hne]

theorem candidate_written {name : OsString} (hmem : name ∈ candidates root) :
    ∃ c ∈ w.written ++ [new], c.name = name ∧ Present root c := by
  by_cases hname : name = new.name
  · refine ⟨new, List.mem_append_right _ List.mem_cons_self, hname.symm, ?_⟩
    exact present_of_export hexport (List.mem_append_right _ List.mem_cons_self) (.inl rfl)
  · rw [mem_candidates, lookup_of_export horderly hexport hname, ← mem_candidates] at hmem
    obtain ⟨c, hc, hcname, hpresent⟩ := horderly.complete name hmem
    have hc' : c ∈ w.written ++ [new] := List.mem_append_left _ hc
    exact ⟨c, hc', hcname, present_of_export hexport hc' (.inr hpresent)⟩

include h hclock

/-- The names are in the order of the instants. -/
theorem name_lt_name (hb : b ∈ w.written ++ [new]) (hc : c ∈ w.written ++ [new])
    (hbp : Present root b) (hcp : Present root c) (hlt : b.instant < c.instant) :
    b.name < c.name := by
  obtain ⟨hinstant, hname, -⟩ := exportBackup_some (congrArg Prod.snd hexport)
  rcases List.mem_append.mp hb with hb | hb
  · have hbp' := present_before horderly hexport hb hbp
    rcases List.mem_append.mp hc with hc | hc
    · exact horderly.ordered b hb c hc hbp' (present_before horderly hexport hc hcp) hlt
    · rw [List.mem_singleton.mp hc, hname]
      exact horderly.precedes b hb hbp'
  · have hlast : ∀ c ∈ w.written ++ [new], c.instant ≤ a.now := by
      intro c hc
      rcases List.mem_append.mp hc with hc | hc
      · exact ((h.earlier c hc).trans_lt hclock).le
      · rw [List.mem_singleton.mp hc, hinstant]
    rw [List.mem_singleton.mp hb, hinstant] at hlt
    exact absurd hlt (hlast c hc).not_gt

theorem instant_lt_of_name_lt (hb : b ∈ w.written ++ [new]) (hc : c ∈ w.written ++ [new])
    (hbp : Present root b) (hcp : Present root c) (hlt : b.name < c.name) :
    b.instant < c.instant := by
  have hinstant := (exportBackup_some (congrArg Prod.snd hexport)).1
  rcases lt_or_eq_or_lt (increasing_append h hclock hinstant) hb hc with hlt' | rfl | hgt
  · exact hlt'
  · exact absurd hlt (lt_irrefl _)
  · exact absurd hlt (name_lt_name h hclock horderly hexport hc hb hcp hbp hgt).not_gt

/-- The newest backups are not pruned: each one that stays in the place of `b` is newer. -/
theorem newest_not_excess (hb : Newest k (w.written ++ [new]) b) (hbp : Present root b) :
    b.name ∉ excess root k := by
  intro hmem
  have hsub : kept root k ⊆
      ((w.written ++ [new]).filter fun c ↦ b.instant < c.instant).map Backup.name := by
    intro name hname
    have hcandidate := mem_candidates_iff_excess_or_kept.mpr (.inr hname)
    obtain ⟨c, hc, rfl, hcp⟩ := candidate_written horderly hexport hcandidate
    have hlt := instant_lt_of_name_lt h hclock horderly hexport hb.1 hc hbp hcp
      (excess_lt_kept hmem hname)
    exact List.mem_map_of_mem (List.mem_filter.mpr ⟨hc, decide_eq_true hlt⟩)
  have hlength := ((nodup_kept root k).subperm hsub).length_le
  rw [length_kept (List.ne_nil_of_mem hmem), List.length_map] at hlength
  exact absurd hb.2 hlength.not_gt

end Orderly

/-- Of the newest backups none is pruned. -/
theorem newest_stays {root : Directory} (h : Invariant k w) (hclock : w.clock < a.now)
    (hsafe : Safe k w a) (hexport : exportBackup w.root a = (root, some new))
    (hb : Newest k (w.written ++ [new]) b) : Present root b ∧ b.name ∉ excess root k := by
  have hpresent : Present root b := by
    refine present_of_export hexport hb.1 ?_
    rcases List.mem_append.mp hb.1 with hmem | hmem
    · exact .inr (h.newest b (hb.of_append hmem))
    · exact .inl (List.mem_singleton.mp hmem)
  refine ⟨hpresent, ?_⟩
  rcases hsafe with hfew | horderly
  · have hlength := length_candidates_exportBackup (congrArg Prod.snd hexport)
    rw [hexport] at hlength
    rw [excess_eq_nil (hlength.trans hfew)]
    exact List.not_mem_nil
  · exact newest_not_excess h hclock horderly hexport hb hpresent

/-- A run does nothing, or it exports and then prunes. -/
theorem step_cases (k : ℕ) (w : World) (a : Attempt) :
    (w.step k a).written = w.written ∧ ¬w.succeeds k a ∧
      (∀ b, Present w.root b → Present (w.step k a).root b) ∨
    ∃ root new, exportBackup w.root a = (root, some new) ∧
      (w.step k a).written = w.written ++ [new] ∧
      (w.step k a).root = (pruneBackups root k a).1 ∧
      (w.succeeds k a → (pruneBackups root k a).2 = true) := by
  simp only [World.step, World.completed, World.succeeds, runScheduledBackup]
  by_cases hready : a.ready = true
  · rw [if_pos hready, if_pos hready]
    cases hexport : exportBackup w.root a with
    | mk root written =>
      cases written with
      | none =>
        refine .inl ⟨List.append_nil _, fun h ↦ h rfl, fun b hb ↦ ?_⟩
        have hkept := exportBackup_kept (a := a) hb
        rwa [hexport] at hkept
      | some new =>
        refine .inr ⟨root, new, rfl, rfl, rfl, fun h ↦ ?_⟩
        dsimp only at h
        by_contra hpruned
        rw [if_neg hpruned] at h
        exact h rfl
  · rw [if_neg hready, if_neg hready]
    exact .inl ⟨List.append_nil _, fun h ↦ h rfl, fun b hb ↦ hb⟩

theorem Invariant.step (h : Invariant k w) (hclock : w.clock < a.now) (hsafe : Safe k w a) :
    Invariant k (w.step k a) := by
  rcases step_cases k w a with ⟨hwritten, -, hkept⟩ | ⟨root, new, hexport, hwritten, hroot, -⟩
  · refine ⟨?_, fun b hb ↦ ?_, fun b hb ↦ ?_⟩
    · rw [hwritten]
      exact h.increasing
    · rw [hwritten] at hb
      exact ((h.earlier b hb).trans_lt hclock).le
    · rw [hwritten] at hb
      exact hkept b (h.newest b hb)
  · have hinstant := (exportBackup_some (congrArg Prod.snd hexport)).1
    refine ⟨?_, fun b hb ↦ ?_, fun b hb ↦ ?_⟩
    · rw [hwritten]
      exact increasing_append h hclock hinstant
    · rw [hwritten] at hb
      rcases List.mem_append.mp hb with hb | hb
      · exact ((h.earlier b hb).trans_lt hclock).le
      · rw [List.mem_singleton.mp hb, hinstant]
        exact le_rfl
    · rw [hwritten] at hb
      obtain ⟨hpresent, hstays⟩ := newest_stays h hclock hsafe hexport hb
      rw [Present, hroot, pruneBackups_lookup hstays]
      exact hpresent

/-- The new backup has none after it. -/
theorem newest_new (hk : 0 < k) (h : Invariant k w) (hclock : w.clock < a.now)
    (hnew : new.instant = a.now) : Newest k (w.written ++ [new]) new := by
  refine ⟨List.mem_append_right _ List.mem_cons_self, ?_⟩
  have hnone : (w.written ++ [new]).filter (fun c ↦ new.instant < c.instant) = [] := by
    rw [List.filter_eq_nil_iff]
    intro c hc hlt
    have hlt := of_decide_eq_true hlt
    rw [hnew] at hlt
    rcases List.mem_append.mp hc with hc | hc
    · exact absurd hlt ((h.earlier c hc).trans_lt hclock).not_gt
    · rw [List.mem_singleton.mp hc, hnew] at hlt
      exact lt_irrefl _ hlt
  rw [hnone]
  exact hk

theorem retained_of_success (hk : 0 < k) (h : Invariant k w) (hclock : w.clock < a.now)
    (hsafe : Safe k w a) (hsuccess : w.succeeds k a) : Retained k w a (w.step k a) := by
  have hafter := h.step hclock hsafe
  rcases step_cases k w a with ⟨-, hfail, -⟩ | ⟨root, new, hexport, hwritten, hroot, hpruned⟩
  · exact absurd hsuccess hfail
  · have hpruned := hpruned hsuccess
    have hsome := congrArg Prod.snd hexport
    obtain ⟨hinstant, hname, -⟩ := exportBackup_some hsome
    have hnewest := newest_new hk h hclock hinstant
    rw [← hwritten] at hnewest
    have hnew := hafter.newest new hnewest
    refine ⟨⟨new, hwritten, hinstant, hname, hnew⟩, fun name artifact hlookup hgone ↦ ?_,
      hafter.newest⟩
    have hgone := AList.lookup_eq_none.mpr hgone
    have hne : name ≠ new.name := by
      rintro rfl
      rw [hnew] at hgone
      cases hgone
    have hbefore : root.lookup name = some artifact := by
      have hkept := exportBackup_lookup_of_some hsome hne hlookup
      rwa [hexport] at hkept
    have hmem : name ∈ excess root k := by
      by_contra hstays
      rw [hroot, pruneBackups_lookup hstays, hbefore] at hgone
      cases hgone
    have horderly : Orderly w a := by
      refine hsafe.resolve_left fun hfew ↦ ?_
      have hlength := length_candidates_exportBackup hsome
      rw [hexport] at hlength
      rw [excess_eq_nil (hlength.trans hfew)] at hmem
      exact List.not_mem_nil hmem
    have hcandidate := mem_candidates_iff_excess_or_kept.mpr (.inl hmem)
    obtain ⟨b, hb, rfl, hbp⟩ := candidate_written horderly hexport hcandidate
    have hold : b ∈ w.written := by
      refine (List.mem_append.mp hb).resolve_right fun h ↦ hne ?_
      rw [List.mem_singleton.mp h]
    refine ⟨b, hold, rfl, Option.some.inj (hbp.symm.trans hbefore), fun c hc hcp ↦ ?_⟩
    rw [hwritten] at hc
    have hstays : c.name ∉ excess root k := by
      intro hexcess
      rw [Present, hroot, pruneBackups_lookup_excess hexcess hpruned] at hcp
      cases hcp
    have hcp' : Present root c := by
      rwa [Present, hroot, pruneBackups_lookup hstays] at hcp
    have hkept := (mem_candidates_iff_excess_or_kept.mp hcp'.mem_candidates).resolve_left hstays
    exact instant_lt_of_name_lt h hclock horderly hexport hb hc hbp hcp' (excess_lt_kept hmem hkept)

/-- In a run whose steps are all safe, every run that reports success retains what it should. -/
theorem backup_retention (hk : 0 < k) (hstart : w.Start) {attempts : List Attempt}
    (hclock : Along (World.step k) (fun w a ↦ w.clock < a.now) w attempts)
    (hsafe : Along (World.step k) (Safe k) w attempts) :
    Along (World.step k) (fun w a ↦ w.succeeds k a → Retained k w a (w.step k a)) w attempts := by
  have hinvariant : Invariant k w := hstart.invariant
  clear hstart
  induction attempts generalizing w with
  | nil => trivial
  | cons a attempts ih =>
    refine ⟨retained_of_success hk hinvariant hclock.1 hsafe.1, ?_⟩
    exact ih hclock.2 hsafe.2 (hinvariant.step hclock.1 hsafe.1)

end Runs

section Instances

def epoch : UtcInstant := .epoch

def nextSecond : UtcInstant := .secondAfterEpoch

/-- A run none of whose effects fails. -/
def flawless (mode : BackupMode) (now : UtcInstant) : Attempt where
  mode := mode
  now := now
  stagedAt := now
  ready := true
  staged := true
  exported := .ok ([], [])
  archived := .ok []
  stagingLeft := none
  listed := true
  removalLeft _ := none

theorem removeAll_ok {a : Attempt} (h : ∀ name, a.removalLeft name = none) (root : Directory)
    (names : List OsString) : (removeAll a root names).2 = true := by
  induction names generalizing root with
  | nil => rfl
  | cons name names ih =>
    rw [removeAll, h name]
    exact ih _

theorem succeeds_of_export {w : World} {a : Attempt} {k : ℕ} {new : Backup} (hready : a.ready = true)
    (hlisted : a.listed = true) (hremoval : ∀ name, a.removalLeft name = none)
    (hexport : (exportBackup w.root a).2 = some new) : w.succeeds k a := by
  rw [World.succeeds, runScheduledBackup, if_pos hready]
  cases hroot : exportBackup w.root a with
  | mk root written =>
    rw [hroot] at hexport
    obtain rfl : written = some new := hexport
    dsimp only
    rw [pruneBackups, if_pos hlisted, removeAll_ok hremoval, if_pos rfl]
    exact Option.some_ne_none _

/-- A root with one backup of the worker. -/
def earlierWorld : World where
  root := AList.insert (backupPathForMode epoch .archive) (.file []) ∅
  written := [.archive epoch []]
  clock := epoch

theorem earlierWorld_start : earlierWorld.Start where
  increasing := List.pairwise_singleton _ _
  earlier b hb := by
    rw [List.mem_singleton.mp hb]
    exact le_rfl
  present b hb := by
    rw [List.mem_singleton.mp hb]
    rfl

theorem earlierWorld_orderly : Orderly earlierWorld (flawless .archive nextSecond) where
  complete name hname := by
    rw [show candidates earlierWorld.root = [backupPathForMode epoch .archive] from rfl] at hname
    exact ⟨.archive epoch [], List.mem_cons_self, (List.mem_singleton.mp hname).symm, rfl⟩
  ordered b hb c hc _ _ hlt := by
    rw [List.mem_singleton.mp hb, List.mem_singleton.mp hc] at hlt
    exact absurd hlt (lt_irrefl _)
  precedes b hb _ := by
    rw [List.mem_singleton.mp hb]
    decide
  fresh b hb := by
    rw [List.mem_singleton.mp hb]
    decide
  cleaned := rfl

theorem backup_retention_one : earlierWorld.succeeds 1 (flawless .archive nextSecond) ∧
    Retained 1 earlierWorld (flawless .archive nextSecond)
      (earlierWorld.step 1 (flawless .archive nextSecond)) := by
  have hexport : (exportBackup earlierWorld.root (flawless .archive nextSecond)).2 =
      some (.archive nextSecond []) := rfl
  have hsuccess : earlierWorld.succeeds 1 (flawless .archive nextSecond) :=
    succeeds_of_export rfl rfl (fun _ ↦ rfl) hexport
  have hclock : Along (World.step 1) (fun w a ↦ w.clock < a.now) earlierWorld
      [flawless .archive nextSecond] := ⟨by decide, trivial⟩
  have hsafe : Along (World.step 1) (Safe 1) earlierWorld [flawless .archive nextSecond] :=
    ⟨.inr earlierWorld_orderly, trivial⟩
  exact ⟨hsuccess, (backup_retention Nat.one_pos earlierWorld_start hclock hsafe).1 hsuccess⟩

/-- A root with an archive that the worker did not write. -/
def siteWorld : World where
  root := AList.insert (ofText "site.tar.gz".toList) (.file []) ∅
  written := []
  clock := epoch

theorem siteWorld_start : siteWorld.Start where
  increasing := .nil
  earlier _ hb := absurd hb List.not_mem_nil
  present _ hb := absurd hb List.not_mem_nil

/-- With a retention count of one, the run deletes the backup it has just written. -/
theorem foreign_archive_outlives_backup :
    ¬∀ (k : ℕ) (w : World) (a : Attempt), 0 < k → w.Start → w.clock < a.now → w.succeeds k a →
      Retained k w a (w.step k a) := by
  intro hclaim
  have hexport : (exportBackup siteWorld.root (flawless .archive nextSecond)).2 =
      some (.archive nextSecond []) := rfl
  have hsuccess : siteWorld.succeeds 1 (flawless .archive nextSecond) :=
    succeeds_of_export rfl rfl (fun _ ↦ rfl) hexport
  obtain ⟨b, hwritten, -, hname, hpresent⟩ := (hclaim 1 siteWorld (flawless .archive nextSecond)
    Nat.one_pos siteWorld_start (by decide) hsuccess).new
  have hsorted : (candidates (exportBackup siteWorld.root (flawless .archive nextSecond)).1).mergeSort
      (fun a b ↦ a ≤ b) =
        [backupPathForMode nextSecond .archive, ofText "site.tar.gz".toList] :=
    List.mergeSort_of_pairwise (by decide)
  have hexcess : excess (exportBackup siteWorld.root (flawless .archive nextSecond)).1 1 =
      [backupPathForMode nextSecond .archive] := by
    rw [excess, hsorted]
    rfl
  have hgone : (siteWorld.step 1 (flawless .archive nextSecond)).root.lookup
      (backupPathForMode nextSecond .archive) = none := by
    rcases step_cases 1 siteWorld (flawless .archive nextSecond) with
      ⟨-, hfail, -⟩ | ⟨root, new, hroot, -, hstep, hpruned⟩
    · exact absurd hsuccess hfail
    · rw [hroot] at hexcess
      rw [hstep]
      exact pruneBackups_lookup_excess (hexcess ▸ List.mem_cons_self) (hpruned hsuccess)
  have hthere : (siteWorld.step 1 (flawless .archive nextSecond)).root.lookup
      (backupPathForMode nextSecond .archive) = some b.artifact := hname ▸ hpresent
  cases hgone.symm.trans hthere

end Instances

end Jaunder.Server.BackupWorker
