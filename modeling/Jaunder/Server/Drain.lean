import Jaunder.Server.FeedWorker

namespace Jaunder.Server.Drain

open Foundation.Rows Foundation.Run
open Jaunder.Common.Time
open Jaunder.Host.FeedPath
open Jaunder.Server.FeedWorker
open Jaunder.Storage.Dialect Jaunder.Storage.FeedCache Jaunder.Storage.FeedEvents
open Jaunder.Storage.Publisher Jaunder.Storage.WriteScope

/-- The claimed rows of one feed, and, once their processing has begun, the status writes that it
has yet to make. -/
structure Group where
  rows : List FeedEventRecord
  started : Option (GroupInput × List Attempt)

def Group.finished : Group := ⟨[], none⟩

/-- The rows that the group is going to write. -/
def Group.holds (g : Group) : List ℕ :=
  match g.started with
  | none => groupIds g.rows
  | some (_, todo) => todo.flatMap Attempt.ids

structure Workers where
  table : FeedEventTable
  groups : List Group

def Workers.start : Workers := ⟨created, []⟩

def groupRows (records : List FeedEventRecord) : List Group :=
  (records.map FeedEventRecord.feedPath).dedup.map (fun path ↦
    ⟨records.filter (fun row ↦ row.feedPath = path), none⟩)

inductive Step
  | enqueue (now : UtcInstant) (path : FeedPath)
  | enqueueMany (now : UtcInstant) (paths : List FeedPath)
  | claim (now leaseCutoff : UtcInstant) (purge : Bool) (commit : Commit)
  | process (i : ℕ) (input : GroupInput)
  | write (i : ℕ)
  | abandon (i : ℕ)
  | redrive (ids : List ℕ) (now : UtcInstant)
  | prune (now : UtcInstant)

variable (b : Backend)

def step (s : Workers) : Step → Workers
  | .enqueue now path => { s with table := Storage.FeedEvents.step b s.table (.enqueue now path) }
  | .enqueueMany now paths => { s with table := Storage.FeedEvents.step b s.table (.enqueueMany now paths) }
  | .claim now leaseCutoff purge commit =>
    { table := if commit.applies then
        Storage.FeedEvents.step b s.table (.claim now leaseCutoff batchLimit purge) else s.table
      groups := if commit.isConfirmed then
        s.groups ++ groupRows (claimPendingBatch b now leaseCutoff batchLimit purge s.table).2
        else s.groups }
  | .process i input =>
    match s.groups[i]? with
    | some ⟨rows, none⟩ =>
      { s with groups := s.groups.set i ((processFeedGroup input rows).elim .finished (fun todo ↦
          ⟨rows, some (input, todo)⟩)) }
    | _ => s
  | .write i =>
    match s.groups[i]? with
    | some ⟨rows, some (input, a :: todo)⟩ =>
      { table := if a.commit.applies then
          Storage.FeedEvents.step b s.table (.transition a.ids a.write) else s.table
        groups := s.groups.set i ⟨rows, some (input, todo)⟩ }
    | _ => s
  | .abandon i => { s with groups := s.groups.set i .finished }
  | .redrive ids now => { s with table := Storage.FeedEvents.step b s.table (.redrive ids now) }
  | .prune now => { s with table := Storage.FeedEvents.step b s.table (.prune now) }

/-- No claim hands out a row that another worker is still going to write. -/
def Exclusive (s : Workers) : Step → Prop
  | .claim now leaseCutoff _ _ =>
    ∀ id ∈ (claimBatch b now leaseCutoff batchLimit s.table).map Prod.fst,
      ∀ g ∈ s.groups, id ∉ g.holds
  | _ => True

/-- A failed row has used one attempt more than the budget of its phase at most. -/
def WithinBudget (e : FeedEvent) : Prop :=
  ∀ phase, attemptsIn phase e ≤
    budget phase + if e.status = .failed ∧ e.phase = phase then 1 else 0

/-- The rows that a group holds are as it claimed them, but for the mark of their regeneration. -/
structure Consistent (t : FeedEventTable) (g : Group) : Prop where
  nodup : (groupIds g.rows).Nodup
  held : ∀ row ∈ g.rows, row.id ∈ g.holds → ∃ e, t.get? row.id = some e ∧ e.status = .claimed ∧
    ∀ phase, attemptsIn phase e = attemptsIn phase row.event
  planned : ∀ input todo, g.started = some (input, todo) →
    ∃ written, processFeedGroup input g.rows = some (written ++ todo)

structure Inv (s : Workers) : Prop where
  budget : ∀ id e, s.table.get? id = some e → WithinBudget e
  groups : ∀ g ∈ s.groups, Consistent s.table g
  apart : s.groups.Pairwise (fun g h ↦ g.holds.Disjoint h.holds)

section Groups

variable {α : Type} {R : α → α → Prop} {l : List α} {i : ℕ} {a a' : α}

theorem pairwise_set (hl : l.Pairwise R) (ha : l[i]? = some a) (hleft : ∀ c, R a c → R a' c)
    (hright : ∀ c, R c a → R c a') : (l.set i a').Pairwise R := by
  induction l generalizing i with
  | nil => exact .nil
  | cons d l ih =>
    obtain ⟨hd, htail⟩ := List.pairwise_cons.mp hl
    cases i with
    | zero =>
      obtain rfl : d = a := Option.some_inj.mp ha
      exact List.pairwise_cons.mpr ⟨fun c hc ↦ hleft c (hd c hc), htail⟩
    | succ i =>
      refine List.pairwise_cons.mpr ⟨fun c hc ↦ ?_, ih htail ha⟩
      rcases List.mem_or_eq_of_mem_set hc with hold | rfl
      · exact hd c hold
      · exact hright d (hd a (List.mem_of_getElem? ha))

/-- An element of the updated list is the new one, or was there apart from the old one. -/
theorem mem_set_of_pairwise (hl : l.Pairwise R) (ha : l[i]? = some a) {c : α} (hc : c ∈ l.set i a') :
    c = a' ∨ (c ∈ l ∧ (R a c ∨ R c a)) := by
  induction l generalizing i with
  | nil => exact absurd ha (by simp)
  | cons d l ih =>
    obtain ⟨hd, htail⟩ := List.pairwise_cons.mp hl
    cases i with
    | zero =>
      obtain rfl : d = a := Option.some_inj.mp ha
      rcases List.mem_cons.mp hc with rfl | hold
      · exact Or.inl rfl
      · exact Or.inr ⟨List.mem_cons_of_mem _ hold, Or.inl (hd c hold)⟩
    | succ i =>
      rcases List.mem_cons.mp hc with rfl | hold
      · exact Or.inr ⟨List.mem_cons_self, Or.inr (hd a (List.mem_of_getElem? ha))⟩
      · exact (ih htail ha hold).imp_right (fun h ↦ ⟨List.mem_cons_of_mem _ h.1, h.2⟩)

end Groups

section Table

variable {b} {t : FeedEventTable} {id : ℕ} {e : FeedEvent}

theorem get?_redrive (he : t.get? id = some e) (hclaimed : e.status = .claimed) (ids : List ℕ)
    (now : UtcInstant) : (Storage.FeedEvents.step b t (.redrive ids now)).get? id = some e := by
  rw [Storage.FeedEvents.step]
  cases hredrive : redriveDeadLetters b ids now t with
  | none => exact he
  | some t' =>
    obtain ⟨rfl, hfailed⟩ := redriveDeadLetters_eq_some hredrive
    rw [Option.getD_some, IdTable.get?_update, if_neg (fun hid ↦ ?_), he]
    obtain ⟨e', he', hredrivable⟩ := hfailed id hid
    obtain rfl : e = e' := Option.some_inj.mp (he.symm.trans he')
    have hstatus := (of_decide_eq_true hredrivable).1
    simp [hclaimed] at hstatus

theorem get?_prune (he : t.get? id = some e) (hclaimed : e.status = .claimed) (now : UtcInstant) :
    (Storage.FeedEvents.step b t (.prune now)).get? id = some e := by
  rw [Storage.FeedEvents.step, pruneBatch, IdTable.get?_delete, if_neg (fun hid ↦ ?_), he]
  obtain ⟨row, hrow, rfl⟩ := List.mem_map.mp hid
  obtain ⟨hmem, hprunable⟩ := List.mem_filter.mp
    ((List.mem_insertionSort _).mp (List.mem_of_mem_take hrow))
  have hget := IdTable.get?_eq_some.mpr (show (row.1, row.2) ∈ t.rows from hmem)
  obtain rfl : row.2 = e := Option.some_inj.mp (hget.symm.trans he)
  rcases of_decide_eq_true hprunable with ⟨hdone, -⟩ | ⟨hfailed, -⟩
  · simp [hclaimed] at hdone
  · simp [hclaimed] at hfailed

theorem get?_claim (he : t.get? id = some e) {now leaseCutoff : UtcInstant} {limit : ℕ}
    (hid : id ∉ (claimBatch b now leaseCutoff limit t).map Prod.fst) (purge : Bool) :
    (Storage.FeedEvents.step b t (.claim now leaseCutoff limit purge)).get? id = some e := by
  have hstamped : (t.update ((claimBatch b now leaseCutoff limit t).map Prod.fst)
      (claimed now)).get? id = some e := by
    rw [IdTable.get?_update, if_neg hid, he]
  simp only [Storage.FeedEvents.step, claimPendingBatch]
  cases purge with
  | false => exact hstamped
  | true =>
    rw [if_pos rfl, IdTable.get?_delete, if_neg (fun hcorrupt ↦ ?_), hstamped]
    obtain ⟨row, hrow, rfl⟩ := List.mem_map.mp hcorrupt
    exact hid (List.mem_map_of_mem (List.mem_filter.mp hrow).1)

theorem claimBatch_nodup (now leaseCutoff : UtcInstant) (limit : ℕ) (t : FeedEventTable) :
    ((claimBatch b now leaseCutoff limit t).map Prod.fst).Nodup := by
  rw [claimBatch, List.map_take]
  refine (List.take_sublist _ _).nodup ?_
  refine (((List.perm_insertionSort _ _).map Prod.fst).nodup_iff).mpr ?_
  exact t.key.sublist (List.filter_sublist.map _)

theorem groupIds_records (batch : List (ℕ × FeedEvent)) (now : UtcInstant) :
    (groupIds (batch.filterMap (fun r ↦ r.2.feedUrl.intoFeedPath.map (fun path ↦
      (⟨r.1, path, claimed now r.2⟩ : FeedEventRecord))))).Sublist (batch.map Prod.fst) := by
  induction batch with
  | nil => exact .slnil
  | cons r batch ih =>
    cases hpath : r.2.feedUrl.intoFeedPath with
    | none =>
      rw [List.filterMap_cons_none (by rw [hpath]; rfl)]
      exact ih.cons _
    | some path =>
      rw [List.filterMap_cons_some (by rw [hpath]; rfl)]
      exact ih.cons_cons _

/-- A record that a claim hands out shows the row as the claim leaves it. -/
theorem get?_of_record {now leaseCutoff : UtcInstant} {limit : ℕ} {purge : Bool}
    {row : FeedEventRecord}
    (hrow : row ∈ (claimPendingBatch b now leaseCutoff limit purge t).2) :
    row.id ∈ (claimBatch b now leaseCutoff limit t).map Prod.fst ∧ row.event.status = .claimed ∧
      (Storage.FeedEvents.step b t (.claim now leaseCutoff limit purge)).get? row.id = some row.event := by
  simp only [claimPendingBatch, List.mem_filterMap, Option.map_eq_some_iff] at hrow
  obtain ⟨r, hr, path, hpath, rfl⟩ := hrow
  have hid : r.1 ∈ (claimBatch b now leaseCutoff limit t).map Prod.fst := List.mem_map_of_mem hr
  have hmem := (List.mem_filter.mp ((List.mem_insertionSort _).mp (List.mem_of_mem_take hr))).1
  have hget := IdTable.get?_eq_some.mpr (show (r.1, r.2) ∈ t.rows from hmem)
  have hstamped : (t.update ((claimBatch b now leaseCutoff limit t).map Prod.fst)
      (claimed now)).get? r.1 = some (claimed now r.2) := by
    rw [IdTable.get?_update, if_pos hid, hget, Option.map_some]
  refine ⟨hid, rfl, ?_⟩
  simp only [Storage.FeedEvents.step, claimPendingBatch]
  cases purge with
  | false => exact hstamped
  | true =>
    rw [if_pos rfl, IdTable.get?_delete, if_neg (fun hcorrupt ↦ ?_), hstamped]
    obtain ⟨r', hr', heq⟩ := List.mem_map.mp hcorrupt
    obtain ⟨hr', hnone⟩ := List.mem_filter.mp hr'
    obtain rfl : r' = r :=
      List.inj_on_of_nodup_map (claimBatch_nodup now leaseCutoff limit t) hr' hr heq
    exact absurd (hpath.symm.trans (of_decide_eq_true hnone)) (by simp)

end Table

section Budget

variable {b} {t : FeedEventTable} {e : FeedEvent} {write : Transition}

theorem WithinBudget.le (h : WithinBudget e) (hstatus : e.status ≠ .failed) (phase : FeedEventPhase) :
    attemptsIn phase e ≤ budget phase := by
  have hle := h phase
  rwa [if_neg (fun hfailed ↦ hstatus hfailed.1), Nat.add_zero] at hle

theorem WithinBudget.of_le (h : ∀ phase, attemptsIn phase e ≤ budget phase) : WithinBudget e :=
  fun phase ↦ (h phase).trans (Nat.le_add_right _ _)

/-- A write charges no other phase than its own, and its own phase once. -/
theorem attemptsIn_apply_le (write : Transition) (e : FeedEvent) (phase : FeedEventPhase) :
    attemptsIn phase (write.apply e) ≤
      attemptsIn phase e + if charged write = some phase then 1 else 0 := by
  cases write <;> cases phase <;>
    simp [attemptsIn, charged, Transition.apply, markRegenerated, markPinged,
      Storage.FeedEvents.retryRegeneration, Storage.FeedEvents.retryPublication,
      deadLetterRegeneration, deadLetterPublication, restartRegeneration, resetRegeneration, retry,
      deadLetter, charge]

/-- Every write but the mark leaves the row done, failed, or pending with a new due time. -/
theorem released (write : Transition) (hmark : isMark write = false) (e : FeedEvent) :
    (write.apply e).status = .done ∨ (write.apply e).status = .failed ∨
      ((write.apply e).status = .pending ∧ ∃ at_, (write.apply e).nextAttemptAt = .bound at_) := by
  cases write with
  | markRegenerated now => exact absurd hmark (by simp [isMark])
  | markPinged now => exact Or.inl rfl
  | retryRegeneration error at_ => exact Or.inr (Or.inr ⟨rfl, at_, rfl⟩)
  | deadLetterRegeneration error now => exact Or.inr (Or.inl rfl)
  | retryPublication error at_ => exact Or.inr (Or.inr ⟨rfl, at_, rfl⟩)
  | deadLetterPublication error now => exact Or.inr (Or.inl rfl)
  | restartRegeneration now => exact Or.inr (Or.inr ⟨rfl, now, rfl⟩)
  | resetRegeneration now => exact Or.inr (Or.inr ⟨rfl, now, rfl⟩)

theorem withinBudget_apply (hclaimed : e.status = .claimed) (h : WithinBudget e)
    (hretry : ∀ phase, charged write = some phase → deadLetters write = false →
      attemptsIn phase e < budget phase) : WithinBudget (write.apply e) := by
  have hle := h.le (by simp [hclaimed])
  intro phase
  have happly := attemptsIn_apply_le write e phase
  by_cases hcharged : charged write = some phase
  · rw [if_pos hcharged] at happly
    cases hdead : deadLetters write with
    | false => exact happly.trans ((hretry phase hcharged hdead).trans_le (Nat.le_add_right _ _))
    | true =>
      have hfailed : (write.apply e).status = .failed ∧ (write.apply e).phase = phase := by
        cases write with
        | deadLetterRegeneration error now => exact ⟨rfl, Option.some_inj.mp hcharged⟩
        | deadLetterPublication error now => exact ⟨rfl, Option.some_inj.mp hcharged⟩
        | _ => exact absurd hdead (by simp [deadLetters])
      rw [if_pos hfailed]
      exact happly.trans (Nat.add_le_add_right (hle phase) 1)
  · rw [if_neg hcharged, Nat.add_zero] at happly
    exact happly.trans ((hle phase).trans (Nat.le_add_right _ _))

theorem withinBudget_redriven (h : WithinBudget e) (now : UtcInstant) :
    WithinBudget (redriven now e) := by
  refine .of_le (fun phase ↦ ?_)
  have hle := h phase
  by_cases hphase : e.phase = phase
  · cases phase <;> simp [attemptsIn, redriven, hphase]
  · rw [if_neg (fun hfailed ↦ hphase hfailed.2), Nat.add_zero] at hle
    cases phase with
    | regeneration => simpa [attemptsIn, redriven, hphase] using hle
    | publication => simpa [attemptsIn, redriven, hphase] using hle

/-- The budget invariant of the table under one operation. -/
theorem withinBudget_step (op : Operation)
    (ht : ∀ id e, t.get? id = some e → WithinBudget e)
    (hwrite : ∀ ids write, op = .transition ids write → ∀ id ∈ ids, ∀ e, t.get? id = some e →
      WithinBudget (write.apply e)) :
    ∀ id e, (Storage.FeedEvents.step b t op).get? id = some e → WithinBudget e := by
  intro id e' he'
  cases he : t.get? id with
  | none =>
    obtain ⟨-, now, path, rfl⟩ := step_get?_of_none he he'
    exact .of_le (fun phase ↦ by cases phase <;> exact Nat.zero_le _)
  | some e =>
    cases step_get?_of_some he he' with
    | kept => exact ht id e' he
    | claimed hclaimable =>
      have hopen : e.status ≠ .failed := by
        rcases of_decide_eq_true hclaimable with ⟨hpending, -⟩ | ⟨hclaimed, -⟩
        · simp [hpending]
        · simp [hclaimed]
      refine .of_le (fun phase ↦ ?_)
      have hle := (ht id e he).le hopen phase
      cases phase <;> exact hle
    | written write e hid => exact hwrite _ write rfl id hid e he
    | redriven now hid hfailed => exact withinBudget_redriven (ht id e he) now

end Budget

section Invariant

variable {b} {t t' : FeedEventTable} {s : Workers} {g : Group}

theorem attemptsById_eq {rows : List FeedEventRecord} (hnodup : (groupIds rows).Nodup)
    {row : FeedEventRecord} (hrow : row ∈ rows) (attempts : FeedEvent → ℕ) :
    attemptsById rows attempts row.id = attempts row.event := by
  have hfind : rows.reverse.find? (fun r ↦ r.id = row.id) = some row := by
    cases hfound : rows.reverse.find? (fun r ↦ r.id = row.id) with
    | none =>
      have hnone := List.find?_eq_none.mp hfound row (List.mem_reverse.mpr hrow)
      exact absurd (decide_eq_true rfl) hnone
    | some r =>
      have hid : r.id = row.id := by simpa using List.find?_some hfound
      have hmem := List.mem_reverse.mp (List.mem_of_find?_eq_some hfound)
      rw [List.inj_on_of_nodup_map hnodup hmem hrow hid]
  rw [attemptsById, hfind]
  rfl

theorem Consistent.frame (h : Consistent t g)
    (hsame : ∀ id ∈ g.holds, ∀ e, t.get? id = some e → e.status = .claimed → t'.get? id = some e) :
    Consistent t' g := by
  refine ⟨h.nodup, fun row hrow hid ↦ ?_, h.planned⟩
  obtain ⟨e, he, hclaimed, hattempts⟩ := h.held row hrow hid
  exact ⟨e, hsame row.id hid e he hclaimed, hclaimed, hattempts⟩

theorem consistent_finished (t : FeedEventTable) : Consistent t .finished :=
  ⟨by simp [Group.finished, groupIds], by simp [Group.finished], by simp [Group.finished]⟩

/-- The rows that a group is about to write are claimed, and their budget decides over them. -/
theorem Consistent.next_write (h : Consistent t g) {input : GroupInput} {todo : List Attempt}
    (hstarted : g.started = some (input, todo)) {a : Attempt} (ha : a ∈ todo) {id : ℕ}
    (hid : id ∈ a.ids) :
    ∃ e, t.get? id = some e ∧ e.status = .claimed ∧ ∀ phase, charged a.write = some phase →
      (deadLetters a.write = true ↔
        budget phase ≤ attemptsIn phase e ∨ (phase = .publication ∧ TerminalAnswer input)) := by
  obtain ⟨written, hplanned⟩ := h.planned input todo hstarted
  obtain ⟨writes, hwrites, hspec⟩ := processFeedGroup_spec input h.nodup
  obtain rfl : written ++ todo = writes := Option.some_inj.mp (hplanned.symm.trans hwrites)
  have hin : a ∈ written ++ todo := List.mem_append_right _ ha
  obtain ⟨row, hrow, rfl⟩ := List.mem_map.mp (hspec.within a hin id hid)
  have hheld : row.id ∈ g.holds := by
    rw [Group.holds, hstarted]
    exact List.mem_flatMap.mpr ⟨a, ha, hid⟩
  obtain ⟨e, he, hclaimed, hattempts⟩ := h.held row hrow hheld
  refine ⟨e, he, hclaimed, fun phase hcharged ↦ ?_⟩
  rw [hattempts phase, ← attemptsById_eq h.nodup hrow (attemptsIn phase)]
  exact hspec.budgeted a hin phase hcharged row.id hid

theorem Consistent.written {rows : List FeedEventRecord} {input : GroupInput} {a : Attempt}
    {todo : List Attempt} (h : Consistent t ⟨rows, some (input, a :: todo)⟩)
    (ht' : ∀ id e, t.get? id = some e → t'.get? id = some e ∨
      (id ∈ a.ids ∧ t'.get? id = some (a.write.apply e))) :
    Consistent t' ⟨rows, some (input, todo)⟩ := by
  obtain ⟨written, hplanned⟩ := h.planned input (a :: todo) rfl
  refine ⟨h.nodup, fun row hrow hid ↦ ?_, ?_⟩
  · obtain ⟨c, hc, hidc⟩ := List.mem_flatMap.mp hid
    have hold : row.id ∈ Group.holds ⟨rows, some (input, a :: todo)⟩ :=
      List.mem_flatMap.mpr ⟨c, List.mem_cons_of_mem _ hc, hidc⟩
    obtain ⟨e, he, hclaimed, hattempts⟩ := h.held row hrow hold
    rcases ht' row.id e he with hsame | ⟨hida, hwritten⟩
    · exact ⟨e, hsame, hclaimed, hattempts⟩
    · -- the row is still held after this write, which is the mark then
      obtain ⟨writes, hwrites, hspec⟩ := processFeedGroup_spec input h.nodup
      obtain rfl : written ++ a :: todo = writes := Option.some_inj.mp (hplanned.symm.trans hwrites)
      have hapart := (List.pairwise_cons.mp (List.pairwise_append.mp hspec.apart).2.1).1 c hc
      rcases hapart with hmark | hdisjoint
      · refine ⟨_, hwritten, ?_, ?_⟩
        · cases hwrite : a.write with
          | markRegenerated now => exact hclaimed
          | _ => exact absurd hmark (by simp [hwrite, isMark])
        · intro phase
          rw [← hattempts phase]
          cases hwrite : a.write with
          | markRegenerated now => cases phase <;> rfl
          | _ => exact absurd hmark (by simp [hwrite, isMark])
      · exact absurd hidc (hdisjoint hida)
  · rintro input' todo' ⟨⟩
    exact ⟨written ++ [a], by rw [hplanned, List.append_assoc]; rfl⟩

/-- A step that only changes rows that no group holds. -/
theorem Inv.table (hs : Inv s) (op : Operation) (hop : ∀ ids write, op ≠ .transition ids write)
    (hsame : ∀ g ∈ s.groups, ∀ id ∈ g.holds, ∀ e, s.table.get? id = some e → e.status = .claimed →
      (Storage.FeedEvents.step b s.table op).get? id = some e) :
    Inv { s with table := Storage.FeedEvents.step b s.table op } :=
  ⟨withinBudget_step op hs.budget (fun ids write h ↦ absurd h (hop ids write)),
    fun g hg ↦ (hs.groups g hg).frame (hsame g hg), hs.apart⟩

/-- A group takes the place of one that held at least as much. -/
theorem Inv.set (hs : Inv s) {i : ℕ} {g g' : Group} (hg : s.groups[i]? = some g)
    (hholds : ∀ id ∈ g'.holds, id ∈ g.holds) (hconsistent : Consistent s.table g') :
    Inv { s with groups := s.groups.set i g' } := by
  refine ⟨hs.budget, fun h hh ↦ ?_, pairwise_set hs.apart hg
    (fun c hc id hid hidc ↦ hc (hholds id hid) hidc) (fun c hc id hidc hid ↦ hc hidc (hholds id hid))⟩
  rcases List.mem_or_eq_of_mem_set hh with hold | rfl
  · exact hs.groups h hold
  · exact hconsistent

theorem mem_groupRows {records : List FeedEventRecord} {g : Group} (hg : g ∈ groupRows records) :
    g.started = none ∧ g.rows.Sublist records := by
  obtain ⟨path, -, rfl⟩ := List.mem_map.mp hg
  exact ⟨rfl, List.filter_sublist⟩

theorem holds_groupRows {records : List FeedEventRecord} {g : Group} (hg : g ∈ groupRows records)
    {id : ℕ} (hid : id ∈ g.holds) : ∃ row ∈ records, row.id = id := by
  obtain ⟨hstarted, hrows⟩ := mem_groupRows hg
  rw [Group.holds, hstarted] at hid
  obtain ⟨row, hrow, rfl⟩ := List.mem_map.mp hid
  exact ⟨row, hrows.subset hrow, rfl⟩

/-- Each record belongs to the group of its path. -/
theorem groupRows_apart {records : List FeedEventRecord} (hnodup : (groupIds records).Nodup) :
    (groupRows records).Pairwise (fun g h ↦ g.holds.Disjoint h.holds) := by
  refine List.pairwise_map.mpr ((List.nodup_dedup _).imp (fun {p q} hpq id hp hq ↦ hpq ?_))
  obtain ⟨row, hrow, hid⟩ := List.mem_map.mp hp
  obtain ⟨row', hrow', hid'⟩ := List.mem_map.mp hq
  obtain ⟨hmem, hpath⟩ := List.mem_filter.mp hrow
  obtain ⟨hmem', hpath'⟩ := List.mem_filter.mp hrow'
  obtain rfl := List.inj_on_of_nodup_map hnodup hmem hmem' (hid.trans hid'.symm)
  exact (of_decide_eq_true hpath).symm.trans (of_decide_eq_true hpath')

theorem Inv.claim (hs : Inv s) {now leaseCutoff : UtcInstant} {purge : Bool} {commit : Commit}
    (hexclusive : Exclusive b s (.claim now leaseCutoff purge commit)) :
    Inv (step b s (.claim now leaseCutoff purge commit)) := by
  set op := Operation.claim now leaseCutoff batchLimit purge with hop
  set records := (claimPendingBatch b now leaseCutoff batchLimit purge s.table).2 with hrecords
  have hsame : ∀ g ∈ s.groups, ∀ id ∈ g.holds, ∀ e, s.table.get? id = some e →
      e.status = .claimed → (Storage.FeedEvents.step b s.table op).get? id = some e :=
    fun g hg id hid e he _ ↦ get?_claim he (fun hbatch ↦ hexclusive id hbatch g hg hid) purge
  have htable : Inv { s with table := Storage.FeedEvents.step b s.table op } :=
    hs.table op (by simp [hop]) hsame
  rw [step]
  cases hconfirmed : commit.isConfirmed with
  | false =>
    cases happlies : commit.applies with
    | false => exact hs
    | true => exact htable
  | true =>
    rw [Commit.applies_of_isConfirmed hconfirmed]
    have hnodup : (groupIds records).Nodup :=
      (claimBatch_nodup now leaseCutoff batchLimit s.table).sublist (groupIds_records _ _)
    have hshown : ∀ row ∈ records, row.id ∈
        (claimBatch b now leaseCutoff batchLimit s.table).map Prod.fst ∧
          row.event.status = .claimed ∧
            (Storage.FeedEvents.step b s.table op).get? row.id = some row.event :=
      fun row hrow ↦ get?_of_record hrow
    refine ⟨htable.budget, fun g hg ↦ ?_, List.pairwise_append.mpr
      ⟨hs.apart, groupRows_apart hnodup, fun g hg h hh id hid hid' ↦ ?_⟩⟩
    · rcases List.mem_append.mp hg with hold | hnew
      · exact htable.groups g hold
      · obtain ⟨hstarted, hrows⟩ := mem_groupRows hnew
        refine ⟨hnodup.sublist (hrows.map _), fun row hrow _ ↦ ?_,
          fun input todo hsome ↦ absurd (hstarted.symm.trans hsome) (by simp)⟩
        obtain ⟨-, hclaimed, hget⟩ := hshown row (hrows.subset hrow)
        exact ⟨row.event, hget, hclaimed, fun _ ↦ rfl⟩
    · obtain ⟨row, hrow, rfl⟩ := holds_groupRows hh hid'
      exact hexclusive row.id (hshown row hrow).1 g hg hid

theorem Inv.process (hs : Inv s) (i : ℕ) (input : GroupInput) :
    Inv (step b s (.process i input)) := by
  rw [step]
  split
  · rename_i rows hg
    have hgroup := hs.groups _ (List.mem_of_getElem? hg)
    obtain ⟨todo, htodo, hspec⟩ := processFeedGroup_spec input hgroup.nodup
    rw [htodo, Option.elim_some]
    have hholds : ∀ id ∈ Group.holds ⟨rows, some (input, todo)⟩, id ∈ Group.holds ⟨rows, none⟩ := by
      intro id hid
      obtain ⟨a, ha, hida⟩ := List.mem_flatMap.mp hid
      exact hspec.within a ha id hida
    refine hs.set hg hholds ⟨hgroup.nodup, fun row hrow hid ↦ ?_, ?_⟩
    · exact hgroup.held row hrow (hholds row.id hid)
    · rintro input' todo' ⟨⟩
      exact ⟨[], htodo⟩
  · exact hs

theorem Inv.write (hs : Inv s) (i : ℕ) : Inv (step b s (.write i)) := by
  rw [step]
  split
  · rename_i rows input a todo hg
    have hgroup := hs.groups _ (List.mem_of_getElem? hg)
    have hholds : ∀ id ∈ a.ids, id ∈ Group.holds ⟨rows, some (input, a :: todo)⟩ :=
      fun id hid ↦ List.mem_flatMap.mpr ⟨a, List.mem_cons_self, hid⟩
    have hless : ∀ id ∈ Group.holds ⟨rows, some (input, todo)⟩,
        id ∈ Group.holds ⟨rows, some (input, a :: todo)⟩ := by
      intro id hid
      obtain ⟨c, hc, hidc⟩ := List.mem_flatMap.mp hid
      exact List.mem_flatMap.mpr ⟨c, List.mem_cons_of_mem _ hc, hidc⟩
    cases happlies : a.commit.applies with
    | false => exact hs.set hg hless (hgroup.written (fun _ _ he ↦ Or.inl he))
    | true =>
      have hget : ∀ id e, s.table.get? id = some e →
          (id ∉ a.ids ∧ (s.table.update a.ids a.write.apply).get? id = some e) ∨
            (id ∈ a.ids ∧ (s.table.update a.ids a.write.apply).get? id =
              some (a.write.apply e)) := by
        intro id e he
        rw [IdTable.get?_update, he]
        by_cases hid : id ∈ a.ids
        · exact Or.inr ⟨hid, by rw [if_pos hid]; rfl⟩
        · exact Or.inl ⟨hid, by rw [if_neg hid]⟩
      have hbudget : ∀ ids write, Operation.transition a.ids a.write = .transition ids write →
          ∀ id ∈ ids, ∀ e, s.table.get? id = some e → WithinBudget (write.apply e) := by
        rintro ids write ⟨⟩ id hid e he
        obtain ⟨e', he', hclaimed, hdecided⟩ := hgroup.next_write rfl List.mem_cons_self hid
        obtain rfl : e = e' := Option.some_inj.mp (he.symm.trans he')
        refine withinBudget_apply hclaimed (hs.budget id e he) (fun phase hcharged hretry ↦ ?_)
        by_contra hnot
        exact absurd ((hdecided phase hcharged).mpr (Or.inl (not_lt.mp hnot))) (by simp [hretry])
      refine ⟨withinBudget_step (b := b) _ hs.budget hbudget, fun h hh ↦ ?_, pairwise_set hs.apart hg
        (fun c hc id hid hidc ↦ hc (hless id hid) hidc)
        (fun c hc id hidc hid ↦ hc hidc (hless id hid))⟩
      rcases mem_set_of_pairwise hs.apart hg hh with rfl | ⟨hold, hapart⟩
      · exact hgroup.written (fun id e he ↦ (hget id e he).imp_left And.right)
      · refine (hs.groups h hold).frame (fun id hid e he _ ↦ ?_)
        rcases hget id e he with ⟨-, hsame⟩ | ⟨hida, -⟩
        · exact hsame
        · rcases hapart with hgh | hhg
          · exact absurd hid (hgh (hholds id hida))
          · exact absurd (hholds id hida) (hhg hid)
  · exact hs

theorem Inv.step (hs : Inv s) (event : Step) (hexclusive : Exclusive b s event) :
    Inv (step b s event) := by
  cases event with
  | enqueue now path =>
    refine hs.table _ (by simp) (fun _ _ _ _ _ he _ ↦ ?_)
    rw [Storage.FeedEvents.step, Storage.FeedEvents.enqueue, IdTable.get?_insert,
      if_neg (IdTable.lt_next he).ne, he]
  | enqueueMany now paths =>
    exact hs.table _ (by simp) (fun _ _ _ _ _ he _ ↦ IdTable.get?_insertAll_of_some he)
  | claim now leaseCutoff purge commit => exact hs.claim hexclusive
  | process i input => exact hs.process i input
  | write i => exact hs.write i
  | abandon i =>
    cases hg : s.groups[i]? with
    | none =>
      have hset : s.groups.set i .finished = s.groups :=
        List.set_eq_of_length_le (List.getElem?_eq_none_iff.mp hg)
      rw [Drain.step, hset]
      exact hs
    | some g =>
      have hholds : ∀ id ∈ Group.finished.holds, id ∈ g.holds := by
        simp [Group.holds, Group.finished, groupIds]
      exact hs.set hg hholds (consistent_finished _)
  | redrive ids now =>
    exact hs.table _ (by simp) (fun _ _ _ _ _ he hclaimed ↦ get?_redrive he hclaimed ids now)
  | prune now =>
    exact hs.table _ (by simp) (fun _ _ _ _ _ he hclaimed ↦ get?_prune he hclaimed now)

end Invariant

end Jaunder.Server.Drain
