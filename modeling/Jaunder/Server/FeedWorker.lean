import Jaunder.Storage.FeedEvents
import Jaunder.Storage.Publisher
import Jaunder.Storage.WriteScope

namespace Jaunder.Server.FeedWorker

open Foundation.Rows Foundation.Run
open Jaunder.Common.Time
open Jaunder.Host.FeedPath
open Jaunder.Storage.Dialect Jaunder.Storage.FeedCache Jaunder.Storage.FeedEvents
open Jaunder.Storage.Publisher Jaunder.Storage.WriteScope

def batchLimit : ℕ := 200

def regenBackoffsSecs : List ℕ := [60, 300, 1800, 7200, 7200, 7200]

def publicationBackoffsSecs : List ℕ :=
  [60, 300, 1800, 7200, 14400, 28800, 43200, 86400, 86400]

def nanosInSecond : ℕ := 1000000000

def retryAfterLimit : ℕ := 24 * 3600 * nanosInSecond

/-- A status write in its own transaction. -/
structure Attempt where
  ids : List ℕ
  write : Transition
  commit : Commit

/-- The clock reading before a status write, and what becomes of its transaction. -/
structure WriteInput where
  now : UtcInstant
  commit : Commit

inductive WebSubError
  | terminal (reason : String)
  | retryable (reason : String) (retryAfter : Option ℕ)

/-- What the calls of one group come back with; `none` is an error. A hash map yields its keys in
an arbitrary `order`. -/
structure GroupInput where
  snapshot : Option PublisherSnapshot
  cacheRead : Option (Option FeedCacheRow)
  rendered : Except String FeedCacheRow
  finalizationGuard : Bool
  isCurrent : Option Bool
  commitCache : Option CacheCommitOutcome
  sendPublish : Except WebSubError Unit
  marked : WriteInput
  settled : WriteInput
  exhausted : WriteInput
  bucket : ℕ → WriteInput
  order : List ℕ → List ℕ
  order_perm : ∀ keys, (order keys).Perm keys

structure RetryPartition where
  keys : List ℕ
  bucket : ℕ → List ℕ
  exhausted : List ℕ

/-- A later row with the same id takes the place of an earlier one. -/
def attemptsById (rows : List FeedEventRecord) (attempts : FeedEvent → ℕ) (id : ℕ) : ℕ :=
  ((rows.reverse.find? (fun row ↦ row.id = id)).map (fun row ↦ attempts row.event)).getD 0

def partitionRetryAttempts (ids : List ℕ) (rows : List FeedEventRecord) (attempts : FeedEvent → ℕ)
    (budgetLen : ℕ) : RetryPartition where
  keys := (List.range budgetLen).filter (fun i ↦ ids.any (fun id ↦ attemptsById rows attempts id = i))
  bucket i := ids.filter (fun id ↦ attemptsById rows attempts id = i)
  exhausted := ids.filter (fun id ↦ budgetLen ≤ attemptsById rows attempts id)

/-- The writes for a partition; `none` is an index out of the backoff table. -/
def partitionWrites (input : GroupInput) (partition : RetryPartition)
    (deadLetter retry : UtcInstant → Transition) (delay : ℕ → Option ℕ) : Option (List Attempt) :=
  let dead := if partition.exhausted.isEmpty then []
    else [⟨partition.exhausted, deadLetter input.exhausted.now, input.exhausted.commit⟩]
  ((input.order partition.keys).mapM (fun i ↦ (delay i).map (fun nanos ↦
    Attempt.mk (partition.bucket i) (retry ((input.bucket i).now.saturatingAdd nanos))
      (input.bucket i).commit))).map (fun retries ↦ dead ++ retries)

section Group

variable (input : GroupInput) (rows : List FeedEventRecord)

def retryRegeneration (ids : List ℕ) (message : String) : Option (List Attempt) :=
  partitionWrites input
    (partitionRetryAttempts ids rows FeedEvent.regenerationAttempts regenBackoffsSecs.length)
    (.deadLetterRegeneration message) (.retryRegeneration message)
    (fun i ↦ regenBackoffsSecs[i]?.map (nanosInSecond * ·))

def retryPublication (ids : List ℕ) (message : String) (retryAfter : Option ℕ) :
    Option (List Attempt) :=
  partitionWrites input
    (partitionRetryAttempts ids rows FeedEvent.publicationAttempts publicationBackoffsSecs.length)
    (.deadLetterPublication message) (.retryPublication message)
    (fun i ↦
      match retryAfter with
      | none => publicationBackoffsSecs[i]?.map (nanosInSecond * ·)
      | some delay => some (min delay retryAfterLimit))

def settle (ids : List ℕ) (write : UtcInstant → Transition) : Option (List Attempt) :=
  some [⟨ids, write input.settled.now, input.settled.commit⟩]

def groupIds : List ℕ := rows.map FeedEventRecord.id

def regenerationIds : List ℕ :=
  (rows.filter (fun row ↦ row.event.phase = .regeneration)).map FeedEventRecord.id

/-- A stage of the processing gives up after some writes, or goes on. -/
abbrev Stage (α : Type) := Except (Option (List Attempt)) α

def snapshotForGroup : Stage PublisherSnapshot :=
  match input.snapshot with
  | some snapshot => .ok snapshot
  | none => .error (retryRegeneration input rows (groupIds rows) "publisher snapshot read failed")

def loadFeedRow : Stage FeedCacheRow :=
  if (regenerationIds rows).isEmpty then
    match input.cacheRead with
    | some (some row) => .ok row
    | some none => .error (settle input (groupIds rows) .resetRegeneration)
    | none => .error (retryRegeneration input rows (groupIds rows) "publication cache read failed")
  else
    match input.rendered with
    | .ok row => .ok row
    | .error message => .error (retryRegeneration input rows (regenerationIds rows) message)

def acquireGuard : Stage Unit :=
  if input.finalizationGuard then .ok ()
  else .error (retryRegeneration input rows (groupIds rows) "publisher finalization unavailable")

/-- The stage yields the writes that come before those of the publication. -/
def finalizeFeedGroup : Stage (List Attempt) :=
  if (regenerationIds rows).isEmpty then
    match input.isCurrent with
    | some true => .ok []
    | some false => .error (settle input (groupIds rows) .restartRegeneration)
    | none =>
      .error (retryRegeneration input rows (groupIds rows) "publisher generation check failed")
  else
    match input.commitCache with
    | some (.committed _) =>
      let mark := Attempt.mk (regenerationIds rows) (.markRegenerated input.marked.now)
        input.marked.commit
      if input.marked.commit.isConfirmed then .ok [mark] else .error (some [mark])
    | some .staleGeneration => .error (settle input (groupIds rows) .restartRegeneration)
    | none => .error (retryRegeneration input rows (groupIds rows) "cache commit failed")

def publishFeed (snapshot : PublisherSnapshot) : Option (List Attempt) :=
  match snapshot.feeds.websubHubUrl, snapshot.identity.baseUrl with
  | none, _ => settle input (groupIds rows) .markPinged
  | some _, none => retryRegeneration input rows (groupIds rows) "site.base_url is unset"
  | some _, some _ =>
    match input.sendPublish with
    | .ok () => settle input (groupIds rows) .markPinged
    | .error (.terminal reason) => settle input (groupIds rows) (.deadLetterPublication reason)
    | .error (.retryable reason retryAfter) =>
      retryPublication input rows (groupIds rows) reason retryAfter

/-- `process_feed_group`: its status writes in their order; `none` is a panic. -/
def processFeedGroup : Option (List Attempt) :=
  let stages : Stage (PublisherSnapshot × List Attempt) := do
    let snapshot ← snapshotForGroup input rows
    let _ ← loadFeedRow input rows
    acquireGuard input rows
    let writes ← finalizeFeedGroup input rows
    return (snapshot, writes)
  match stages with
  | .error writes => writes
  | .ok (snapshot, writes) => (publishFeed input rows snapshot).map (writes ++ ·)

end Group

section Budget

def attemptsIn : FeedEventPhase → FeedEvent → ℕ
  | .regeneration, e => e.regenerationAttempts
  | .publication, e => e.publicationAttempts

def budget : FeedEventPhase → ℕ
  | .regeneration => regenBackoffsSecs.length
  | .publication => publicationBackoffsSecs.length

/-- The phase whose budget a status write consumes. -/
def charged : Transition → Option FeedEventPhase
  | .retryRegeneration _ _ => some .regeneration
  | .deadLetterRegeneration _ _ => some .regeneration
  | .retryPublication _ _ => some .publication
  | .deadLetterPublication _ _ => some .publication
  | _ => none

def deadLetters : Transition → Bool
  | .deadLetterRegeneration _ _ => true
  | .deadLetterPublication _ _ => true
  | _ => false

/-- The one status write after which the row stays claimed. -/
def isMark : Transition → Bool
  | .markRegenerated _ => true
  | _ => false

def HubFailure (input : GroupInput) : Prop := ∃ e, input.sendPublish = .error e

def TerminalAnswer (input : GroupInput) : Prop :=
  ∃ reason, input.sendPublish = .error (.terminal reason)

/-- A charged row is dead-lettered exactly when its budget is exhausted or the answer is final. -/
def Budgeted (input : GroupInput) (rows : List FeedEventRecord) (a : Attempt) : Prop :=
  ∀ phase, charged a.write = some phase → ∀ id ∈ a.ids,
    (deadLetters a.write = true ↔
      budget phase ≤ attemptsById rows (attemptsIn phase) id ∨
        (phase = .publication ∧ TerminalAnswer input))

/-- Writes that release each target once and charge one phase at most. -/
structure Settles (input : GroupInput) (rows : List FeedEventRecord) (phase : FeedEventPhase)
    (targets : List ℕ) (writes : List Attempt) : Prop where
  within : ∀ a ∈ writes, ∀ id ∈ a.ids, id ∈ targets
  apart : writes.Pairwise (fun a c ↦ a.ids.Disjoint c.ids)
  releases : ∀ a ∈ writes, isMark a.write = false
  charges : ∀ a ∈ writes, ∀ p, charged a.write = some p → p = phase
  budgeted : ∀ a ∈ writes, Budgeted input rows a
  covered : ∀ id ∈ targets, ∃ a ∈ writes, id ∈ a.ids

/-- The publication row of a group whose rendering fails. -/
def LeftClaimed (input : GroupInput) (rows : List FeedEventRecord) (row : FeedEventRecord) : Prop :=
  row.event.phase = .publication ∧ regenerationIds rows ≠ [] ∧
    ∃ message, input.rendered = .error message

/-- What the status writes of a group do to its rows. -/
structure GroupSpec (input : GroupInput) (rows : List FeedEventRecord) (writes : List Attempt) :
    Prop where
  within : ∀ a ∈ writes, ∀ id ∈ a.ids, id ∈ groupIds rows
  apart : writes.Pairwise (fun a c ↦ isMark a.write = true ∨ a.ids.Disjoint c.ids)
  budgeted : ∀ a ∈ writes, Budgeted input rows a
  separate : (∃ a ∈ writes, charged a.write = some .publication) →
    HubFailure input ∧ ∀ a ∈ writes, charged a.write ≠ some .regeneration
  covered : (∀ a ∈ writes, a.commit.isConfirmed = true) → ∀ row ∈ rows,
    (∃ a ∈ writes, row.id ∈ a.ids ∧ isMark a.write = false) ∨
      (LeftClaimed input rows row ∧ ∀ a ∈ writes, row.id ∉ a.ids)

variable {input : GroupInput} {rows : List FeedEventRecord} {ids : List ℕ}
  {attempts : FeedEvent → ℕ} {budgetLen : ℕ}

theorem mapM_eq_some {α β : Type} {f : α → Option β} {g : α → β} {l : List α}
    (h : ∀ a ∈ l, f a = some (g a)) : l.mapM f = some (l.map g) := by
  induction l with
  | nil => rfl
  | cons a l ih =>
    rw [List.mapM_cons, h a List.mem_cons_self, ih (fun b hb ↦ h b (List.mem_cons_of_mem a hb))]
    rfl

theorem mem_keys {i : ℕ} : i ∈ (partitionRetryAttempts ids rows attempts budgetLen).keys ↔
    i < budgetLen ∧ ∃ id ∈ ids, attemptsById rows attempts id = i := by
  simp [partitionRetryAttempts]

theorem keys_nodup : (partitionRetryAttempts ids rows attempts budgetLen).keys.Nodup :=
  List.nodup_range.filter _

/-- The writes for a partition are one for the exhausted ids, if any, and one for each bucket. -/
structure Partitioned (input : GroupInput) (rows : List FeedEventRecord) (phase : FeedEventPhase)
    (ids : List ℕ) (deadLetter retry : UtcInstant → Transition) (writes : List Attempt) : Prop where
  cases : ∀ a ∈ writes,
    (a.ids = ids.filter (fun id ↦ budget phase ≤ attemptsById rows (attemptsIn phase) id) ∧
      ∃ now, a.write = deadLetter now) ∨
    ∃ i < budget phase, a.ids = ids.filter (fun id ↦ attemptsById rows (attemptsIn phase) id = i) ∧
      ∃ now, a.write = retry now
  apart : writes.Pairwise (fun a c ↦ a.ids.Disjoint c.ids)
  covered : ∀ id ∈ ids, ∃ a ∈ writes, id ∈ a.ids

theorem partitionWrites_partitioned (input : GroupInput) (rows : List FeedEventRecord)
    (phase : FeedEventPhase) (ids : List ℕ) (deadLetter retry : UtcInstant → Transition)
    {delay : ℕ → Option ℕ} (hdelay : ∀ i < budget phase, ∃ nanos, delay i = some nanos) :
    ∃ writes, partitionWrites input
        (partitionRetryAttempts ids rows (attemptsIn phase) (budget phase)) deadLetter retry delay =
          some writes ∧
      Partitioned input rows phase ids deadLetter retry writes := by
  set attempts := attemptsById rows (attemptsIn phase) with hattempts
  set keys := (partitionRetryAttempts ids rows (attemptsIn phase) (budget phase)).keys with hkeys
  have hmem : ∀ i, i ∈ input.order keys ↔ i < budget phase ∧ ∃ id ∈ ids, attempts id = i :=
    fun i ↦ (input.order_perm keys).mem_iff.trans mem_keys
  set exhausted := ids.filter (fun id ↦ budget phase ≤ attempts id) with hexhausted
  let retryAt : ℕ → Attempt := fun i ↦ ⟨ids.filter (fun id ↦ attempts id = i),
    retry ((input.bucket i).now.saturatingAdd ((delay i).getD 0)), (input.bucket i).commit⟩
  have hsome : ∀ i ∈ input.order keys, (delay i).map (fun nanos ↦ Attempt.mk
      ((partitionRetryAttempts ids rows (attemptsIn phase) (budget phase)).bucket i)
      (retry ((input.bucket i).now.saturatingAdd nanos)) (input.bucket i).commit) =
        some (retryAt i) := by
    intro i hi
    obtain ⟨nanos, hnanos⟩ := hdelay i ((hmem i).mp hi).1
    simp only [hnanos, Option.map_some, retryAt, Option.getD_some]
    rfl
  let dead : List Attempt := if exhausted.isEmpty then []
    else [⟨exhausted, deadLetter input.exhausted.now, input.exhausted.commit⟩]
  have hdead : ∀ a ∈ dead, a.ids = exhausted ∧ ∃ now, a.write = deadLetter now := by
    intro a ha
    simp only [dead] at ha
    split at ha
    · exact absurd ha (by simp)
    · rw [List.mem_singleton.mp ha]
      exact ⟨rfl, _, rfl⟩
  refine ⟨dead ++ (input.order keys).map retryAt, ?_, ⟨fun a ha ↦ ?_, ?_, fun id hid ↦ ?_⟩⟩
  · rw [partitionWrites, ← hkeys, mapM_eq_some hsome]
    rfl
  · rcases List.mem_append.mp ha with hold | hnew
    · exact Or.inl (hdead a hold)
    · obtain ⟨i, hi, rfl⟩ := List.mem_map.mp hnew
      exact Or.inr ⟨i, ((hmem i).mp hi).1, rfl, _, rfl⟩
  · refine List.pairwise_append.mpr ⟨?_, ?_, ?_⟩
    · simp only [dead]
      split
      · exact .nil
      · exact List.pairwise_singleton _ _
    · -- two buckets hold the ids of different numbers of attempts
      have hnodup : (input.order keys).Nodup := (input.order_perm keys).nodup_iff.mpr keys_nodup
      refine List.pairwise_map.mpr (hnodup.imp (fun {i j} hij id hi hj ↦ hij ?_))
      have hi' : attempts id = i := of_decide_eq_true (List.mem_filter.mp hi).2
      have hj' : attempts id = j := of_decide_eq_true (List.mem_filter.mp hj).2
      exact hi'.symm.trans hj'
    · intro a ha c hc id hida hidc
      obtain ⟨i, hi, rfl⟩ := List.mem_map.mp hc
      rw [(hdead a ha).1] at hida
      have hle : budget phase ≤ attempts id := of_decide_eq_true (List.mem_filter.mp hida).2
      have heq : attempts id = i := of_decide_eq_true (List.mem_filter.mp hidc).2
      exact absurd ((hmem i).mp hi).1 (not_lt.mpr (heq ▸ hle))
  · by_cases hbudget : budget phase ≤ attempts id
    · have hin : id ∈ exhausted := List.mem_filter.mpr ⟨hid, decide_eq_true hbudget⟩
      refine ⟨⟨exhausted, deadLetter input.exhausted.now, input.exhausted.commit⟩,
        List.mem_append_left _ ?_, hin⟩
      simp only [dead]
      rw [if_neg (by simpa using List.ne_nil_of_mem hin)]
      exact List.mem_singleton_self _
    · refine ⟨retryAt (attempts id), List.mem_append_right _ (List.mem_map_of_mem ?_),
        List.mem_filter.mpr ⟨hid, decide_eq_true rfl⟩⟩
      exact (hmem _).mpr ⟨not_le.mp hbudget, id, hid, rfl⟩

theorem Partitioned.settles {phase : FeedEventPhase} {deadLetter retry : UtcInstant → Transition}
    {writes : List Attempt} (h : Partitioned input rows phase ids deadLetter retry writes)
    (hdead : ∀ now, charged (deadLetter now) = some phase ∧ deadLetters (deadLetter now) = true ∧
      isMark (deadLetter now) = false)
    (hretry : ∀ now, charged (retry now) = some phase ∧ deadLetters (retry now) = false ∧
      isMark (retry now) = false)
    (hanswer : phase = .publication → ¬ TerminalAnswer input) :
    Settles input rows phase ids writes := by
  have hcharged : ∀ a ∈ writes, charged a.write = some phase ∧ isMark a.write = false := by
    intro a ha
    rcases h.cases a ha with ⟨-, now, hwrite⟩ | ⟨i, -, -, now, hwrite⟩
    · rw [hwrite]
      exact ⟨(hdead now).1, (hdead now).2.2⟩
    · rw [hwrite]
      exact ⟨(hretry now).1, (hretry now).2.2⟩
  refine ⟨fun a ha id hid ↦ ?_, h.apart, fun a ha ↦ (hcharged a ha).2, fun a ha p hp ↦ ?_,
    fun a ha p hp id hid ↦ ?_, h.covered⟩
  · rcases h.cases a ha with ⟨hids, -⟩ | ⟨i, -, hids, -⟩
    · exact (List.mem_filter.mp (hids ▸ hid)).1
    · exact (List.mem_filter.mp (hids ▸ hid)).1
  · exact Option.some_inj.mp (hp.symm.trans (hcharged a ha).1)
  · obtain rfl : p = phase := Option.some_inj.mp (hp.symm.trans (hcharged a ha).1)
    rcases h.cases a ha with ⟨hids, now, hwrite⟩ | ⟨i, hi, hids, now, hwrite⟩
    · rw [hids] at hid
      rw [hwrite, (hdead now).2.1]
      exact iff_of_true rfl (Or.inl (by simpa using (List.mem_filter.mp hid).2))
    · rw [hids] at hid
      have heq : attemptsById rows (attemptsIn p) id = i := by
        simpa using (List.mem_filter.mp hid).2
      rw [hwrite, (hretry now).2.1]
      refine iff_of_false (by simp) ?_
      rintro (hle | ⟨hpublication, hterminal⟩)
      · exact absurd hi (not_lt.mpr (heq ▸ hle))
      · exact hanswer hpublication hterminal

theorem retryRegeneration_settles (input : GroupInput) (rows : List FeedEventRecord) (ids : List ℕ)
    (message : String) : ∃ writes, retryRegeneration input rows ids message = some writes ∧
      Settles input rows .regeneration ids writes := by
  have hdelay : ∀ i < budget .regeneration, ∃ nanos,
      regenBackoffsSecs[i]?.map (nanosInSecond * ·) = some nanos := by
    intro i hi
    exact ⟨_, by rw [List.getElem?_eq_getElem hi]; rfl⟩
  obtain ⟨writes, hwrites, hpartitioned⟩ := partitionWrites_partitioned input rows .regeneration ids
    (.deadLetterRegeneration message) (.retryRegeneration message) hdelay
  exact ⟨writes, hwrites, hpartitioned.settles (fun _ ↦ ⟨rfl, rfl, rfl⟩) (fun _ ↦ ⟨rfl, rfl, rfl⟩)
    (by simp)⟩

theorem retryPublication_settles {reason : String} {retryAfter : Option ℕ}
    (hsend : input.sendPublish = .error (.retryable reason retryAfter))
    (rows : List FeedEventRecord) (ids : List ℕ) (message : String) :
    ∃ writes, retryPublication input rows ids message retryAfter = some writes ∧
      Settles input rows .publication ids writes := by
  have hdelay : ∀ i < budget .publication, ∃ nanos,
      (match retryAfter with
        | none => publicationBackoffsSecs[i]?.map (nanosInSecond * ·)
        | some delay => some (min delay retryAfterLimit)) = some nanos := by
    intro i hi
    cases retryAfter with
    | none => exact ⟨_, by rw [List.getElem?_eq_getElem hi]; rfl⟩
    | some delay => exact ⟨_, rfl⟩
  obtain ⟨writes, hwrites, hpartitioned⟩ := partitionWrites_partitioned input rows .publication ids
    (.deadLetterPublication message) (.retryPublication message) hdelay
  refine ⟨writes, hwrites, hpartitioned.settles (fun _ ↦ ⟨rfl, rfl, rfl⟩) (fun _ ↦ ⟨rfl, rfl, rfl⟩)
    (fun _ hterminal ↦ ?_)⟩
  obtain ⟨reason', hreason⟩ := hterminal
  exact absurd (hsend.symm.trans hreason) (by simp)

theorem settle_settles (rows : List FeedEventRecord) (phase : FeedEventPhase) (ids : List ℕ)
    {write : UtcInstant → Transition}
    (hrelease : ∀ now, isMark (write now) = false)
    (hcharge : ∀ now p, charged (write now) = some p → p = phase ∧ p = .publication ∧
      deadLetters (write now) = true ∧ TerminalAnswer input) :
    ∃ writes, settle input ids write = some writes ∧ Settles input rows phase ids writes := by
  refine ⟨_, rfl, ⟨fun a ha id hid ↦ ?_, List.pairwise_singleton _ _, fun a ha ↦ ?_,
    fun a ha p hp ↦ ?_, fun a ha p hp id _ ↦ ?_, fun id hid ↦ ⟨_, List.mem_singleton_self _, hid⟩⟩⟩
  · rw [List.mem_singleton.mp ha] at hid
    exact hid
  · rw [List.mem_singleton.mp ha]
    exact hrelease _
  · rw [List.mem_singleton.mp ha] at hp
    exact (hcharge _ p hp).1
  · rw [List.mem_singleton.mp ha] at hp ⊢
    obtain ⟨-, hpublication, hdead, hterminal⟩ := hcharge _ p hp
    exact iff_of_true hdead (Or.inr ⟨hpublication, hterminal⟩)

theorem settle_uncharged (input : GroupInput) (rows : List FeedEventRecord) (phase : FeedEventPhase)
    (ids : List ℕ) (write : UtcInstant → Transition)
    (h : ∀ now, isMark (write now) = false ∧ charged (write now) = none) :
    ∃ writes, settle input ids write = some writes ∧ Settles input rows phase ids writes :=
  settle_settles rows phase ids (fun now ↦ (h now).1)
    (fun now p hp ↦ absurd ((h now).2.symm.trans hp) (by simp))

/-- A publication settles the whole group, and charges its own phase only for a hub failure. -/
theorem publishFeed_settles (input : GroupInput) (rows : List FeedEventRecord)
    (snapshot : PublisherSnapshot) :
    ∃ writes phase, publishFeed input rows snapshot = some writes ∧
      Settles input rows phase (groupIds rows) writes ∧
        (phase = .publication → HubFailure input) := by
  have hpinged : ∃ writes phase, settle input (groupIds rows) .markPinged = some writes ∧
      Settles input rows phase (groupIds rows) writes ∧
        (phase = .publication → HubFailure input) := by
    obtain ⟨writes, hwrites, hsettles⟩ := settle_uncharged input rows .regeneration (groupIds rows)
      .markPinged (fun _ ↦ ⟨rfl, rfl⟩)
    exact ⟨writes, _, hwrites, hsettles, by simp⟩
  rw [publishFeed]
  split
  · exact hpinged
  · obtain ⟨writes, hwrites, hsettles⟩ :=
      retryRegeneration_settles input rows (groupIds rows) "site.base_url is unset"
    exact ⟨writes, _, hwrites, hsettles, by simp⟩
  · split
    · exact hpinged
    · rename_i reason hsend
      have hcharge : ∀ now p, charged (.deadLetterPublication reason now) = some p →
          p = .publication ∧ p = .publication ∧
            deadLetters (.deadLetterPublication reason now) = true ∧ TerminalAnswer input := by
        intro now p hp
        have hp' := (Option.some_inj.mp hp).symm
        exact ⟨hp', hp', rfl, reason, hsend⟩
      obtain ⟨writes, hwrites, hsettles⟩ :=
        settle_settles rows .publication (groupIds rows) (fun _ ↦ rfl) hcharge
      exact ⟨writes, _, hwrites, hsettles, fun _ ↦ ⟨_, hsend⟩⟩
    · rename_i reason retryAfter hsend
      obtain ⟨writes, hwrites, hsettles⟩ :=
        retryPublication_settles hsend rows (groupIds rows) reason
      exact ⟨writes, _, hwrites, hsettles, fun _ ↦ ⟨_, hsend⟩⟩

theorem Settles.groupSpec {phase : FeedEventPhase} {writes : List Attempt}
    (h : Settles input rows phase (groupIds rows) writes)
    (hfailure : phase = .publication → HubFailure input) : GroupSpec input rows writes := by
  refine ⟨h.within, h.apart.imp Or.inr, h.budgeted, ?_, fun _ row hrow ↦ Or.inl ?_⟩
  · rintro ⟨a, ha, hcharged⟩
    have hphase := h.charges a ha .publication hcharged
    exact ⟨hfailure hphase.symm, fun c hc hregeneration ↦
      absurd ((h.charges c hc _ hregeneration).trans hphase.symm) (by simp)⟩
  · obtain ⟨a, ha, hid⟩ := h.covered row.id (List.mem_map_of_mem hrow)
    exact ⟨a, ha, hid, h.releases a ha⟩

theorem regenerationIds_subset : ∀ id ∈ regenerationIds rows, id ∈ groupIds rows := by
  intro id hid
  obtain ⟨row, hrow, rfl⟩ := List.mem_map.mp hid
  exact List.mem_map_of_mem (List.mem_filter.mp hrow).1

/-- A failing rendering releases the regeneration rows and leaves the publication rows claimed. -/
theorem Settles.groupSpec_render (hnodup : (groupIds rows).Nodup) {writes : List Attempt}
    {message : String} (hids : regenerationIds rows ≠ [])
    (hrendered : input.rendered = .error message)
    (h : Settles input rows .regeneration (regenerationIds rows) writes) :
    GroupSpec input rows writes := by
  refine ⟨fun a ha id hid ↦ regenerationIds_subset id (h.within a ha id hid), h.apart.imp Or.inr,
    h.budgeted, ?_, fun _ row hrow ↦ ?_⟩
  · rintro ⟨a, ha, hcharged⟩
    exact absurd (h.charges a ha .publication hcharged) (by simp)
  · cases hphase : row.event.phase with
    | regeneration =>
      have hmem : row.id ∈ regenerationIds rows :=
        List.mem_map_of_mem (List.mem_filter.mpr ⟨hrow, decide_eq_true hphase⟩)
      obtain ⟨a, ha, hid⟩ := h.covered row.id hmem
      exact Or.inl ⟨a, ha, hid, h.releases a ha⟩
    | publication =>
      refine Or.inr ⟨⟨hphase, hids, message, hrendered⟩, fun a ha hid ↦ ?_⟩
      obtain ⟨row', hrow', heq⟩ := List.mem_map.mp (h.within a ha row.id hid)
      obtain ⟨hmem, hregeneration⟩ := List.mem_filter.mp hrow'
      rw [List.inj_on_of_nodup_map hnodup hmem hrow heq, decide_eq_true_eq, hphase] at hregeneration
      exact absurd hregeneration (by simp)

theorem not_charged_mark {ids : List ℕ} {now : UtcInstant} {commit : Commit} :
    charged (Attempt.mk ids (.markRegenerated now) commit).write = none := rfl

/-- The mark goes in front of what the publication writes. -/
theorem GroupSpec.mark {writes : List Attempt} (h : GroupSpec input rows writes)
    (hcovered : ∀ row ∈ rows, ∃ a ∈ writes, row.id ∈ a.ids ∧ isMark a.write = false)
    (now : UtcInstant) (commit : Commit) :
    GroupSpec input rows (⟨regenerationIds rows, .markRegenerated now, commit⟩ :: writes) := by
  refine ⟨?_, ?_, ?_, ?_, ?_⟩
  · intro a ha
    rcases List.mem_cons.mp ha with rfl | htail
    · exact regenerationIds_subset
    · exact h.within a htail
  · exact List.pairwise_cons.mpr ⟨fun _ _ ↦ Or.inl rfl, h.apart⟩
  · intro a ha
    rcases List.mem_cons.mp ha with rfl | htail
    · exact fun phase hcharged ↦ absurd (not_charged_mark.symm.trans hcharged) (by simp)
    · exact h.budgeted a htail
  · rintro ⟨a, ha, hcharged⟩
    rcases List.mem_cons.mp ha with rfl | htail
    · exact absurd (not_charged_mark.symm.trans hcharged) (by simp)
    · obtain ⟨hfailure, hother⟩ := h.separate ⟨a, htail, hcharged⟩
      refine ⟨hfailure, fun c hc ↦ ?_⟩
      rcases List.mem_cons.mp hc with rfl | hc
      · simp [charged]
      · exact hother c hc
  · intro _ row hrow
    obtain ⟨a, ha, hid⟩ := hcovered row hrow
    exact Or.inl ⟨a, List.mem_cons_of_mem _ ha, hid⟩

theorem groupSpec_unconfirmed {commit : Commit} (h : commit.isConfirmed = false) (now : UtcInstant) :
    GroupSpec input rows [⟨regenerationIds rows, .markRegenerated now, commit⟩] := by
  refine ⟨?_, List.pairwise_singleton _ _, ?_, ?_, ?_⟩
  · intro a ha
    rw [List.mem_singleton.mp ha]
    exact regenerationIds_subset
  · intro a ha phase hcharged
    rw [List.mem_singleton.mp ha] at hcharged
    exact absurd (not_charged_mark.symm.trans hcharged) (by simp)
  · rintro ⟨a, ha, hcharged⟩
    rw [List.mem_singleton.mp ha] at hcharged
    exact absurd (not_charged_mark.symm.trans hcharged) (by simp)
  · intro hconfirmed
    exact absurd ((hconfirmed _ (List.mem_singleton_self _)).symm.trans h) (by simp)

/-- A stage that gives up has settled the group, whatever its writes are. -/
def GivesUp {α : Type} (input : GroupInput) (rows : List FeedEventRecord) (stage : Stage α) : Prop :=
  ∀ result, stage = .error result → ∃ writes, result = some writes ∧ GroupSpec input rows writes

theorem GivesUp.ok {α : Type} (a : α) : GivesUp input rows (.ok a : Stage α) :=
  fun _ h ↦ absurd h (by simp)

theorem GivesUp.error {α : Type} {result : Option (List Attempt)}
    (h : ∃ writes, result = some writes ∧ GroupSpec input rows writes) :
    GivesUp input rows (.error result : Stage α) := by
  intro result' heq
  rw [← Except.error.inj heq]
  exact h

theorem GivesUp.retryRegeneration {α : Type} (message : String) :
    GivesUp input rows
      (.error (retryRegeneration input rows (groupIds rows) message) : Stage α) := by
  obtain ⟨writes, hwrites, hsettles⟩ := retryRegeneration_settles input rows (groupIds rows) message
  exact .error ⟨writes, hwrites, hsettles.groupSpec (by simp)⟩

theorem GivesUp.settle {α : Type} {write : UtcInstant → Transition}
    (h : ∀ now, isMark (write now) = false ∧ charged (write now) = none) :
    GivesUp input rows (.error (settle input (groupIds rows) write) : Stage α) := by
  obtain ⟨writes, hwrites, hsettles⟩ :=
    settle_uncharged input rows .regeneration (groupIds rows) write h
  exact .error ⟨writes, hwrites, hsettles.groupSpec (by simp)⟩

theorem snapshotForGroup_givesUp : GivesUp input rows (snapshotForGroup input rows) := by
  rw [snapshotForGroup]
  split
  · exact .ok _
  · exact .retryRegeneration _

theorem loadFeedRow_givesUp (hnodup : (groupIds rows).Nodup) :
    GivesUp input rows (loadFeedRow input rows) := by
  rw [loadFeedRow]
  split
  · split
    · exact .ok _
    · exact .settle (fun _ ↦ ⟨rfl, rfl⟩)
    · exact .retryRegeneration _
  · rename_i hids
    split
    · exact .ok _
    · rename_i message hrendered
      obtain ⟨writes, hwrites, hsettles⟩ :=
        retryRegeneration_settles input rows (regenerationIds rows) message
      exact .error ⟨writes, hwrites, hsettles.groupSpec_render hnodup (by simpa using hids) hrendered⟩

theorem acquireGuard_givesUp : GivesUp input rows (acquireGuard input rows) := by
  rw [acquireGuard]
  split
  · exact .ok _
  · exact .retryRegeneration _

theorem finalizeFeedGroup_givesUp : GivesUp input rows (finalizeFeedGroup input rows) := by
  rw [finalizeFeedGroup]
  split
  · split
    · exact .ok _
    · exact .settle (fun _ ↦ ⟨rfl, rfl⟩)
    · exact .retryRegeneration _
  · split
    · split
      · exact .ok _
      · rename_i hunconfirmed
        exact .error ⟨_, rfl, groupSpec_unconfirmed (Bool.eq_false_iff.mpr hunconfirmed) _⟩
    · exact .settle (fun _ ↦ ⟨rfl, rfl⟩)
    · exact .retryRegeneration _

theorem finalizeFeedGroup_ok {writes : List Attempt} (h : finalizeFeedGroup input rows = .ok writes) :
    writes = [] ∨ ∃ now commit,
      writes = [⟨regenerationIds rows, .markRegenerated now, commit⟩] := by
  rw [finalizeFeedGroup] at h
  split at h
  · split at h
    · exact Or.inl (Except.ok.inj h).symm
    · exact absurd h (by simp)
    · exact absurd h (by simp)
  · split at h
    · split at h
      · exact Or.inr ⟨_, _, (Except.ok.inj h).symm⟩
      · exact absurd h (by simp)
    · exact absurd h (by simp)
    · exact absurd h (by simp)

/-- The processing of a group never panics, and its writes keep to the specification. -/
theorem processFeedGroup_spec (input : GroupInput) (hnodup : (groupIds rows).Nodup) :
    ∃ writes, processFeedGroup input rows = some writes ∧ GroupSpec input rows writes := by
  simp only [processFeedGroup, bind, Except.bind, pure, Except.pure]
  cases hsnapshot : snapshotForGroup input rows with
  | error result => exact snapshotForGroup_givesUp result hsnapshot
  | ok snapshot =>
    cases hload : loadFeedRow input rows with
    | error result => exact loadFeedRow_givesUp hnodup result hload
    | ok row =>
      cases hguard : acquireGuard input rows with
      | error result => exact acquireGuard_givesUp result hguard
      | ok =>
        cases hfinalize : finalizeFeedGroup input rows with
        | error result => exact finalizeFeedGroup_givesUp result hfinalize
        | ok before =>
          obtain ⟨writes, phase, hwrites, hsettles, hfailure⟩ :=
            publishFeed_settles input rows snapshot
          have hspec := hsettles.groupSpec hfailure
          refine ⟨before ++ writes, by simp only [hwrites, Option.map_some], ?_⟩
          rcases finalizeFeedGroup_ok hfinalize with rfl | ⟨now, commit, rfl⟩
          · exact hspec
          · refine hspec.mark (fun row hrow ↦ ?_) now commit
            obtain ⟨a, ha, hid⟩ := hsettles.covered row.id (List.mem_map_of_mem hrow)
            exact ⟨a, ha, hid, hsettles.releases a ha⟩

end Budget

end Jaunder.Server.FeedWorker
