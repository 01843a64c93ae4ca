import Jaunder.Foundation.FreeName
import Jaunder.Storage.Migrations.ActivePostSlugUniqueness

namespace Jaunder.Storage.Migrations.SlugAllocation

open Foundation.FreeName Foundation.RecursiveQuery
open Jaunder.Common.Slug
open Jaunder.Storage.Migrations.ActivePostSlugUniqueness Jaunder.Storage.Posts.Tables

section Candidates

variable {u : Unicode} {slug : String} {k : ℕ}

theorem isDigit_of_mem_attemptText {c : Char} (h : c ∈ attemptText k) : c.isDigit :=
  Nat.isDigit_of_mem_toDigits (by decide) (by decide) h

theorem attemptText_injective : Function.Injective attemptText := by
  intro j k h
  have htext := congrArg (fun text ↦ Nat.ofDigitChars 10 text 0) h
  simpa only [attemptText, Nat.ofDigitChars_ten_toDigits] using htext

theorem hyphen_notMem_attemptText : '-' ∉ attemptText k := by
  intro h
  have hdigit := isDigit_of_mem_attemptText h
  revert hdigit
  decide

theorem candidateSlug_injective (slug : String) : Function.Injective (candidateSlug slug) := by
  intro j k h
  exact attemptText_injective
    (suffix_injective hyphen_notMem_attemptText hyphen_notMem_attemptText h)

theorem length_attemptText_le (h : k < 10 ^ 78) : (attemptText k).length ≤ 78 :=
  (Nat.length_toDigits_le_iff (by decide) (by decide)).mpr h

theorem length_candidateSlug_le (h : k < 10 ^ 78) : (candidateSlug slug k).length ≤ 80 := by
  have hattempt := length_attemptText_le h
  have hstem := (List.rdropWhile_prefix (· = '-')
    (slug.toList.take (80 - (attemptText k).length - 1))).length_le
  have htake := List.length_take_le (80 - (attemptText k).length - 1) slug.toList
  unfold candidateSlug
  rw [List.length_append, List.length_cons]
  omega

/-- A candidate has the form of a slug. -/
theorem isSlug_candidateSlug (hu : u.Documented) (h : IsSlug u slug.toList) (hk : k < 10 ^ 78) :
    IsSlug u (candidateSlug slug k) := by
  have hattempt := length_attemptText_le hk
  refine isSlug_numbered hu h ?_ (fun d hd ↦ isDigit_of_mem_attemptText hd) ?_
  · omega
  · unfold maxSlugChars
    omega

theorem length_toDigits_le {n : ℕ} (h : n < 10 ^ 19) : (Nat.toDigits 10 n).length ≤ 19 :=
  (Nat.length_toDigits_le_iff (by decide) (by decide)).mpr h

theorem length_userId_le {userId : ℤ} (hlow : -2 ^ 63 ≤ userId) (hhigh : userId < 2 ^ 63) :
    (toString userId).toList.length ≤ 20 := by
  cases userId with
  | ofNat n =>
    rw [Int.ofNat_eq_natCast] at hhigh
    have hdigits := length_toDigits_le (n := n) (by omega)
    have htext : (toString (Int.ofNat n)).toList = Nat.toDigits 10 n := Nat.toList_repr
    rw [htext]
    omega
  | negSucc n =>
    have hdigits := length_toDigits_le (n := n + 1) (by omega)
    have htext : (toString (Int.negSucc n)).toList = '-' :: Nat.toDigits 10 (n + 1) := by
      change ("-" ++ (n + 1).repr).toList = _
      rw [String.toList_append, Nat.toList_repr]
      rfl
    rw [htext, List.length_cons]
    omega

end Candidates

section Available

variable {s : PostTables} {userId : ℤ} {assigned candidate : List Char}

theorem available_iff : available s userId assigned candidate = true ↔
    (∀ e ∈ active s, e.2.userId = userId → e.2.slug.toList ≠ candidate) ∧
      ¬ '|' :: assignment userId candidate <:+: assigned := by
  unfold available
  simp [List.any_eq_true]

theorem assignment_injective (userId : ℤ) : Function.Injective (assignment userId) := by
  intro a b h
  unfold assignment at h
  rw [List.append_assoc, List.append_assoc] at h
  have hslug := List.append_cancel_left h
  rw [List.cons_append, List.cons_append] at hslug
  exact List.append_cancel_right (List.cons.inj hslug).2

/-- How many candidates a repair may have to try. -/
def attemptBound (s : PostTables) (assigned : List Char) : ℕ :=
  (active s).length + (assigned.length + 1) ^ 2 + 1

theorem exists_available (s : PostTables) (userId : ℤ) (assigned : List Char) (slug : String) :
    ∃ k, 1 ≤ k ∧ k ≤ attemptBound s assigned ∧
      available s userId assigned (candidateSlug slug k) = true := by
  have hinjective : Function.Injective
      (fun k ↦ '|' :: assignment userId (candidateSlug slug k)) := by
    intro j k h
    exact candidateSlug_injective slug (assignment_injective userId (List.cons.inj h).2)
  let taken := (active s).map (fun e ↦ '|' :: assignment userId e.2.slug.toList) ++ infixes assigned
  obtain ⟨k, hpos, hle, hfree⟩ := exists_free hinjective taken
  have hlength : taken.length ≤ (active s).length + (assigned.length + 1) ^ 2 := by
    rw [List.length_append, List.length_map]
    exact Nat.add_le_add_left (length_infixes_le assigned) _
  refine ⟨k, hpos, ?_, available_iff.mpr ⟨fun e he _ hslug ↦ hfree ?_, fun hmarked ↦ hfree ?_⟩⟩
  · unfold attemptBound
    omega
  · exact List.mem_append_left _ (List.mem_map.mpr ⟨e, he, by rw [hslug]⟩)
  · exact List.mem_append_right _ (mem_infixes.mpr hmarked)

end Available

section Steps

variable {s : PostTables} {queue : List QueuedRepair} {q : QueuedRepair}
  {i attempt k : ℕ} {assigned candidate : List Char} {accepted : Option Accepted}

theorem nextRow_candidate (hq : queuedAt queue i = some q) :
    nextRow s queue (.candidate i attempt assigned (some candidate) accepted) =
      some (.decision i attempt assigned candidate
        (available s q.userId assigned candidate)) := by
  rw [nextRow, hq]
  rfl

theorem nextRow_candidate_end (hq : queuedAt queue i = none) {candidate : Option (List Char)} :
    nextRow s queue (.candidate i attempt assigned candidate accepted) = none := by
  rw [nextRow, hq]
  rfl

def firstCandidate (queue : List QueuedRepair) (i : ℕ) : Option (List Char) :=
  (queuedAt queue i).map (fun next ↦ candidateSlug next.oldSlug 1)

theorem nextRow_accept (hq : queuedAt queue i = some q) :
    nextRow s queue (.decision i attempt assigned candidate true) =
      some (.candidate (i + 1) 1 (assigned ++ assignment q.userId candidate)
        (firstCandidate queue (i + 1)) (some ⟨q, candidate⟩)) := by
  rw [nextRow, hq]
  rfl

theorem nextRow_retry (hq : queuedAt queue i = some q) :
    nextRow s queue (.decision i attempt assigned candidate false) =
      some (.candidate i (attempt + 1) assigned
        (some (candidateSlug q.oldSlug (attempt + 1))) none) := by
  rw [nextRow, hq]
  rfl

/-- The rows of one repair, from one of its candidates to the first one that is available. -/
theorem steps_repair (hq : queuedAt queue i = some q) (hle : attempt ≤ k)
    (hfree : available s q.userId assigned (candidateSlug q.oldSlug k) = true)
    (htaken : ∀ j, attempt ≤ j → j < k →
      available s q.userId assigned (candidateSlug q.oldSlug j) = false)
    (accepted : Option Accepted) : ∃ rows,
      Steps (nextRow s queue)
        (.candidate i attempt assigned (some (candidateSlug q.oldSlug attempt)) accepted) rows
        (.candidate (i + 1) 1 (assigned ++ assignment q.userId (candidateSlug q.oldSlug k))
          (firstCandidate queue (i + 1)) (some ⟨q, candidateSlug q.oldSlug k⟩)) ∧
      rows.filterMap AllocationRow.accepted = accepted.toList := by
  obtain ⟨n, rfl⟩ := Nat.exists_eq_add_of_le hle
  induction n generalizing attempt accepted with
  | zero =>
    refine ⟨_, .head (nextRow_candidate hq) (.head ?_ (.refl _)), ?_⟩
    · rw [Nat.add_zero] at hfree ⊢
      rw [hfree]
      exact nextRow_accept hq
    · cases accepted <;> rfl
  | succ n ih =>
    have hnext : attempt + 1 + n = attempt + (n + 1) := by omega
    obtain ⟨rows, hsteps, hrows⟩ := ih none (by omega) (by rwa [hnext])
      (fun j hj hlt ↦ htaken j (by omega) (by omega))
    rw [hnext] at hsteps
    refine ⟨_, .head (nextRow_candidate hq) (.head ?_ hsteps), ?_⟩
    · rw [htaken attempt le_rfl (by omega)]
      exact nextRow_retry hq
    · rw [List.filterMap_cons, List.filterMap_cons, hrows]
      cases accepted <;> rfl

/-- What the recursive statement gives to the repairs that are left. -/
inductive Allocates (s : PostTables) : List Char → List QueuedRepair → List Accepted → Prop
  | nil (assigned : List Char) : Allocates s assigned [] []
  | cons {assigned : List Char} {q : QueuedRepair} {rest : List QueuedRepair}
      {out : List Accepted} {k : ℕ} (pos : 1 ≤ k) (bound : k ≤ attemptBound s assigned)
      (free : available s q.userId assigned (candidateSlug q.oldSlug k) = true)
      (taken : ∀ j, 1 ≤ j → j < k →
        available s q.userId assigned (candidateSlug q.oldSlug j) = false)
      (tail : Allocates s (assigned ++ assignment q.userId (candidateSlug q.oldSlug k)) rest out) :
      Allocates s assigned (q :: rest) (⟨q, candidateSlug q.oldSlug k⟩ :: out)

theorem exists_allocates (s : PostTables) (assigned : List Char) (queue : List QueuedRepair) :
    ∃ out, Allocates s assigned queue out := by
  induction queue generalizing assigned with
  | nil => exact ⟨[], .nil assigned⟩
  | cons q rest ih =>
    have hexists := exists_available s q.userId assigned q.oldSlug
    obtain ⟨hpos, hle, hfree⟩ := Nat.find_spec hexists
    obtain ⟨out, hout⟩ := ih (assigned ++
      assignment q.userId (candidateSlug q.oldSlug (Nat.find hexists)))
    refine ⟨_, .cons hpos hle hfree (fun j hj hlt ↦ ?_) hout⟩
    rw [Bool.eq_false_iff]
    exact fun hfree' ↦ Nat.find_min hexists hlt ⟨hj, by omega, hfree'⟩

/-- From the first candidate of a repair on, the rest of the queue is served. -/
theorem Allocates.steps {rest done : List QueuedRepair} {out : List Accepted}
    (h : Allocates s assigned rest out) (hqueue : queue = done ++ rest) (accepted : Option Accepted) :
    ∃ rows last, Steps (nextRow s queue)
        (.candidate (done.length + 1) 1 assigned (firstCandidate queue (done.length + 1)) accepted)
        rows last ∧ nextRow s queue last = none ∧
      (rows ++ [last]).filterMap AllocationRow.accepted = accepted.toList ++ out := by
  induction h generalizing done accepted with
  | nil assigned =>
    have hend : queuedAt queue (done.length + 1) = none := by
      rw [hqueue, List.append_nil, queuedAt, Nat.add_sub_cancel]
      exact List.getElem?_eq_none le_rfl
    refine ⟨[], _, .refl _, nextRow_candidate_end hend, ?_⟩
    cases accepted <;> rfl
  | @cons assigned q rest out k pos bound free taken tail ih =>
    have hq : queuedAt queue (done.length + 1) = some q := by
      rw [hqueue, queuedAt, Nat.add_sub_cancel, List.getElem?_append_right le_rfl, Nat.sub_self]
      rfl
    have hfirst : firstCandidate queue (done.length + 1) = some (candidateSlug q.oldSlug 1) := by
      rw [firstCandidate, hq]
      rfl
    obtain ⟨rows, hsteps, hrows⟩ := steps_repair hq pos free taken accepted
    obtain ⟨rows', last, hsteps', hend, hrows'⟩ := @ih (done ++ [q])
      (by rw [hqueue, List.append_assoc]; rfl) (some ⟨q, candidateSlug q.oldSlug k⟩)
    rw [List.length_append, List.length_singleton] at hsteps'
    rw [hfirst]
    refine ⟨rows ++ rows', last, hsteps.trans hsteps', hend, ?_⟩
    rw [List.append_assoc, List.filterMap_append, hrows, hrows']
    rfl

/-- The recursive statement comes to its end, with one accepted row for each queued repair. -/
theorem allocation_completes {out : List Accepted} (h : Allocates s ['|'] queue out) :
    ∃ fuel₀, ∀ fuel, fuel₀ ≤ fuel → ∃ rows, allocation s queue fuel = some rows ∧
      rows.filterMap AllocationRow.accepted = out := by
  cases queue with
  | nil =>
    cases h
    exact ⟨0, fun fuel _ ↦ ⟨[], rfl, rfl⟩⟩
  | cons q rest =>
    obtain ⟨rows, last, hsteps, hend, hrows⟩ := @Allocates.steps s _ _ _ [] _ h rfl none
    refine ⟨rows.length + 1, fun fuel hfuel ↦ ⟨rows ++ [last], ?_, hrows⟩⟩
    exact hsteps.recursiveQuery hend hfuel

end Steps

section Names

variable {s : PostTables} {queue : List QueuedRepair} {assigned : List Char} {out : List Accepted}
  {a : Accepted}

theorem Allocates.repairs (h : Allocates s assigned queue out) :
    out.map Accepted.repair = queue := by
  induction h with
  | nil assigned => rfl
  | cons pos bound free taken tail ih => rw [List.map_cons, ih]

theorem Allocates.free (h : Allocates s assigned queue out) (ha : a ∈ out) :
    (∀ e ∈ active s, e.2.userId = a.repair.userId → e.2.slug.toList ≠ a.newSlug) ∧
      ¬ '|' :: assignment a.repair.userId a.newSlug <:+: assigned := by
  induction h with
  | nil assigned => cases ha
  | @cons assigned q rest out k pos bound free taken tail ih =>
    rcases List.mem_cons.mp ha with rfl | ha
    · exact available_iff.mp free
    · obtain ⟨hactive, hassigned⟩ := ih ha
      exact ⟨hactive, fun hmarked ↦ hassigned (hmarked.trans ⟨[], _, rfl⟩)⟩

/-- No user gets a slug twice. -/
theorem Allocates.distinct (h : Allocates s assigned queue out) (hend : ['|'] <:+ assigned) :
    out.Pairwise (fun a b ↦ a.repair.userId = b.repair.userId → a.newSlug ≠ b.newSlug) := by
  induction h with
  | nil assigned => exact .nil
  | @cons assigned q rest out k pos bound free taken tail ih =>
    refine List.pairwise_cons.mpr ⟨fun b hb huser hslug ↦ ?_, ih ⟨_, List.append_assoc _ _ _⟩⟩
    refine (tail.free hb).2 ?_
    obtain ⟨front, rfl⟩ := hend
    refine ⟨front, [], ?_⟩
    rw [← huser, ← hslug]
    simp

/-- The candidates stay in the range in which they are slugs. -/
theorem Allocates.attempts {bound : ℕ} (h : Allocates s assigned queue out)
    (husers : ∀ q ∈ queue, -2 ^ 63 ≤ q.userId ∧ q.userId < 2 ^ 63)
    (hassigned : assigned.length + 102 * queue.length ≤ bound)
    (hbound : (active s).length + (bound + 1) ^ 2 + 1 < 10 ^ 78) :
    ∀ a ∈ out, ∃ k, k < 10 ^ 78 ∧ a.newSlug = candidateSlug a.repair.oldSlug k := by
  induction h with
  | nil assigned =>
    intro a ha
    cases ha
  | @cons assigned q rest out k pos hk free taken tail ih =>
    rw [List.length_cons] at hassigned
    have hsquare : (assigned.length + 1) ^ 2 ≤ (bound + 1) ^ 2 :=
      Nat.pow_le_pow_left (by omega) 2
    have hlt : k < 10 ^ 78 := by
      unfold attemptBound at hk
      omega
    obtain ⟨hlow, hhigh⟩ := husers q List.mem_cons_self
    have huser := length_userId_le hlow hhigh
    have hslug := @length_candidateSlug_le q.oldSlug k hlt
    intro a ha
    rcases List.mem_cons.mp ha with rfl | ha
    · exact ⟨k, hlt, rfl⟩
    · refine ih (fun q hq ↦ husers q (List.mem_cons_of_mem _ hq)) ?_ a ha
      unfold assignment
      rw [List.length_append, List.length_append, List.length_append, List.length_cons,
        List.length_singleton]
      omega

end Names

end Jaunder.Storage.Migrations.SlugAllocation
