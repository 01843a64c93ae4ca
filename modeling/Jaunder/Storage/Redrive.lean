import Jaunder.Storage.FeedEvents

namespace Jaunder.Storage.Redrive

open Foundation.Rows
open Jaunder.Common.Time
open Jaunder.Storage.Dialect Jaunder.Storage.FeedEvents

inductive RedriveResult
  | redriven
  | rejected
  | database
deriving DecidableEq

/-- Which of the two statements of a redrive the database refuses. -/
structure Refused where
  count : Bool
  update : Bool

variable (b : Backend)

/-- The statements of `redrive_dead_letters`, with the table as they leave it to the commit or the
rollback of the transaction. -/
def redriveStatements (refused : Refused) (ids : List ℕ) (now : UtcInstant) (t : FeedEventTable) :
    RedriveResult × FeedEventTable :=
  let failedCutoff := failedEventCutoff now
  if ids.isEmpty then (.rejected, t)
  else if refused.count then (.database, t)
  else if (t.rows.filter (fun r ↦ redrivable b failedCutoff r.2 ∧ r.1 ∈ ids)).length ≠
      ids.length then (.rejected, t)
  else if refused.update then (.database, t)
  else if (t.rows.filter (fun r ↦ r.1 ∈ ids)).length ≠ ids.length then
    (.rejected, t.update ids (redriven now))
  else (.redriven, t.update ids (redriven now))

/-- An eligible row: a dead letter that the retention still keeps. -/
def Eligible (now : UtcInstant) (t : FeedEventTable) (id : ℕ) : Prop :=
  ∃ e, t.get? id = some e ∧ redrivable b (failedEventCutoff now) e = true

/-- A dead letter put back to work: of the counters and the diagnostics, those of the phase that
failed are reset. -/
structure Reset (now : UtcInstant) (e e' : FeedEvent) : Prop where
  status : e'.status = .pending
  failedRegeneration : e.phase = .regeneration →
    e'.regenerationAttempts = 0 ∧ e'.regenerationDiagnostic = none
  otherRegeneration : e.phase ≠ .regeneration →
    e'.regenerationAttempts = e.regenerationAttempts ∧
      e'.regenerationDiagnostic = e.regenerationDiagnostic
  failedPublication : e.phase = .publication →
    e'.publicationAttempts = 0 ∧ e'.publicationDiagnostic = none
  otherPublication : e.phase ≠ .publication →
    e'.publicationAttempts = e.publicationAttempts ∧
      e'.publicationDiagnostic = e.publicationDiagnostic
  due : e'.nextAttemptAt = .bound now ∧ e'.claimedAt = none ∧ e'.terminalAt = none
  kept : e'.feedUrl = e.feedUrl ∧ e'.phase = e.phase ∧ e'.createdAt = e.createdAt ∧
    e'.regeneratedAt = e.regeneratedAt ∧ e'.pingedAt = e.pingedAt

variable {b}

theorem reset_redriven (now : UtcInstant) (e : FeedEvent) : Reset now e (redriven now e) where
  status := rfl
  failedRegeneration := fun h ↦ ⟨if_pos h, if_pos h⟩
  otherRegeneration := fun h ↦ ⟨if_neg h, if_neg h⟩
  failedPublication := fun h ↦ ⟨if_pos h, if_pos h⟩
  otherPublication := fun h ↦ ⟨if_neg h, if_neg h⟩
  due := ⟨rfl, rfl, rfl⟩
  kept := ⟨rfl, rfl, rfl, rfl, rfl⟩

theorem count_rows_eq {ids : List ℕ} {t : FeedEventTable} (hnodup : ids.Nodup)
    (hall : ∀ id ∈ ids, ∃ e, t.get? id = some e) :
    (t.rows.filter (fun r ↦ r.1 ∈ ids)).length = ids.length := by
  have hcount := (IdTable.count_eq_iff ids (P := fun _ ↦ true)).mpr
    ⟨hnodup, fun id hid ↦ (hall id hid).imp (fun _ he ↦ ⟨he, rfl⟩)⟩
  simpa only [true_and] using hcount

/-- The second count of a redrive agrees with the first: an update never has to be taken back. -/
theorem redriveStatements_eq (refused : Refused) (ids : List ℕ) (now : UtcInstant)
    (t : FeedEventTable) :
    redriveStatements b refused ids now t =
      if ids.isEmpty then (.rejected, t)
      else if refused.count then (.database, t)
      else if (t.rows.filter (fun r ↦ redrivable b (failedEventCutoff now) r.2 ∧
        r.1 ∈ ids)).length ≠ ids.length then (.rejected, t)
      else if refused.update then (.database, t)
      else (.redriven, t.update ids (redriven now)) := by
  simp only [redriveStatements]
  by_cases hcount : (t.rows.filter (fun r ↦ redrivable b (failedEventCutoff now) r.2 ∧
      r.1 ∈ ids)).length = ids.length
  · obtain ⟨hnodup, hall⟩ := (IdTable.count_eq_iff ids).mp hcount
    have hrows := count_rows_eq hnodup (fun id hid ↦ (hall id hid).imp (fun _ he ↦ he.1))
    rw [if_neg (not_not_intro hrows)]
  · simp only [ne_eq, hcount, not_false_eq_true, ↓reduceIte]

/-- What the commit or the rollback leaves is what `redriveDeadLetters` says. -/
theorem redriveStatements_commits (ids : List ℕ) (now : UtcInstant) (t : FeedEventTable) :
    redriveStatements b ⟨false, false⟩ ids now t =
      match redriveDeadLetters b ids now t with
      | some t' => (.redriven, t')
      | none => (.rejected, t) := by
  rw [redriveStatements_eq]
  simp only [redriveDeadLetters, Bool.false_eq_true, ↓reduceIte]
  by_cases hempty : ids.isEmpty = true
  · rw [if_pos hempty, if_pos hempty]
  rw [if_neg hempty, if_neg hempty]
  by_cases hcount : (t.rows.filter (fun r ↦ redrivable b (failedEventCutoff now) r.2 ∧
      r.1 ∈ ids)).length = ids.length
  · obtain ⟨hnodup, hall⟩ := (IdTable.count_eq_iff ids).mp hcount
    have hrows := count_rows_eq hnodup (fun id hid ↦ (hall id hid).imp (fun _ he ↦ he.1))
    rw [if_neg (not_not_intro hcount), if_neg (not_not_intro hcount),
      if_neg (not_not_intro hrows)]
  · rw [if_pos hcount, if_pos hcount]

theorem redriven_iff (ids : List ℕ) (now : UtcInstant) (t : FeedEventTable) (refused : Refused) :
    (redriveStatements b refused ids now t).1 = .redriven ↔
      (refused.count = false ∧ refused.update = false) ∧
        ids ≠ [] ∧ ids.Nodup ∧ ∀ id ∈ ids, Eligible b now t id := by
  rw [redriveStatements_eq, ← List.isEmpty_eq_false_iff]
  have hcount := IdTable.count_eq_iff ids (t := t)
    (P := redrivable b (failedEventCutoff now))
  constructor
  · intro h
    split_ifs at h with hempty hrefused hne hrefused'
    exact ⟨⟨Bool.eq_false_iff.mpr hrefused, Bool.eq_false_iff.mpr hrefused'⟩,
      Bool.eq_false_iff.mpr hempty, hcount.mp (not_not.mp hne)⟩
  · rintro ⟨⟨hrefused, hrefused'⟩, hempty, hall⟩
    rw [if_neg (Bool.eq_false_iff.mp hempty), if_neg (Bool.eq_false_iff.mp hrefused),
      if_neg (not_not_intro (hcount.mpr hall)), if_neg (Bool.eq_false_iff.mp hrefused')]

theorem redriveStatements_snd (ids : List ℕ) (now : UtcInstant) (t : FeedEventTable)
    (refused : Refused) :
    (redriveStatements b refused ids now t).2 =
      if (redriveStatements b refused ids now t).1 = .redriven then t.update ids (redriven now)
      else t := by
  rw [redriveStatements_eq]
  by_cases hempty : ids.isEmpty = true
  · rw [if_pos hempty]
    rfl
  rw [if_neg hempty]
  by_cases hrefused : refused.count = true
  · rw [if_pos hrefused]
    rfl
  rw [if_neg hrefused]
  by_cases hcount : (t.rows.filter (fun r ↦ redrivable b (failedEventCutoff now) r.2 ∧
      r.1 ∈ ids)).length ≠ ids.length
  · rw [if_pos hcount]
    rfl
  rw [if_neg hcount]
  by_cases hrefused' : refused.update = true
  · rw [if_pos hrefused']
    rfl
  · rw [if_neg hrefused']
    rfl

/-- A redrive makes every named dead letter pending, or it ends with an error and has changed no
row, and with statements that the database takes it is the choice of the ids that decides. -/
theorem redrive_all_or_nothing (b : Backend) (refused : Refused) (ids : List ℕ) (now : UtcInstant)
    (t : FeedEventTable) :
    (((redriveStatements b refused ids now t).1 = .redriven ∧ (∀ id ∈ ids, ∃ e e',
        t.get? id = some e ∧ redrivable b (failedEventCutoff now) e = true ∧
          (redriveStatements b refused ids now t).2.get? id = some e' ∧ Reset now e e') ∧
        ∀ id ∉ ids, (redriveStatements b refused ids now t).2.get? id = t.get? id) ∨
      ((redriveStatements b refused ids now t).1 ≠ .redriven ∧
        (redriveStatements b refused ids now t).2 = t)) ∧
      ((redriveStatements b ⟨false, false⟩ ids now t).1 = .redriven ↔
        ids ≠ [] ∧ ids.Nodup ∧ ∀ id ∈ ids, Eligible b now t id) := by
  refine ⟨?_, (redriven_iff ids now t _).trans (and_iff_right ⟨rfl, rfl⟩)⟩
  by_cases hresult : (redriveStatements b refused ids now t).1 = .redriven
  · have hafter := redriveStatements_snd (b := b) ids now t refused
    rw [if_pos hresult] at hafter
    refine .inl ⟨hresult, fun id hid ↦ ?_, fun id hid ↦ ?_⟩
    · obtain ⟨e, he, heligible⟩ := ((redriven_iff ids now t refused).mp hresult).2.2.2 id hid
      refine ⟨e, redriven now e, he, heligible, ?_, reset_redriven now e⟩
      rw [hafter, IdTable.get?_update, if_pos hid, he, Option.map_some]
    · rw [hafter, IdTable.get?_update, if_neg hid]
  · have hafter := redriveStatements_snd (b := b) ids now t refused
    rw [if_neg hresult] at hafter
    exact .inr ⟨hresult, hafter⟩

end Jaunder.Storage.Redrive
