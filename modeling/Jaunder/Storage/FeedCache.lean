import Jaunder.Host.Etag
import Jaunder.Host.FeedPath
import Jaunder.Storage.Dialect

namespace Jaunder.Storage.FeedCache

open Jaunder.Common.Feed Jaunder.Common.Hash Jaunder.Common.Time
open Jaunder.Host.Etag Jaunder.Host.FeedPath
open Jaunder.Storage.Dialect

/-- A rendered feed body together with the format that produced it. -/
structure SyndicationFeedRepresentation where
  format : FeedFormat
  body : String
deriving DecidableEq

def SyndicationFeedRepresentation.contentType (r : SyndicationFeedRepresentation) : String :=
  r.format.contentType

def SyndicationFeedRepresentation.tryFromStored (format : FeedFormat) (contentType body : String) :
    Option SyndicationFeedRepresentation :=
  if contentType = format.contentType then some ⟨format, body⟩ else none

/-- A cached feed whose path and representation agree, with a modification time in whole seconds. -/
structure FeedCacheRow where
  feedPath : FeedPath
  representation : SyndicationFeedRepresentation
  etag : String
  representationModifiedAt : UtcInstant
  generatedAt : UtcInstant
  semanticFingerprint : FeedSemanticFingerprint
  format_agrees : feedPath.format = representation.format
  modified_whole : representationModifiedAt.wholeSeconds = representationModifiedAt
deriving DecidableEq

theorem wholeSeconds_idem (t : UtcInstant) : t.wholeSeconds.wholeSeconds = t.wholeSeconds :=
  UtcInstant.ext (by rw [UtcInstant.wholeSeconds_nanos, UtcInstant.wholeSeconds_asSecond,
    UtcInstant.wholeSeconds_nanos])

/-- `FeedCacheRow::new`; `none` is a format mismatch. -/
def FeedCacheRow.new (feedPath : FeedPath) (representation : SyndicationFeedRepresentation)
    (etag : String) (representationModifiedAt generatedAt : UtcInstant)
    (semanticFingerprint : FeedSemanticFingerprint) : Option FeedCacheRow :=
  if h : feedPath.format = representation.format then
    some ⟨feedPath, representation, etag, representationModifiedAt.wholeSeconds, generatedAt,
      semanticFingerprint, h, wholeSeconds_idem _⟩
  else none

/-- A row of the table `feed_cache`, next to its primary key `feed_url`. -/
structure StoredFeedCacheRow where
  body : String
  etag : String
  contentType : String
  representationModifiedAt : UtcInstant
  generatedAt : UtcInstant
  semanticFingerprint : String
deriving DecidableEq

abbrev FeedCacheTable := FeedPath → Option StoredFeedCacheRow

/-- `row_from_stored`; `none` is a stored row that does not agree with itself. -/
def rowFromStored (feedPath : FeedPath) (row : StoredFeedCacheRow) : Option FeedCacheRow :=
  (ContentHash.parse row.semanticFingerprint).bind (fun fingerprint ↦
    (SyndicationFeedRepresentation.tryFromStored feedPath.format row.contentType row.body).bind
      (fun representation ↦ FeedCacheRow.new feedPath representation row.etag
        row.representationModifiedAt row.generatedAt fingerprint))

/-- The columns that the insert binds. -/
def stored (row : FeedCacheRow) : StoredFeedCacheRow where
  body := row.representation.body
  etag := row.etag
  contentType := row.representation.contentType
  representationModifiedAt := row.representationModifiedAt
  generatedAt := row.generatedAt
  semanticFingerprint := row.semanticFingerprint.value

/-- The assignments of `ON CONFLICT(feed_url) DO UPDATE`. -/
def onConflict (b : Backend) (old excluded : StoredFeedCacheRow) : StoredFeedCacheRow :=
  let same : Bool := old.semanticFingerprint = excluded.semanticFingerprint
  { body := if same then old.body else excluded.body
    etag := if same then old.etag else excluded.etag
    contentType := if same then old.contentType else excluded.contentType
    representationModifiedAt :=
      if same then old.representationModifiedAt else excluded.representationModifiedAt
    generatedAt :=
      if same ∧ b.stored excluded.generatedAt < b.stored old.generatedAt then old.generatedAt
      else excluded.generatedAt
    semanticFingerprint := excluded.semanticFingerprint }

def upserted (b : Backend) (row : FeedCacheRow) (cache : FeedCacheTable) : StoredFeedCacheRow :=
  (cache row.feedPath).elim (stored row) (fun old ↦ onConflict b old (stored row))

/-- `upsert_on_connection`: the new table and the effective row. A returned row that does not
decode is an error, which rolls the transaction back. -/
def upsertOnConnection (b : Backend) (row : FeedCacheRow) (cache : FeedCacheTable) :
    Option (FeedCacheTable × FeedCacheRow) :=
  (rowFromStored row.feedPath (upserted b row cache)).map (fun effective ↦
    (Function.update cache row.feedPath (some (upserted b row cache)), effective))

/-- `get`: an absent row, or a decoded one; the outer `none` is a decoding error. -/
def get (feedPath : FeedPath) (cache : FeedCacheTable) : Option (Option FeedCacheRow) :=
  match cache feedPath with
  | none => some none
  | some row => (rowFromStored feedPath row).map some

/-- The stored row serves the representation of the rendered one. -/
structure Shows (stored : StoredFeedCacheRow) (row : FeedCacheRow) : Prop where
  body : stored.body = row.representation.body
  etag : stored.etag = row.etag
  contentType : stored.contentType = row.representation.contentType
  modified : stored.representationModifiedAt = row.representationModifiedAt
  fingerprint : stored.semanticFingerprint = row.semanticFingerprint.value

section Upsert

variable {b : Backend} {row : FeedCacheRow} {cache cache' : FeedCacheTable} {old : StoredFeedCacheRow}

theorem shows_stored (row : FeedCacheRow) : Shows (stored row) row := ⟨rfl, rfl, rfl, rfl, rfl⟩

theorem get_of_none {feedPath : FeedPath} (h : cache feedPath = none) :
    get feedPath cache = some none := by
  rw [get, h]

theorem upserted_of_ne (hold : cache row.feedPath = some old)
    (hne : old.semanticFingerprint ≠ row.semanticFingerprint.value) :
    upserted b row cache = stored row := by
  rw [upserted, hold]
  simp [onConflict, stored, hne]

/-- A row with the same fingerprint keeps everything but the later of the two generation times. -/
theorem upserted_of_eq (hold : cache row.feedPath = some old)
    (heq : old.semanticFingerprint = row.semanticFingerprint.value) :
    upserted b row cache = { old with
      generatedAt := if b.stored row.generatedAt < b.stored old.generatedAt then old.generatedAt
        else row.generatedAt } := by
  rw [upserted, hold]
  simp [onConflict, stored, heq]

theorem upserted_of_none (hold : cache row.feedPath = none) : upserted b row cache = stored row := by
  rw [upserted, hold]
  rfl

theorem upserted_cases (b : Backend) (row : FeedCacheRow) (cache : FeedCacheTable) :
    upserted b row cache = stored row ∨
      ∃ old, cache row.feedPath = some old ∧
        old.semanticFingerprint = row.semanticFingerprint.value ∧
        ∀ r, Shows old r → Shows (upserted b row cache) r := by
  cases hold : cache row.feedPath with
  | none => exact Or.inl (upserted_of_none hold)
  | some old =>
    by_cases heq : old.semanticFingerprint = row.semanticFingerprint.value
    · refine Or.inr ⟨old, rfl, heq, fun r hr ↦ ?_⟩
      rw [upserted_of_eq hold heq]
      exact ⟨hr.body, hr.etag, hr.contentType, hr.modified, hr.fingerprint⟩
    · exact Or.inl (upserted_of_ne hold heq)

/-- An entry after an upsert is the new row, or serves what an old entry of its path served. -/
theorem update_upserted_cases {feedPath : FeedPath} {held : StoredFeedCacheRow}
    (h : Function.update cache row.feedPath (some (upserted b row cache)) feedPath = some held) :
    (feedPath = row.feedPath ∧ held = stored row) ∨
      ∃ old, cache feedPath = some old ∧ ∀ r, Shows old r → Shows held r := by
  by_cases hpath : feedPath = row.feedPath
  · rw [hpath, Function.update_self, Option.some_inj] at h
    rcases upserted_cases b row cache with hnew | ⟨old, hold, -, hshows⟩
    · exact Or.inl ⟨hpath, h.symm.trans hnew⟩
    · rw [h] at hshows
      exact Or.inr ⟨old, hpath ▸ hold, hshows⟩
  · rw [Function.update_of_ne hpath] at h
    exact Or.inr ⟨held, h, fun _ hr ↦ hr⟩

theorem upsertOnConnection_table {effective : FeedCacheRow}
    (h : upsertOnConnection b row cache = some (cache', effective)) :
    cache' = Function.update cache row.feedPath (some (upserted b row cache)) := by
  obtain ⟨_, -, heq⟩ := Option.map_eq_some_iff.mp h
  exact (congrArg Prod.fst heq).symm

/-- The effective row is what the cache answers for the path afterwards. -/
theorem get_upsertOnConnection {effective : FeedCacheRow}
    (h : upsertOnConnection b row cache = some (cache', effective)) :
    get row.feedPath cache' = some (some effective) := by
  obtain ⟨read, hread, heq⟩ := Option.map_eq_some_iff.mp h
  have heffective : read = effective := congrArg Prod.snd heq
  rw [get, upsertOnConnection_table h, Function.update_self]
  simp only [hread, heffective, Option.map_some]

end Upsert

end Jaunder.Storage.FeedCache
