import Jaunder.Server.Conditional
import Jaunder.Server.Publisher

namespace Jaunder.Server.Handlers

open Foundation.Fence Foundation.Run
open Jaunder.Common.Time
open Jaunder.Host.FeedPath
open Jaunder.Server.Conditional Jaunder.Server.Publisher Jaunder.Server.Regenerate
open Jaunder.Storage.Dialect Jaunder.Storage.FeedCache Jaunder.Storage.Publisher
open Jaunder.Storage.Schema Jaunder.Storage.Syndication

structure CacheHeaders where
  etag : List UInt8
  lastModified : List UInt8
  cacheControl : String
deriving DecidableEq

/-- `aborted` is a panic, which closes the connection without an answer. -/
inductive Failure
  | internalServerError
  | aborted
deriving DecidableEq

inductive Response
  | ok (headers : CacheHeaders) (contentType : List UInt8) (body : String)
  | notModified (headers : CacheHeaders)
  | failed (failure : Failure)
deriving DecidableEq

/-- `HeaderValue::from_bytes`. -/
def headerFromBytes (bytes : List UInt8) : Except Failure (List UInt8) :=
  if bytes.all (fun byte ↦ (32 ≤ byte ∧ byte ≠ 127) ∨ byte = 9) then .ok bytes
  else .error .internalServerError

/-- `HeaderValue::from_str`. -/
def headerFromStr (text : String) : Except Failure (List UInt8) :=
  if text.toUTF8.data.toList.all (fun byte ↦ (32 ≤ byte ∧ byte < 127) ∨ byte = 9) then
    .ok text.toUTF8.data.toList
  else .error .internalServerError

def cacheHeaders (dates : HttpDate) (row : FeedCacheRow) : Except Failure CacheHeaders := do
  let etag ← headerFromBytes row.etag.toUTF8.data.toList
  let date ← (dates.fmt row.representationModifiedAt).elim (.error .aborted) .ok
  let lastModified ← headerFromStr date
  return ⟨etag, lastModified, "public, max-age=300"⟩

def cachedResponse (dates : HttpDate) (row : FeedCacheRow) (notModified : Bool) : Response :=
  match cacheHeaders dates row with
  | .error failure => .failed failure
  | .ok headers =>
    if notModified then .notModified headers
    else
      match headerFromStr row.representation.contentType with
      | .error failure => .failed failure
      | .ok contentType => .ok headers contentType row.representation.body

def respond (dates : HttpDate) (headers : RequestHeaders) (row : FeedCacheRow) : Response :=
  match isNotModified dates headers row.etag.toUTF8.data.toList row.representationModifiedAt with
  | none => .failed .aborted
  | some notModified => cachedResponse dates row notModified

/-- `serve`, with what `regenerate_cache_miss` would come back with. -/
def serve (dates : HttpDate) (headers : RequestHeaders) (feedPath : FeedPath)
    (regenerated : Except RegenerateError FeedCacheRow) (cache : FeedCacheTable) : Response :=
  match get feedPath cache with
  | none => .failed .internalServerError
  | some (some row) => respond dates headers row
  | some none =>
    match regenerated with
    | .error _ => .failed .internalServerError
    | .ok row => respond dates headers row

section History

variable (text : SiteText) (lib : FeedLibrary) (b : Backend)

/-- The database and the rows that its commits have accepted, in their order. -/
structure History where
  db : PublisherDatabase
  committed : List (Prepared lib b)

def History.start (config : SiteConfig) (generation : ℕ) : History lib b :=
  ⟨⟨config, generation, fun _ ↦ none⟩, []⟩

inductive Event
  | commit (p : Prepared lib b)
  | mutate (mutation : Mutation)

def record (s : History lib b) : Event lib b → History lib b
  | .commit p =>
    match commitCache b p.snapshot.generation p.row s.db with
    | some (db, .committed _) => ⟨db, s.committed ++ [p]⟩
    | _ => s
  | .mutate mutation => { s with db := mutation.apply text s.db }

/-- The clock does not run backwards from one commit of the path to the next. -/
def InOrder (feedPath : FeedPath) (s : History lib b) : Event lib b → Prop
  | .commit p => p.feedPath = feedPath → ∀ q ∈ s.committed, q.feedPath = feedPath →
      q.generatedAt ≤ p.generatedAt
  | .mutate _ => True

/-- The cached row of the path shows a committed one, and is not older than `since`. -/
structure Tracks (feedPath : FeedPath) (since : Option (Prepared lib b)) (s : History lib b) :
    Prop where
  member : ∀ p ∈ since, p ∈ s.committed ∧ p.feedPath = feedPath
  shown : ∀ held, s.db.feedCache feedPath = some held →
    ∃ p ∈ s.committed, p.feedPath = feedPath ∧ Shows held p.row
  later : ∀ p ∈ since, ∀ held, s.db.feedCache feedPath = some held →
    p.generatedAt.wholeSeconds ≤ held.representationModifiedAt

end History

section Order

variable {text : SiteText} {lib : FeedLibrary} {b : Backend} {feedPath : FeedPath}
  {s : History lib b} {since : Option (Prepared lib b)}

theorem record_commit_cases (text : SiteText) (s : History lib b) (p : Prepared lib b) :
    record text lib b s (.commit p) = s ∨
      record text lib b s (.commit p) = ⟨{ s.db with
        feedCache := Function.update s.db.feedCache p.row.feedPath
          (some (upserted b p.row s.db.feedCache)) }, s.committed ++ [p]⟩ := by
  rw [record]
  split
  · rename_i db effective hcommit
    rcases commitCache_cases hcommit with ⟨-, hstale⟩ | ⟨-, hdb⟩
    · exact absurd hstale (by simp)
    · refine Or.inr ?_
      rw [hdb]
  · exact Or.inl rfl

theorem modified_of_shows {held : StoredFeedCacheRow} {p : Prepared lib b} (h : Shows held p.row) :
    held.representationModifiedAt = p.generatedAt.wholeSeconds :=
  h.modified.trans (render_spec p.rendered).2.2

theorem Tracks.mutate (hs : Tracks lib b feedPath since s) (mutation : Mutation) :
    Tracks lib b feedPath since (record text lib b s (.mutate mutation)) := by
  rcases mutation.apply_cases text s.db with ⟨-, hsame⟩ | ⟨-, hinvalidated⟩
  · rw [record, hsame]
    exact hs
  · have hempty : ∀ held, (mutation.apply text s.db).feedCache feedPath ≠ some held := by
      intro held hheld
      exact absurd ((hinvalidated.clears feedPath).symm.trans hheld) (by simp)
    exact ⟨hs.member, fun held hheld ↦ absurd hheld (hempty held),
      fun p hp held hheld ↦ absurd hheld (hempty held)⟩

theorem Tracks.commit (hs : Tracks lib b feedPath since s) {p : Prepared lib b}
    (horder : InOrder lib b feedPath s (.commit p)) :
    Tracks lib b feedPath since (record text lib b s (.commit p)) := by
  rcases record_commit_cases text s p with hsame | hcommitted
  · rw [hsame]
    exact hs
  · rw [hcommitted]
    refine ⟨fun q hq ↦ ⟨List.mem_append_left _ (hs.member q hq).1, (hs.member q hq).2⟩,
      fun held hheld ↦ ?_, fun q hq held hheld ↦ ?_⟩
    · rcases update_upserted_cases hheld with ⟨hpath, hnew⟩ | ⟨old, hold, hshows⟩
      · exact ⟨p, List.mem_append_right _ (List.mem_singleton_self p),
          p.row_feedPath.symm.trans hpath.symm, hnew ▸ shows_stored p.row⟩
      · obtain ⟨q, hq, hqpath, hqshows⟩ := hs.shown old hold
        exact ⟨q, List.mem_append_left _ hq, hqpath, hshows q.row hqshows⟩
    · rcases update_upserted_cases hheld with ⟨hpath, hnew⟩ | ⟨old, hold, hshows⟩
      · have hle := horder (p.row_feedPath.symm.trans hpath.symm) q (hs.member q hq).1
          (hs.member q hq).2
        rw [hnew, modified_of_shows (shows_stored p.row)]
        exact UtcInstant.wholeSeconds_mono hle
      · obtain ⟨r, -, -, hrshows⟩ := hs.shown old hold
        rw [(hshows r.row hrshows).modified, ← hrshows.modified]
        exact hs.later q hq old hold

theorem Tracks.run {es : List (Event lib b)} (hs : Tracks lib b feedPath since s)
    (hes : Along (record text lib b) (InOrder lib b feedPath) s es) :
    Tracks lib b feedPath since (run (record text lib b) s es) := by
  refine run_preserves (fun s e hs he ↦ ?_) hs hes
  cases e with
  | commit p => exact hs.commit he
  | mutate mutation => exact hs.mutate mutation

end Order

section Serve

variable {dates : HttpDate} {lib : FeedLibrary} {b : Backend} {row : FeedCacheRow}

/-- A cache miss answers from the row that its commit leaves in the cache. -/
theorem serve_miss {p : Prepared lib b} {db db' : PublisherDatabase}
    {effective : FeedCacheRow} (hmiss : db.feedCache p.feedPath = none)
    (hcommit : commitCache b p.snapshot.generation p.row db = some (db', .committed effective))
    (request : RequestHeaders) (regenerated : Except RegenerateError FeedCacheRow) :
    serve dates request p.feedPath (.ok effective) db.feedCache =
      serve dates request p.feedPath regenerated db'.feedCache := by
  have hhit := get_commitCache hcommit
  rw [p.row_feedPath] at hhit
  simp only [serve, hhit, get_of_none hmiss]

end Serve

end Jaunder.Server.Handlers
