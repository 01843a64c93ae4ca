import Jaunder.Host.Window
import Jaunder.Storage.FeedCache

namespace Jaunder.Storage.Publisher

open Jaunder.Common.Owned
open Jaunder.Host.FeedPath Jaunder.Host.Window
open Jaunder.Storage.Dialect Jaunder.Storage.FeedCache

/-- The minimum number of items in a feed, regardless of age. -/
@[ext]
structure FeedMinItems where
  value : ℕ
  pos : 1 ≤ value
  fits : value < 2 ^ 63

instance : DecidableEq FeedMinItems :=
  fun a b ↦ decidable_of_iff (a.value = b.value) FeedMinItems.ext_iff.symm

/-- The minimum age window in days, regardless of count. -/
@[ext]
structure FeedMinDays where
  value : ℕ
  pos : 1 ≤ value
  fits : value < 2 ^ 32

instance : DecidableEq FeedMinDays :=
  fun a b ↦ decidable_of_iff (a.value = b.value) FeedMinDays.ext_iff.symm

structure FeedsConfig where
  minItems : FeedMinItems
  minDays : FeedMinDays
  websubHubUrl : Option Text
deriving DecidableEq

def FeedsConfig.window (config : FeedsConfig) : HybridWindow where
  minItems := config.minItems.value
  minDays := config.minDays.value
  minItems_pos := config.minItems.pos
  minItems_lt := config.minItems.fits
  minDays_pos := config.minDays.pos
  minDays_lt := config.minDays.fits

structure SiteIdentity where
  title : Text
  tagline : Option Text
  baseUrl : Option Text
deriving DecidableEq

/-- Configuration read once for a publisher attempt. -/
structure PublisherSnapshot where
  feeds : FeedsConfig
  identity : SiteIdentity
  generation : ℕ
  malformedHub : Option String
deriving DecidableEq

/-- The configuration keys that a publisher snapshot reads. -/
inductive SiteConfigKey
  | feedsMinItems
  | feedsMinDays
  | feedsWebsubHubUrl
  | siteTitle
  | siteTagline
  | siteBaseUrl
deriving DecidableEq

abbrev SiteConfig := SiteConfigKey → Option String

/-- How the stored texts of the configuration are read. -/
structure SiteText where
  minItems : String → Option FeedMinItems
  minDays : String → Option FeedMinDays
  hubUrl : String → Option Text
  title : String → Option Text
  tagline : String → Option Text
  baseUrl : String → Option Text

/-- The tables `site_config`, `publisher_state` and `feed_cache`. -/
structure PublisherDatabase where
  siteConfig : SiteConfig
  generation : ℕ
  feedCache : FeedCacheTable

section Snapshot

variable (text : SiteText)

def parseFeedMinimum {α : Type} (fallback : α) (parse : String → Option α) :
    Option String → Option α
  | none => some fallback
  | some value => parse value

def parseHub (raw : Option String) : Option Text :=
  raw.bind (fun value ↦ if value.isEmpty then none else text.hubUrl value)

def parseBaseUrl (raw : Option String) : Option Text :=
  raw.bind (fun value ↦ if value.isEmpty then none else text.baseUrl value)

def defaultMinItems : FeedMinItems := ⟨20, by decide, by decide⟩

def defaultMinDays : FeedMinDays := ⟨30, by decide, by decide⟩

def defaultSiteTitle : Text := ⟨"Jaunder", by decide⟩

/-- `snapshot`; `none` is a stored minimum that does not parse. -/
def snapshot (db : PublisherDatabase) : Option PublisherSnapshot :=
  let hub := db.siteConfig .feedsWebsubHubUrl
  (parseFeedMinimum defaultMinItems text.minItems (db.siteConfig .feedsMinItems)).bind
    (fun minItems ↦
      (parseFeedMinimum defaultMinDays text.minDays (db.siteConfig .feedsMinDays)).map
        (fun minDays ↦
          { feeds := ⟨minItems, minDays, parseHub text hub⟩
            identity :=
              { title := ((db.siteConfig .siteTitle).bind text.title).getD defaultSiteTitle
                tagline := (db.siteConfig .siteTagline).bind text.tagline
                baseUrl := parseBaseUrl text (db.siteConfig .siteBaseUrl) }
            generation := db.generation
            malformedHub := hub.filter (fun value ↦ (parseHub text (some value)).isNone) }))

end Snapshot

/-- Advances the generation and empties the cache. -/
def bump (db : PublisherDatabase) : PublisherDatabase :=
  { db with generation := db.generation + 1, feedCache := fun _ ↦ none }

def setKey (key : SiteConfigKey) (value : Option String) (db : PublisherDatabase) :
    PublisherDatabase :=
  { db with siteConfig := Function.update db.siteConfig key value }

def invalidateIdentity (db : PublisherDatabase) : PublisherDatabase := bump db

inductive HubMutationOutcome
  | changed (generation : ℕ)
  | unchanged (generation : ℕ)
deriving DecidableEq

def mutateHub (text : SiteText) (hub : Option Text) (db : PublisherDatabase) :
    PublisherDatabase × HubMutationOutcome :=
  let stored := db.siteConfig .feedsWebsubHubUrl
  let parsed := parseHub text stored
  let malformed := stored.isSome && parsed.isNone
  if parsed.map Text.value = hub.map Text.value ∧ malformed = false then
    (db, .unchanged db.generation)
  else
    match hub, stored with
    | some hub, _ =>
      (bump (setKey .feedsWebsubHubUrl (some hub.value) db), .changed (db.generation + 1))
    | none, none => (db, .unchanged db.generation)
    | none, some _ => (bump (setKey .feedsWebsubHubUrl none db), .changed (db.generation + 1))

inductive FeedWindowMutation
  | setMinItems (value : FeedMinItems)
  | unsetMinItems
  | setMinDays (value : FeedMinDays)
  | unsetMinDays

def FeedWindowMutation.write : FeedWindowMutation → PublisherDatabase → PublisherDatabase
  | .setMinItems value => setKey .feedsMinItems (some (toString value.value))
  | .unsetMinItems => setKey .feedsMinItems none
  | .setMinDays value => setKey .feedsMinDays (some (toString value.value))
  | .unsetMinDays => setKey .feedsMinDays none

def mutateFeedWindow (mutation : FeedWindowMutation) (db : PublisherDatabase) :
    PublisherDatabase :=
  bump (mutation.write db)

/-- The compare token is the malformed value itself. -/
def repairMalformedHub (token : String) (db : PublisherDatabase) :
    PublisherDatabase × HubMutationOutcome :=
  if db.siteConfig .feedsWebsubHubUrl = some token then
    (bump (setKey .feedsWebsubHubUrl none db), .changed (db.generation + 1))
  else (db, .unchanged db.generation)

def isCurrentGeneration (generation : ℕ) (db : PublisherDatabase) : Bool :=
  db.generation = generation

inductive CacheCommitOutcome
  | committed (effective : FeedCacheRow)
  | staleGeneration

/-- `commit_cache`; `none` is an error, which rolls the transaction back. -/
def commitCache (b : Backend) (generation : ℕ) (row : FeedCacheRow) (db : PublisherDatabase) :
    Option (PublisherDatabase × CacheCommitOutcome) :=
  if db.generation = generation then
    (upsertOnConnection b row db.feedCache).map (fun written ↦
      ({ db with feedCache := written.1 }, .committed written.2))
  else some (db, .staleGeneration)

/-- The identity keys that one service operation writes before it invalidates the publisher. -/
inductive SiteIdentityMutation
  | setTitle (title : Text)
  | setTagline (tagline : Option Text)
  | setBaseUrl (baseUrl : Option Text)
  | unsetTitle
  | unsetTagline
  | unsetBaseUrl
  | setIdentity (identity : SiteIdentity)

def SiteIdentityMutation.write : SiteIdentityMutation → PublisherDatabase → PublisherDatabase
  | .setTitle title => setKey .siteTitle (some title.value)
  | .setTagline tagline => setKey .siteTagline (some (tagline.elim "" Text.value))
  | .setBaseUrl baseUrl => setKey .siteBaseUrl (some (baseUrl.elim "" Text.value))
  | .unsetTitle => setKey .siteTitle none
  | .unsetTagline => setKey .siteTagline none
  | .unsetBaseUrl => setKey .siteBaseUrl none
  | .setIdentity identity => fun db ↦
    setKey .siteTagline (some (identity.tagline.elim "" Text.value))
      (setKey .siteTitle (some identity.title.value)
        (setKey .siteBaseUrl (some (identity.baseUrl.elim "" Text.value)) db))

/-- Whether the mutation goes through `set_base_url_with_passkey_guard` or its clearing sibling. -/
def SiteIdentityMutation.touchesBaseUrl : SiteIdentityMutation → Bool
  | .setBaseUrl _ => true
  | .unsetBaseUrl => true
  | .setIdentity _ => true
  | _ => false

/-- An identity mutation in one transaction: a base URL that the passkeys lock is refused. -/
def mutateIdentity (rpHostLocked : Bool) (mutation : SiteIdentityMutation)
    (db : PublisherDatabase) : Option PublisherDatabase :=
  if mutation.touchesBaseUrl && rpHostLocked then none
  else some (invalidateIdentity (mutation.write db))

/-- The snapshot reads the configuration and the generation only. -/
theorem snapshot_congr (text : SiteText) {db db' : PublisherDatabase}
    (hconfig : db'.siteConfig = db.siteConfig) (hgeneration : db'.generation = db.generation) :
    snapshot text db' = snapshot text db := by
  simp only [snapshot, hconfig, hgeneration]

theorem snapshot_generation {text : SiteText} {db : PublisherDatabase} {snap : PublisherSnapshot}
    (h : snapshot text db = some snap) : snap.generation = db.generation := by
  simp only [snapshot, Option.bind_eq_some_iff, Option.map_eq_some_iff] at h
  obtain ⟨_, -, _, -, rfl⟩ := h
  rfl

theorem commitCache_stale {b : Backend} {generation : ℕ} {row : FeedCacheRow}
    {db : PublisherDatabase} (h : db.generation ≠ generation) :
    commitCache b generation row db = some (db, .staleGeneration) :=
  if_neg h

theorem commitCache_cases {b : Backend} {generation : ℕ} {row : FeedCacheRow}
    {db db' : PublisherDatabase} {outcome : CacheCommitOutcome}
    (h : commitCache b generation row db = some (db', outcome)) :
    (db' = db ∧ outcome = .staleGeneration) ∨ db.generation = generation ∧ db' = { db with
      feedCache := Function.update db.feedCache row.feedPath (some (upserted b row db.feedCache)) } := by
  rw [commitCache] at h
  split at h
  · rename_i hgeneration
    obtain ⟨⟨cache, effective⟩, hupsert, heq⟩ := Option.map_eq_some_iff.mp h
    refine Or.inr ⟨hgeneration, ?_⟩
    rw [← upsertOnConnection_table hupsert]
    exact (congrArg Prod.fst heq).symm
  · rw [Option.some_inj, Prod.mk.injEq] at h
    exact Or.inl ⟨h.1.symm, h.2.symm⟩

theorem get_commitCache {b : Backend} {generation : ℕ} {row effective : FeedCacheRow}
    {db db' : PublisherDatabase}
    (h : commitCache b generation row db = some (db', .committed effective)) :
    get row.feedPath db'.feedCache = some (some effective) := by
  rw [commitCache] at h
  split at h
  · obtain ⟨⟨cache, read⟩, hupsert, heq⟩ := Option.map_eq_some_iff.mp h
    obtain ⟨rfl, hread⟩ := Prod.mk.inj heq
    rw [← CacheCommitOutcome.committed.inj hread]
    exact get_upsertOnConnection hupsert
  · exact absurd h (by simp)

end Jaunder.Storage.Publisher
