import Jaunder.Foundation.Fence
import Jaunder.Foundation.Run
import Jaunder.Server.Regenerate

namespace Jaunder.Server.Publisher

open Foundation.Fence Foundation.Run
open Jaunder.Common.Owned Jaunder.Common.Time
open Jaunder.Host.FeedPath
open Jaunder.Server.Regenerate
open Jaunder.Storage.Dialect Jaunder.Storage.FeedCache Jaunder.Storage.Publisher
open Jaunder.Storage.Schema Jaunder.Storage.Syndication

/-- The mutations of the publisher configuration, each in one transaction. For an identity
mutation, `rpHostLocked` tells what the passkey guard decides. -/
inductive Mutation
  | hub (url : Option Text)
  | identity (rpHostLocked : Bool) (mutation : SiteIdentityMutation)
  | feedWindow (mutation : FeedWindowMutation)
  | repair (token : String)

def Mutation.apply (text : SiteText) (db : PublisherDatabase) : Mutation → PublisherDatabase
  | .hub url => (mutateHub text url db).1
  | .identity rpHostLocked mutation => (mutateIdentity rpHostLocked mutation db).getD db
  | .feedWindow mutation => mutateFeedWindow mutation db
  | .repair token => (repairMalformedHub token db).1

/-- The mutations that the code recognises as having nothing to do. -/
def Mutation.Skipped (text : SiteText) (db : PublisherDatabase) : Mutation → Prop
  | .hub url =>
    let stored := db.siteConfig .feedsWebsubHubUrl
    parseHub text stored = url ∧ (stored = none ∨ (parseHub text stored).isSome)
  | .identity rpHostLocked mutation => rpHostLocked = true ∧ mutation.touchesBaseUrl = true
  | .feedWindow _ => False
  | .repair token => db.siteConfig .feedsWebsubHubUrl ≠ some token

section System

variable (text : SiteText) (lib : FeedLibrary) (b : Backend)

/-- A row rendered outside any transaction, with what its rendering read. -/
structure Prepared where
  snapshot : PublisherSnapshot
  posts : Database
  feedPath : FeedPath
  generatedAt : UtcInstant
  row : FeedCacheRow
  rendered : render lib b snapshot posts feedPath generatedAt = .ok row

/-- A commit that fails leaves the database as it is. -/
def Prepared.commit (p : Prepared lib b) (db : PublisherDatabase) : PublisherDatabase :=
  ((commitCache b p.snapshot.generation p.row db).map Prod.fst).getD db

/-- The database, and what the worker's ticks and the cache misses have in hand. -/
structure Service where
  db : PublisherDatabase
  snapshots : List PublisherSnapshot
  prepared : List (Prepared lib b)

def Service.start (config : SiteConfig) (generation : ℕ) : Service lib b :=
  ⟨⟨config, generation, fun _ ↦ none⟩, [], []⟩

/-- What any of the processes does next; a rendering and a commit name what they go on with. -/
inductive Action
  | mutate (mutation : Mutation)
  | readSnapshot
  | render (snapshot : ℕ) (posts : Database) (feedPath : FeedPath) (generatedAt : UtcInstant)
  | commit (prepared : ℕ)

def prepare (snapshot : PublisherSnapshot) (posts : Database) (feedPath : FeedPath)
    (generatedAt : UtcInstant) : Option (Prepared lib b) :=
  match h : render lib b snapshot posts feedPath generatedAt with
  | .ok row => some ⟨snapshot, posts, feedPath, generatedAt, row, h⟩
  | .error _ => none

def step (s : Service lib b) : Action → Service lib b
  | .mutate mutation => { s with db := mutation.apply text s.db }
  | .readSnapshot => { s with snapshots := s.snapshots ++ (snapshot text s.db).toList }
  | .render i posts feedPath generatedAt =>
    { s with prepared := s.prepared ++ (s.snapshots[i]?.bind (fun snap ↦
        prepare lib b snap posts feedPath generatedAt)).toList }
  | .commit j => { s with db := s.prepared[j]?.elim s.db (fun p ↦ p.commit lib b s.db) }

/-- The publisher database as a store of rows that the configuration justifies. -/
def fence : Store PublisherDatabase (Option PublisherSnapshot) FeedPath StoredFeedCacheRow :=
  ⟨PublisherDatabase.generation, snapshot text, PublisherDatabase.feedCache⟩

/-- The cached row shows what was rendered for its path from the snapshot `view`. -/
def RenderedFrom (view : Option PublisherSnapshot) (feedPath : FeedPath)
    (held : StoredFeedCacheRow) : Prop :=
  ∃ p : Prepared lib b, p.feedPath = feedPath ∧ Shows held p.row ∧ view = some p.snapshot

structure Fenced (s : Service lib b) : Prop where
  snapshots : ∀ snap ∈ s.snapshots, (fence text).Reading s.db snap.generation (some snap)
  prepared : ∀ p ∈ s.prepared, (fence text).Reading s.db p.snapshot.generation (some p.snapshot)
  cache : (fence text).Justified (RenderedFrom lib b) s.db

end System

section Mutations

variable {text : SiteText} {db : PublisherDatabase}

theorem invalidated_bump (text : SiteText) (db : PublisherDatabase) (config : SiteConfig) :
    (fence text).Invalidated db (bump { db with siteConfig := config }) := ⟨rfl, fun _ ↦ rfl⟩

theorem setKey_eq (key : SiteConfigKey) (value : Option String) (db : PublisherDatabase) :
    ∃ config, setKey key value db = { db with siteConfig := config } := ⟨_, rfl⟩

theorem write_identity_eq (mutation : SiteIdentityMutation) (db : PublisherDatabase) :
    ∃ config, mutation.write db = { db with siteConfig := config } := by
  cases mutation with
  | setTitle title => exact setKey_eq ..
  | setTagline tagline => exact setKey_eq ..
  | setBaseUrl baseUrl => exact setKey_eq ..
  | unsetTitle => exact setKey_eq ..
  | unsetTagline => exact setKey_eq ..
  | unsetBaseUrl => exact setKey_eq ..
  | setIdentity identity => exact ⟨_, rfl⟩

theorem write_window_eq (mutation : FeedWindowMutation) (db : PublisherDatabase) :
    ∃ config, mutation.write db = { db with siteConfig := config } := by
  cases mutation with
  | setMinItems value => exact setKey_eq ..
  | unsetMinItems => exact setKey_eq ..
  | setMinDays value => exact setKey_eq ..
  | unsetMinDays => exact setKey_eq ..

theorem mutateHub_cases (text : SiteText) (hub : Option Text) (db : PublisherDatabase) :
    ((Mutation.hub hub).Skipped text db ∧ (mutateHub text hub db).1 = db) ∨
      (¬ (Mutation.hub hub).Skipped text db ∧
        (fence text).Invalidated db (mutateHub text hub db).1) := by
  have hskipped : (parseHub text (db.siteConfig .feedsWebsubHubUrl)).map Text.value =
        hub.map Text.value ∧
      ((db.siteConfig .feedsWebsubHubUrl).isSome &&
        (parseHub text (db.siteConfig .feedsWebsubHubUrl)).isNone) = false ↔
      (Mutation.hub hub).Skipped text db := by
    rw [Mutation.Skipped, (Option.map_injective (fun _ _ h ↦ Text.ext h)).eq_iff]
    cases db.siteConfig .feedsWebsubHubUrl <;> simp
  unfold mutateHub
  by_cases hsame : (Mutation.hub hub).Skipped text db
  · rw [if_pos (hskipped.mpr hsame)]
    exact Or.inl ⟨hsame, rfl⟩
  · rw [if_neg (fun h ↦ hsame (hskipped.mp h))]
    refine Or.inr ⟨hsame, ?_⟩
    cases hub with
    | some hub => exact invalidated_bump text db _
    | none =>
      cases hstored : db.siteConfig .feedsWebsubHubUrl with
      | none => exact absurd (by simp [Mutation.Skipped, hstored, parseHub]) hsame
      | some stored => exact invalidated_bump text db _

/-- A mutation either is skipped and changes nothing, or starts a new generation. -/
theorem Mutation.apply_cases (text : SiteText) (db : PublisherDatabase) (mutation : Mutation) :
    (mutation.Skipped text db ∧ mutation.apply text db = db) ∨
      (¬ mutation.Skipped text db ∧ (fence text).Invalidated db (mutation.apply text db)) := by
  cases mutation with
  | hub url => exact mutateHub_cases text url db
  | identity rpHostLocked mutation =>
    rw [Mutation.apply, mutateIdentity, Mutation.Skipped]
    by_cases hlocked : rpHostLocked = true ∧ mutation.touchesBaseUrl = true
    · rw [if_pos (by rw [hlocked.1, hlocked.2]; rfl)]
      exact Or.inl ⟨hlocked, rfl⟩
    · rw [if_neg (by rw [Bool.and_eq_true]; exact fun h ↦ hlocked h.symm)]
      obtain ⟨config, hconfig⟩ := write_identity_eq mutation db
      refine Or.inr ⟨hlocked, ?_⟩
      rw [Option.getD_some, invalidateIdentity, hconfig]
      exact invalidated_bump text db config
  | feedWindow mutation =>
    obtain ⟨config, hconfig⟩ := write_window_eq mutation db
    refine Or.inr ⟨id, ?_⟩
    rw [Mutation.apply, mutateFeedWindow, hconfig]
    exact invalidated_bump text db config
  | repair token =>
    rw [Mutation.apply, repairMalformedHub, Mutation.Skipped]
    by_cases htoken : db.siteConfig .feedsWebsubHubUrl = some token
    · rw [if_pos htoken]
      exact Or.inr ⟨not_not.mpr htoken, invalidated_bump text db _⟩
    · rw [if_neg htoken]
      exact Or.inl ⟨htoken, rfl⟩

end Mutations

section Invariant

variable {text : SiteText} {lib : FeedLibrary} {b : Backend} {s : Service lib b}

theorem fenced_start (config : SiteConfig) (generation : ℕ) :
    Fenced text lib b (Service.start lib b config generation) :=
  ⟨by simp [Service.start], by simp [Service.start],
    fun _ _ he ↦ absurd he (by simp [fence, Service.start])⟩

theorem Fenced.mutate (hs : Fenced text lib b s) (mutation : Mutation) :
    Fenced text lib b (step text lib b s (.mutate mutation)) := by
  rcases mutation.apply_cases text s.db with ⟨-, hsame⟩ | ⟨-, hinvalidated⟩
  · rw [step, hsame]
    exact hs
  · exact ⟨fun snap hsnap ↦ (hs.snapshots snap hsnap).invalidated hinvalidated,
      fun p hp ↦ (hs.prepared p hp).invalidated hinvalidated, .invalidated hinvalidated⟩

theorem Fenced.readSnapshot (hs : Fenced text lib b s) :
    Fenced text lib b (step text lib b s .readSnapshot) := by
  refine ⟨fun snap hsnap ↦ ?_, hs.prepared, hs.cache⟩
  rcases List.mem_append.mp hsnap with hold | hnew
  · exact hs.snapshots snap hold
  · have hread : snapshot text s.db = some snap := Option.mem_toList.mp hnew
    rw [← hread, snapshot_generation hread]
    exact .now s.db

theorem prepare_eq_some {snap : PublisherSnapshot} {posts : Database} {feedPath : FeedPath}
    {generatedAt : UtcInstant} {p : Prepared lib b}
    (h : prepare lib b snap posts feedPath generatedAt = some p) : p.snapshot = snap := by
  rw [prepare] at h
  split at h
  · rw [← Option.some_inj.mp h]
  · exact absurd h (by simp)

theorem Fenced.render (hs : Fenced text lib b s) (i : ℕ) (posts : Database) (feedPath : FeedPath)
    (generatedAt : UtcInstant) :
    Fenced text lib b (step text lib b s (.render i posts feedPath generatedAt)) := by
  refine ⟨hs.snapshots, fun p hp ↦ ?_, hs.cache⟩
  rcases List.mem_append.mp hp with hold | hnew
  · exact hs.prepared p hold
  · obtain ⟨snap, hsnap, hprepare⟩ := Option.bind_eq_some_iff.mp (Option.mem_toList.mp hnew)
    rw [prepare_eq_some hprepare]
    exact hs.snapshots snap (List.mem_of_getElem? hsnap)

theorem Prepared.row_feedPath (p : Prepared lib b) : p.row.feedPath = p.feedPath :=
  (render_spec p.rendered).1

/-- The upserted row still shows a row of the current configuration, the old or the new one. -/
theorem renderedFrom_upserted {db : PublisherDatabase} (p : Prepared lib b)
    (hcache : (fence text).Justified (RenderedFrom lib b) db) {feedPath : FeedPath}
    {held : StoredFeedCacheRow}
    (h : Function.update db.feedCache p.row.feedPath (some (upserted b p.row db.feedCache)) feedPath =
      some held) :
    RenderedFrom lib b (snapshot text db) feedPath held ∨
      RenderedFrom lib b (some p.snapshot) feedPath held := by
  rcases update_upserted_cases h with ⟨hpath, hnew⟩ | ⟨old, hold, hshows⟩
  · exact Or.inr ⟨p, p.row_feedPath.symm.trans hpath.symm, hnew ▸ shows_stored p.row, rfl⟩
  · obtain ⟨q, hq, hqshows, hview⟩ := hcache feedPath old hold
    exact Or.inl ⟨q, hq, hshows q.row hqshows, hview⟩

theorem Prepared.commit_cases (p : Prepared lib b) (db : PublisherDatabase) :
    p.commit lib b db = db ∨ db.generation = p.snapshot.generation ∧ p.commit lib b db = { db with
      feedCache := Function.update db.feedCache p.row.feedPath
        (some (upserted b p.row db.feedCache)) } := by
  rw [Prepared.commit]
  cases hcommit : commitCache b p.snapshot.generation p.row db with
  | none => exact Or.inl rfl
  | some written => exact (commitCache_cases hcommit).imp_left And.left

theorem Fenced.commit (hs : Fenced text lib b s) (j : ℕ) :
    Fenced text lib b (step text lib b s (.commit j)) := by
  cases hp : s.prepared[j]? with
  | none =>
    rw [step, hp]
    exact hs
  | some p =>
    have hreading := hs.prepared p (List.mem_of_getElem? hp)
    rw [step, hp, Option.elim_some]
    rcases p.commit_cases s.db with hsame | ⟨hgeneration, hwritten⟩
    · rw [hsame]
      exact hs
    · rw [hwritten]
      have hview : snapshot text { s.db with
          feedCache := Function.update s.db.feedCache p.row.feedPath
            (some (upserted b p.row s.db.feedCache)) } = snapshot text s.db :=
        snapshot_congr text rfl rfl
      exact ⟨fun snap hsnap ↦ (hs.snapshots snap hsnap).unmoved rfl hview,
        fun q hq ↦ (hs.prepared q hq).unmoved rfl hview,
        .written hreading hgeneration hview
          (fun feedPath held he ↦ renderedFrom_upserted p hs.cache he)⟩

theorem Fenced.step (hs : Fenced text lib b s) (action : Action) :
    Fenced text lib b (step text lib b s action) := by
  cases action with
  | mutate mutation => exact hs.mutate mutation
  | readSnapshot => exact hs.readSnapshot
  | render i posts feedPath generatedAt => exact hs.render i posts feedPath generatedAt
  | commit j => exact hs.commit j

theorem fenced_run (config : SiteConfig) (generation : ℕ) (actions : List Action) :
    Fenced text lib b (run (step text lib b) (.start lib b config generation) actions) :=
  run_preserves (C := fun _ _ ↦ True) (fun _ action hs _ ↦ hs.step action)
    (fenced_start config generation) (along_true _ _)

end Invariant

/-- In every reachable state the cached rows were rendered from the current configuration. A
mutation of the configuration starts a new generation with an empty cache, only the skipped
mutations leave the database as it is, and a commit under another generation writes nothing. -/
theorem generation_fences_cache (text : SiteText) (lib : FeedLibrary) (b : Backend)
    (config : SiteConfig) (generation : ℕ) (actions : List Action) :
    (∀ feedPath held,
      (run (step text lib b) (.start lib b config generation) actions).db.feedCache feedPath =
          some held →
        ∃ p : Prepared lib b, p.feedPath = feedPath ∧ Shows held p.row ∧
          snapshot text (run (step text lib b) (.start lib b config generation) actions).db =
            some p.snapshot) ∧
      (∀ (mutation : Mutation) (db : PublisherDatabase),
        ((mutation.apply text db).siteConfig ≠ db.siteConfig → ¬ mutation.Skipped text db) ∧
        (mutation.Skipped text db → mutation.apply text db = db) ∧
        (¬ mutation.Skipped text db →
          (mutation.apply text db).generation = db.generation + 1 ∧
            ∀ feedPath, (mutation.apply text db).feedCache feedPath = none)) ∧
      ∀ (prepared : ℕ) (row : FeedCacheRow) (db : PublisherDatabase), db.generation ≠ prepared →
        commitCache b prepared row db = some (db, .staleGeneration) := by
  refine ⟨(fenced_run config generation actions).cache, fun mutation db ↦ ?_,
    fun prepared row db hne ↦ commitCache_stale hne⟩
  rcases mutation.apply_cases text db with ⟨hskipped, hsame⟩ | ⟨hskipped, hinvalidated⟩
  · exact ⟨fun hchanged ↦ absurd (by rw [hsame]) hchanged, fun _ ↦ hsame,
      fun hnot ↦ absurd hskipped hnot⟩
  · exact ⟨fun _ ↦ hskipped, fun h ↦ absurd h hskipped,
      fun _ ↦ ⟨hinvalidated.advances, hinvalidated.clears⟩⟩

def plainText : SiteText where
  minItems value := if value = "20" then some defaultMinItems else none
  minDays _ := none
  hubUrl _ := none
  title value := some (.compose value)
  tagline value := some (.compose value)
  baseUrl value := some (.compose value)

def twentyItems : SiteConfig
  | .feedsMinItems => some "20"
  | .siteBaseUrl => some "https://example.com"
  | _ => none

/-- The site feed is rendered and cached, then its minimum is set to the stored one. -/
def sameMinimum : List Action :=
  [.readSnapshot, .render 0 ancientPosts ⟨.site, .rss⟩ newYear2026, .commit 0,
    .mutate (.feedWindow (.setMinItems defaultMinItems))]

theorem same_minimum_invalidates :
    let cached := run (step plainText plainLibrary sqlite) (.start plainLibrary sqlite twentyItems 0)
      (sameMinimum.take 3)
    let after := run (step plainText plainLibrary sqlite) (.start plainLibrary sqlite twentyItems 0)
      sameMinimum
    after.db.siteConfig = cached.db.siteConfig ∧ cached.db.generation = 0 ∧
      after.db.generation = 1 ∧ (cached.db.feedCache ⟨.site, .rss⟩).isSome = true ∧
      (after.db.feedCache ⟨.site, .rss⟩).isSome = false := by
  refine ⟨funext (fun key ↦ ?_), by decide +kernel, by decide +kernel, by decide +kernel,
    by decide +kernel⟩
  cases key <;> decide +kernel

end Jaunder.Server.Publisher
