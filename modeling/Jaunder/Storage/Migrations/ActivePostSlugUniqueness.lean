import Jaunder.Common.Slug
import Jaunder.Common.SqliteTime
import Jaunder.Foundation.RecursiveQuery
import Jaunder.Storage.FeedCache
import Jaunder.Storage.Posts.Lifecycle

namespace Jaunder.Storage.Migrations.ActivePostSlugUniqueness

open Foundation.Outcome Foundation.RecursiveQuery Foundation.UniqueIndex
open Jaunder.Common.Slug Jaunder.Common.SqliteTime Jaunder.Common.Time
open Jaunder.Storage.FeedCache Jaunder.Storage.Posts.Lifecycle Jaunder.Storage.Posts.Tables

/-- What SQLite makes of a stored timestamp: `date(…)`, as a day, and
`strftime('%Y-%m-%dT%H:%M:%SZ', …, '+1 second')`. NULL is `none`. -/
structure DateFunctions where
  date : UtcInstant → Option ℤ
  secondLater : UtcInstant → Option UtcInstant

/-- The date functions know the years from 0 to 9999. -/
structure DateFunctions.Documented (f : DateFunctions) : Prop where
  date_isSome : ∀ t, 0 ≤ year t → (f.date t).isSome
  secondLater_isSome : ∀ t, 0 ≤ year t → (f.secondLater t).isSome

/-- `_slug_repair_clock`, with a year that the date functions can write. -/
structure RepairClock where
  observedAt : UtcInstant
  era : 0 ≤ year observedAt

abbrev Entry := Sigma (fun _ : ℤ ↦ Post)

def permalinkDate (f : DateFunctions) (p : Post) : Option ℤ :=
  f.date (p.publishedAt.getD p.createdAt)

/-- The rows of the partial indexes. -/
def active (s : PostTables) : List Entry := s.posts.entries.filter (fun e ↦ e.2.deletedAt = none)

/-- The index `posts_user_date_slug` that the migration drops; NULLs are distinct in it. -/
def dateSlugClash (f : DateFunctions) (a b : Entry) : Bool :=
  a.2.userId = b.2.userId ∧ a.2.slug = b.2.slug ∧ (permalinkDate f a.2).isSome ∧
    permalinkDate f a.2 = permalinkDate f b.2

section Queue

def sameSlug (a b : Entry) : Bool := a.2.userId = b.2.userId ∧ a.2.slug = b.2.slug

/-- `ORDER BY created_at DESC, post_id DESC` -/
def newer (a b : Entry) : Bool :=
  sqliteText b.2.createdAt < sqliteText a.2.createdAt ∨
    sqliteText b.2.createdAt = sqliteText a.2.createdAt ∧ b.1 < a.1

def newestRank (s : PostTables) (e : Entry) : ℕ :=
  ((active s).filter (fun e' ↦ sameSlug e e' ∧ newer e' e)).length + 1

def duplicateCount (s : PostTables) (e : Entry) : ℕ := ((active s).filter (sameSlug e ·)).length

/-- A row of `_slug_repair_queue`; its place in the list is `repair_sequence`. -/
structure QueuedRepair where
  postId : ℤ
  userId : ℤ
  oldSlug : String
  oldPermalinkDate : Option ℤ
  oldUpdatedAt : UtcInstant

def queued (f : DateFunctions) (e : Entry) : QueuedRepair :=
  ⟨e.1, e.2.userId, e.2.slug, permalinkDate f e.2, e.2.updatedAt⟩

/-- `ORDER BY user_id, created_at, post_id` -/
def queueLe (a b : Entry) : Bool :=
  a.2.userId < b.2.userId ∨ a.2.userId = b.2.userId ∧
    (sqliteText a.2.createdAt < sqliteText b.2.createdAt ∨
      sqliteText a.2.createdAt = sqliteText b.2.createdAt ∧ a.1 ≤ b.1)

def repairQueue (f : DateFunctions) (s : PostTables) : List QueuedRepair :=
  (((active s).filter (fun e ↦ 1 < duplicateCount s e ∧ 1 < newestRank s e)).insertionSort
    (fun a b ↦ queueLe a b = true)).map (queued f)

end Queue

section Allocation

def attemptText (attempt : ℕ) : List Char := Nat.toDigits 10 attempt

/-- `rtrim(substr(slug, 1, 80 - length(attempt) - 1), '-') || '-' || attempt` -/
def candidateSlug (slug : String) (attempt : ℕ) : List Char :=
  (slug.toList.take (80 - (attemptText attempt).length - 1)).rdropWhile (· = '-') ++
    '-' :: attemptText attempt

def assignment (userId : ℤ) (slug : List Char) : List Char :=
  (toString userId).toList ++ ':' :: slug ++ ['|']

structure Accepted where
  repair : QueuedRepair
  newSlug : List Char

/-- A row of `allocation`, of phase 0 or 1. The candidate is NULL when the queue has come to its
end. -/
inductive AllocationRow
  | candidate (repairSequence attempt : ℕ) (assigned : List Char) (candidate : Option (List Char))
      (accepted : Option Accepted)
  | decision (repairSequence attempt : ℕ) (assigned candidate : List Char) (available : Bool)

def AllocationRow.accepted : AllocationRow → Option Accepted
  | .candidate _ _ _ _ accepted => accepted
  | .decision _ _ _ _ _ => none

/-- The availability test: no active post has the candidate, and it is not in the text of the
assignments. -/
def available (s : PostTables) (userId : ℤ) (assigned candidate : List Char) : Bool :=
  ¬(active s).any (fun e ↦ e.2.userId = userId ∧ e.2.slug.toList = candidate) ∧
    ¬ '|' :: assignment userId candidate <:+: assigned

/-- `ROW_NUMBER()` counts from one. -/
def queuedAt (queue : List QueuedRepair) (repairSequence : ℕ) : Option QueuedRepair :=
  queue[repairSequence - 1]?

/-- The two recursive terms. -/
def nextRow (s : PostTables) (queue : List QueuedRepair) : AllocationRow → Option AllocationRow
  | .candidate repairSequence attempt assigned candidate _ => do
    let queued ← queuedAt queue repairSequence
    let candidate ← candidate
    return .decision repairSequence attempt assigned candidate
      (available s queued.userId assigned candidate)
  | .decision repairSequence attempt assigned candidate candidateAvailable => do
    let queued ← queuedAt queue repairSequence
    if candidateAvailable then
      return .candidate (repairSequence + 1) 1 (assigned ++ assignment queued.userId candidate)
        ((queuedAt queue (repairSequence + 1)).map (fun next ↦ candidateSlug next.oldSlug 1))
        (some ⟨queued, candidate⟩)
    else
      return .candidate repairSequence (attempt + 1) assigned
        (some (candidateSlug queued.oldSlug (attempt + 1))) none

def allocation (s : PostTables) (queue : List QueuedRepair) (fuel : ℕ) :
    Option (List AllocationRow) :=
  match queuedAt queue 1 with
  | none => some []
  | some first => recursiveQuery (nextRow s queue) fuel
      (.candidate 1 1 ['|'] (some (candidateSlug first.oldSlug 1)) none)

end Allocation

/-- A row of `_slug_repairs`. -/
structure SlugRepair where
  postId : ℤ
  userId : ℤ
  oldSlug : String
  oldPermalinkDate : ℤ
  newSlug : String
  newUpdatedAt : UtcInstant

structure PermalinkAlias where
  postId : ℤ
  userId : ℤ
  permalinkDate : ℤ
  slug : String
deriving DecidableEq

inductive RepairConstraint
  | slugRepairs
  | permalinkAliases
  | activeSlugs
deriving DecidableEq

inductive MigrationError
  | notNull (constraint : RepairConstraint)
  | unique (constraint : RepairConstraint)
  | foreignKey (constraint : RepairConstraint)
  | revision (error : DbError)
deriving DecidableEq

/-- The tables that the migration reads and writes. -/
structure Store where
  tables : PostTables
  feedCache : FeedCacheTable

structure Migrated extends Store where
  aliases : List PermalinkAlias

section Migration

def newUpdatedAt (f : DateFunctions) (clock : RepairClock) (oldUpdatedAt : UtcInstant) :
    Option UtcInstant :=
  if strftimeText clock.observedAt ≤ sqliteText oldUpdatedAt then f.secondLater oldUpdatedAt
  else some clock.observedAt

def slugRepair (f : DateFunctions) (clock : RepairClock) (accepted : Accepted) :
    Except MigrationError SlugRepair := do
  let repair := accepted.repair
  let oldPermalinkDate ← orError repair.oldPermalinkDate (.notNull .slugRepairs)
  let updatedAt ← orError (newUpdatedAt f clock repair.oldUpdatedAt) (.notNull .slugRepairs)
  return ⟨repair.postId, repair.userId, repair.oldSlug, oldPermalinkDate,
    String.ofList accepted.newSlug, updatedAt⟩

def repairClash (a b : SlugRepair) : Bool := a.postId = b.postId

def aliasClash (a b : PermalinkAlias) : Bool :=
  a.userId = b.userId ∧ a.permalinkDate = b.permalinkDate ∧ a.slug = b.slug

def SlugRepair.permalinkAlias (r : SlugRepair) : PermalinkAlias :=
  ⟨r.postId, r.userId, r.oldPermalinkDate, r.oldSlug⟩

def captureRevisions (s : PostTables) (repairs : List SlugRepair) : Except DbError PostTables :=
  repairs.foldlM (fun s r ↦ captureCompletePostRevision s r.postId r.newUpdatedAt) s

def repairedPost (repairs : List SlugRepair) (postId : ℤ) (p : Post) : Post :=
  match repairs.find? (fun r ↦ r.postId = postId) with
  | none => p
  | some r => { p with slug := r.newSlug, updatedAt := r.newUpdatedAt }

def updatePosts (repairs : List SlugRepair) (posts : AList (fun _ : ℤ ↦ Post)) :
    AList (fun _ : ℤ ↦ Post) where
  entries := posts.entries.map (fun e ↦ ⟨e.1, repairedPost repairs e.1 e.2⟩)
  nodupKeys := by
    have h := posts.nodupKeys
    unfold List.NodupKeys List.keys at h ⊢
    rwa [List.map_map]

/-- The rows of `CREATE UNIQUE INDEX posts_user_slug`. -/
def activeSlugsDistinct (s : PostTables) : Bool :=
  (active s).all (fun e ↦ ¬slugTaken s e.2.userId e.2.slug e.1)

/-- What follows the recursive statement. -/
def applyRepairs (f : DateFunctions) (clock : RepairClock) (store : Store)
    (accepted : List Accepted) : Except MigrationError Migrated := do
  let s := store.tables
  let repairs ← accepted.mapM (slugRepair f clock)
  let repairs ← orError (insertRows repairClash [] repairs) (.unique .slugRepairs)
  let aliases ← orError (insertRows aliasClash [] (repairs.map SlugRepair.permalinkAlias))
    (.unique .permalinkAliases)
  require (∀ a ∈ aliases, a.postId ∈ s.posts.keys ∧ a.userId ∈ s.users.map Author.userId)
    (.foreignKey .permalinkAliases)
  let captured ← (captureRevisions s repairs).mapError .revision
  let tables := { captured with posts := updatePosts repairs captured.posts }
  require (activeSlugsDistinct tables) (.unique .activeSlugs)
  return ⟨⟨tables, if repairs.isEmpty then store.feedCache else fun _ ↦ none⟩, aliases⟩

/-- Migration 0041 on SQLite; `none` when the recursive statement is still running. -/
def migrate (f : DateFunctions) (clock : RepairClock) (store : Store) (fuel : ℕ) :
    Option (Except MigrationError Migrated) :=
  (allocation store.tables (repairQueue f store.tables) fuel).map (fun rows ↦
    applyRepairs f clock store (rows.filterMap AllocationRow.accepted))

end Migration

section Lookups

/-- What the resolution predicate finds out about a reader: the author that it is, the authors that
it follows and the named audiences that it is in. -/
structure Reader where
  userId : Option ℤ
  follows : ℤ → Bool
  memberOf : ℤ → Bool

def anonymous : Reader := ⟨none, fun _ ↦ false, fun _ ↦ false⟩

def resolves (reader : Reader) (p : Post) : Bool :=
  reader.userId = some p.userId ∨ p.audiences.any (fun row ↦
    match row.kind with
    | .public_ => true
    | .subscribers => reader.follows p.userId
    | .named => row.audienceId.any reader.memberOf)

def isPublished (now : UtcInstant) (p : Post) : Bool :=
  p.publishedAt.any (fun at_ ↦ sqliteText at_ ≤ sqliteText now) ∧ p.deletedAt = none

def postRecord (u : Author) (e : Entry) : Except DbError PostRecord := do
  validateRenderedTitlePresence e.2.title e.2.renderedTitle
  return ⟨e.1, u.username, u.displayName, e.2.toPostColumns, tagsBySlug e.2.tags⟩

structure PermalinkRoute where
  username : Common.Feed.Username
  date : ℤ
  slug : String
deriving DecidableEq

def author (s : PostTables) (username : Common.Feed.Username) : Option Author :=
  s.users.find? (fun u ↦ u.username = username)

def permalinkClause (f : DateFunctions) (u : Author) (route : PermalinkRoute) (reader : Reader)
    (now : UtcInstant) (e : Entry) : Bool :=
  e.2.userId = u.userId ∧ e.2.slug = route.slug ∧ isPublished now e.2 ∧
    permalinkDate f e.2 = some route.date ∧ resolves reader e.2

def getPostByPermalink (f : DateFunctions) (s : PostTables) (route : PermalinkRoute)
    (reader : Reader) (now : UtcInstant) : Except DbError (Option PostRecord) :=
  match author s route.username with
  | none => .ok none
  | some u =>
    match s.posts.entries.find? (permalinkClause f u route reader now) with
    | none => .ok none
    | some e => (postRecord u e).map some

/-- An undeleted post with the slug of an alias on the date of the alias. -/
def shadowed (f : DateFunctions) (s : PostTables) (a : PermalinkAlias) : Bool :=
  (active s).any (fun e ↦ e.2.userId = a.userId ∧ e.2.slug = a.slug ∧
    permalinkDate f e.2 = some a.permalinkDate)

/-- `JOIN posts p ON p.post_id = alias.post_id AND p.user_id = alias.user_id` -/
def aliasedPost (s : PostTables) (now : UtcInstant) (a : PermalinkAlias) : Option Entry :=
  ((s.posts.lookup a.postId).filter (fun p ↦
    p.userId = a.userId ∧ isPublished now p ∧ resolves anonymous p)).map (⟨a.postId, ·⟩)

def aliasClause (f : DateFunctions) (s : PostTables) (u : Author) (route : PermalinkRoute)
    (a : PermalinkAlias) : Bool :=
  a.userId = u.userId ∧ a.slug = route.slug ∧ a.permalinkDate = route.date ∧ ¬shadowed f s a

def resolveHistoricalPostPermalinkAlias (f : DateFunctions) (m : Migrated) (route : PermalinkRoute)
    (now : UtcInstant) : Except DbError (Option PermalinkRoute) :=
  let s := m.tables
  match author s route.username with
  | none => .ok none
  | some u =>
    match (m.aliases.filter (aliasClause f s u route)).findSome? (aliasedPost s now) with
    | none => .ok none
    | some e => do
      let record ← postRecord u e
      let target := record.columns.publishedAt.getD record.columns.createdAt
      return some ⟨record.authorUsername, epochDay target, record.columns.slug⟩

end Lookups

end Jaunder.Storage.Migrations.ActivePostSlugUniqueness
