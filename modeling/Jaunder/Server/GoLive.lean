import Jaunder.Foundation.Run
import Jaunder.Storage.GoLive
import Jaunder.Storage.WriteScope

namespace Jaunder.Server.GoLive

open Foundation.Run
open Jaunder.Common.Feed Jaunder.Common.Owned Jaunder.Common.Time
open Jaunder.Host.FeedPath
open Jaunder.Storage.Dialect Jaunder.Storage.GoLive Jaunder.Storage.Schema
open Jaunder.Storage.Syndication Jaunder.Storage.Visibility Jaunder.Storage.WriteScope

def enqueueChunk : ℕ := 256

/-- `slice::chunks`. -/
def chunks {α : Type} (n : ℕ) (l : List α) : List (List α) :=
  (List.range ((l.length + n - 1) / n)).map (fun i ↦ (l.drop (i * n)).take n)

/-- The clock reading of a pass and what its reads and transactions meet: `none` is a failing
read, and `commits` tells the fate of each chunk's transaction. -/
structure PassInput where
  now : UtcInstant
  cacheScan : Option (List CatchupRead)
  posts : Option Database
  commits : ℕ → Commit

structure PassResult where
  enqueued : List FeedPath
  ok : Bool

def goLiveUrls (b : Backend) (lastTick : Option UtcInstant) (input : PassInput) :
    Option (List FeedPath) :=
  match lastTick with
  | none => input.cacheScan.bind (feedUrlsNeedingCatchup b input.now)
  | some last => input.posts.map (fun db ↦
      (listPostsGoneLiveBetween b db last input.now).flatMap (fun post ↦
        affectedFeedUrls post.username post.tagSlugs))

/-- The enqueue loop from the `i`-th chunk on; it stops at the first unconfirmed transaction. -/
def enqueueChunks (commits : ℕ → Commit) : ℕ → List (List FeedPath) → PassResult
  | _, [] => ⟨[], true⟩
  | i, paths :: rest =>
    let inserted := if (commits i).applies then paths else []
    if (commits i).isConfirmed then
      let later := enqueueChunks commits (i + 1) rest
      ⟨inserted ++ later.enqueued, later.ok⟩
    else ⟨inserted, false⟩

def goLivePass (b : Backend) (lastTick : Option UtcInstant) (input : PassInput) : PassResult :=
  match goLiveUrls b lastTick input with
  | none => ⟨[], false⟩
  | some urls => enqueueChunks input.commits 0 (chunks enqueueChunk urls.eraseDups)

/-- The worker's memory, the events that its passes have enqueued, each with the instant of its
pass, and the instants of the passes that succeeded. -/
structure Service where
  lastTick : Option UtcInstant
  events : List (UtcInstant × FeedPath)
  succeeded : List UtcInstant

def Service.fresh : Service := ⟨none, [], []⟩

inductive Step
  | restart
  | pass (input : PassInput)

def step (b : Backend) (s : Service) : Step → Service
  | .restart => { s with lastTick := none }
  | .pass input =>
    let result := goLivePass b s.lastTick input
    { lastTick := if result.ok then some input.now else s.lastTick
      events := s.events ++ result.enqueued.map (fun path ↦ (input.now, path))
      succeeded := if result.ok then s.succeeded ++ [input.now] else s.succeeded }

section Enqueue

theorem mem_chunks {α : Type} {n : ℕ} (hn : 0 < n) {l : List α} {x : α} (hx : x ∈ l) :
    ∃ part ∈ chunks n l, x ∈ part := by
  obtain ⟨j, hj, rfl⟩ := List.mem_iff_getElem.mp hx
  have hdiv := Nat.div_add_mod j n
  have hmod := Nat.mod_lt j hn
  have hindex : j / n < (l.length + n - 1) / n := by
    refine (Nat.lt_div_iff_mul_lt hn).mpr ?_
    have hmul : j / n * n ≤ j := Nat.div_mul_le_self j n
    omega
  refine ⟨(l.drop (j / n * n)).take n, ?_, ?_⟩
  · exact List.mem_map.mpr ⟨j / n, List.mem_range.mpr hindex, rfl⟩
  · have hsplit : j / n * n + j % n = j := by rw [Nat.mul_comm]; exact hdiv
    have hlength : j % n < ((l.drop (j / n * n)).take n).length := by
      rw [List.length_take, List.length_drop]
      omega
    have hget : ((l.drop (j / n * n)).take n)[j % n] = l[j] := by
      rw [List.getElem_take, List.getElem_drop]
      congr 1
    rw [← hget]
    exact List.getElem_mem hlength

theorem mem_enqueueChunks {commits : ℕ → Commit} {i : ℕ} {parts : List (List FeedPath)}
    (hok : (enqueueChunks commits i parts).ok = true) {part : List FeedPath} (hpart : part ∈ parts)
    {path : FeedPath} (hpath : path ∈ part) : path ∈ (enqueueChunks commits i parts).enqueued := by
  induction parts generalizing i with
  | nil => exact absurd hpart List.not_mem_nil
  | cons first parts ih =>
    rw [enqueueChunks] at hok ⊢
    by_cases hconfirmed : (commits i).isConfirmed = true
    · simp only [hconfirmed, if_true] at hok ⊢
      rw [if_pos (Commit.applies_of_isConfirmed hconfirmed)]
      rcases List.mem_cons.mp hpart with rfl | hrest
      · exact List.mem_append_left _ hpath
      · exact List.mem_append_right _ (ih hok hrest)
    · simp only [hconfirmed] at hok
      exact absurd hok (by simp)

/-- A successful pass has enqueued every path that it found. -/
theorem goLivePass_enqueues {b : Backend} {lastTick : Option UtcInstant} {input : PassInput}
    (hok : (goLivePass b lastTick input).ok = true) :
    ∃ urls, goLiveUrls b lastTick input = some urls ∧
      ∀ path ∈ urls, path ∈ (goLivePass b lastTick input).enqueued := by
  rw [goLivePass] at hok ⊢
  cases hurls : goLiveUrls b lastTick input with
  | none =>
    rw [hurls] at hok
    exact absurd hok (by simp)
  | some urls =>
    rw [hurls] at hok
    refine ⟨urls, rfl, fun path hpath ↦ ?_⟩
    have hdedup : path ∈ urls.eraseDups := List.mem_eraseDups.mpr hpath
    obtain ⟨part, hpart, hmem⟩ := mem_chunks (n := enqueueChunk) (by decide) hdedup
    exact mem_enqueueChunks hok hpart hmem

/-- The remembered tick is that of a pass that succeeded. -/
theorem lastTick_succeeded (b : Backend) (steps : List Step) :
    ∀ last ∈ (run (step b) .fresh steps).lastTick,
      last ∈ (run (step b) .fresh steps).succeeded := by
  refine List.foldlRecOn (motive := fun s : Service ↦ ∀ last ∈ s.lastTick, last ∈ s.succeeded)
    steps (step b) (by simp [Service.fresh]) (fun s hs e _ ↦ ?_)
  cases e with
  | restart => simp [step]
  | pass input =>
    rw [step]
    by_cases hok : (goLivePass b s.lastTick input).ok = true
    · simp [hok]
    · simpa [hok] using hs

end Enqueue

/-- A post whose publication lay in the future when it was scheduled. -/
structure ScheduledPost where
  postId : Int64
  username : Username
  tagSlugs : List Common.Feed.Tag
  scheduledAt : UtcInstant
  publishedAt : UtcInstant
  future : scheduledAt < publishedAt

/-- The database holds the post as it was scheduled: public and not deleted. -/
def ScheduledPost.StoredIn (post : ScheduledPost) (db : Database) : Prop :=
  ∃ p ∈ db.posts, p.postId = post.postId ∧ p.publishedAt = some post.publishedAt ∧
    p.deletedAt = none ∧
    (∃ t ∈ db.postAudiences, t.postId = p.postId ∧ KindNamed db t "public") ∧
    (∃ u ∈ db.users, p.userId = u.userId ∧ u.username.value = post.username) ∧
    (tagsOf db p).map (fun t ↦ t.1.value) = post.tagSlugs

def ScheduledPost.feedUrls (post : ScheduledPost) : List FeedPath :=
  affectedFeedUrls post.username post.tagSlugs

/-- A database that the pass reads posts from. -/
def PassInput.Reads (input : PassInput) (db : Database) : Prop :=
  input.posts = some db ∨ ∃ rows ∈ input.cacheScan, ∃ row ∈ rows, row.posts = some db

def EnqueuedSince (due : UtcInstant) (url : FeedPath) (s : Service) : Prop :=
  ∃ t, due ≤ t ∧ (t, url) ∈ s.events

/-- The catch-up scan saw the feed in the cache, generated at or after the instant. -/
def CachedSince (due : UtcInstant) (url : FeedPath) (input : PassInput) : Prop :=
  ∃ rows ∈ input.cacheScan, ∃ row ∈ rows, row.feedUrl = some url ∧
    ∃ generatedAt ∈ row.generatedAt, due ≤ generatedAt

def Uncached (url : FeedPath) (input : PassInput) : Prop :=
  ∃ rows ∈ input.cacheScan, ∀ row ∈ rows, row.feedUrl ≠ some url

section Coverage

variable {b : Backend} {post : ScheduledPost} {db : Database} {input : PassInput}

theorem onSurface_of_mem_feedUrls {p : Post} {url : FeedPath}
    (huser : ∃ u ∈ db.users, p.userId = u.userId ∧ u.username.value = post.username)
    (htags : (tagsOf db p).map (fun t ↦ t.1.value) = post.tagSlugs) (hurl : url ∈ post.feedUrls) :
    onSurface db url.surface p = true := by
  have hauthor : byAuthor db post.username p = true := by
    obtain ⟨u, hu, hid, hname⟩ := huser
    exact List.any_eq_true.mpr ⟨u, hu, decide_eq_true ⟨hid, hname⟩⟩
  have hcarries : ∀ tag ∈ post.tagSlugs, carriesTag db tag p = true :=
    fun tag htag ↦ carriesTag_of_mem_tagsOf (htags ▸ htag)
  rcases mem_affectedFeedUrls.mp hurl with hsite | huser | ⟨tag, htag, hsite | huser⟩
  · rw [hsite]
    rfl
  · rw [huser]
    exact hauthor
  · rw [hsite]
    exact hcarries tag htag
  · rw [huser, onSurface, hauthor, hcarries tag htag]
    rfl

/-- The steady-state window of a pass finds every scheduled post that falls into it. -/
theorem steady_pass_finds (hb : b.Keeps post.publishedAt) {last : UtcInstant}
    (hstored : post.StoredIn db) (hlast : last < post.publishedAt)
    (hdue : post.publishedAt ≤ input.now) (hposts : input.posts = some db)
    {urls : List FeedPath} (hurls : goLiveUrls b (some last) input = some urls) :
    ∀ url ∈ post.feedUrls, url ∈ urls := by
  obtain ⟨p, hp, -, hpublished, hdeleted, hpublic, ⟨u, hu, hid, hname⟩, htags⟩ := hstored
  have hlive : ∃ r : LivePost, r.post = p ∧ r.publishedAt = post.publishedAt :=
    ⟨⟨p, post.publishedAt, hpublished⟩, rfl, rfl⟩
  obtain ⟨r, rfl, hat⟩ := hlive
  have hafter : b.stored last < b.stored r.publishedAt := by
    rw [hat]
    exact (hb.lt_iff last).mpr hlast
  have hupto : b.stored r.publishedAt ≤ b.stored input.now := by
    rw [hat]
    exact (hb input.now).mpr hdue
  have hfound := mem_listPostsGoneLiveBetween hp hu hid hafter hupto hdeleted hpublic
  rw [hname, htags] at hfound
  simp only [goLiveUrls, hposts, Option.map_some, Option.some_inj] at hurls
  rw [← hurls]
  exact fun url hurl ↦ List.mem_flatMap.mpr ⟨_, hfound, hurl⟩

/-- A catch-up pass finds every feed of the post that is cached from before its publication. -/
theorem catchup_pass_finds (hb : b.Keeps post.publishedAt)
    (hstored : ∀ db, input.Reads db → post.StoredIn db) (hdue : post.publishedAt ≤ input.now)
    {urls : List FeedPath} (hurls : goLiveUrls b none input = some urls) {url : FeedPath}
    (hurl : url ∈ post.feedUrls) :
    url ∈ urls ∨ CachedSince post.publishedAt url input ∨ Uncached url input := by
  rw [goLiveUrls, Option.bind_eq_some_iff] at hurls
  obtain ⟨rows, hscan, hneeding⟩ := hurls
  by_cases hcached : ∃ row ∈ rows, row.feedUrl = some url
  · obtain ⟨row, hrow, hpath⟩ := hcached
    obtain ⟨generatedAt, db, hgenerated, hposts, hstale⟩ :=
      feedUrlsNeedingCatchup_row hneeding hrow hpath
    by_cases hfresh : post.publishedAt ≤ generatedAt
    · exact Or.inr (Or.inl ⟨rows, hscan, row, hrow, hpath, generatedAt, hgenerated, hfresh⟩)
    · have hread : input.Reads db := Or.inr ⟨rows, hscan, row, hrow, hposts⟩
      obtain ⟨p, hp, -, hpublished, hdeleted, hpublic, huser, htags⟩ := hstored db hread
      obtain ⟨max, hmax, hle⟩ := le_maxPublishedAtForSurface (b := b)
        (r := ⟨p, post.publishedAt, hpublished⟩) hp (onSurface_of_mem_feedUrls huser htags hurl)
        ((hb input.now).mpr hdue) hdeleted hpublic
      have hnewer : generatedAt < max := (not_le.mp hfresh).trans_le ((hb max).mp hle)
      refine Or.inl (hstale ?_)
      rw [hmax]
      exact decide_eq_true hnewer
  · exact Or.inr (Or.inr ⟨rows, hscan, fun row hrow hpath ↦ hcached ⟨row, hrow, hpath⟩⟩)

/-- The first successful pass at or after the due instant leaves no feed of the post behind, except
that a catch-up pass has nothing to do for a feed that is not cached. -/
theorem first_pass_covers (b : Backend) (post : ScheduledPost) (hb : b.Keeps post.publishedAt)
    (steps : List Step) (input : PassInput)
    (hstored : ∀ db, input.Reads db → post.scheduledAt < input.now → post.StoredIn db)
    (hfirst : ∀ t ∈ (run (step b) .fresh steps).succeeded, t < post.publishedAt)
    (hdue : post.publishedAt ≤ input.now)
    (hok : (goLivePass b (run (step b) .fresh steps).lastTick input).ok = true) :
    ∀ url ∈ post.feedUrls,
      EnqueuedSince post.publishedAt url (run (step b) .fresh (steps ++ [.pass input])) ∨
        ((run (step b) .fresh steps).lastTick = none ∧
          (CachedSince post.publishedAt url input ∨ Uncached url input)) := by
  intro url hurl
  have hreads : ∀ db, input.Reads db → post.StoredIn db :=
    fun db hread ↦ hstored db hread (post.future.trans_le hdue)
  obtain ⟨urls, hurls, henqueued⟩ := goLivePass_enqueues hok
  have hlogged : url ∈ urls →
      EnqueuedSince post.publishedAt url (run (step b) .fresh (steps ++ [.pass input])) := by
    intro hmem
    refine ⟨input.now, hdue, ?_⟩
    rw [run_concat]
    exact List.mem_append_right _ (List.mem_map.mpr ⟨url, henqueued url hmem, rfl⟩)
  cases hlast : (run (step b) .fresh steps).lastTick with
  | none =>
    rw [hlast] at hurls
    rcases catchup_pass_finds hb hreads hdue hurls hurl with hmem | hcovered
    · exact Or.inl (hlogged hmem)
    · exact Or.inr ⟨rfl, hcovered⟩
  | some last =>
    have hearlier : last < post.publishedAt := hfirst last (lastTick_succeeded b steps last hlast)
    rw [hlast] at hurls
    cases hposts : input.posts with
    | none => simp [goLiveUrls, hposts] at hurls
    | some db =>
      exact Or.inl (hlogged (steady_pass_finds hb (hreads db (Or.inl hposts)) hearlier hdue hposts
        hurls url hurl))

/-- A post of ten days before 2026, scheduled ten days earlier. -/
def plannedPost : ScheduledPost :=
  ⟨11, "ada", [], daysBefore2026 20, daysBefore2026 10, by decide⟩

theorem plannedPost_stored : plannedPost.StoredIn ancientPosts :=
  ⟨agedPost 11 (daysBefore2026 10), by decide, rfl, rfl, rfl,
    ⟨⟨11, 1, none⟩, by decide, rfl, ⟨1, "public"⟩, by decide, rfl, rfl⟩,
    ⟨⟨1, ⟨"ada", by decide⟩, none, .ccBy4_0⟩, by decide, rfl, rfl⟩, by decide⟩

def uncachedPass (now : UtcInstant) : PassInput :=
  ⟨now, some [], some ancientPosts, fun _ ↦ .confirmed⟩

theorem uncachedPass_reads {now : UtcInstant} (h : (uncachedPass now).Reads db) :
    db = ancientPosts := by
  rcases h with hposts | ⟨rows, hrows, row, hrow, -⟩
  · exact (Option.some_inj.mp hposts).symm
  · obtain rfl : rows = [] := (Option.some_inj.mp hrows).symm
    exact absurd hrow List.not_mem_nil

theorem first_pass_covers_planned :
    EnqueuedSince plannedPost.publishedAt ⟨.site, .rss⟩
      (run (step sqlite) .fresh [.pass (uncachedPass (daysBefore2026 15)),
        .pass (uncachedPass newYear2026)]) := by
  have hcovered := first_pass_covers sqlite plannedPost (sqlite_keeps (by decide))
    [.pass (uncachedPass (daysBefore2026 15))] (uncachedPass newYear2026)
    (fun db hdb _ ↦ uncachedPass_reads hdb ▸ plannedPost_stored) (by decide) (by decide) (by decide)
    ⟨.site, .rss⟩ (by decide)
  exact hcovered.resolve_right (fun h ↦ absurd h.1 (by decide))

/-- After a restart the catch-up pass skips a post that went live meanwhile when no feed of it is
cached. -/
theorem uncached_feed_not_enqueued :
    let steps := [Step.pass (uncachedPass (daysBefore2026 15)), Step.restart]
    let input := uncachedPass newYear2026
    plannedPost.StoredIn ancientPosts ∧
      (∀ t ∈ (run (step sqlite) .fresh steps).succeeded, t < plannedPost.publishedAt) ∧
      plannedPost.publishedAt ≤ input.now ∧
      (goLivePass sqlite (run (step sqlite) .fresh steps).lastTick input).ok = true ∧
      ¬ ∀ url ∈ plannedPost.feedUrls, EnqueuedSince plannedPost.publishedAt url
          (run (step sqlite) .fresh (steps ++ [.pass input])) ∨
        CachedSince plannedPost.publishedAt url input := by
  refine ⟨plannedPost_stored, by decide, by decide, by decide, fun h ↦ ?_⟩
  rcases h ⟨.site, .rss⟩ (by decide) with ⟨t, -, hevent⟩ | ⟨rows, hrows, row, hrow, -⟩
  · have hevents : (run (step sqlite) .fresh
        ([Step.pass (uncachedPass (daysBefore2026 15)), Step.restart] ++
          [.pass (uncachedPass newYear2026)])).events = [] := by decide
    rw [hevents] at hevent
    exact List.not_mem_nil hevent
  · obtain rfl : rows = [] := (Option.some_inj.mp hrows).symm
    exact absurd hrow List.not_mem_nil

end Coverage

end Jaunder.Server.GoLive
