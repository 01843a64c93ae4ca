import Jaunder.Foundation.FreeName
import Jaunder.Storage.IdempotentCreation
import Jaunder.Storage.Migrations.HistoricalPermalinks

namespace Jaunder.Storage.SlugAllocation

open Foundation.FreeName Foundation.Outcome
open Jaunder.Common.Slug Jaunder.Common.Time
open Jaunder.Host.Render
open Jaunder.Storage.FeedEvents Jaunder.Storage.IdempotentCreation Jaunder.Storage.PostService
open Jaunder.Storage.Posts.Lifecycle Jaunder.Storage.Posts.Tables

section Loop

variable (r : Renderer) (d : Dialect) (projection : Option String → String → String)
  (creation : PostCreation) (now clock : UtcInstant)

/-- An Org post gets its id before it is rendered. -/
def reserveFor (s : Store) : Option ℤ × Store :=
  if creation.format = .org then
    (some (reservePostId d s.tables), { s with tables := reserve d s.tables })
  else (none, s)

/-- The loop of `perform_post_creation_at`, where the media, the locks and the commits do not fail. -/
def performAttempts (slugSeed : String) (attempt : ℕ) (s : Store) :
    ℕ → Except PerformCreationError PostRecord × Store
  | 0 => (.error (.exhausted creation.maxAttempts), s)
  | remaining + 1 =>
    match candidateSlug r.unicode slugSeed attempt with
    | none => (.error .invalidSlug, s)
    | some slug =>
      let (reservedPostId, s) := reserveFor d creation s
      match renderPostInput r creation reservedPostId attempt with
      | .error error => (.error error, s)
      | .ok input =>
        match createRenderedPost d projection s input now clock with
        | .ok (record, s) => (.ok record, s)
        | .error error =>
          match mapCreatePostAttemptError error (creation.expectations.slug = some slug) with
          | .error error => (.error error, s)
          | .ok () => performAttempts slugSeed (attempt + 1) s remaining

def performPostCreation (s : Store) : Except PerformCreationError PostRecord × Store :=
  match naming r creation with
  | .error error => (.error error, s)
  | .ok (_, slugSeed, _) => performAttempts r d projection creation now clock slugSeed 0 s creation.maxAttempts

end Loop

section Candidates

variable {u : Unicode} {seed : String} {i j attempt : ℕ} {slug : String}

/-- The slugs of the undeleted posts of a user. -/
def activeSlugs (s : PostTables) (userId : ℤ) : List String :=
  (s.posts.entries.filter (fun e ↦ e.2.userId = userId ∧ e.2.deletedAt = none)).map (·.2.slug)

def suffixed (seed : String) (attempt : ℕ) : List Char :=
  let numbered := '-' :: Nat.toDigits 10 attempt
  (seed.toList.take (maxSlugChars - numbered.length)).rdropWhile (· = '-') ++ numbered

theorem isDigit_toDigits : ∀ c ∈ Nat.toDigits 10 attempt, c.isDigit = true :=
  fun _ hc ↦ Nat.isDigit_of_mem_toDigits (by decide) (by decide) hc

theorem suffixed_injective (seed : String) : Function.Injective (suffixed seed) := by
  intro i j h
  have hdash (n : ℕ) : '-' ∉ Nat.toDigits 10 n := by
    intro hmem
    exact absurd (isDigit_toDigits '-' hmem) (by decide)
  have hdigits := suffix_injective (hdash i) (hdash j) h
  have hvalue := congrArg (fun l ↦ Nat.ofDigitChars 10 l 0) hdigits
  simpa using hvalue

theorem length_toDigits_le (h : attempt < 2 ^ 64) : (Nat.toDigits 10 attempt).length ≤ 20 := by
  have hbound : 2 ^ 64 < 10 ^ 20 := by decide
  exact (Nat.length_toDigits_le_iff (by decide) (by decide)).mpr (h.trans hbound)

/-- Every candidate of a valid seed is a valid slug. -/
theorem candidateSlug_eq (hu : u.Documented) (hseed : IsSlug u seed.toList) (hpos : 0 < attempt)
    (hlt : attempt < 2 ^ 64) :
    candidateSlug u seed attempt = some (String.ofList (suffixed seed attempt)) ∧
      IsSlug u (suffixed seed attempt) := by
  have hlength := length_toDigits_le hlt
  have hslug : IsSlug u (suffixed seed attempt) := by
    refine isSlug_numbered hu hseed ?_ isDigit_toDigits ?_
    · simp only [List.length_cons, maxSlugChars]
      omega
    · simp only [List.length_cons, maxSlugChars]
      omega
  refine ⟨?_, hslug⟩
  rw [candidateSlug, if_neg hpos.ne']
  have hparse : fromStr u (suffixed seed attempt) = some (suffixed seed attempt) := hslug
  exact congrArg (Option.map String.ofList) hparse

theorem candidateSlug_isSlug (hu : u.Documented) (hseed : IsSlug u seed.toList)
    (hlt : attempt < 2 ^ 64) : ∃ slug, candidateSlug u seed attempt = some slug ∧ IsSlug u slug.toList := by
  rcases Nat.eq_zero_or_pos attempt with rfl | hpos
  · exact ⟨seed, if_pos rfl, hseed⟩
  · obtain ⟨hcandidate, hslug⟩ := candidateSlug_eq hu hseed hpos hlt
    exact ⟨_, hcandidate, by rwa [String.toList_ofList]⟩

theorem candidateSlug_injective (hu : u.Documented) (hseed : IsSlug u seed.toList) (hi : 0 < i)
    (hj : 0 < j) (hi' : i < 2 ^ 64) (hj' : j < 2 ^ 64)
    (h : candidateSlug u seed i = candidateSlug u seed j) : i = j := by
  rw [(candidateSlug_eq hu hseed hi hi').1, (candidateSlug_eq hu hseed hj hj').1] at h
  have htext := congrArg String.toList (Option.some.inj h)
  rw [String.toList_ofList, String.toList_ofList] at htext
  exact suffixed_injective seed htext

end Candidates

section Attempts

variable {r : Renderer} {d : Dialect} {projection : Option String → String → String}
  {creation : PostCreation} {now clock : UtcInstant} {s s' : Store} {input : CreatePostInput}
  {record : PostRecord} {seed slug : String} {title : Option String} {body : String}
  {attempt remaining : ℕ} {error : PerformCreationError} {reservedPostId : Option ℤ}

theorem mem_activeSlugs_of_taken {tables : PostTables} {userId postId : ℤ}
    (h : slugTaken tables userId slug postId = true) : slug ∈ activeSlugs tables userId := by
  obtain ⟨e, he, htaken⟩ := List.any_eq_true.mp h
  obtain ⟨-, huser, hslug, hdeleted⟩ := of_decide_eq_true htaken
  refine List.mem_map.mpr ⟨e, List.mem_filter.mpr ⟨he, decide_eq_true ⟨huser, hdeleted⟩⟩, hslug⟩

theorem taken_of_mem_activeSlugs {tables : PostTables} {userId postId : ℤ}
    (h : slug ∈ activeSlugs tables userId) (hfresh : postId ∉ tables.posts) :
    slugTaken tables userId slug postId = true := by
  obtain ⟨e, he, hslug⟩ := List.mem_map.mp h
  obtain ⟨he, hlive⟩ := List.mem_filter.mp he
  obtain ⟨huser, hdeleted⟩ := of_decide_eq_true hlive
  refine List.any_eq_true.mpr ⟨e, he, decide_eq_true ⟨?_, huser, hslug, hdeleted⟩⟩
  rintro rfl
  exact hfresh (List.mem_keys_of_mem he)

/-- What a reservation leaves alone. -/
structure Reserved (s s' : Store) : Prop where
  tables : ∃ lastPostId, s'.tables = { s.tables with lastPostId }
  feedEvents : s'.feedEvents = s.feedEvents

theorem Reserved.refl (s : Store) : Reserved s s := ⟨⟨s.tables.lastPostId, rfl⟩, rfl⟩

theorem Reserved.trans {s₁ s₂ s₃ : Store} (h : Reserved s₁ s₂) (h' : Reserved s₂ s₃) :
    Reserved s₁ s₃ := by
  obtain ⟨last, htables⟩ := h.tables
  obtain ⟨last', htables'⟩ := h'.tables
  refine ⟨⟨last', ?_⟩, h'.feedEvents.trans h.feedEvents⟩
  rw [htables', htables]

theorem Reserved.sameRows (h : Reserved s s') : SameRows s s' := by
  obtain ⟨last, htables⟩ := h.tables
  exact ⟨by rw [htables], by rw [htables], h.feedEvents⟩

theorem Reserved.activeSlugs (h : Reserved s s') (userId : ℤ) :
    activeSlugs s'.tables userId = activeSlugs s.tables userId := by
  obtain ⟨last, htables⟩ := h.tables
  rw [htables]
  rfl

theorem reserveFor_reserved : Reserved s (reserveFor d creation s).2 := by
  rw [reserveFor]
  split_ifs
  · exact ⟨⟨_, rfl⟩, rfl⟩
  · exact .refl s

theorem renderPostInput_fields (hnaming : naming r creation = .ok (title, seed, body))
    (h : renderPostInput r creation reservedPostId attempt = .ok input) :
    ∃ rendered, candidateSlug r.unicode seed attempt = some input.slug ∧
      r.renderPost reservedPostId title body creation.format = some rendered ∧
      input = ⟨creation.userId, reservedPostId, input.slug, rendered, creation.publishedAt,
        creation.summary, creation.audiences, creation.tags, creation.expectations,
        creation.idempotencyKey⟩ := by
  obtain ⟨⟨title', seed', body'⟩, hnaming', h⟩ := bind_eq_ok.mp h
  rw [hnaming] at hnaming'
  cases hnaming'
  obtain ⟨slug, hslug, h⟩ := bind_eq_ok.mp h
  obtain ⟨rendered, hrendered, h⟩ := bind_eq_ok.mp h
  obtain rfl := pure_eq_ok.mp h
  exact ⟨rendered, orError_eq_ok.mp hslug, orError_eq_ok.mp hrendered, rfl⟩

theorem renderPostInput_ne_exhausted (n : ℕ) :
    renderPostInput r creation reservedPostId attempt ≠ .error (.exhausted n) := by
  have hnaming : ErrorsIn (fun e ↦ e ≠ .exhausted n) (naming r creation) :=
    (errorsIn_orError nofun).bind fun _ _ ↦ (errorsIn_orError nofun).bind fun _ _ ↦ errorsIn_pure _
  have hall : ErrorsIn (fun e ↦ e ≠ .exhausted n) (renderPostInput r creation reservedPostId attempt) :=
    hnaming.bind fun _ _ ↦ (errorsIn_orError nofun).bind fun _ _ ↦
      (errorsIn_orError nofun).bind fun _ _ ↦ errorsIn_pure _
  exact fun h ↦ hall _ h rfl

/-- A create refuses the slug only when a post of the user has it. -/
theorem slug_mem_of_conflict
    (h : createRenderedPost d projection s input now clock = .error .slugConflict) :
    input.slug ∈ activeSlugs s.tables input.userId := by
  have hall : ErrorsIn (fun e ↦ e = .slugConflict → input.slug ∈ activeSlugs s.tables input.userId)
      (createRenderedPost d projection s input now clock) := by
    refine ErrorsIn.bind ?_ fun _ _ ↦ errorsIn_pure _
    refine ErrorsIn.bind ?_ fun _ _ ↦ (ErrorsIn.mapError fun _ _ ↦ nofun).bind fun _ _ ↦ errorsIn_pure _
    refine ErrorsIn.bind ?_ fun _ _ ↦ ?_
    · intro error herror hconflict
      subst hconflict
      cases hfind : input.idempotencyKey.bind (fun key ↦
          s.tables.idempotencyKeys.find? (fun m ↦ m.userId = input.userId ∧ m.key = key)) with
      | none =>
        rw [hfind] at herror
        cases herror
      | some m =>
        rw [hfind] at herror
        cases herror
    refine (errorsIn_require nofun).bind fun _ _ ↦ (errorsIn_require nofun).bind fun _ _ ↦ ?_
    refine ErrorsIn.bind ?_ fun _ _ ↦ (errorsIn_require nofun).bind fun _ _ ↦
      (ErrorsIn.mapError fun _ _ ↦ nofun).bind fun _ _ ↦ errorsIn_pure _
    intro error herror _
    by_contra hfree
    have hnot : ¬slugTaken s.tables input.userId input.slug
        (input.reservedPostId.getD (reservePostId d s.tables)) = true :=
      fun htaken ↦ hfree (mem_activeSlugs_of_taken htaken)
    rw [require_pos hnot] at herror
    cases herror
  exact hall _ h rfl

/-- A create keeps the slug that it is given, which no other post has. -/
theorem slug_of_created (h : createRenderedPost d projection s input now clock = .ok (record, s')) :
    record.columns.slug = input.slug ∧ input.slug ∉ activeSlugs s.tables input.userId ∧
      createExpectationsMatch input = true := by
  obtain ⟨⟨record', tables⟩, hcreate, h⟩ := bind_eq_ok.mp h
  obtain ⟨rfl, rfl⟩ := Prod.mk.inj (pure_eq_ok.mp h)
  obtain ⟨⟨postId, tables'⟩, hwrite, hcreate⟩ := bind_eq_ok.mp hcreate
  obtain ⟨record'', hfetch, hcreate⟩ := bind_eq_ok.mp hcreate
  obtain ⟨rfl, rfl⟩ := Prod.mk.inj (pure_eq_ok.mp hcreate)
  have hmatch : createExpectationsMatch input = true := by
    obtain ⟨-, -, hwrite⟩ := bind_eq_ok.mp hwrite
    obtain ⟨-, -, hwrite⟩ := bind_eq_ok.mp hwrite
    obtain ⟨-, -, hwrite⟩ := bind_eq_ok.mp hwrite
    obtain ⟨-, -, hwrite⟩ := bind_eq_ok.mp hwrite
    obtain ⟨v, hmatch, hwrite⟩ := bind_eq_ok.mp hwrite
    exact require_eq_ok.mp hmatch
  obtain ⟨audiences, -, -, hfresh, -, hfree, hposts, -, -⟩ := writePostInTx_ok hwrite
  obtain ⟨p, u, hp, -, -, rfl⟩ := fetchPost_ok (mapError_eq_ok.mp hfetch)
  rw [hposts, AList.lookup_insert] at hp
  obtain rfl := Option.some.inj hp
  refine ⟨rfl, fun hmem ↦ ?_, hmatch⟩
  rw [taken_of_mem_activeSlugs hmem hfresh] at hfree
  exact absurd hfree nofun

/-- What the loop does from an attempt on: the first candidate that is free is used, and an error
leaves the rows as they are. -/
structure Allocated (r : Renderer) (creation : PostCreation) (seed : String) (attempt remaining : ℕ)
    (s : Store) (outcome : Except PerformCreationError PostRecord × Store) : Prop where
  created : ∀ record, outcome.1 = .ok record → ∃ k, attempt ≤ k ∧ k < attempt + remaining ∧
    candidateSlug r.unicode seed k = some record.columns.slug ∧
    record.columns.slug ∉ activeSlugs s.tables creation.userId ∧
    (∀ j, attempt ≤ j → j < k → ∃ slug, candidateSlug r.unicode seed j = some slug ∧
      slug ∈ activeSlugs s.tables creation.userId) ∧
    ∀ expected ∈ creation.expectations.slug, record.columns.slug = expected
  failed : ∀ error, outcome.1 = .error error → Reserved s outcome.2
  exhausted : ∀ n, outcome.1 = .error (.exhausted n) → ∀ k, attempt ≤ k → k < attempt + remaining →
    ∃ slug, candidateSlug r.unicode seed k = some slug ∧ slug ∈ activeSlugs s.tables creation.userId

/-- An attempt that ends the loop with an error of its own. -/
theorem allocated_of_error (hreserved : Reserved s s') (herror : ∀ n, error ≠ .exhausted n) :
    Allocated r creation seed attempt remaining s (.error error, s') where
  created := fun _ h ↦ absurd h nofun
  failed := fun _ _ ↦ hreserved
  exhausted := fun n h ↦ absurd (Except.error.inj h) (herror n)

theorem mapCreatePostAttemptError_ne_exhausted {e : CreatePostError} {isExpectedSlug : Bool}
    (h : mapCreatePostAttemptError e isExpectedSlug = .error error) (n : ℕ) : error ≠ .exhausted n := by
  cases e with
  | slugConflict =>
    rw [mapCreatePostAttemptError] at h
    split_ifs at h
    rw [← Except.error.inj h]
    exact nofun
  | idempotencyConflict postId =>
    rw [← Except.error.inj h]
    exact nofun
  | bookkeepingMismatch =>
    rw [← Except.error.inj h]
    exact nofun
  | internal e =>
    rw [← Except.error.inj h]
    exact nofun

theorem eq_slugConflict_of_goOn {e : CreatePostError} {isExpectedSlug : Bool}
    (h : mapCreatePostAttemptError e isExpectedSlug = .ok ()) : e = .slugConflict := by
  cases e with
  | slugConflict => rfl
  | idempotencyConflict postId => cases h
  | bookkeepingMismatch => cases h
  | internal e => cases h

theorem performAttempts_allocated (hnaming : naming r creation = .ok (title, seed, body)) :
    Allocated r creation seed attempt remaining s
      (performAttempts r d projection creation now clock seed attempt s remaining) := by
  induction remaining generalizing attempt s with
  | zero =>
    refine ⟨fun record h ↦ absurd h nofun, fun _ _ ↦ .refl s, fun n _ k hlow hhigh ↦ ?_⟩
    omega
  | succ remaining ih =>
    rw [performAttempts]
    cases hcandidate : candidateSlug r.unicode seed attempt with
    | none => exact allocated_of_error (.refl s) nofun
    | some slug =>
      have hreserved : Reserved s (reserveFor d creation s).2 := reserveFor_reserved
      dsimp only
      cases hinput : renderPostInput r creation (reserveFor d creation s).1 attempt with
      | error e =>
        exact allocated_of_error hreserved fun n heq ↦ renderPostInput_ne_exhausted n (heq ▸ hinput)
      | ok input =>
        obtain ⟨rendered, hslug, -, hfields⟩ := renderPostInput_fields hnaming hinput
        rw [hcandidate] at hslug
        have hsame : slug = input.slug := Option.some.inj hslug
        have huser : input.userId = creation.userId := by rw [hfields]
        dsimp only
        cases hcreate : createRenderedPost d projection (reserveFor d creation s).2 input now clock with
        | ok result =>
          obtain ⟨record, s'⟩ := result
          obtain ⟨hrecord, hfree, hmatch⟩ := slug_of_created hcreate
          rw [huser, hreserved.activeSlugs] at hfree
          refine ⟨fun record' h ↦ ?_, fun e h ↦ absurd h nofun, fun n h ↦ absurd h nofun⟩
          cases h
          refine ⟨attempt, le_rfl, by omega, ?_, by rwa [hrecord], fun j hlow hhigh ↦ by omega, ?_⟩
          · rw [hcandidate, hrecord, hsame]
          · intro expected hexpected
            have hexpectations : input.expectations = creation.expectations := by rw [hfields]
            have hall := (of_decide_eq_true hmatch).1
            rw [hexpectations, Option.mem_def.mp hexpected] at hall
            rw [hrecord]
            exact (of_decide_eq_true hall).symm
        | error e =>
          dsimp only
          cases hmap : mapCreatePostAttemptError e (creation.expectations.slug = some slug) with
          | error error => exact allocated_of_error hreserved (mapCreatePostAttemptError_ne_exhausted hmap)
          | ok u =>
            obtain rfl := eq_slugConflict_of_goOn hmap
            have htaken := slug_mem_of_conflict hcreate
            rw [huser, hreserved.activeSlugs, ← hsame] at htaken
            have hrest : Allocated r creation seed (attempt + 1) remaining (reserveFor d creation s).2
                (performAttempts r d projection creation now clock seed (attempt + 1)
                  (reserveFor d creation s).2 remaining) := ih
            dsimp only
            refine ⟨fun record h ↦ ?_, fun error h ↦ hreserved.trans (hrest.failed error h),
              fun n h k hlow hhigh ↦ ?_⟩
            · obtain ⟨k, hlow, hhigh, hk, hfree, hbefore, hexpected⟩ := hrest.created record h
              rw [hreserved.activeSlugs] at hfree
              refine ⟨k, by omega, by omega, hk, hfree, fun j hj hjk ↦ ?_, hexpected⟩
              rcases hj.lt_or_eq with hlt | rfl
              · have hj' := hbefore j hlt hjk
                rwa [hreserved.activeSlugs] at hj'
              · exact ⟨slug, hcandidate, htaken⟩
            · rcases hlow.lt_or_eq with hlt | rfl
              · have hk := hrest.exhausted n h k hlt (by omega)
                rwa [hreserved.activeSlugs] at hk
              · exact ⟨slug, hcandidate, htaken⟩

end Attempts

section Termination

variable {r : Renderer} {d : Dialect} {projection : Option String → String → String}
  {creation : PostCreation} {now clock : UtcInstant} {s s' : Store} {seed slug : String}
  {title : Option String} {body : String} {attempt remaining : ℕ} {reservedPostId : Option ℤ}

/-- Nothing but its slug can refuse a creation. -/
structure Unhindered (r : Renderer) (d : Dialect) (creation : PostCreation) (title : Option String)
    (body : String) (s : Store) : Prop where
  rendered : ∀ reservedPostId, ∃ rendered,
    r.renderPost reservedPostId title body creation.format = some rendered ∧
      rendered.title.isSome = rendered.renderedTitle.isSome ∧
      creation.expectations.format.all (· = rendered.format) = true
  unmapped : ∀ key ∈ creation.idempotencyKey, ∀ m ∈ s.tables.idempotencyKeys,
    ¬(m.userId = creation.userId ∧ m.key = key)
  author : creation.userId ∈ s.tables.users.map Author.userId
  ids : ∀ postId ∈ s.tables.posts, postId ≤ s.tables.lastPostId
  audiences : ∃ rows, replacePostAudiences d s.tables creation.audiences = .ok rows
  slug : creation.expectations.slug = none
  publishedAt : creation.expectations.publishedAt.all (· = creation.publishedAt) = true

theorem le_foldl_max (l : List ℤ) (m : ℤ) : m ≤ l.foldl max m := by
  induction l generalizing m with
  | nil => exact le_rfl
  | cons x l ih => exact (le_max_left m x).trans (ih (max m x))

theorem lastPostId_lt_reservePostId (tables : PostTables) :
    tables.lastPostId < reservePostId d tables := by
  cases d with
  | sqlite => exact Int.lt_add_one_of_le (le_foldl_max _ _)
  | postgres => exact lt_add_one _

theorem Unhindered.reserved (h : Unhindered r d creation title body s) :
    Unhindered r d creation title body (reserveFor d creation s).2 := by
  rw [reserveFor]
  split_ifs
  · exact ⟨h.rendered, h.unmapped, h.author,
      fun postId hmem ↦ (h.ids postId hmem).trans (lastPostId_lt_reservePostId s.tables).le,
      h.audiences, h.slug, h.publishedAt⟩
  · exact h

/-- The id of the next post is fresh, whether an Org post has reserved it or not. -/
theorem Unhindered.fresh (h : Unhindered r d creation title body s) :
    (reserveFor d creation s).1.getD (reservePostId d (reserveFor d creation s).2.tables) ∉
      (reserveFor d creation s).2.tables.posts := by
  have hlt := lastPostId_lt_reservePostId (d := d) s.tables
  rw [reserveFor]
  split_ifs
  · exact fun hmem ↦ absurd (h.ids _ hmem) (not_le.mpr hlt)
  · exact fun hmem ↦ absurd (h.ids _ hmem) (not_le.mpr hlt)

/-- An attempt of an unhindered creation is refused exactly for a slug that is taken. -/
theorem Unhindered.create (projection : Option String → String → String) (now clock : UtcInstant)
    (h : Unhindered r d creation title body s) {input : CreatePostInput}
    (hnaming : naming r creation = .ok (title, seed, body))
    (hinput : renderPostInput r creation (reserveFor d creation s).1 attempt = .ok input) :
    if input.slug ∈ activeSlugs s.tables creation.userId then
      createRenderedPost d projection (reserveFor d creation s).2 input now clock = .error .slugConflict
    else ∃ outcome, createRenderedPost d projection (reserveFor d creation s).2 input now clock = .ok outcome := by
  obtain ⟨rendered, -, hrender, hfields⟩ := renderPostInput_fields hnaming hinput
  have hfresh := h.fresh
  have hreserved : Reserved s (reserveFor d creation s).2 := reserveFor_reserved
  have hactive := hreserved.activeSlugs creation.userId
  have h' := h.reserved
  generalize reserveFor d creation s = reserved at hfields hfresh hactive h' hrender
  obtain ⟨reservedPostId, s'⟩ := reserved
  obtain ⟨rendered', hrendered', htitle, hformat⟩ := h'.rendered reservedPostId
  obtain rfl := Option.some.inj (hrendered'.symm.trans hrender)
  obtain ⟨rows, hrows⟩ := h'.audiences
  have huser : input.userId = creation.userId := by rw [hfields]
  have hid : input.reservedPostId = reservedPostId := by rw [hfields]
  have hcontent : input.rendered = rendered' := by rw [hfields]
  have hexpectations : createExpectationsMatch input = true := by
    rw [hfields]
    refine decide_eq_true ⟨?_, hformat, h'.publishedAt⟩
    rw [h'.slug]
    rfl
  have hmapping : input.idempotencyKey.bind (fun key ↦
      s'.tables.idempotencyKeys.find? (fun m ↦ m.userId = input.userId ∧ m.key = key)) = none := by
    rw [hfields]
    refine Option.bind_eq_none_iff.mpr fun key hkey ↦ List.find?_eq_none.mpr fun m hm hclash ↦ ?_
    exact h'.unmapped key hkey m hm (of_decide_eq_true hclash)
  have hrows' : replacePostAudiences d s'.tables input.audiences = .ok rows := by rw [hfields, hrows]
  have hauthor : input.userId ∈ s'.tables.users.map Author.userId := by rw [huser]; exact h'.author
  have hidentity : input.reservedPostId.getD (reservePostId d s'.tables) ∉ s'.tables.posts := by
    rw [hid]
    exact hfresh
  rw [← hactive, ← huser]
  split_ifs with htaken
  · have hslug := taken_of_mem_activeSlugs htaken hidentity
    have hrefused : ¬¬slugTaken s'.tables input.userId input.slug
        (input.reservedPostId.getD (reservePostId d s'.tables)) = true := fun hnot ↦ hnot hslug
    unfold createRenderedPost createPost writePostInTx
    simp only [hmapping, Option.elim_none, ok_bind, require_pos hidentity, require_pos hauthor,
      require_neg hrefused, error_bind]
  · have hslug : ¬slugTaken s'.tables input.userId input.slug
        (input.reservedPostId.getD (reservePostId d s'.tables)) = true :=
      fun hslug ↦ htaken (mem_activeSlugs_of_taken hslug)
    have hpresence : input.rendered.title.isSome = input.rendered.renderedTitle.isSome := by
      rw [hcontent, htitle]
    obtain ⟨author, hauthor'⟩ : ∃ author, s'.tables.users.find? (fun u ↦ u.userId = input.userId) = some author := by
      obtain ⟨author, hmem, hsame⟩ := List.mem_map.mp hauthor
      exact Option.isSome_iff_exists.mp (List.find?_isSome.mpr ⟨author, hmem, decide_eq_true hsame⟩)
    have hwrite : ∃ tables, writePostInTx d projection s'.tables input now =
        .ok (input.reservedPostId.getD (reservePostId d s'.tables), tables) ∧
        tables.posts = s'.tables.posts.insert (input.reservedPostId.getD (reservePostId d s'.tables))
          (createdPost projection input now rows) ∧ tables.users = s'.tables.users := by
      unfold writePostInTx
      simp only [hmapping, Option.elim_none, ok_bind, require_pos hidentity, require_pos hauthor,
        require_pos hslug, require_pos hexpectations, hrows']
      exact ⟨_, rfl, rfl, rfl⟩
    obtain ⟨tables, hwrite, hposts, husers⟩ := hwrite
    have hfetch : ∃ record, fetchPost tables (input.reservedPostId.getD (reservePostId d s'.tables)) =
        .ok record := by
      have hpost : (createdPost projection input now rows).userId = input.userId := rfl
      have hshown : (createdPost projection input now rows).title.isSome =
          (createdPost projection input now rows).renderedTitle.isSome := hpresence
      unfold fetchPost validateRenderedTitlePresence
      simp only [hposts, husers, AList.lookup_insert, orError_some, ok_bind, hpost, hauthor',
        require_pos hshown]
      exact ⟨_, rfl⟩
    obtain ⟨record, hfetch⟩ := hfetch
    unfold createRenderedPost createPost
    rw [hwrite, ok_bind]
    dsimp only
    rw [hfetch]
    exact ⟨_, rfl⟩

/-- A creation that only slugs can refuse creates its post or runs out of attempts. -/
theorem performAttempts_unhindered (projection : Option String → String → String)
    (now clock : UtcInstant) (hnaming : naming r creation = .ok (title, seed, body))
    (hvalid : ∀ k < attempt + remaining, ∃ slug, candidateSlug r.unicode seed k = some slug)
    (h : Unhindered r d creation title body s) :
    (∃ record, (performAttempts r d projection creation now clock seed attempt s remaining).1 =
      .ok record) ∨
    (performAttempts r d projection creation now clock seed attempt s remaining).1 =
      .error (.exhausted creation.maxAttempts) := by
  induction remaining generalizing attempt s with
  | zero => exact .inr rfl
  | succ remaining ih =>
    obtain ⟨slug, hcandidate⟩ := hvalid attempt (by omega)
    obtain ⟨rendered, hrendered, -, -⟩ := h.rendered (reserveFor d creation s).1
    have hinput : ∃ input, renderPostInput r creation (reserveFor d creation s).1 attempt = .ok input := by
      unfold renderPostInput
      simp only [hnaming, ok_bind, hcandidate, orError_some, hrendered]
      exact ⟨_, rfl⟩
    obtain ⟨input, hinput⟩ := hinput
    have hcreate := h.create projection now clock hnaming hinput
    rw [performAttempts, hcandidate]
    dsimp only
    rw [hinput]
    dsimp only
    split_ifs at hcreate with htaken
    · have hexpected : ¬creation.expectations.slug = some slug := by
        rw [h.slug]
        nofun
      have hmap : mapCreatePostAttemptError .slugConflict
          (decide (creation.expectations.slug = some slug)) = .ok () := by
        rw [decide_eq_false hexpected]
        rfl
      rw [hcreate]
      dsimp only
      rw [hmap]
      exact ih (fun k hk ↦ hvalid k (by omega)) h.reserved
    · obtain ⟨⟨record, s'⟩, hcreate⟩ := hcreate
      rw [hcreate]
      exact .inl ⟨record, rfl⟩

/-- A creation uses its seed when no undeleted post of the user has it, and otherwise the first
numbered candidate that is free; with more attempts than posts it cannot run out of them. -/
theorem slug_allocation (hu : r.unicode.Documented)
    (hnaming : naming r creation = .ok (title, seed, body)) (hseed : IsSlug r.unicode seed.toList)
    (hattempts : creation.maxAttempts ≤ 2 ^ 64) :
    let taken := activeSlugs s.tables creation.userId
    let outcome := performPostCreation r d projection creation now clock s
    (∀ record, outcome.1 = .ok record →
      IsSlug r.unicode record.columns.slug.toList ∧ record.columns.slug ∉ taken ∧
      (seed ∉ taken → record.columns.slug = seed) ∧
      (∃ k < creation.maxAttempts, candidateSlug r.unicode seed k = some record.columns.slug ∧
        ∀ j < k, ∃ slug ∈ taken, candidateSlug r.unicode seed j = some slug) ∧
      ∀ expected ∈ creation.expectations.slug, record.columns.slug = expected) ∧
    (∀ error, outcome.1 = .error error → SameRows s outcome.2) ∧
    (∀ n, outcome.1 = .error (.exhausted n) → ∀ k < creation.maxAttempts,
      ∃ slug ∈ taken, candidateSlug r.unicode seed k = some slug) ∧
    (Unhindered r d creation title body s → taken.length + 1 < creation.maxAttempts →
      ∃ record, outcome.1 = .ok record) ∧
    ∀ i j, 0 < i → i < j → j < creation.maxAttempts →
      candidateSlug r.unicode seed i ≠ candidateSlug r.unicode seed j := by
  intro taken outcome
  have houtcome : outcome = performAttempts r d projection creation now clock seed 0 s
      creation.maxAttempts := by
    change performPostCreation r d projection creation now clock s = _
    rw [performPostCreation, hnaming]
  have hallocated : Allocated r creation seed 0 creation.maxAttempts s outcome := by
    rw [houtcome]
    exact performAttempts_allocated hnaming
  have hcandidate (k : ℕ) (hk : k < creation.maxAttempts) :=
    candidateSlug_isSlug hu hseed (hk.trans_le hattempts)
  have hexhausted (n : ℕ) (h : outcome.1 = .error (.exhausted n)) (k : ℕ) (hk : k < creation.maxAttempts) :
      ∃ slug ∈ taken, candidateSlug r.unicode seed k = some slug := by
    obtain ⟨slug, hslug, htaken⟩ := hallocated.exhausted n h k k.zero_le (by omega)
    exact ⟨slug, htaken, hslug⟩
  refine ⟨fun record h ↦ ?_, fun error h ↦ (hallocated.failed error h).sameRows, hexhausted,
    fun hunhindered hroom ↦ ?_, fun i j hi hij hj heq ↦ ?_⟩
  · obtain ⟨k, -, hk, hslug, hfree, hbefore, hexpected⟩ := hallocated.created record h
    have hk : k < creation.maxAttempts := by omega
    obtain ⟨slug, hslug', hvalid⟩ := hcandidate k hk
    obtain rfl := Option.some.inj (hslug'.symm.trans hslug)
    refine ⟨hvalid, hfree, fun hseed' ↦ ?_, ⟨k, hk, hslug, fun j hj ↦ ?_⟩, hexpected⟩
    · rcases k.eq_zero_or_pos with rfl | hpos
      · exact (Option.some.inj hslug).symm
      · obtain ⟨first, hfirst, htaken⟩ := hbefore 0 le_rfl hpos
        obtain rfl := Option.some.inj hfirst
        exact absurd htaken hseed'
    · obtain ⟨slug, hslug, htaken⟩ := hbefore j j.zero_le hj
      exact ⟨slug, htaken, hslug⟩
  · have hvalid (k : ℕ) (hk : k < 0 + creation.maxAttempts) :
        ∃ slug, candidateSlug r.unicode seed k = some slug := by
      obtain ⟨slug, hslug, -⟩ := hcandidate k (by omega)
      exact ⟨slug, hslug⟩
    have hend := performAttempts_unhindered projection now clock hnaming hvalid hunhindered
    rw [← houtcome] at hend
    rcases hend with hok | hnone
    · exact hok
    · have hinjective : Function.Injective (fun k ↦ String.ofList (suffixed seed k)) :=
        fun i j h ↦ suffixed_injective seed (String.ofList_injective h)
      obtain ⟨k, hlow, hhigh, hfree⟩ := exists_free hinjective taken
      obtain ⟨slug, htaken, hslug⟩ := hexhausted _ hnone k (by omega)
      rw [(candidateSlug_eq hu hseed hlow (by omega)).1] at hslug
      obtain rfl := Option.some.inj hslug
      exact absurd htaken hfree
  · have heq' := candidateSlug_injective hu hseed hi (hi.trans hij) (by omega) (by omega) heq
    omega

section Crowd

open Jaunder.Storage.Migrations.HistoricalPermalinks Jaunder.Storage.Posts.AudienceRows

def noticePost (slug : String) : Post :=
  createdPost noticeProjection ⟨1, none, slug, notice, some noticeClock, none, [.public_], [], .none, none⟩
    noticeClock [⟨.public_, none⟩]

def noticeCandidate (k : ℕ) : String := (candidateSlug asciiText "notice" k).getD ""

/-- An author has the first candidates of one seed. -/
def noticePosts (n : ℕ) : AList (fun _ : ℤ ↦ Post) where
  entries := (List.range n).map (fun k : ℕ ↦ ⟨(k : ℤ), noticePost (noticeCandidate k)⟩)
  nodupKeys := by
    rw [List.NodupKeys, List.keys, List.map_map]
    exact List.nodup_range.map (fun i j h ↦ Int.ofNat.inj h)

def noticeStore (n : ℕ) : Store :=
  ⟨{ noticeTables with posts := noticePosts n, lastPostId := n }, .empty 1⟩

theorem unhindered_notice (n : ℕ) :
    Unhindered noticeRenderer .sqlite noticeRequest none "Closed today." (noticeStore n) where
  rendered _ := ⟨notice, rfl, rfl, rfl⟩
  unmapped _ _ m hm := absurd hm List.not_mem_nil
  author := List.mem_singleton.mpr rfl
  ids postId hmem := by
    obtain ⟨k, hk, rfl⟩ : ∃ k ∈ List.range n, (k : ℤ) = postId := by
      have hkeys : postId ∈ (noticePosts n).entries.map Sigma.fst := hmem
      rw [noticePosts, List.map_map] at hkeys
      exact List.mem_map.mp hkeys
    exact Int.ofNat_le.mpr (List.mem_range.mp hk).le
  audiences := ⟨[⟨.public_, none⟩], rfl⟩
  slug := rfl
  publishedAt := rfl

theorem isSlug_notice : IsSlug asciiText "notice".toList := by decide

theorem activeSlugs_notice (n : ℕ) :
    activeSlugs (noticeStore n).tables 1 = (List.range n).map noticeCandidate := by
  have hall : (noticePosts n).entries.filter (fun e ↦ e.2.userId = 1 ∧ e.2.deletedAt = none) =
      (noticePosts n).entries := by
    refine List.filter_eq_self.mpr fun e he ↦ ?_
    obtain ⟨k, -, rfl⟩ := List.mem_map.mp he
    exact decide_eq_true ⟨rfl, rfl⟩
  change ((noticePosts n).entries.filter (fun e ↦ e.2.userId = 1 ∧ e.2.deletedAt = none)).map _ = _
  rw [hall, noticePosts, List.map_map]
  rfl

/-- The third notice of an author. -/
theorem third_notice :
    activeSlugs (noticeStore 2).tables 1 = ["notice", "notice-1"] ∧
    ∃ record, (performPostCreation noticeRenderer .sqlite noticeProjection noticeRequest noticeClock
      noticeClock (noticeStore 2)).1 = .ok record := by
  have hroom : (activeSlugs (noticeStore 2).tables 1).length + 1 < noticeRequest.maxAttempts := by
    rw [activeSlugs_notice, List.length_map, List.length_range]
    decide
  refine ⟨?_, ?_⟩
  · rw [activeSlugs_notice]
    decide +kernel
  · exact (slug_allocation asciiText_documented rfl isSlug_notice (by decide)).2.2.2.1
      (unhindered_notice 2) hroom

/-- A hundred notices exhaust the attempts of an import. -/
theorem crowded_notice :
    (performPostCreation noticeRenderer .sqlite noticeProjection noticeRequest noticeClock noticeClock
      (noticeStore 100)).1 = .error (.exhausted 100) ∧
    candidateSlug asciiText (String.ofList (List.replicate 78 'a' ++ ['-', '1'])) 0 =
      candidateSlug asciiText (String.ofList (List.replicate 78 'a' ++ ['-', '1'])) 1 := by
  have hnaming : naming noticeRenderer noticeRequest = .ok (none, "notice", "Closed today.") := rfl
  have hperform : performPostCreation noticeRenderer .sqlite noticeProjection noticeRequest noticeClock
      noticeClock (noticeStore 100) = performAttempts noticeRenderer .sqlite noticeProjection noticeRequest
        noticeClock noticeClock "notice" 0 (noticeStore 100) 100 := rfl
  have hallocated : Allocated noticeRenderer noticeRequest "notice" 0 100 (noticeStore 100)
      (performAttempts noticeRenderer .sqlite noticeProjection noticeRequest noticeClock noticeClock
        "notice" 0 (noticeStore 100) 100) := performAttempts_allocated hnaming
  have hvalid (k : ℕ) (hk : k < 0 + 100) : ∃ slug, candidateSlug asciiText "notice" k = some slug := by
    obtain ⟨slug, hslug, -⟩ := candidateSlug_isSlug asciiText_documented isSlug_notice
      (show k < 2 ^ 64 by omega)
    exact ⟨slug, hslug⟩
  constructor
  · rw [hperform]
    rcases performAttempts_unhindered noticeProjection noticeClock noticeClock hnaming hvalid
      (unhindered_notice 100) with ⟨record, hok⟩ | hnone
    · obtain ⟨k, -, hk, hslug, hfree, -, -⟩ := hallocated.created record hok
      have hcandidate : noticeCandidate k = record.columns.slug := congrArg (Option.getD · "") hslug
      have hactive := activeSlugs_notice 100
      change record.columns.slug ∉ activeSlugs (noticeStore 100).tables 1 at hfree
      rw [hactive, ← hcandidate] at hfree
      exact absurd (List.mem_map_of_mem (List.mem_range.mpr (by omega))) hfree
    · exact hnone
  · decide +kernel

end Crowd

end Termination

end Jaunder.Storage.SlugAllocation
