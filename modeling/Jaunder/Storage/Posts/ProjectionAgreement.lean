import Jaunder.Storage.CodeMigrations.RenderedPosts
import Jaunder.Storage.Posts.AudienceRows

namespace Jaunder.Storage.Posts.ProjectionAgreement

open Foundation.Outcome Foundation.Run
open Jaunder.Common.Render Jaunder.Common.Time
open Jaunder.Host.ContentEtag Jaunder.Host.Render
open Jaunder.Storage.CodeMigrations.RenderedPosts
open Jaunder.Storage.FeedCache
open Jaunder.Storage.Posts.AudienceRows
open Jaunder.Storage.Posts.Lifecycle Jaunder.Storage.Posts.Refresh Jaunder.Storage.Posts.Runs
open Jaunder.Storage.Posts.Tables Jaunder.Storage.Posts.Update

section Renderers

variable (L : Libraries) (ids : String → List (String × String))

/-- The Org export of a body under its post has an element whose id is a footnote of that post. -/
def HasFootnoteTarget (postId : ℤ) (body : String) : Prop :=
  ∃ output, L.org (some postId) body = .ok output ∧ ∃ part ∈ output.parts, ∃ t ∈ ids part,
    allowedPostFootnoteId t.1 t.2 postId = true

/-- What exporter and sanitizer promise about ids; `ids` reads the elements of a fragment that have
one. -/
structure FootnotePolicy : Prop where
  namespace_only : ∀ postId body output, L.org (some postId) body = .ok output →
    ¬HasFootnoteTarget L ids postId body → L.org none body = .ok output
  clean_untargeted : ∀ postId html,
    (∀ t ∈ ids html, allowedPostFootnoteId t.1 t.2 postId = false) →
      L.clean (some postId) html = L.clean none html
  general_ids : ∀ body output, L.org none body = .ok output →
    ids (assembleWithMarkers L none output) = []
  scoped_ids : ∀ postId body output, L.org (some postId) body = .ok output →
    HasFootnoteTarget L ids postId body → ids (assembleWithMarkers L (some postId) output) ≠ []

variable {L ids} {postId : ℤ} {body html : String} {output : Export} {title : Option String}
  {format : PostFormat} {rendering : PostRenderOutput}

theorem renderPost_eq_scoped (hformat : format ≠ .org) :
    renderPost L title body format = renderPostScoped L postId title body format := by
  simp only [renderPost, renderPostScoped, renderPostWithIdentity, renderBody, if_neg hformat]

theorem renderPostScoped_ok (h : renderPostScoped L postId title body format = .ok rendering) :
    renderBody L body format (some postId) = .ok rendering.renderedHtml ∧
      rendering.renderedTitle = title.map (renderTitle L format) ∧
      rendering.media = L.extractMediaRefs rendering.renderedHtml := by
  obtain ⟨html, hhtml, h⟩ := bind_eq_ok.mp h
  obtain rfl := pure_eq_ok.mp h
  exact ⟨hhtml, rfl, rfl⟩

theorem assemble_untargeted (hpolicy : FootnotePolicy L ids)
    (houtput : L.org (some postId) body = .ok output) (h : ¬HasFootnoteTarget L ids postId body) :
    assembleWithMarkers L (some postId) output = assembleWithMarkers L none output := by
  have hclean : ∀ part ∈ output.parts, L.clean (some postId) part = L.clean none part := by
    intro part hpart
    refine hpolicy.clean_untargeted postId part (fun t ht ↦ ?_)
    by_contra hallowed
    exact h ⟨output, houtput, part, hpart, t, ht, Bool.not_eq_false _ ▸ hallowed⟩
  have hembeds : output.embeds.map (fun part ↦ part.1.html ++ L.clean (some postId) part.2) =
      output.embeds.map (fun part ↦ part.1.html ++ L.clean none part.2) := by
    refine List.map_congr_left (fun part hpart ↦ ?_)
    rw [hclean part.2 (List.mem_cons_of_mem _ (List.mem_map_of_mem hpart))]
  rw [assembleWithMarkers, assembleWithMarkers, hembeds, hclean output.before List.mem_cons_self]

/-- The two renderers of an Org body agree exactly where the body has no footnote target. -/
theorem unscoped_iff (hpolicy : FootnotePolicy L ids)
    (h : renderOrgWithShortcodes L body (some postId) = .ok html) :
    renderOrgWithShortcodes L body none = .ok html ↔ ¬HasFootnoteTarget L ids postId body := by
  obtain ⟨output, houtput, rfl⟩ := map_eq_ok.mp h
  constructor
  · intro hunscoped htarget
    obtain ⟨output', houtput', heq⟩ := map_eq_ok.mp hunscoped
    have hids := hpolicy.scoped_ids postId body output houtput htarget
    rw [← heq, hpolicy.general_ids body output' houtput'] at hids
    exact hids rfl
  · intro htarget
    rw [renderOrgWithShortcodes, hpolicy.namespace_only postId body output houtput htarget,
      assemble_untargeted hpolicy houtput htarget]
    rfl

end Renderers

section Written

variable (L : Libraries)

/-- The projections of the row are those of the write path. -/
def Current (postId : ℤ) (p : Post) : Prop :=
  ∃ rendering, renderPostScoped L postId p.title p.body p.format = .ok rendering ∧
    p.renderedHtml = rendering.renderedHtml ∧ p.renderedTitle = rendering.renderedTitle ∧
    p.media = mediaReferenceRows rendering.media

/-- `render_post_input_with_identity`: an Org post has reserved its id. -/
def CreateRenders (input : CreatePostInput) : Prop :=
  match input.reservedPostId with
  | some postId =>
    renderPostScoped L postId input.rendered.title input.rendered.body input.rendered.format =
      .ok input.rendered
  | none => input.rendered.format ≠ .org ∧
    renderPost L input.rendered.title input.rendered.body input.rendered.format = .ok input.rendered

/-- A create or an update carries what the current renderer made of its source. -/
def Renders : Operation → Prop
  | .create input _ => CreateRenders L input
  | .update postId _ input =>
    renderPostScoped L postId input.rendered.title input.rendered.body input.rendered.format =
      .ok input.rendered
  | _ => True

/-- Every row has current projections and an author. -/
structure Projected (s : PostTables) : Prop where
  current : ∀ postId p, s.posts.lookup postId = some p → Current L postId p
  authored : ∀ postId p, s.posts.lookup postId = some p → p.userId ∈ s.users.map Author.userId

variable {L} {d : Dialect} {projection : Option String → String → String}
  {digest : PostContentEtag → String} {s s' : PostTables} {operation : Operation} {postId : ℤ}
  {p : Post}

theorem CreateRenders.current {input : CreatePostInput} {now : UtcInstant} {rows : List AudienceRow}
    (h : CreateRenders L input) : Current L (input.reservedPostId.getD postId)
      (createdPost projection input now rows) := by
  unfold CreateRenders at h
  cases hreserved : input.reservedPostId with
  | some reserved =>
    rw [hreserved] at h
    exact ⟨input.rendered, h, rfl, rfl, rfl⟩
  | none =>
    rw [hreserved] at h
    exact ⟨input.rendered, (renderPost_eq_scoped h.1).symm.trans h.2, rfl, rfl, rfl⟩

theorem current_of_written (h : Written d projection s operation postId p)
    (hrenders : Renders L operation) (hs : ∀ postId p, s.posts.lookup postId = some p →
      Current L postId p) : Current L postId p := by
  cases h with
  | created hrows hslug => exact CreateRenders.current hrenders
  | @updated postId editor input p rows diff hp hrows hslug =>
    exact ⟨input.rendered, hrenders, rfl, rfl, rfl⟩
  | @moved change postId userId now p hp =>
    cases change with
    | publish => exact hs postId p hp
    | softDelete => exact hs postId p hp
    | unpublish => exact hs postId p hp
  | @retagged postId userId desired now p diff hp => exact hs postId p hp
  | @bulk userId snapshot operation now postId p hp =>
    cases operation with
    | changeAudience audiences => exact hs postId p hp
    | delete => exact hs postId p hp

theorem authored_of_written (h : Written d projection s operation postId p)
    (hok : outcome d projection digest s operation = .ok s')
    (hs : ∀ postId p, s.posts.lookup postId = some p → p.userId ∈ s.users.map Author.userId) :
    p.userId ∈ s.users.map Author.userId := by
  cases h with
  | @created input now rows hrows hslug =>
    obtain ⟨identity, hwrite⟩ := map_snd_eq_ok hok
    obtain ⟨-, -, -, -, huser, -⟩ := writePostInTx_ok hwrite
    exact huser
  | @updated postId editor input p rows diff hp hrows hslug => exact hs postId p hp
  | @moved change postId userId now p hp =>
    cases change with
    | publish => exact hs postId p hp
    | softDelete => exact hs postId p hp
    | unpublish => exact hs postId p hp
  | @retagged postId userId desired now p diff hp => exact hs postId p hp
  | @bulk userId snapshot operation now postId p hp =>
    cases operation with
    | changeAudience audiences => exact hs postId p hp
    | delete => exact hs postId p hp

theorem Projected.step (h : Projected L s) (hrenders : Renders L operation) :
    Projected L (step d projection digest s operation) := by
  rcases step_cases d projection digest s operation with heq | hok
  · rw [heq]
    exact h
  · obtain ⟨husers, -, hlookup⟩ := outcome_ok hok
    refine ⟨fun postId p hp ↦ ?_, fun postId p hp ↦ ?_⟩
    · exact (hlookup postId p hp).elim (h.current postId p)
        (fun hwritten ↦ current_of_written hwritten hrenders h.current)
    · rw [husers]
      exact (hlookup postId p hp).elim (h.authored postId p)
        (fun hwritten ↦ authored_of_written hwritten hok h.authored)

theorem projected_run {operations : List Operation} (hs : s.posts = ∅)
    (hrenders : ∀ operation ∈ operations, Renders L operation) :
    Projected L (run (step d projection digest) s operations) := by
  have hempty : Projected L s := by
    constructor
    · intro postId p hp
      rw [hs] at hp
      cases hp
    · intro postId p hp
      rw [hs] at hp
      cases hp
  clear hs
  induction operations generalizing s with
  | nil => exact hempty
  | cons operation operations ih =>
    exact ih (fun operation hmem ↦ hrenders operation (List.mem_cons_of_mem _ hmem))
      (hempty.step (hrenders operation List.mem_cons_self))

end Written

section Agreement

variable {L : Libraries} {ids : String → List (String × String)} {s : PostTables} {postId : ℤ}
  {p : Post}

theorem Current.presence (h : Current L postId p) : p.title.isSome = p.renderedTitle.isSome := by
  obtain ⟨rendering, hrendering, -, htitle, -⟩ := h
  rw [htitle, (renderPostScoped_ok hrendering).2.1, Option.isSome_map]

theorem Projected.fetchPost (h : Projected L s) (hp : s.posts.lookup postId = some p) :
    ∃ record, Tables.fetchPost s postId = .ok record ∧ record.columns = p.toPostColumns := by
  obtain ⟨u, hu⟩ : ∃ u, s.users.find? (fun u ↦ u.userId = p.userId) = some u := by
    obtain ⟨author, hmem, huser⟩ := List.mem_map.mp (h.authored postId p hp)
    exact Option.isSome_iff_exists.mp
      (List.find?_isSome.mpr ⟨author, hmem, decide_eq_true huser⟩)
  unfold Tables.fetchPost validateRenderedTitlePresence
  rw [hp, orError_some, ok_bind, hu, orError_some, ok_bind,
    require_pos (h.current postId p hp).presence, ok_bind]
  exact ⟨_, rfl, rfl⟩

/-- The renderer of the refresh gives what is stored. -/
def Reproduced (L : Libraries) (p : Post) : Prop :=
  ∃ rendered, withMedia L p.body p.format = .ok rendered ∧ p.renderedHtml = rendered.html

theorem reproduced_iff_render : Reproduced L p ↔ render L p.body p.format = .ok p.renderedHtml := by
  constructor
  · rintro ⟨rendered, hrendered, hhtml⟩
    obtain ⟨html, hrender, hrendered⟩ := bind_eq_ok.mp hrendered
    obtain rfl := pure_eq_ok.mp hrendered
    rw [hrender, hhtml]
  · intro h
    refine ⟨⟨p.renderedHtml, L.extractMediaRefs p.renderedHtml⟩, ?_, rfl⟩
    rw [withMedia, h, ok_bind]
    rfl

theorem reproduced_iff (hpolicy : FootnotePolicy L ids) (h : Current L postId p) :
    Reproduced L p ↔ (p.format = .org → ¬HasFootnoteTarget L ids postId p.body) := by
  obtain ⟨rendering, hrendering, hhtml, -⟩ := h
  have hbody := (renderPostScoped_ok hrendering).1
  rw [← hhtml] at hbody
  rw [reproduced_iff_render]
  by_cases horg : p.format = .org
  · rw [renderBody, if_pos horg] at hbody
    rw [horg]
    exact (unscoped_iff hpolicy hbody).trans ⟨fun h _ ↦ h, fun h ↦ h rfl⟩
  · rw [renderBody, if_neg horg] at hbody
    exact ⟨fun _ h ↦ absurd h horg, fun _ ↦ hbody⟩

theorem refreshCandidate_reproduced (h : Projected L s)
    (hrow : ∀ p, s.posts.lookup postId = some p → Reproduced L p) :
    refreshCandidate L s postId = .ok (none, s) := by
  unfold refreshCandidate
  cases hp : s.posts.lookup postId with
  | none => rfl
  | some p =>
    obtain ⟨record, hrecord, hcolumns⟩ := h.fetchPost hp
    obtain ⟨rendered, hrendered, hhtml⟩ := hrow p hp
    dsimp only
    have hfetch : (Tables.fetchPost s postId).mapError PostProjectionRefreshError.storage =
        .ok record := by rw [hrecord]; rfl
    have hrender : (withMedia L record.columns.body record.columns.format).mapError
        PostProjectionRefreshError.render = .ok rendered := by rw [hcolumns, hrendered]; rfl
    rw [hfetch, ok_bind]
    cases refreshable p with
    | false => rfl
    | true =>
      rw [if_neg (by decide), hrender, ok_bind, hcolumns, if_pos hhtml]
      rfl

theorem refreshAll_reproduced {candidates : List ℤ} {now : ℤ → UtcInstant} {r : Refreshed}
    (h : Projected L r.tables) (hrows : ∀ postId ∈ candidates, ∀ p,
      r.tables.posts.lookup postId = some p → Reproduced L p) :
    candidates.foldlM (refreshNext L now) r = .ok r := by
  induction candidates with
  | nil => rfl
  | cons postId candidates ih =>
    have hnext : refreshNext L now r postId = .ok r := by
      rw [refreshNext, refreshCandidate_reproduced h (hrows postId List.mem_cons_self), ok_bind]
      rfl
    rw [List.foldlM_cons, hnext, ok_bind]
    exact ih (fun postId hmem ↦ hrows postId (List.mem_cons_of_mem _ hmem))

/-- The candidates of the next batch. -/
def visits (store : ProjectionStore) : List ℤ :=
  match scan store with
  | .ok (.pending _ candidates) => candidates
  | _ => []

variable {store : ProjectionStore} {now : ℤ → UtcInstant} {clock : UtcInstant}

/-- A batch of unchanged rows moves the checkpoint only. -/
theorem batch_reproduced (h : Projected L store.tables) (hscan : ∃ found, scan store = .ok found)
    (hrows : ∀ postId ∈ visits store, ∀ p, store.tables.posts.lookup postId = some p →
      Reproduced L p) :
    ∃ b store', batch L now clock store = .ok (b, store') ∧ store'.tables = store.tables ∧
      store'.feedEvents = store.feedEvents := by
  obtain ⟨found, hfound⟩ := hscan
  unfold batch
  rw [hfound, ok_bind]
  cases found with
  | completed cursor => exact ⟨_, store, rfl, rfl, rfl⟩
  | pending cursor candidates =>
    have hvisits : visits store = candidates := by
      rw [visits, hfound]
    rw [hvisits] at hrows
    obtain ⟨hprogress, -, hcandidates⟩ := scan_pending hfound
    have hall : refreshAll L now store.tables candidates = .ok ⟨store.tables, 0, []⟩ :=
      refreshAll_reproduced h hrows
    have hcursor : cursor ≤ candidates.getLast?.getD cursor := by
      rw [hcandidates]
      exact cursor_le_last rfl
    dsimp only
    rw [project, hall, ok_bind]
    dsimp only
    rw [hprogress, checkpoint_pending hcursor, ok_bind]
    exact ⟨_, _, rfl, rfl, rfl⟩

/-- A batch that leaves the posts alone has reproduced every candidate. -/
theorem reproduced_of_batch {b : BatchProgress} {store' : ProjectionStore}
    (h : batch L now clock store = .ok (b, store')) (htables : store'.tables = store.tables)
    (hmem : postId ∈ visits store) (hp : store.tables.posts.lookup postId = some p) :
    Reproduced L p := by
  obtain ⟨found, hfound, h⟩ := bind_eq_ok.mp h
  rw [visits, hfound] at hmem
  cases found with
  | completed cursor => cases hmem
  | pending cursor candidates =>
    obtain ⟨-, -, hcandidates⟩ := scan_pending hfound
    have hmem : postId ∈ candidates := hmem
    obtain ⟨-, q, hq, hrefreshable⟩ := mem_candidates (hcandidates ▸ hmem)
    obtain rfl := Option.some.inj (hp.symm.trans hq)
    have hvisited := (project_ok h).1.visited postId hmem
    rw [htables, hp] at hvisited
    rcases hvisited with ⟨-, hnot⟩ | ⟨q, q', hq, -, hreprojected, hq'⟩
    · have hfalse := hnot p rfl
      rw [hrefreshable] at hfalse
      cases hfalse
    · obtain rfl := Option.some.inj hq
      obtain rfl := Option.some.inj hq'
      obtain ⟨rendered, hrendered, hhtml, -⟩ := reprojected_ok hreprojected
      exact ⟨rendered, hrendered, hhtml⟩

theorem mem_postRows {row : ℤ × Post} (h : row ∈ postRows s) :
    s.posts.lookup row.1 = some row.2 := by
  obtain ⟨postId, -, hrow⟩ := List.mem_filterMap.mp h
  obtain ⟨p, hp, rfl⟩ := Option.map_eq_some_iff.mp hrow
  exact hp

theorem rebuildAll_current {rows : List (ℤ × Post)} {r : PostTables × List Host.FeedPath.FeedPath}
    {rebuildNow : UtcInstant} (h : ∀ row ∈ rows, Current L row.1 row.2) :
    rows.foldlM (rebuildNext L rebuildNow) r = .ok r := by
  induction rows with
  | nil => rfl
  | cons row rows ih =>
    obtain ⟨rendering, hrendering, hhtml, htitle, -⟩ := h row List.mem_cons_self
    have hnext : rebuildNext L rebuildNow r row = .ok r := by
      rw [rebuildNext, hrendering, ok_bind, if_pos ⟨hhtml.symm, htitle.symm⟩]
      rfl
    rw [List.foldlM_cons, hnext, ok_bind]
    exact ih (fun row hmem ↦ h row (List.mem_cons_of_mem _ hmem))

/-- The rebuild of the code migration reads current rows and changes nothing. -/
theorem rebuild_current {store : RebuildStore} {rebuildNow : UtcInstant}
    (h : Projected L store.tables) : rebuildRenderedPosts L rebuildNow clock store = .ok store := by
  have hall : (postRows store.tables).foldlM (rebuildNext L rebuildNow) (store.tables, []) =
      .ok (store.tables, []) :=
    rebuildAll_current (fun row hrow ↦ h.current row.1 row.2 (mem_postRows hrow))
  rw [rebuildRenderedPosts, hall, ok_bind]
  rfl

variable (now clock) in
/-- After any writes with the current renderer, the next batch leaves posts and feed events as they
are, and so does the code migration, exactly where no Org candidate has a footnote target. -/
theorem refresh_agrees_with_writes (hpolicy : FootnotePolicy L ids) {d : Dialect}
    {projection : Option String → String → String} {digest : PostContentEtag → String}
    {operations : List Operation} (hs : s.posts = ∅)
    (hrenders : ∀ operation ∈ operations, Renders L operation)
    (hstore : store.tables = run (step d projection digest) s operations)
    (hscan : ∃ found, scan store = .ok found) (feedCache : FeedCacheTable)
    (rebuildNow : UtcInstant) :
    ((∃ b store', batch L now clock store = .ok (b, store') ∧ store'.tables = store.tables ∧
        store'.feedEvents = store.feedEvents) ∧
      rebuildRenderedPosts L rebuildNow clock ⟨store.toStore, feedCache⟩ =
        .ok ⟨store.toStore, feedCache⟩) ↔
    ∀ postId ∈ visits store, ∀ p, store.tables.posts.lookup postId = some p →
      p.format = .org → ¬HasFootnoteTarget L ids postId p.body := by
  have hprojected : Projected L store.tables := hstore ▸ projected_run hs hrenders
  constructor
  · rintro ⟨⟨b, store', hbatch, htables, -⟩, -⟩ postId hmem p hp
    exact (reproduced_iff hpolicy (hprojected.current postId p hp)).mp
      (reproduced_of_batch hbatch htables hmem hp)
  · intro h
    refine ⟨batch_reproduced hprojected hscan (fun postId hmem p hp ↦ ?_), rebuild_current hprojected⟩
    exact (reproduced_iff hpolicy (hprojected.current postId p hp)).mpr (h postId hmem p hp)

end Agreement

section Samples

def plainBody : String := "Closed today."

def footnoteBody : String := "First[fn:n]\n\n[fn:n] original note"

def scopedNote : String :=
  "<p>First<sup id=\"post-1-fnref-1-1\"><a href=\"#post-1-fn-1\">1</a></sup></p>" ++
    "<ol><li id=\"post-1-fn-1\">original note <a href=\"#post-1-fnref-1-1\">1</a></li></ol>"

def unscopedNote : String := "<p>First<sup>1</sup></p><ol><li>original note</li></ol>"

/-- Two bodies as the first post and as a body without a post render them. -/
def noteLibraries : Libraries where
  markdown body := .ok ⟨body, []⟩
  org postId body :=
    if body = footnoteBody then .ok ⟨if postId = some 1 then scopedNote else unscopedNote, []⟩
    else if body = plainBody then .ok ⟨"<p>Closed today.</p>", []⟩
    else .ok ⟨"", []⟩
  clean postId html := if html = scopedNote ∧ postId ≠ some 1 then unscopedNote else html
  markdownTitle title := title
  orgTitle title := title
  sanitizePostTitle title := title
  extractMediaRefs _ := []

def noteIds (html : String) : List (String × String) :=
  if html = scopedNote then [("sup", "post-1-fnref-1-1"), ("li", "post-1-fn-1")] else []

def createOrg (body html : String) : Operation :=
  .create ⟨1, some 1, "notice", untitledOrg body html, some noticeClock, none,
    [.public_], [], .none, none⟩ noticeClock

/-- The database after one write, when the refresh has not begun. -/
def afterCreate (body html : String) : ProjectionStore where
  tables := run (step .sqlite noticeProjection noticeDigest) noticeTables [createOrg body html]
  feedEvents := FeedEvents.created
  progress := some ⟨version, 0, false⟩

theorem noteIds_of_ne {html : String} (h : html ≠ scopedNote) : noteIds html = [] := if_neg h

theorem hasFootnoteTarget_note {postId : ℤ} {body : String} :
    HasFootnoteTarget noteLibraries noteIds postId body ↔ postId = 1 ∧ body = footnoteBody := by
  constructor
  · rintro ⟨output, houtput, part, hpart, t, ht, -⟩
    simp only [noteLibraries] at houtput
    split_ifs at houtput with hbody hid
    · exact ⟨Option.some.inj hid, hbody⟩
    all_goals
      obtain rfl := Except.ok.inj houtput
      obtain rfl := List.mem_singleton.mp hpart
      rw [noteIds_of_ne (by decide +kernel)] at ht
      cases ht
  · rintro ⟨rfl, rfl⟩
    exact ⟨⟨scopedNote, []⟩, rfl, scopedNote, List.mem_cons_self, ("sup", "post-1-fnref-1-1"),
      by decide +kernel, by decide +kernel⟩

theorem note_policy : FootnotePolicy noteLibraries noteIds where
  namespace_only := by
    intro postId body output houtput htarget
    rw [hasFootnoteTarget_note, not_and] at htarget
    simp only [noteLibraries] at houtput ⊢
    by_cases hbody : body = footnoteBody
    · have hid : postId ≠ 1 := fun hid ↦ htarget hid hbody
      rw [if_pos hbody, if_neg (fun h ↦ hid (Option.some.inj h))] at houtput
      rw [if_pos hbody, if_neg nofun]
      exact houtput
    · rw [if_neg hbody] at houtput ⊢
      exact houtput
  clean_untargeted := by
    intro postId html hids
    simp only [noteLibraries]
    by_cases hhtml : html = scopedNote
    · have hid : some postId ≠ some 1 := by
        rintro heq
        obtain rfl := Option.some.inj heq
        have hallowed := hids ("sup", "post-1-fnref-1-1") (by rw [hhtml]; decide +kernel)
        revert hallowed
        decide +kernel
      rw [if_pos ⟨hhtml, hid⟩, if_pos ⟨hhtml, nofun⟩]
    · rw [if_neg (fun h ↦ hhtml h.1), if_neg (fun h ↦ hhtml h.1)]
  general_ids := by
    intro body output houtput
    simp only [noteLibraries] at houtput
    split_ifs at houtput with hbody hid hplain
    · cases hid
    all_goals
      obtain rfl := Except.ok.inj houtput
      decide +kernel
  scoped_ids := by
    intro postId body output houtput htarget
    obtain ⟨rfl, rfl⟩ := hasFootnoteTarget_note.mp htarget
    obtain rfl := Except.ok.inj houtput
    decide +kernel

theorem plain_note_kept :
    (∃ b store', batch noteLibraries (fun _ ↦ noticeClock) noticeClock
      (afterCreate plainBody "<p>Closed today.</p>") = .ok (b, store') ∧
      store'.tables = (afterCreate plainBody "<p>Closed today.</p>").tables ∧
      store'.feedEvents = (afterCreate plainBody "<p>Closed today.</p>").feedEvents) ∧
    rebuildRenderedPosts noteLibraries noticeClock noticeClock
      ⟨(afterCreate plainBody "<p>Closed today.</p>").toStore, fun _ ↦ none⟩ =
        .ok ⟨(afterCreate plainBody "<p>Closed today.</p>").toStore, fun _ ↦ none⟩ := by
  have hrenders : ∀ operation ∈ [createOrg plainBody "<p>Closed today.</p>"],
      Renders noteLibraries operation := by
    intro operation hmem
    obtain rfl := List.mem_singleton.mp hmem
    exact rfl
  have hbodies : ∀ postId ∈ visits (afterCreate plainBody "<p>Closed today.</p>"),
      ((afterCreate plainBody "<p>Closed today.</p>").tables.posts.lookup postId).all
        (fun p ↦ p.body ≠ footnoteBody) = true := by
    decide +kernel
  have hstore : (afterCreate plainBody "<p>Closed today.</p>").tables =
      run (step .sqlite noticeProjection noticeDigest) noticeTables
        [createOrg plainBody "<p>Closed today.</p>"] := rfl
  refine (refresh_agrees_with_writes (fun _ ↦ noticeClock) noticeClock note_policy rfl hrenders hstore
    ⟨_, rfl⟩ (fun _ ↦ none) noticeClock).mpr (fun postId hmem p hp _ htarget ↦ ?_)
  have hbody := hbodies postId hmem
  rw [hp] at hbody
  exact of_decide_eq_true hbody (hasFootnoteTarget_note.mp htarget).2

/-- The first batch after an Org post with a footnote takes the ids of the footnote away and
regenerates the feeds. -/
theorem footnote_rewritten :
    renderPostScoped noteLibraries 1 none footnoteBody .org =
      .ok ⟨none, none, footnoteBody, .org, scopedNote, [], rfl⟩ ∧
    ((afterCreate footnoteBody scopedNote).tables.posts.lookup 1).map (fun p ↦ p.renderedHtml) =
      some scopedNote ∧
    (batch noteLibraries (fun _ ↦ noticeClock) noticeClock (afterCreate footnoteBody scopedNote)).map
        (fun r ↦ ((r.2.tables.posts.lookup 1).map (fun p ↦ p.renderedHtml), r.1.changed,
          r.2.feedEvents.rows.length)) = .ok (some unscopedNote, 1, 6) := by
  refine ⟨by decide +kernel, by decide +kernel, by decide +kernel⟩

end Samples

end Jaunder.Storage.Posts.ProjectionAgreement
