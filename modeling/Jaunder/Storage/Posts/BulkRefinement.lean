import Jaunder.Storage.Posts.AudienceRows

namespace Jaunder.Storage.Posts.BulkRefinement

open Foundation.Outcome Foundation.Run Foundation.UniqueIndex
open Jaunder.Common.Feed Jaunder.Common.Tag Jaunder.Common.Time Jaunder.Common.Visibility
open Jaunder.Host.ContentEtag Jaunder.Host.FeedPath Jaunder.Host.Render
open Jaunder.Storage.Posts.AudienceRows Jaunder.Storage.Posts.Bulk Jaunder.Storage.Posts.Lifecycle
open Jaunder.Storage.Posts.Runs Jaunder.Storage.Posts.Tables Jaunder.Storage.Posts.Update

section Canonical

variable {a b : AudienceRow} {rows : List AudienceRow} {audiences audiences' : List AudienceTarget}

def rowKey (row : AudienceRow) : ℕ ×ₗ ℤ := toLex (kindRank row.kind, row.audienceId.getD 0)

theorem rowLe_iff : rowLe a b = true ↔ rowKey a ≤ rowKey b := by
  rw [rowKey, rowKey, Prod.Lex.toLex_le_toLex]
  exact decide_eq_true_iff

instance : Std.Total (fun a b ↦ rowLe a b = true) :=
  ⟨fun a b ↦ by simpa only [rowLe_iff] using le_total (rowKey a) (rowKey b)⟩

instance : IsTrans AudienceRow (fun a b ↦ rowLe a b = true) :=
  ⟨fun a b c ↦ by simpa only [rowLe_iff] using le_trans⟩

theorem rowLe_antisymm (ha : revisionAudienceCheck a = true) (hb : revisionAudienceCheck b = true)
    (hab : rowLe a b = true) (hba : rowLe b a = true) : a = b := by
  have hkey := le_antisymm (rowLe_iff.mp hab) (rowLe_iff.mp hba)
  obtain ⟨hkind, hid⟩ := Prod.mk.inj (toLex.injective hkey)
  obtain ⟨k, i⟩ := a
  obtain ⟨k', j⟩ := b
  cases k <;> cases k' <;> cases i <;> cases j <;>
    simp_all [revisionAudienceCheck, kindRank]

theorem canonicalAudiences_pairwise :
    (canonicalAudiences audiences).Pairwise (fun a b ↦ rowLe a b = true) :=
  (List.pairwise_insertionSort _ _).sublist (List.dedup_sublist _)

/-- Two lists have the same canonical rows when they name the same targets. -/
theorem canonicalAudiences_eq_iff : canonicalAudiences audiences = canonicalAudiences audiences' ↔
    ∀ row, row ∈ audiences.filterMap audienceTargetRow ↔
      row ∈ audiences'.filterMap audienceTargetRow := by
  constructor
  · intro h row
    rw [← mem_canonicalAudiences, h, mem_canonicalAudiences]
  · intro h
    have hperm : (canonicalAudiences audiences).Perm (canonicalAudiences audiences') := by
      rw [List.perm_ext_iff_of_nodup nodup_canonicalAudiences nodup_canonicalAudiences]
      intro row
      rw [mem_canonicalAudiences, mem_canonicalAudiences, h]
    refine hperm.eq_of_pairwise (fun a b ha hb ↦ ?_) canonicalAudiences_pairwise
      canonicalAudiences_pairwise
    exact rowLe_antisymm (check_canonicalAudiences ha) (check_canonicalAudiences hb)

theorem targetRow_intoTarget (h : revisionAudienceCheck a = true) :
    (intoTarget a).bind audienceTargetRow = some a := by
  obtain ⟨k, i⟩ := a
  cases k <;> cases i <;> simp_all [revisionAudienceCheck, intoTarget, audienceTargetRow]

/-- Nothing is lost when stored rows are read back as targets. -/
theorem rows_intoTarget (h : ∀ row ∈ rows, revisionAudienceCheck row = true) :
    (rows.filterMap intoTarget).filterMap audienceTargetRow = rows := by
  rw [List.filterMap_filterMap]
  induction rows with
  | nil => rfl
  | cons row rows ih =>
    have hrow := targetRow_intoTarget (h row List.mem_cons_self)
    rw [List.filterMap_cons, hrow, ih (fun row hrow ↦ h row (List.mem_cons_of_mem _ hrow))]

theorem public_mem_intoTarget (h : ∀ row ∈ rows, revisionAudienceCheck row = true) :
    .public_ ∈ rows.filterMap intoTarget ↔ rows.any (fun row ↦ row.kind = .public_) = true := by
  rw [List.any_eq_true, List.mem_filterMap]
  refine exists_congr (fun row ↦ and_congr_right (fun hrow ↦ ?_))
  have hcheck := h row hrow
  obtain ⟨k, i⟩ := row
  cases k <;> cases i <;> simp_all [revisionAudienceCheck, intoTarget]

end Canonical

section Lock

variable {s : PostTables} {userId : ℤ} {snapshot : ManagementSelectionSnapshot}
  {locked : List BulkLockedPost} {post : BulkLockedPost} {target : BulkSelectionTarget}

/-- What the lock has read of a post. -/
structure Locks (s : PostTables) (userId : ℤ) (post : BulkLockedPost) (p : Post) : Prop where
  lookup : s.posts.lookup post.record.postId = some p
  fetched : fetchPost s post.record.postId = .ok post.record
  owner : p.userId = userId
  live : p.deletedAt = none
  version : post.mutationVersion = p.mutationVersion
  audiences : post.audiences = p.audiences.filterMap intoTarget

theorem lockTarget_ok (h : lockTarget s userId target = .ok (some post)) :
    ∃ p, Locks s userId post p := by
  unfold lockTarget at h
  cases hp : s.posts.lookup target.postId with
  | none =>
    rw [hp] at h
    cases h
  | some p =>
    simp only [hp] at h
    split_ifs at h with hmatch
    · obtain ⟨record, hrecord, h⟩ := bind_eq_ok.mp h
      obtain rfl := Option.some.inj (pure_eq_ok.mp h)
      have hid : record.postId = target.postId := by
        obtain ⟨_, _, -, -, -, rfl⟩ := fetchPost_ok hrecord
        rfl
      exact ⟨p, by rw [hid, hp], by rw [hid, hrecord], hmatch.2.2.1, hmatch.2.2.2, rfl, rfl⟩
    · cases h

theorem lockSnapshot_ok (h : lockSnapshot s userId snapshot = .ok locked) (hpost : post ∈ locked) :
    ∃ p, Locks s userId post p := by
  obtain ⟨found, hfound, h⟩ := bind_eq_ok.mp h
  obtain ⟨-, -, h⟩ := bind_eq_ok.mp h
  obtain rfl := pure_eq_ok.mp h
  have hmem : some post ∈ found := by simpa using hpost
  obtain ⟨target, -, htarget⟩ := mapM_eq_ok (mapError_eq_ok.mp hfound) _ hmem
  exact lockTarget_ok htarget

/-- Every target of the snapshot has been locked at its version. -/
theorem lockSnapshot_covers (h : lockSnapshot s userId snapshot = .ok locked)
    (htarget : target ∈ snapshot.targets) : ∃ post ∈ locked,
      post.record.postId = target.postId ∧ post.mutationVersion = target.mutationVersion := by
  have hmem : (target.postId, target.mutationVersion) ∈
      locked.map (fun post ↦ (post.record.postId, post.mutationVersion)) := by
    rw [lockSnapshot_keys h]
    exact List.mem_map_of_mem htarget
  obtain ⟨post, hpost, heq⟩ := List.mem_map.mp hmem
  obtain ⟨hid, hversion⟩ := Prod.mk.inj heq
  exact ⟨post, hpost, hid, hversion⟩

end Lock

section Capture

variable {s s' out : PostTables} {postId : ℤ} {now : UtcInstant} {ids : List ℤ}

theorem capture_congr (h : SameContent s s')
    (hout : captureCompletePostRevision s' postId now = .ok out) :
    ∃ out, captureCompletePostRevision s postId now = .ok out := by
  obtain ⟨p, hp, hout⟩ := bind_eq_ok.mp hout
  obtain ⟨tags, htags, hout⟩ := bind_eq_ok.mp hout
  obtain ⟨_, hcheck, hout⟩ := bind_eq_ok.mp hout
  obtain ⟨audiences, haudiences, hout⟩ := bind_eq_ok.mp hout
  obtain ⟨media, hmedia, -⟩ := bind_eq_ok.mp hout
  rw [h.posts] at hp
  unfold captureCompletePostRevision
  simp only [hp, htags, haudiences, hmedia, hcheck, ok_bind]
  exact ⟨_, rfl⟩

theorem captureRevisions_each (h : captureRevisions s ids now = .ok out) :
    ∀ postId ∈ ids, ∃ out, captureCompletePostRevision s postId now = .ok out := by
  induction ids generalizing s with
  | nil =>
    intro postId hmem
    cases hmem
  | cons id ids ih =>
    obtain ⟨captured, hcaptured, h⟩ := bind_eq_ok.mp h
    intro postId hmem
    rcases List.mem_cons.mp hmem with rfl | hmem
    · exact ⟨captured, hcaptured⟩
    · obtain ⟨out', hout'⟩ := ih h postId hmem
      exact capture_congr (capture_ok hcaptured) hout'

theorem capture_revisions (h : captureCompletePostRevision s postId now = .ok out) :
    ∀ r ∈ out.revisions, r ∈ s.revisions ∨ r.postId = postId := by
  obtain ⟨p, -, h⟩ := bind_eq_ok.mp h
  obtain ⟨tags, -, h⟩ := bind_eq_ok.mp h
  obtain ⟨-, -, h⟩ := bind_eq_ok.mp h
  obtain ⟨audiences, -, h⟩ := bind_eq_ok.mp h
  obtain ⟨media, -, h⟩ := bind_eq_ok.mp h
  obtain rfl := pure_eq_ok.mp h
  intro r hr
  rcases List.mem_append.mp hr with hold | hnew
  · exact .inl hold
  · rw [List.mem_singleton.mp hnew]
    exact .inr rfl

theorem captureRevisions_revisions (h : captureRevisions s ids now = .ok out) :
    ∀ r ∈ out.revisions, r ∈ s.revisions ∨ r.postId ∈ ids := by
  induction ids generalizing s with
  | nil =>
    obtain rfl := pure_eq_ok.mp h
    exact fun r hr ↦ .inl hr
  | cons id ids ih =>
    obtain ⟨captured, hcaptured, h⟩ := bind_eq_ok.mp h
    intro r hr
    rcases ih h r hr with hold | hnew
    · refine (capture_revisions hcaptured r hold).imp_right (fun heq ↦ ?_)
      rw [heq]
      exact List.mem_cons_self
    · exact .inr (List.mem_cons_of_mem _ hnew)

end Capture

section Single

variable {d : Dialect} {projection : Option String → String → String}
  {digest : PostContentEtag → String} {s : PostTables} {postId userId : ℤ} {p : Post}
  {now : UtcInstant} {audiences : List AudienceTarget} {rows : List AudienceRow}

/-- The update that says again what a post says and names other audiences. -/
def restated (p : Post) (presence : p.title.isSome = p.renderedTitle.isSome)
    (audiences : List AudienceTarget) (now : UtcInstant) : UpdatePostInput where
  slug := p.slug
  rendered := ⟨p.title, p.renderedTitle, p.body, p.format, p.renderedHtml, p.media, presence⟩
  publish := p.publishedAt.elim .unpublish (fun at_ ↦ .publish (some at_))
  summary := p.summary
  audiences := audiences
  tags := none
  requestClock := now
  expectations := .none

theorem postTagDiff_self (tags : List PostTag) :
    postTagDiff tags (tags.map PostTag.tagDisplay) = ⟨[], []⟩ := by
  have hslugs : (tags.map PostTag.tagDisplay).map TagLabel.slug = tags.map PostTag.tagSlug := by
    rw [List.map_map]
    rfl
  have hadd : (tags.map PostTag.tagDisplay).filter
      (fun label ↦ label.slug ∉ tags.map PostTag.tagSlug) = [] := by
    rw [List.filter_eq_nil_iff]
    intro label hlabel
    rw [decide_eq_true_iff, not_not, ← hslugs]
    exact List.mem_map_of_mem hlabel
  have hremove : tags.filter (fun tag ↦ tag.tagSlug ∉ tags.map PostTag.tagSlug) = [] := by
    rw [List.filter_eq_nil_iff]
    intro tag htag
    rw [decide_eq_true_iff, not_not]
    exact List.mem_map_of_mem htag
  unfold postTagDiff
  rw [hslugs, hadd, hremove]
  rfl

theorem applyTagDiff_nil (tags : List PostTag) : applyTagDiff tags ⟨[], []⟩ = tags := by
  have hkeep : tags.filter (fun tag ↦ tag.tagSlug ∉ ([] : List Tag)) = tags := by
    rw [List.filter_eq_self]
    intro tag _
    exact decide_eq_true List.not_mem_nil
  exact hkeep

theorem finalPublishedAt_restated (publishedAt : Option UtcInstant) :
    finalPublishedAt publishedAt
      (publishedAt.elim .unpublish (fun at_ ↦ .publish (some at_))) now = publishedAt := by
  cases publishedAt <;> rfl

theorem updatedPost_restated (h : Stored projection p) :
    updatedPost projection p (restated p h.presence audiences now) ⟨[], []⟩ rows =
      readdressedPost p rows now := by
  have hslug : (if p.publishedAt.isNone then p.slug else p.slug) = p.slug := ite_self _
  unfold updatedPost readdressedPost restated
  simp only [hslug, ← h.search, applyTagDiff_nil, finalPublishedAt_restated, mediaReferenceRows,
    h.media.dedup]

theorem updatePost_restated {record : PostRecord} {captured : PostTables}
    (hp : s.posts.lookup postId = some p) (hlive : p.deletedAt = none) (h : Stored projection p)
    (hslug : slugTaken s p.userId p.slug postId = false) (hfetch : fetchPost s postId = .ok record)
    (hcapture : captureCompletePostRevision s postId now = .ok captured)
    (hrows : replacePostAudiences d s audiences = .ok rows)
    (hother : audiencesAreEqual p.audiences audiences = false) :
    ∃ m s', updatePost d projection digest s postId p.userId (restated p h.presence audiences now) =
        .ok (m, s') ∧
      s'.posts.lookup postId = some (readdressedPost p rows now) := by
  obtain ⟨p', u, hp', hu, -, hrecord⟩ := fetchPost_ok hfetch
  obtain rfl := Option.some.inj (hp.symm.trans hp')
  have hnoop : updateIsNoop p (restated p h.presence audiences now) ⟨[], []⟩ = false := by
    refine decide_eq_false ?_
    rintro ⟨-, -, -, hequal, -⟩
    rw [restated, hother] at hequal
    cases hequal
  have hslug' : p.publishedAt.isSome = true ∨
      ¬slugTaken s p.userId (restated p h.presence audiences now).slug postId = true :=
    .inr (Bool.eq_false_iff.mp hslug)
  have happly : applyPostUpdate d projection s postId p (restated p h.presence audiences now)
      ⟨[], []⟩ = .ok { captured with
        posts := captured.posts.insert postId (readdressedPost p rows now) } := by
    rw [← updatedPost_restated h]
    exact applyPostUpdate_writes hcapture hslug' hrows
  obtain ⟨record', hrecord'⟩ : ∃ record', fetchPost { captured with
      posts := captured.posts.insert postId (readdressedPost p rows now) } postId = .ok record' :=
    fetchPost_insert hp hfetch (show (readdressedPost p rows now).userId = p.userId from rfl)
      h.presence rfl (capture_ok hcapture).users
  have hexpected : ∀ tags current, updateExpectationError digest postId p.toPostColumns tags current
      (restated p h.presence audiences now) = none := by
    intro tags current
    simp [updateExpectationError, restated, PostBookkeepingExpectation.none]
  have hdiff : postTagDiff record.tags ((restated p h.presence audiences now).tags.getD
      ((tagsBySlug p.tags).map PostTag.tagDisplay)) = ⟨[], []⟩ := by
    rw [hrecord]
    exact postTagDiff_self (tagsBySlug p.tags)
  refine ⟨⟨record', record, hasPublicAudience p, true⟩, _,
    updatePost_writes hp ⟨rfl, hlive⟩ h.presence (hexpected _ _) hfetch ?_ ?_ hrecord', ?_⟩
  · rw [hdiff, hnoop]
  · rw [hdiff, happly]
  · exact AList.lookup_insert captured.posts

theorem changeLifecycle_softDelete {record : PostRecord} {captured : PostTables}
    (hp : s.posts.lookup postId = some p) (hlive : p.deletedAt = none) (h : Stored projection p)
    (hfetch : fetchPost s postId = .ok record)
    (hcapture : captureCompletePostRevision s postId now = .ok captured) :
    ∃ m s', changeLifecycle s postId p.userId .softDelete now = .ok (m, s') ∧
      s'.posts.lookup postId = some (PostLifecycleChange.softDelete.apply now p) := by
  obtain ⟨record', hrecord'⟩ : ∃ record', fetchPost { captured with
      posts := captured.posts.insert postId (PostLifecycleChange.softDelete.apply now p) } postId =
        .ok record' :=
    fetchPost_insert hp hfetch
      (show (PostLifecycleChange.softDelete.apply now p).userId = p.userId from rfl)
      h.presence rfl (capture_ok hcapture).users
  have howner : ¬(p.userId ≠ p.userId ∨ p.deletedAt.isSome = true) := by simp [hlive]
  have hchange : lifecyclePost s postId p.userId .softDelete now =
      .ok (some (⟨record', record, hasPublicAudience p, true⟩, { captured with
        posts := captured.posts.insert postId (PostLifecycleChange.softDelete.apply now p) })) := by
    unfold lifecyclePost
    simp only [hp, if_neg howner, hfetch, hcapture, hrecord', ok_bind, PostLifecycleChange.changes,
      if_true]
    rfl
  have hmutation : changeLifecycle s postId p.userId .softDelete now =
      .ok (⟨record', record, hasPublicAudience p, true⟩, { captured with
        posts := captured.posts.insert postId (PostLifecycleChange.softDelete.apply now p) }) := by
    unfold changeLifecycle
    rw [hchange]
    rfl
  exact ⟨_, _, hmutation, AList.lookup_insert captured.posts⟩

end Single

/-- A post that is already as an operation would leave it. -/
def AlreadyMet (operation : BulkPostOperation) (p : Post) : Prop :=
  match operation with
  | .changeAudience audiences =>
    ∀ row, row ∈ p.audiences ↔ row ∈ audiences.filterMap audienceTargetRow
  | .delete => p.deletedAt.isSome

/-- The same row with the same set of audiences. -/
def SameUpToOrder (p q : Post) : Prop :=
  p.audiences.Perm q.audiences ∧ { p with audiences := q.audiences } = q

/-- What the operation on the one post leaves there: the update that names the same targets, each
once, or the deletion. -/
def SingleLeaves (d : Dialect) (projection : Option String → String → String)
    (digest : PostContentEtag → String) (s : PostTables) (operation : BulkPostOperation)
    (postId : ℤ) (p : Post) (now : UtcInstant) (q : Post) : Prop :=
  match operation with
  | .changeAudience audiences =>
    ∀ single : List AudienceTarget, (single.filterMap audienceTargetRow).Nodup →
      (∀ row, row ∈ single.filterMap audienceTargetRow ↔
        row ∈ audiences.filterMap audienceTargetRow) →
      ∃ presence m s' q', updatePost d projection digest s postId p.userId
          (restated p presence single now) = .ok (m, s') ∧
        s'.posts.lookup postId = some q' ∧ SameUpToOrder q' q
  | .delete => ∃ m s', changeLifecycle s postId p.userId .softDelete now = .ok (m, s') ∧
      s'.posts.lookup postId = some q

def onSurface (author : Username) (tags : List Tag) : FeedSurface → Bool
  | .site => true
  | .siteTag tag => tag ∈ tags
  | .user username => username = author
  | .userTag username tag => username = author ∧ tag ∈ tags

/-- What an anonymous reader of a surface is shown of a post. -/
def anonymousEntry (s : PostTables) (surface : FeedSurface) (now : UtcInstant) (postId : ℤ) :
    Option (PostColumns × List PostTag) :=
  (s.posts.lookup postId).bind (fun p ↦
    if p.deletedAt = none ∧ p.publishedAt.any (· ≤ now) ∧ hasPublicAudience p ∧
        (s.users.find? (fun u ↦ u.userId = p.userId)).any (fun u ↦
          onSurface u.username (p.tags.map PostTag.tagSlug) surface)
      then some (p.toPostColumns, p.tags) else none)

/-- A bulk operation is the single operations on the posts that it changes. -/
structure RefinesSingle (d : Dialect) (projection : Option String → String → String)
    (digest : PostContentEtag → String) (s : PostTables) (userId : ℤ)
    (snapshot : ManagementSelectionSnapshot) (operation : BulkPostOperation) (now : UtcInstant)
    (evidence : BulkPostMutationEvidence) (s' : PostTables) : Prop where
  found : ∀ target ∈ snapshot.targets, ∃ p, s.posts.lookup target.postId = some p ∧
    p.deletedAt = none ∧ p.userId = userId ∧ p.mutationVersion = target.mutationVersion
  changed : ∀ target ∈ snapshot.targets, ∀ p, s.posts.lookup target.postId = some p →
    ¬AlreadyMet operation p → ∃ q, s'.posts.lookup target.postId = some q ∧
      SingleLeaves d projection digest s operation target.postId p now q
  untouched : ∀ postId, (∀ target ∈ snapshot.targets, target.postId = postId →
      ∀ p, s.posts.lookup postId = some p → AlreadyMet operation p) →
    s'.posts.lookup postId = s.posts.lookup postId ∧
      ∀ r ∈ s'.revisions, r.postId = postId → r ∈ s.revisions
  surfaces : ∀ (path : FeedPath) (postId : ℤ),
    anonymousEntry s' path.surface now postId ≠ anonymousEntry s path.surface now postId →
      path ∈ evidence.feedPaths

section Refinement

variable {d : Dialect} {projection : Option String → String → String}
  {digest : PostContentEtag → String} {s s' : PostTables} {userId : ℤ}
  {snapshot : ManagementSelectionSnapshot} {operation : BulkPostOperation} {now : UtcInstant}
  {locked : List BulkLockedPost} {evidence : BulkPostMutationEvidence} {post : BulkLockedPost}
  {p : Post}

theorem mem_changedIds {postId : ℤ} : postId ∈ changedIds locked operation ↔
    ∃ post ∈ locked, changes operation post = true ∧ post.record.postId = postId := by
  rw [changedIds, List.mem_map]
  exact exists_congr (fun post ↦ by rw [List.mem_filter, and_assoc])

/-- The rows that differ are the ones that the bulk path takes for changed. -/
theorem changes_iff (h : Locks s userId post p) (hp : Stored projection p) :
    changes operation post = true ↔ ¬AlreadyMet operation p := by
  cases operation with
  | changeAudience audiences =>
    have hdecide : changes (.changeAudience audiences) post = true ↔
        canonicalAudiences post.audiences ≠ canonicalAudiences audiences := decide_eq_true_iff
    rw [hdecide, ne_eq, canonicalAudiences_eq_iff, h.audiences, rows_intoTarget hp.audiences]
    rfl
  | delete =>
    have hlive : ¬AlreadyMet .delete p := by simp [AlreadyMet, h.live]
    exact iff_of_true rfl hlive

theorem Locks.changed (hlocked : lockSnapshot s userId snapshot = .ok locked) (hpost : post ∈ locked)
    (h : Locks s userId post p) (hp : Stored projection p) :
    post.record.postId ∈ changedIds locked operation ↔ ¬AlreadyMet operation p := by
  rw [mem_changedIds]
  constructor
  · rintro ⟨post', hpost', hchanges, hid⟩
    rw [List.inj_on_of_nodup_map (lockSnapshot_nodup hlocked) hpost' hpost hid] at hchanges
    exact (changes_iff h hp).mp hchanges
  · intro hmet
    exact ⟨post, hpost, (changes_iff h hp).mpr hmet, rfl⟩

theorem applyBulkPostOperation_parts
    (h : applyBulkPostOperation d s userId snapshot operation now = .ok (evidence, s'))
    (hlocked : lockSnapshot s userId snapshot = .ok locked)
    (hids : changedIds locked operation ≠ []) :
    ∃ captured, captureRevisions s (changedIds locked operation) now = .ok captured ∧
      s'.revisions = captured.revisions ∧
      evidence.feedPaths = feedPaths locked (changedIds locked operation) operation now ∧
      ∀ audiences, operation = .changeAudience audiences →
        ∀ row ∈ canonicalAudiences audiences, ∀ id ∈ row.audienceId,
          id ∈ s.audiences.map Schema.Audience.audienceId := by
  obtain ⟨locked', hlocked', h⟩ := bind_eq_ok.mp h
  obtain rfl := Except.ok.inj (hlocked.symm.trans hlocked')
  dsimp only at h
  rw [if_neg hids] at h
  obtain ⟨captured, hcaptured, h⟩ := bind_eq_ok.mp h
  have hsame := captureRevisions_ok (mapError_eq_ok.mp hcaptured)
  refine ⟨captured, mapError_eq_ok.mp hcaptured, ?_⟩
  cases operation with
  | delete =>
    obtain ⟨rfl, rfl⟩ := Prod.mk.inj (pure_eq_ok.mp h)
    exact ⟨rfl, rfl, fun audiences heq ↦ (by cases heq)⟩
  | changeAudience audiences =>
    obtain ⟨written, hwritten, h⟩ := bind_eq_ok.mp h
    obtain ⟨rfl, rfl⟩ := Prod.mk.inj (pure_eq_ok.mp h)
    obtain ⟨rows, hrows, hwritten⟩ := bind_eq_ok.mp (mapError_eq_ok.mp hwritten)
    obtain ⟨_, hforeign, hwritten⟩ := bind_eq_ok.mp hwritten
    obtain rfl := pure_eq_ok.mp hwritten
    obtain ⟨rfl, -⟩ := insertRows_nil_eq_some_iff.mp (orError_eq_ok.mp hrows)
    refine ⟨rfl, rfl, fun audiences' heq ↦ ?_⟩
    obtain rfl := BulkPostOperation.changeAudience.inj heq
    rw [hsame.audiences] at hforeign
    exact require_eq_ok.mp hforeign

theorem nodup_of_capture {postId : ℤ} {out : PostTables} (hp : s.posts.lookup postId = some p)
    (hs : Stored projection p) (h : captureCompletePostRevision s postId now = .ok out) :
    p.audiences.Nodup := by
  by_contra hrows
  rw [capture_refused hp hs hrows] at h
  cases h

theorem audienceClash_eq_false {a b : AudienceRow} (ha : revisionAudienceCheck a = true)
    (hb : revisionAudienceCheck b = true) (hab : a ≠ b) : d.audienceClash a b = false := by
  obtain ⟨k, i⟩ := a
  obtain ⟨k', j⟩ := b
  cases d <;> cases k <;> cases k' <;> cases i <;> cases j <;>
    simp_all [revisionAudienceCheck, Dialect.audienceClash]

theorem replacePostAudiences_of {audiences : List AudienceTarget}
    (hrows : (audiences.filterMap audienceTargetRow).Nodup)
    (hforeign : ∀ row ∈ audiences.filterMap audienceTargetRow, ∀ id ∈ row.audienceId,
      id ∈ s.audiences.map Schema.Audience.audienceId) :
    replacePostAudiences d s audiences = .ok (audiences.filterMap audienceTargetRow) := by
  have hunique : Unique d.audienceClash (audiences.filterMap audienceTargetRow) :=
    hrows.imp_of_mem (fun ha hb hab ↦
      audienceClash_eq_false (check_targetRows ha) (check_targetRows hb) hab)
  unfold replacePostAudiences
  rw [insertRows_nil hunique, orError_some, ok_bind, require_pos hforeign]
  rfl

theorem mem_iff_of_audiencesAreEqual {existing : List AudienceRow} {desired : List AudienceTarget}
    (hnodup : existing.Nodup) (h : audiencesAreEqual existing desired = true) :
    ∀ row, row ∈ existing ↔ row ∈ desired.filterMap audienceTargetRow := by
  obtain ⟨hlength, hall⟩ := of_decide_eq_true h
  have hsubset : existing ⊆ (desired.filterMap audienceTargetRow).dedup :=
    fun row hrow ↦ of_decide_eq_true (List.all_eq_true.mp hall row hrow)
  have hperm := (hnodup.subperm hsubset).perm_of_length_le hlength.ge
  intro row
  rw [hperm.mem_iff, List.mem_dedup]

theorem singleLeaves_of_changed (hs : Reached projection s) (h : Locks s userId post p)
    (hmet : ¬AlreadyMet operation p) {out : PostTables}
    (hcapture : captureCompletePostRevision s post.record.postId now = .ok out)
    (hforeign : ∀ audiences, operation = .changeAudience audiences →
      ∀ row ∈ canonicalAudiences audiences, ∀ id ∈ row.audienceId,
        id ∈ s.audiences.map Schema.Audience.audienceId) :
    SingleLeaves d projection digest s operation post.record.postId p now (operation.apply now p) := by
  have hp := hs.stored _ _ h.lookup
  cases operation with
  | delete => exact changeLifecycle_softDelete h.lookup h.live hp h.fetched hcapture
  | changeAudience audiences =>
    intro single hnodup hsame
    have hother : audiencesAreEqual p.audiences single = false := by
      rw [Bool.eq_false_iff]
      intro hequal
      refine hmet (fun row ↦ ?_)
      rw [← hsame row]
      exact mem_iff_of_audiencesAreEqual (nodup_of_capture h.lookup hp hcapture) hequal row
    have hrows : replacePostAudiences d s single = .ok (single.filterMap audienceTargetRow) := by
      refine replacePostAudiences_of hnodup (fun row hrow ↦ ?_)
      exact hforeign audiences rfl row (mem_canonicalAudiences.mpr ((hsame row).mp hrow))
    obtain ⟨m, s', hupdate, hlookup⟩ : ∃ m s', updatePost d projection digest s post.record.postId
          p.userId (restated p hp.presence single now) = .ok (m, s') ∧
        s'.posts.lookup post.record.postId = some
          (readdressedPost p (single.filterMap audienceTargetRow) now) :=
      updatePost_restated h.lookup h.live hp (hs.slugs.free h.lookup h.live) h.fetched hcapture
        hrows hother
    refine ⟨hp.presence, m, s', _, hupdate, hlookup, ?_, rfl⟩
    have hperm : (single.filterMap audienceTargetRow).Perm (canonicalAudiences audiences) := by
      rw [List.perm_ext_iff_of_nodup hnodup nodup_canonicalAudiences]
      intro row
      rw [hsame row, mem_canonicalAudiences]
    exact hperm

theorem hasPublicAudience_readdressed {audiences : List AudienceTarget}
    (h : hasPublicAudience (readdressedPost p (canonicalAudiences audiences) now) = true) :
    .public_ ∈ audiences := by
  obtain ⟨row, hrow, hkind⟩ := List.any_eq_true.mp h
  obtain ⟨target, htarget, heq⟩ := List.mem_filterMap.mp (mem_canonicalAudiences.mp hrow)
  cases target <;> cases heq
  · exact htarget
  · cases hkind
  · cases hkind

theorem mem_affected_of_onSurface {author : Username} {tags : List Tag} {path : FeedPath}
    (h : onSurface author tags path.surface = true) : path ∈ affectedFeedUrls author tags := by
  rw [mem_affectedFeedUrls]
  cases hsurface : path.surface with
  | site => exact .inl rfl
  | siteTag tag =>
    rw [hsurface] at h
    exact .inr (.inr ⟨tag, of_decide_eq_true h, .inl rfl⟩)
  | user username =>
    rw [hsurface] at h
    exact .inr (.inl (congrArg FeedSurface.user (of_decide_eq_true h)))
  | userTag username tag =>
    rw [hsurface] at h
    obtain ⟨rfl, htag⟩ := of_decide_eq_true h
    exact .inr (.inr ⟨tag, htag, .inr rfl⟩)

/-- A changed post that is shown before or after is reported on every surface that shows it. -/
theorem mem_feedPaths {path : FeedPath} {u : Author} (hpost : post ∈ locked)
    (h : Locks s userId post p) (hp : Stored projection p)
    (hchanged : post.record.postId ∈ changedIds locked operation)
    (hlive : p.publishedAt.any (· ≤ now) = true)
    (hpublic : hasPublicAudience p = true ∨
      ∃ audiences, operation = .changeAudience audiences ∧ .public_ ∈ audiences)
    (hu : s.users.find? (fun u ↦ u.userId = p.userId) = some u)
    (hsurface : onSurface u.username (p.tags.map PostTag.tagSlug) path.surface = true) :
    path ∈ feedPaths locked (changedIds locked operation) operation now := by
  obtain ⟨p', u', hp', hu', -, hrecord⟩ := fetchPost_ok h.fetched
  obtain rfl := Option.some.inj (h.lookup.symm.trans hp')
  obtain rfl := Option.some.inj (hu.symm.trans hu')
  unfold feedPaths
  rw [List.mem_eraseDups, List.mem_flatMap]
  refine ⟨post, List.mem_filter.mpr ⟨hpost, decide_eq_true ⟨hchanged, ?_⟩⟩, ?_⟩
  · have hliveAt : liveAt post.record now = true := by
      rw [hrecord]
      exact hlive
    rw [hliveAt, Bool.true_and, Bool.or_eq_true]
    refine hpublic.imp (fun hpublic ↦ ?_) ?_
    · rw [h.audiences]
      exact decide_eq_true ((public_mem_intoTarget hp.audiences).mpr hpublic)
    · rintro ⟨audiences, rfl, hmem⟩
      exact decide_eq_true hmem
  · have hauthor : post.record.authorUsername = u.username := by rw [hrecord]
    have htags : ∀ tag, tag ∈ p.tags.map PostTag.tagSlug →
        tag ∈ post.record.tags.map PostTag.tagSlug := by
      intro tag htag
      rw [hrecord]
      obtain ⟨row, hrow, rfl⟩ := List.mem_map.mp htag
      exact List.mem_map_of_mem ((List.mem_insertionSort _).mpr hrow)
    rw [hauthor]
    refine mem_affected_of_onSurface ?_
    cases hpath : path.surface with
    | site => rfl
    | siteTag tag =>
      rw [hpath] at hsurface
      exact decide_eq_true (htags tag (of_decide_eq_true hsurface))
    | user username =>
      rw [hpath] at hsurface
      exact hsurface
    | userTag username tag =>
      rw [hpath] at hsurface
      obtain ⟨hname, htag⟩ := of_decide_eq_true hsurface
      exact decide_eq_true ⟨hname, htags tag htag⟩

theorem anonymousEntry_some {surface : FeedSurface} {postId : ℤ} {shown : PostColumns × List PostTag}
    (h : anonymousEntry s surface now postId = some shown) :
    ∃ p u, s.posts.lookup postId = some p ∧ p.deletedAt = none ∧
      p.publishedAt.any (· ≤ now) = true ∧ hasPublicAudience p = true ∧
      s.users.find? (fun u ↦ u.userId = p.userId) = some u ∧
      onSurface u.username (p.tags.map PostTag.tagSlug) surface = true := by
  obtain ⟨p, hp, h⟩ := Option.bind_eq_some_iff.mp h
  split_ifs at h with hshown
  obtain ⟨hdeleted, hlive, hpublic, hsurface⟩ := hshown
  cases hu : s.users.find? (fun u ↦ u.userId = p.userId) with
  | none =>
    rw [hu] at hsurface
    cases hsurface
  | some u =>
    rw [hu] at hsurface
    exact ⟨p, u, hp, hdeleted, hlive, hpublic, hu, hsurface⟩

/-- The entry of a post that is not written is shown as before. -/
theorem anonymousEntry_congr {surface : FeedSurface} {postId : ℤ} (husers : s'.users = s.users)
    (hlookup : s'.posts.lookup postId = s.posts.lookup postId) :
    anonymousEntry s' surface now postId = anonymousEntry s surface now postId := by
  rw [anonymousEntry, anonymousEntry, husers, hlookup]

/-- Nothing is written when no post changes. -/
theorem applyBulkPostOperation_none
    (h : applyBulkPostOperation d s userId snapshot operation now = .ok (evidence, s'))
    (hlocked : lockSnapshot s userId snapshot = .ok locked)
    (hids : changedIds locked operation = []) : s' = s := by
  obtain ⟨locked', hlocked', h⟩ := bind_eq_ok.mp h
  obtain rfl := Except.ok.inj (hlocked.symm.trans hlocked')
  dsimp only at h
  rw [if_pos hids] at h
  exact (Prod.mk.inj (pure_eq_ok.mp h)).2.symm

theorem locks_of_target (hlocked : lockSnapshot s userId snapshot = .ok locked)
    {target : BulkSelectionTarget} (htarget : target ∈ snapshot.targets) :
    ∃ post ∈ locked, ∃ p, Locks s userId post p ∧ post.record.postId = target.postId ∧
      p.mutationVersion = target.mutationVersion := by
  obtain ⟨post, hpost, hid, hversion⟩ := lockSnapshot_covers hlocked htarget
  obtain ⟨p, hlocks⟩ := lockSnapshot_ok hlocked hpost
  exact ⟨post, hpost, p, hlocks, hid, hlocks.version.symm.trans hversion⟩

theorem locks_of_changed (hs : Reached projection s)
    (hlocked : lockSnapshot s userId snapshot = .ok locked) {postId : ℤ}
    (hchanged : postId ∈ changedIds locked operation) :
    ∃ post ∈ locked, ∃ p, Locks s userId post p ∧ post.record.postId = postId ∧
      ¬AlreadyMet operation p ∧ ∃ target ∈ snapshot.targets, target.postId = postId := by
  obtain ⟨post, hpost, hchanges, rfl⟩ := mem_changedIds.mp hchanged
  obtain ⟨p, hlocks⟩ := lockSnapshot_ok hlocked hpost
  have hid : post.record.postId ∈ snapshot.targets.map BulkSelectionTarget.postId := by
    rw [← lockSnapshot_ids hlocked]
    exact List.mem_map_of_mem hpost
  exact ⟨post, hpost, p, hlocks, rfl, (changes_iff hlocks (hs.stored _ _ hlocks.lookup)).mp hchanges,
    List.mem_map.mp hid⟩

theorem bulk_changed (hs : Reached projection s)
    (h : applyBulkPostOperation d s userId snapshot operation now = .ok (evidence, s'))
    {target : BulkSelectionTarget} (htarget : target ∈ snapshot.targets)
    (hp : s.posts.lookup target.postId = some p) (hmet : ¬AlreadyMet operation p) :
    ∃ q, s'.posts.lookup target.postId = some q ∧
      SingleLeaves d projection digest s operation target.postId p now q := by
  obtain ⟨locked, hlocked, -, -, hlookup⟩ := applyBulkPostOperation_ok h
  obtain ⟨post, hpost, p', hlocks, hid, -⟩ := locks_of_target hlocked htarget
  rw [← hid] at hp ⊢
  obtain rfl := Option.some.inj (hlocks.lookup.symm.trans hp)
  have hin : post.record.postId ∈ changedIds locked operation :=
    (Locks.changed hlocked hpost hlocks (hs.stored _ _ hp)).mpr hmet
  obtain ⟨captured, hcaptured, -, -, hforeign⟩ :=
    applyBulkPostOperation_parts h hlocked (List.ne_nil_of_mem hin)
  obtain ⟨out, hout⟩ := captureRevisions_each hcaptured _ hin
  refine ⟨operation.apply now p', ?_, singleLeaves_of_changed hs hlocks hmet hout hforeign⟩
  rw [hlookup, if_pos hin, hp, Option.map_some]

theorem bulk_untouched (hs : Reached projection s)
    (h : applyBulkPostOperation d s userId snapshot operation now = .ok (evidence, s')) {postId : ℤ}
    (hmet : ∀ target ∈ snapshot.targets, target.postId = postId →
      ∀ p, s.posts.lookup postId = some p → AlreadyMet operation p) :
    s'.posts.lookup postId = s.posts.lookup postId ∧
      ∀ r ∈ s'.revisions, r.postId = postId → r ∈ s.revisions := by
  obtain ⟨locked, hlocked, -, -, hlookup⟩ := applyBulkPostOperation_ok h
  have hout : postId ∉ changedIds locked operation := by
    intro hin
    obtain ⟨post, -, p, hlocks, rfl, hnot, target, htarget, hid⟩ := locks_of_changed hs hlocked hin
    exact hnot (hmet target htarget hid p hlocks.lookup)
  refine ⟨by rw [hlookup, if_neg hout], fun r hr hid ↦ ?_⟩
  by_cases hids : changedIds locked operation = []
  · rwa [applyBulkPostOperation_none h hlocked hids] at hr
  · obtain ⟨captured, hcaptured, hrevisions, -, -⟩ := applyBulkPostOperation_parts h hlocked hids
    rw [hrevisions] at hr
    rcases captureRevisions_revisions hcaptured r hr with hold | hnew
    · exact hold
    · exact absurd (hid ▸ hnew) hout

theorem bulk_surfaces (hs : Reached projection s)
    (h : applyBulkPostOperation d s userId snapshot operation now = .ok (evidence, s'))
    {path : FeedPath} {postId : ℤ}
    (hne : anonymousEntry s' path.surface now postId ≠ anonymousEntry s path.surface now postId) :
    path ∈ evidence.feedPaths := by
  obtain ⟨locked, hlocked, husers, -, hlookup⟩ := applyBulkPostOperation_ok h
  have hin : postId ∈ changedIds locked operation := by
    by_contra hout
    exact hne (anonymousEntry_congr husers (by rw [hlookup, if_neg hout]))
  obtain ⟨captured, -, -, hpaths, -⟩ :=
    applyBulkPostOperation_parts h hlocked (List.ne_nil_of_mem hin)
  obtain ⟨post, hpost, p, hlocks, rfl, -, -⟩ := locks_of_changed hs hlocked hin
  have hp := hs.stored _ _ hlocks.lookup
  have hafter : s'.posts.lookup post.record.postId = some (operation.apply now p) := by
    rw [hlookup, if_pos hin, hlocks.lookup, Option.map_some]
  rw [hpaths]
  cases hbefore : anonymousEntry s path.surface now post.record.postId with
  | some shown =>
    obtain ⟨q, u, hq, -, hlive, hpublic, hu, hsurface⟩ := anonymousEntry_some hbefore
    obtain rfl := Option.some.inj (hlocks.lookup.symm.trans hq)
    exact mem_feedPaths hpost hlocks hp hin hlive (.inl hpublic) hu hsurface
  | none =>
    rw [hbefore] at hne
    obtain ⟨shown, hshown⟩ := Option.ne_none_iff_exists'.mp hne
    obtain ⟨q, u, hq, hdeleted, hlive, hpublic, hu, hsurface⟩ := anonymousEntry_some hshown
    obtain rfl := Option.some.inj (hafter.symm.trans hq)
    rw [husers] at hu
    cases operation with
    | delete => cases hdeleted
    | changeAudience audiences =>
      exact mem_feedPaths hpost hlocks hp hin hlive
        (.inr ⟨audiences, rfl, hasPublicAudience_readdressed hpublic⟩) hu hsurface

theorem refinesSingle_of_ok (hs : Reached projection s)
    (h : applyBulkPostOperation d s userId snapshot operation now = .ok (evidence, s')) :
    RefinesSingle d projection digest s userId snapshot operation now evidence s' where
  found := by
    intro target htarget
    obtain ⟨locked, hlocked, -⟩ := applyBulkPostOperation_ok h
    obtain ⟨post, -, p, hlocks, hid, hversion⟩ := locks_of_target hlocked htarget
    exact ⟨p, hid ▸ hlocks.lookup, hlocks.live, hlocks.owner, hversion⟩
  changed := fun _ htarget _ hp hmet ↦ bulk_changed hs h htarget hp hmet
  untouched := fun _ hmet ↦ bulk_untouched hs h hmet
  surfaces := fun _ _ hne ↦ bulk_surfaces hs h hne

theorem step_bulk_ok
    (h : applyBulkPostOperation d s userId snapshot operation now = .ok (evidence, s')) :
    step d projection digest s (.bulk userId snapshot operation now) = s' := by
  unfold step outcome
  simp only [h]
  rfl

/-- A refused bulk operation is rolled back. -/
theorem step_bulk_error {error : BulkPostMutationError}
    (h : applyBulkPostOperation d s userId snapshot operation now = .error error) :
    step d projection digest s (.bulk userId snapshot operation now) = s := by
  unfold step outcome
  simp only [h]
  rfl

/-- In every database that runs of the operations reach, a bulk operation is the single operations
on the posts that it changes, or it is refused and changes nothing. -/
theorem bulk_refines_single {empty : PostTables} {operations : List Operation}
    (hempty : empty.posts = ∅) (hs : s = run (step d projection digest) empty operations)
    (userId : ℤ) (snapshot : ManagementSelectionSnapshot) (operation : BulkPostOperation)
    (now : UtcInstant) :
    (∃ evidence s', applyBulkPostOperation d s userId snapshot operation now = .ok (evidence, s') ∧
      step d projection digest s (.bulk userId snapshot operation now) = s' ∧
      RefinesSingle d projection digest s userId snapshot operation now evidence s') ∨
    ∃ error, applyBulkPostOperation d s userId snapshot operation now = .error error ∧
      step d projection digest s (.bulk userId snapshot operation now) = s := by
  have hreached : Reached projection s := by
    rw [hs]
    exact reached_run hempty
  cases h : applyBulkPostOperation d s userId snapshot operation now with
  | error error => exact .inr ⟨error, rfl, step_bulk_error h⟩
  | ok result => exact .inl ⟨result.1, result.2, rfl, step_bulk_ok h, refinesSingle_of_ok hreached h⟩

end Refinement

def noticeSnapshot : ManagementSelectionSnapshot := ⟨[⟨1, 1⟩], by decide⟩

theorem notice_readdressed_in_bulk :
    (∃ evidence s', applyBulkPostOperation .sqlite
        (run (step .sqlite noticeProjection noticeDigest) noticeTables [createNotice [.public_]]) 1
        noticeSnapshot (.changeAudience [.named 7, .subscribers]) noticeClock = .ok (evidence, s') ∧
      step .sqlite noticeProjection noticeDigest
        (run (step .sqlite noticeProjection noticeDigest) noticeTables [createNotice [.public_]])
        (.bulk 1 noticeSnapshot (.changeAudience [.named 7, .subscribers]) noticeClock) = s' ∧
      RefinesSingle .sqlite noticeProjection noticeDigest
        (run (step .sqlite noticeProjection noticeDigest) noticeTables [createNotice [.public_]]) 1
        noticeSnapshot (.changeAudience [.named 7, .subscribers]) noticeClock evidence s') ∨
    ∃ error, applyBulkPostOperation .sqlite
        (run (step .sqlite noticeProjection noticeDigest) noticeTables [createNotice [.public_]]) 1
        noticeSnapshot (.changeAudience [.named 7, .subscribers]) noticeClock = .error error ∧
      step .sqlite noticeProjection noticeDigest
        (run (step .sqlite noticeProjection noticeDigest) noticeTables [createNotice [.public_]])
        (.bulk 1 noticeSnapshot (.changeAudience [.named 7, .subscribers]) noticeClock) =
          run (step .sqlite noticeProjection noticeDigest) noticeTables [createNotice [.public_]] :=
  bulk_refines_single rfl rfl 1 noticeSnapshot (.changeAudience [.named 7, .subscribers]) noticeClock

/-- A target that is named twice is stored once in bulk, and refused for the single post. -/
theorem repeated_target_differs :
    (applyBulkPostOperation .sqlite
        (run (step .sqlite noticeProjection noticeDigest) noticeTables [createNotice [.public_]]) 1
        noticeSnapshot (.changeAudience [.named 7, .named 7]) noticeClock).map
      (fun result ↦ (result.2.posts.lookup 1).map (fun p ↦ p.audiences)) =
        .ok (some [⟨.named, some 7⟩]) ∧
    (outcome .sqlite noticeProjection noticeDigest
        (run (step .sqlite noticeProjection noticeDigest) noticeTables [createNotice [.public_]])
        (addressNotice [.named 7, .named 7])).map PostTables.lastPostId =
      .error (.update (.internal (.uniqueViolation .postAudiences))) := by
  exact ⟨by decide +kernel, by decide +kernel⟩

end Jaunder.Storage.Posts.BulkRefinement
