import Jaunder.Storage.Posts.AudienceRows

namespace Jaunder.Storage.Posts.History

open Foundation.Outcome Foundation.Run Foundation.UniqueIndex
open Jaunder.Common.Tag Jaunder.Common.Time
open Jaunder.Host.ContentEtag
open Jaunder.Storage.Posts.AudienceRows Jaunder.Storage.Posts.Bulk
open Jaunder.Storage.Posts.Lifecycle Jaunder.Storage.Posts.Runs Jaunder.Storage.Posts.Tables
open Jaunder.Storage.Posts.Update

/-- The state of a post that a revision keeps: the columns and the child rows. -/
abbrev PostState := PostColumns × PostChildren

def postState (p : Post) : PostState := (p.toPostColumns, p.toPostChildren)

def revisionState (r : Revision) : PostState := (r.toPostColumns, r.toPostChildren)

def revisionsOf (s : PostTables) (postId : ℤ) : List Revision :=
  s.revisions.filter (fun r ↦ r.postId = postId)

/-- The revisions of a post followed by the current row. -/
def history (s : PostTables) (postId : ℤ) : List PostState :=
  (revisionsOf s postId).map revisionState ++ (s.posts.lookup postId).toList.map postState

def version (s : PostTables) (postId : ℤ) : ℕ :=
  (s.posts.lookup postId).elim 0 (fun p ↦ p.mutationVersion)

section Reports

variable (d : Dialect) (projection : Option String → String → String)
  (digest : PostContentEtag → String)

def reportedBy {ε : Type} (postId : ℤ) : Except ε (PostMutation × PostTables) → List ℤ
  | .ok (m, _) => if m.changed then [postId] else []
  | .error _ => []

/-- Does a tag request name a tag to add or to remove? -/
def tagsChange (s : PostTables) (postId : ℤ) (desired : List TagLabel) : Bool :=
  (s.posts.lookup postId).any (fun p ↦
    let diff := postTagDiff (tagsBySlug p.tags) desired
    ¬(diff.toAdd = [] ∧ diff.toRemove = []))

/-- The posts that an operation reports as created or changed. -/
def reported (s : PostTables) : Operation → List ℤ
  | .reserve => []
  | .create input now =>
    match writePostInTx d projection s input now with
    | .ok (identity, _) => [identity]
    | .error _ => []
  | .update postId editorUserId input =>
    reportedBy postId (updatePost d projection digest s postId editorUserId input)
  | .lifecycle change postId userId now => reportedBy postId (changeLifecycle s postId userId change now)
  | .setTags postId userId desired now =>
    match setPostTags s postId userId desired now with
    | .ok _ => if tagsChange s postId desired then [postId] else []
    | .error _ => []
  | .bulk userId snapshot operation now =>
    match lockSnapshot s userId snapshot, applyBulkPostOperation d s userId snapshot operation now with
    | .ok locked, .ok _ => changedIds locked operation
    | _, _ => []

/-- The states that the operations take a post to. -/
def passed (s : PostTables) (postId : ℤ) : List Operation → List PostState
  | [] => []
  | operation :: operations =>
    let s' := step d projection digest s operation
    (if postId ∈ reported d projection digest s operation then
      (s'.posts.lookup postId).toList.map postState else []) ++ passed s' postId operations

end Reports

/-- What one operation does to the posts and the revisions, by the posts that it reports. -/
structure Recorded (s s' : PostTables) (changed : List ℤ) : Prop where
  frozen : s.revisions <+: s'.revisions
  kept : ∀ postId ∉ changed, s'.posts.lookup postId = s.posts.lookup postId ∧
    revisionsOf s' postId = revisionsOf s postId
  created : ∀ postId ∈ changed, s.posts.lookup postId = none →
    ∃ p', s'.posts.lookup postId = some p' ∧ p'.mutationVersion = 1 ∧
      revisionsOf s' postId = revisionsOf s postId
  mutated : ∀ postId ∈ changed, ∀ p, s.posts.lookup postId = some p →
    ∃ p' r, s'.posts.lookup postId = some p' ∧ p'.mutationVersion = p.mutationVersion + 1 ∧
      revisionsOf s' postId = revisionsOf s postId ++ [r] ∧ revisionState r = postState p

section Capture

variable {s s' : PostTables} {postId : ℤ} {ids : List ℤ} {now : UtcInstant}

theorem Recorded.refl (s : PostTables) : Recorded s s [] :=
  ⟨List.prefix_refl _, fun _ _ ↦ ⟨rfl, rfl⟩, fun _ h ↦ (by cases h), fun _ h ↦ (by cases h)⟩

/-- A revision is an exact copy of the post. -/
def Copies (s : PostTables) (postId : ℤ) (r : Revision) : Prop :=
  r.postId = postId ∧ ∃ p, s.posts.lookup postId = some p ∧ revisionState r = postState p

theorem capture_appends (h : captureCompletePostRevision s postId now = .ok s') :
    ∃ r, Copies s postId r ∧ s'.revisions = s.revisions ++ [r] := by
  obtain ⟨p, hp, h⟩ := bind_eq_ok.mp h
  obtain ⟨tags, htags, h⟩ := bind_eq_ok.mp h
  obtain ⟨-, -, h⟩ := bind_eq_ok.mp h
  obtain ⟨audiences, haudiences, h⟩ := bind_eq_ok.mp h
  obtain ⟨media, hmedia, h⟩ := bind_eq_ok.mp h
  obtain rfl := pure_eq_ok.mp h
  obtain ⟨rfl, -⟩ := insertRows_nil_eq_some_iff.mp (orError_eq_ok.mp htags)
  obtain ⟨rfl, -⟩ := insertRows_nil_eq_some_iff.mp (orError_eq_ok.mp haudiences)
  obtain ⟨rfl, -⟩ := insertRows_nil_eq_some_iff.mp (orError_eq_ok.mp hmedia)
  exact ⟨_, ⟨rfl, p, orError_eq_ok.mp hp, rfl⟩, rfl⟩

theorem captureRevisions_appends (h : captureRevisions s ids now = .ok s') :
    ∃ new, List.Forall₂ (Copies s) ids new ∧ s'.revisions = s.revisions ++ new := by
  induction ids generalizing s with
  | nil =>
    obtain rfl := pure_eq_ok.mp h
    exact ⟨[], .nil, (List.append_nil _).symm⟩
  | cons id ids ih =>
    obtain ⟨captured, hcaptured, h⟩ := bind_eq_ok.mp h
    obtain ⟨r, hr, hrevisions⟩ := capture_appends hcaptured
    obtain ⟨new, hnew, hrest⟩ := ih h
    have hposts := (capture_ok hcaptured).posts
    refine ⟨r :: new, .cons hr (hnew.imp (fun id r hcopies ↦ ?_)), ?_⟩
    · unfold Copies at hcopies ⊢
      rwa [hposts] at hcopies
    · rw [hrest, hrevisions, List.append_assoc, List.singleton_append]

theorem filter_copies_of_notMem {new : List Revision} (h : List.Forall₂ (Copies s) ids new)
    (hid : postId ∉ ids) : new.filter (fun r ↦ r.postId = postId) = [] := by
  induction h with
  | nil => rfl
  | @cons id r ids new hr _ ih =>
    obtain ⟨hhead, htail⟩ := not_or.mp (List.mem_cons.not.mp hid)
    rw [List.filter_cons_of_neg, ih htail]
    rw [decide_eq_true_iff, hr.1]
    exact fun heq ↦ hhead heq.symm

/-- Of the new revisions exactly one belongs to a captured post. -/
theorem filter_copies_of_mem {new : List Revision} (h : List.Forall₂ (Copies s) ids new)
    (hids : ids.Nodup) (hid : postId ∈ ids) :
    ∃ r, new.filter (fun r ↦ r.postId = postId) = [r] ∧ Copies s postId r := by
  induction h with
  | nil => cases hid
  | @cons id r ids new hr hnew ih =>
    obtain ⟨hhead, htail⟩ := List.nodup_cons.mp hids
    rcases List.mem_cons.mp hid with rfl | hid
    · refine ⟨r, ?_, hr⟩
      rw [List.filter_cons_of_pos, filter_copies_of_notMem hnew hhead]
      exact decide_eq_true hr.1
    · obtain ⟨r', hr', hcopies⟩ := ih htail hid
      refine ⟨r', ?_, hcopies⟩
      rw [List.filter_cons_of_neg, hr']
      rw [decide_eq_true_iff, hr.1]
      exact fun heq ↦ hhead (heq ▸ hid)

/-- A write that captures the posts first and gives each of them the next version is recorded. -/
theorem recorded_of_capture {captured : PostTables} (hids : ids.Nodup)
    (hcaptured : captureRevisions s ids now = .ok captured)
    (hrevisions : s'.revisions = captured.revisions)
    (hkept : ∀ id ∉ ids, s'.posts.lookup id = s.posts.lookup id)
    (hwritten : ∀ id ∈ ids, ∀ p, s.posts.lookup id = some p →
      ∃ p', s'.posts.lookup id = some p' ∧ p'.mutationVersion = p.mutationVersion + 1) :
    Recorded s s' ids := by
  obtain ⟨new, hnew, happend⟩ := captureRevisions_appends hcaptured
  have hall : s'.revisions = s.revisions ++ new := hrevisions.trans happend
  have hof : ∀ id, revisionsOf s' id = revisionsOf s id ++ new.filter (fun r ↦ r.postId = id) := by
    intro id
    unfold revisionsOf
    rw [hall, List.filter_append]
  refine ⟨⟨new, hall.symm⟩, fun id hid ↦ ⟨hkept id hid, ?_⟩, fun id hid hnone ↦ ?_,
    fun id hid p hp ↦ ?_⟩
  · rw [hof, filter_copies_of_notMem hnew hid, List.append_nil]
  · obtain ⟨r, -, -, p, hp, -⟩ := filter_copies_of_mem hnew hids hid
    rw [hnone] at hp
    cases hp
  · obtain ⟨r, hr, -, p₀, hp₀, hstate⟩ := filter_copies_of_mem hnew hids hid
    obtain rfl := Option.some.inj (hp.symm.trans hp₀)
    obtain ⟨p', hp', hversion⟩ := hwritten id hid p hp
    exact ⟨p', r, hp', hversion, by rw [hof, hr], hstate⟩

theorem captureRevisions_singleton (h : captureCompletePostRevision s postId now = .ok s') :
    captureRevisions s [postId] now = .ok s' := by
  unfold captureRevisions
  rw [List.foldlM_cons, h, ok_bind]
  rfl

/-- The same for a write of one row. -/
theorem recorded_of_insert {captured : PostTables} {p p' : Post}
    (hcaptured : captureCompletePostRevision s postId now = .ok captured)
    (hp : s.posts.lookup postId = some p) (hversion : p'.mutationVersion = p.mutationVersion + 1) :
    Recorded s { captured with posts := captured.posts.insert postId p' } [postId] := by
  have hposts := (capture_ok hcaptured).posts
  refine recorded_of_capture (List.nodup_singleton _) (captureRevisions_singleton hcaptured) rfl
    (fun id hid ↦ ?_) (fun id hid p₀ hp₀ ↦ ?_)
  · dsimp only
    rw [AList.lookup_insert_ne (List.mem_singleton.not.mp hid), hposts]
  · obtain rfl := List.mem_singleton.mp hid
    obtain rfl := Option.some.inj (hp.symm.trans hp₀)
    exact ⟨p', AList.lookup_insert _, hversion⟩

end Capture

section Operations

variable {d : Dialect} {projection : Option String → String → String}
  {digest : PostContentEtag → String} {s s' : PostTables} {postId userId : ℤ} {now : UtcInstant}
  {m : PostMutation}

theorem create_recorded {input : CreatePostInput} {identity : ℤ}
    (h : writePostInTx d projection s input now = .ok (identity, s')) : Recorded s s' [identity] := by
  have hrevisions : s'.revisions = s.revisions := by
    obtain ⟨-, -, h⟩ := bind_eq_ok.mp h
    obtain ⟨-, -, h⟩ := bind_eq_ok.mp h
    obtain ⟨-, -, h⟩ := bind_eq_ok.mp h
    obtain ⟨-, -, h⟩ := bind_eq_ok.mp h
    obtain ⟨-, -, h⟩ := bind_eq_ok.mp h
    obtain ⟨audiences, -, h⟩ := bind_eq_ok.mp h
    rw [← (Prod.mk.inj (pure_eq_ok.mp h)).2]
  have hof : ∀ id, revisionsOf s' id = revisionsOf s id := by
    intro id
    rw [revisionsOf, hrevisions, revisionsOf]
  obtain ⟨audiences, -, -, hfresh, -, -, hposts, -, -⟩ := writePostInTx_ok h
  refine ⟨hrevisions ▸ List.prefix_refl _, fun id hid ↦ ⟨?_, hof id⟩, fun id hid _ ↦ ?_,
    fun id hid p hp ↦ ?_⟩
  · rw [hposts, AList.lookup_insert_ne (List.mem_singleton.not.mp hid)]
  · obtain rfl := List.mem_singleton.mp hid
    exact ⟨_, by rw [hposts, AList.lookup_insert], rfl, hof id⟩
  · obtain rfl := List.mem_singleton.mp hid
    exact absurd (AList.lookup_isSome.mp (by rw [hp]; rfl)) hfresh

theorem update_recorded {input : UpdatePostInput}
    (h : updatePost d projection digest s postId userId input = .ok (m, s')) :
    Recorded s s' (if m.changed then [postId] else []) := by
  obtain ⟨p, hp, h⟩ := bind_eq_ok.mp h
  obtain ⟨-, -, h⟩ := bind_eq_ok.mp h
  obtain ⟨-, -, h⟩ := bind_eq_ok.mp h
  obtain ⟨-, -, h⟩ := bind_eq_ok.mp h
  obtain ⟨previous, -, h⟩ := bind_eq_ok.mp h
  dsimp only at h
  split_ifs at h with hnoop
  · obtain ⟨rfl, rfl⟩ := Prod.mk.inj (pure_eq_ok.mp h)
    exact Recorded.refl s
  · obtain ⟨written, hwritten, h⟩ := bind_eq_ok.mp h
    obtain ⟨record, -, h⟩ := bind_eq_ok.mp h
    obtain ⟨rfl, rfl⟩ := Prod.mk.inj (pure_eq_ok.mp h)
    obtain ⟨captured, hcaptured, hwritten⟩ := bind_eq_ok.mp hwritten
    obtain ⟨-, -, hwritten⟩ := bind_eq_ok.mp hwritten
    obtain ⟨audiences, -, hwritten⟩ := bind_eq_ok.mp hwritten
    obtain rfl := pure_eq_ok.mp hwritten
    exact recorded_of_insert (mapError_eq_ok.mp hcaptured) (orError_eq_ok.mp hp) rfl

theorem lifecycle_recorded {change : PostLifecycleChange}
    (h : changeLifecycle s postId userId change now = .ok (m, s')) :
    Recorded s s' (if m.changed then [postId] else []) := by
  have h := changeLifecycle_ok h
  unfold lifecyclePost at h
  cases hp : s.posts.lookup postId with
  | none =>
    rw [hp] at h
    cases h
  | some p =>
    simp only [hp] at h
    split_ifs at h with howner hchange
    · cases h
    · obtain ⟨previous, -, h⟩ := bind_eq_ok.mp h
      obtain ⟨captured, hcaptured, h⟩ := bind_eq_ok.mp h
      obtain ⟨record, -, h⟩ := bind_eq_ok.mp h
      obtain ⟨rfl, rfl⟩ := Prod.mk.inj (Option.some.inj (pure_eq_ok.mp h))
      exact recorded_of_insert hcaptured hp (by cases change <;> rfl)
    · obtain ⟨previous, -, h⟩ := bind_eq_ok.mp h
      obtain ⟨rfl, rfl⟩ := Prod.mk.inj (Option.some.inj (pure_eq_ok.mp h))
      exact Recorded.refl s

theorem setTags_recorded {desired : List TagLabel}
    (h : setPostTags s postId userId desired now = .ok s') :
    Recorded s s' (if tagsChange s postId desired then [postId] else []) := by
  obtain ⟨p, hp, h⟩ := bind_eq_ok.mp h
  obtain ⟨-, -, h⟩ := bind_eq_ok.mp h
  obtain ⟨hlookup, -⟩ := Option.filter_eq_some_iff.mp (orError_eq_ok.mp hp)
  dsimp only at h
  split_ifs at h with hnone
  · obtain rfl := pure_eq_ok.mp h
    have hsame : tagsChange s postId desired = false := by
      rw [tagsChange, hlookup, Option.any_some, decide_eq_false_iff_not, not_not]
      exact hnone
    rw [hsame]
    exact Recorded.refl s
  · obtain ⟨captured, hcaptured, h⟩ := bind_eq_ok.mp h
    obtain rfl := pure_eq_ok.mp h
    have hchange : tagsChange s postId desired = true := by
      rw [tagsChange, hlookup, Option.any_some, decide_eq_true_iff]
      exact hnone
    rw [hchange]
    exact recorded_of_insert (mapError_eq_ok.mp hcaptured) hlookup rfl

theorem bulk_recorded {snapshot : ManagementSelectionSnapshot} {operation : BulkPostOperation}
    {evidence : BulkPostMutationEvidence} {locked : List BulkLockedPost}
    (hlocked : lockSnapshot s userId snapshot = .ok locked)
    (h : applyBulkPostOperation d s userId snapshot operation now = .ok (evidence, s')) :
    Recorded s s' (changedIds locked operation) ∧
      evidence.result.changedCount = (changedIds locked operation).length := by
  obtain ⟨locked', hlocked', -, -, hlookup⟩ := applyBulkPostOperation_ok h
  obtain rfl := Except.ok.inj (hlocked.symm.trans hlocked')
  obtain ⟨locked', hlocked', h⟩ := bind_eq_ok.mp h
  obtain rfl := Except.ok.inj (hlocked.symm.trans hlocked')
  dsimp only at h
  split_ifs at h with hids
  · obtain ⟨rfl, rfl⟩ := Prod.mk.inj (pure_eq_ok.mp h)
    rw [hids]
    exact ⟨Recorded.refl s, rfl⟩
  · obtain ⟨captured, hcaptured, h⟩ := bind_eq_ok.mp h
    have hrest : s'.revisions = captured.revisions ∧
        evidence.result.changedCount = (changedIds locked operation).length := by
      cases operation with
      | changeAudience audiences =>
        obtain ⟨written, hwritten, h⟩ := bind_eq_ok.mp h
        obtain ⟨rfl, rfl⟩ := Prod.mk.inj (pure_eq_ok.mp h)
        rw [changeAudiences_ok (mapError_eq_ok.mp hwritten)]
        exact ⟨rfl, rfl⟩
      | delete =>
        obtain ⟨rfl, rfl⟩ := Prod.mk.inj (pure_eq_ok.mp h)
        exact ⟨rfl, rfl⟩
    refine ⟨recorded_of_capture (changedIds_nodup hlocked) (mapError_eq_ok.mp hcaptured) hrest.1
      (fun id hid ↦ by rw [hlookup, if_neg hid]) (fun id hid p hp ↦ ?_), hrest.2⟩
    refine ⟨operation.apply now p, by rw [hlookup, if_pos hid, hp, Option.map_some], ?_⟩
    cases operation <;> rfl

end Operations

section Steps

variable (d : Dialect) (projection : Option String → String → String)
  (digest : PostContentEtag → String) (s : PostTables)

theorem step_of_ok {operation : Operation} {s' : PostTables}
    (h : outcome d projection digest s operation = .ok s') :
    Runs.step d projection digest s operation = s' := by
  rw [Runs.step, h]

theorem step_of_error {operation : Operation} {refusal : Refusal}
    (h : outcome d projection digest s operation = .error refusal) :
    Runs.step d projection digest s operation = s := by
  rw [Runs.step, h]

/-- Every operation does to the posts that it reports what a recorded write does, and nothing to the
others. -/
theorem step_recorded (operation : Operation) :
    Recorded s (Runs.step d projection digest s operation)
      (reported d projection digest s operation) := by
  cases operation with
  | reserve =>
    exact ⟨List.prefix_refl _, fun _ _ ↦ ⟨rfl, rfl⟩, fun _ h ↦ (by cases h), fun _ h ↦ (by cases h)⟩
  | create input now =>
    simp only [reported]
    cases hwrite : writePostInTx d projection s input now with
    | error error =>
      rw [step_of_error d projection digest s (by rw [outcome, hwrite]; rfl)]
      exact Recorded.refl s
    | ok result =>
      rw [step_of_ok d projection digest s (by rw [outcome, hwrite]; rfl)]
      exact create_recorded hwrite
  | update postId editorUserId input =>
    simp only [reported]
    cases hwrite : updatePost d projection digest s postId editorUserId input with
    | error error =>
      rw [step_of_error d projection digest s (by rw [outcome, hwrite]; rfl)]
      exact Recorded.refl s
    | ok result =>
      rw [step_of_ok d projection digest s (by rw [outcome, hwrite]; rfl)]
      exact update_recorded hwrite
  | lifecycle change postId userId now =>
    simp only [reported]
    cases hwrite : changeLifecycle s postId userId change now with
    | error error =>
      rw [step_of_error d projection digest s (by rw [outcome, hwrite]; rfl)]
      exact Recorded.refl s
    | ok result =>
      rw [step_of_ok d projection digest s (by rw [outcome, hwrite]; rfl)]
      exact lifecycle_recorded hwrite
  | setTags postId userId desired now =>
    simp only [reported]
    cases hwrite : setPostTags s postId userId desired now with
    | error error =>
      rw [step_of_error d projection digest s (by rw [outcome, hwrite]; rfl)]
      exact Recorded.refl s
    | ok result =>
      rw [step_of_ok d projection digest s (by rw [outcome, hwrite]; rfl)]
      exact setTags_recorded hwrite
  | bulk userId snapshot operation now =>
    simp only [reported]
    cases hwrite : applyBulkPostOperation d s userId snapshot operation now with
    | error error =>
      rw [step_of_error d projection digest s (by rw [outcome, hwrite]; rfl)]
      cases lockSnapshot s userId snapshot <;> exact Recorded.refl s
    | ok result =>
      obtain ⟨evidence, s'⟩ := result
      rw [step_of_ok d projection digest s (by rw [outcome, hwrite]; rfl)]
      obtain ⟨locked, hlocked, -⟩ := applyBulkPostOperation_ok hwrite
      rw [hlocked]
      exact (bulk_recorded hlocked hwrite).1

end Steps

section Histories

variable {d : Dialect} {projection : Option String → String → String}
  {digest : PostContentEtag → String} {s s' : PostTables} {changed : List ℤ} {postId : ℤ}

/-- The foreign key of `post_revisions`. -/
def RevisionsOfPosts (s : PostTables) : Prop :=
  ∀ r ∈ s.revisions, (s.posts.lookup r.postId).isSome

theorem revisionsOf_eq_nil (hkeys : RevisionsOfPosts s) (h : s.posts.lookup postId = none) :
    revisionsOf s postId = [] := by
  unfold revisionsOf
  rw [List.filter_eq_nil_iff]
  intro r hr hid
  have hpost := hkeys r hr
  rw [of_decide_eq_true hid, h] at hpost
  cases hpost

theorem Recorded.lookup_isSome (h : Recorded s s' changed)
    (hpost : (s.posts.lookup postId).isSome ∨ postId ∈ changed) :
    (s'.posts.lookup postId).isSome := by
  by_cases hid : postId ∈ changed
  · cases hp : s.posts.lookup postId with
    | none =>
      obtain ⟨p', hp', -⟩ := h.created postId hid hp
      rw [hp']
      rfl
    | some p =>
      obtain ⟨p', r, hp', -⟩ := h.mutated postId hid p hp
      rw [hp']
      rfl
  · rw [(h.kept postId hid).1]
    exact hpost.resolve_right hid

theorem Recorded.revisionsOfPosts (h : Recorded s s' changed) (hkeys : RevisionsOfPosts s) :
    RevisionsOfPosts s' := by
  intro r hr
  refine h.lookup_isSome ?_
  by_cases hid : r.postId ∈ changed
  · exact .inr hid
  · refine .inl (hkeys r ?_)
    have hmem : r ∈ revisionsOf s' r.postId := List.mem_filter.mpr ⟨hr, decide_eq_true rfl⟩
    rw [(h.kept r.postId hid).2] at hmem
    exact (List.mem_filter.mp hmem).1

/-- A reported post gets one more state and one more version. -/
theorem Recorded.history (h : Recorded s s' changed) (hkeys : RevisionsOfPosts s) (postId : ℤ) :
    history s' postId = history s postId ++ (if postId ∈ changed then
        (s'.posts.lookup postId).toList.map postState else []) ∧
      version s' postId = version s postId + (if postId ∈ changed then 1 else 0) := by
  unfold History.history version
  split_ifs with hid
  · cases hp : s.posts.lookup postId with
    | none =>
      obtain ⟨p', hp', hversion, hrevisions⟩ := h.created postId hid hp
      rw [hp', hrevisions, revisionsOf_eq_nil hkeys hp, Option.elim_some, hversion]
      exact ⟨rfl, rfl⟩
    | some p =>
      obtain ⟨p', r, hp', hversion, hrevisions, hstate⟩ := h.mutated postId hid p hp
      rw [hp', hrevisions, List.map_append, List.map_singleton, hstate]
      exact ⟨rfl, hversion⟩
  · obtain ⟨hlookup, hrevisions⟩ := h.kept postId hid
    rw [hlookup, hrevisions, List.append_nil]
    exact ⟨rfl, rfl⟩

theorem history_run (hkeys : RevisionsOfPosts s) (operations : List Operation) (postId : ℤ) :
    s.revisions <+: (run (Runs.step d projection digest) s operations).revisions ∧
      history (run (Runs.step d projection digest) s operations) postId =
        history s postId ++ passed d projection digest s postId operations ∧
      version (run (Runs.step d projection digest) s operations) postId =
        version s postId + (passed d projection digest s postId operations).length := by
  induction operations generalizing s with
  | nil => exact ⟨List.prefix_refl _, (List.append_nil _).symm, rfl⟩
  | cons operation operations ih =>
    have hrecorded := step_recorded d projection digest s operation
    obtain ⟨hfrozen, hhistory, hversion⟩ := ih (hrecorded.revisionsOfPosts hkeys)
    obtain ⟨hstep, hstepVersion⟩ := hrecorded.history hkeys postId
    rw [run_cons]
    refine ⟨hrecorded.frozen.trans hfrozen, ?_, ?_⟩
    · rw [hhistory, hstep, List.append_assoc]
      rfl
    · rw [hversion, hstepVersion, passed, List.length_append, Nat.add_assoc]
      congr 2
      split_ifs with hid
      · obtain ⟨p', hp'⟩ := Option.isSome_iff_exists.mp (hrecorded.lookup_isSome (.inr hid))
        rw [hp']
        rfl
      · rfl

/-- The revisions of a post followed by its row are the states that it went through. -/
theorem revision_history_complete (hkeys : RevisionsOfPosts s) (operations : List Operation) :
    (∀ before operation after, operations = before ++ operation :: after →
      Recorded (run (Runs.step d projection digest) s before)
        (run (Runs.step d projection digest) s (before ++ [operation]))
        (reported d projection digest (run (Runs.step d projection digest) s before) operation)) ∧
    ∀ postId, s.revisions <+: (run (Runs.step d projection digest) s operations).revisions ∧
      history (run (Runs.step d projection digest) s operations) postId =
        history s postId ++ passed d projection digest s postId operations ∧
      version (run (Runs.step d projection digest) s operations) postId =
        version s postId + (passed d projection digest s postId operations).length := by
  refine ⟨fun before operation after _ ↦ ?_, history_run hkeys operations⟩
  rw [run_concat]
  exact step_recorded d projection digest _ operation

theorem withdrawn_notice_history :
    history (run (Runs.step .sqlite noticeProjection noticeDigest) noticeTables
        [createNotice [.public_], .lifecycle .softDelete 1 1 noticeClock]) 1 =
      history noticeTables 1 ++ passed .sqlite noticeProjection noticeDigest noticeTables 1
        [createNotice [.public_], .lifecycle .softDelete 1 1 noticeClock] ∧
    (passed .sqlite noticeProjection noticeDigest noticeTables 1
        [createNotice [.public_], .lifecycle .softDelete 1 1 noticeClock]).length = 2 := by
  have hkeys : RevisionsOfPosts noticeTables := fun r hr ↦ by cases hr
  exact ⟨((revision_history_complete hkeys _).2 1).2.1, by decide +kernel⟩

end Histories

end Jaunder.Storage.Posts.History
