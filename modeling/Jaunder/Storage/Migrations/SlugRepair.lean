import Jaunder.Storage.Migrations.SlugAllocation
import Jaunder.Storage.Posts.Runs

namespace Jaunder.Storage.Migrations.SlugRepair

open Foundation.Outcome Foundation.UniqueIndex
open Jaunder.Common.Slug Jaunder.Common.SqliteTime Jaunder.Common.Time
open Jaunder.Storage.Migrations.ActivePostSlugUniqueness Jaunder.Storage.Migrations.SlugAllocation
open Jaunder.Storage.Posts.Lifecycle Jaunder.Storage.Posts.Runs Jaunder.Storage.Posts.Tables

section Queue

variable {f : DateFunctions} {s : PostTables} {e e' : Entry}

theorem mem_active : e ∈ active s ↔ s.posts.lookup e.1 = some e.2 ∧ e.2.deletedAt = none := by
  unfold active
  rw [List.mem_filter, decide_eq_true_iff]
  exact and_congr_left' AList.mem_lookup_iff.symm

theorem mem_active_mk {postId : ℤ} {p : Post} (hp : s.posts.lookup postId = some p)
    (hdeleted : p.deletedAt = none) : (⟨postId, p⟩ : Entry) ∈ active s :=
  mem_active.mpr ⟨hp, hdeleted⟩

theorem eq_of_postId (he : e ∈ active s) (he' : e' ∈ active s) (h : e.1 = e'.1) : e = e' := by
  obtain ⟨postId, p⟩ := e
  obtain ⟨postId', p'⟩ := e'
  obtain rfl : postId = postId' := h
  obtain rfl := Option.some.inj ((mem_active.mp he).1.symm.trans (mem_active.mp he').1)
  rfl

/-- An active post of the same user has the slug too, and is newer. -/
def Superseded (s : PostTables) (e : Entry) : Prop :=
  e ∈ active s ∧ ∃ e' ∈ active s, sameSlug e e' = true ∧ newer e' e = true

theorem newer_or_newer (h : e.1 ≠ e'.1) : newer e e' = true ∨ newer e' e = true := by
  unfold newer
  rw [decide_eq_true_iff, decide_eq_true_iff]
  rcases lt_trichotomy (sqliteText e.2.createdAt) (sqliteText e'.2.createdAt) with hlt | heq | hgt
  · exact .inr (.inl hlt)
  · rcases lt_or_gt_of_ne h with hid | hid
    · exact .inr (.inr ⟨heq, hid⟩)
    · exact .inl (.inr ⟨heq.symm, hid⟩)
  · exact .inl (.inl hgt)

theorem newer_irrefl (e : Entry) : newer e e = false := by
  unfold newer
  rw [decide_eq_false_iff_not]
  rintro (hlt | ⟨-, hlt⟩)
  · exact lt_irrefl _ hlt
  · exact lt_irrefl _ hlt

theorem nodup_active (s : PostTables) : ((active s).map Sigma.fst).Nodup :=
  List.Nodup.sublist (List.filter_sublist.map Sigma.fst) s.posts.nodupKeys

theorem one_lt_newestRank : 1 < newestRank s e ↔
    ∃ e' ∈ active s, sameSlug e e' = true ∧ newer e' e = true := by
  unfold newestRank
  rw [Nat.lt_add_left_iff_pos, List.length_pos_iff_exists_mem]
  simp only [List.mem_filter, decide_eq_true_iff]

theorem one_lt_duplicateCount (h : Superseded s e) : 1 < duplicateCount s e := by
  obtain ⟨he, e', he', hsame, hnewer⟩ := h
  have hne : e ≠ e' := by
    rintro rfl
    rw [newer_irrefl] at hnewer
    cases hnewer
  have hself : sameSlug e e = true := by simp [sameSlug]
  have hsub : [e, e'] ⊆ (active s).filter (sameSlug e ·) := by
    intro x hx
    rcases List.mem_pair.mp hx with rfl | rfl
    · exact List.mem_filter.mpr ⟨he, hself⟩
    · exact List.mem_filter.mpr ⟨he', hsame⟩
  exact (List.subperm_of_subset (by simpa using hne) hsub).length_le

theorem mem_repairQueue {q : QueuedRepair} :
    q ∈ repairQueue f s ↔ ∃ e, Superseded s e ∧ queued f e = q := by
  unfold repairQueue
  rw [List.mem_map]
  simp only [List.mem_insertionSort, List.mem_filter, decide_eq_true_iff]
  constructor
  · rintro ⟨e, ⟨he, -, hrank⟩, rfl⟩
    exact ⟨e, ⟨he, one_lt_newestRank.mp hrank⟩, rfl⟩
  · rintro ⟨e, he, rfl⟩
    exact ⟨e, ⟨he.1, one_lt_duplicateCount he, one_lt_newestRank.mpr he.2⟩, rfl⟩

theorem nodup_repairQueue (f : DateFunctions) (s : PostTables) :
    ((repairQueue f s).map QueuedRepair.postId).Nodup := by
  unfold repairQueue
  rw [List.map_map]
  exact (((List.perm_insertionSort _ _).map Sigma.fst).nodup_iff).mpr
    ((nodup_active s).sublist (List.filter_sublist.map Sigma.fst))

theorem length_repairQueue_le (f : DateFunctions) (s : PostTables) :
    (repairQueue f s).length ≤ s.posts.entries.length := by
  unfold repairQueue
  rw [List.length_map, List.length_insertionSort]
  exact (List.length_filter_le _ _).trans (List.length_filter_le _ _)

end Queue

section Repairs

variable {u : Unicode} {f : DateFunctions} {clock : RepairClock} {s : PostTables} {a : Accepted}
  {r : SlugRepair} {out : List Accepted} {repairs : List SlugRepair}

theorem slugRepair_ok (h : slugRepair f clock a = .ok r) : r.postId = a.repair.postId ∧
    r.userId = a.repair.userId ∧ r.oldSlug = a.repair.oldSlug ∧
    a.repair.oldPermalinkDate = some r.oldPermalinkDate ∧ r.newSlug.toList = a.newSlug := by
  obtain ⟨date, hdate, h⟩ := bind_eq_ok.mp h
  obtain ⟨updatedAt, -, h⟩ := bind_eq_ok.mp h
  obtain rfl := pure_eq_ok.mp h
  exact ⟨rfl, rfl, rfl, orError_eq_ok.mp hdate, String.toList_ofList⟩

theorem year_nonneg_of_text {a b : UtcInstant} (h : strftimeText a ≤ sqliteText b)
    (ha : 0 ≤ year a) : 0 ≤ year b := by
  by_contra hneg
  have hlt : sqliteText b < strftimeText a :=
    yearText_append_lt (year_bounds a).2 (by omega) ha _ _
  exact absurd h (not_le_of_gt hlt)

theorem exists_newUpdatedAt (hf : f.Documented) (clock : RepairClock) (old : UtcInstant) :
    ∃ updatedAt, newUpdatedAt f clock old = some updatedAt := by
  unfold newUpdatedAt
  split_ifs with hle
  · exact Option.isSome_iff_exists.mp
      (hf.secondLater_isSome old (year_nonneg_of_text hle clock.era))
  · exact ⟨_, rfl⟩

theorem exists_slugRepair (hf : f.Documented) (h : a.repair.oldPermalinkDate.isSome) :
    ∃ r, slugRepair f clock a = .ok r := by
  obtain ⟨date, hdate⟩ := Option.isSome_iff_exists.mp h
  obtain ⟨updatedAt, hupdated⟩ := exists_newUpdatedAt hf clock a.repair.oldUpdatedAt
  unfold slugRepair
  simp only [hdate, hupdated, orError_some, ok_bind]
  exact ⟨_, rfl⟩

/-- What the table of repairs holds. -/
structure Sound (u : Unicode) (f : DateFunctions) (s : PostTables) (repairs : List SlugRepair) :
    Prop where
  ids : (repairs.map SlugRepair.postId).Nodup
  source : ∀ r ∈ repairs, ∃ e, Superseded s e ∧ r.postId = e.1 ∧ r.userId = e.2.userId ∧
    r.oldSlug = e.2.slug ∧ permalinkDate f e.2 = some r.oldPermalinkDate
  complete : ∀ e, Superseded s e → ∃ r ∈ repairs, r.postId = e.1
  valid : ∀ r ∈ repairs, IsSlug u r.newSlug.toList
  free : ∀ r ∈ repairs, ∀ e ∈ active s, e.2.userId = r.userId → e.2.slug ≠ r.newSlug
  distinct : repairs.Pairwise (fun r r' ↦ r.userId = r'.userId → r.newSlug ≠ r'.newSlug)

/-- What the earlier schema and the writes under it leave in the tables. -/
structure Admitted (u : Unicode) (f : DateFunctions) (s : PostTables) : Prop where
  dateSlug : Unique (dateSlugClash f) (active s)
  slugs : ∀ e ∈ active s, IsSlug u e.2.slug.toList
  authors : ∀ e ∈ active s, e.2.userId ∈ s.users.map Author.userId
  userIds : ∀ e ∈ active s, -2 ^ 63 ≤ e.2.userId ∧ e.2.userId < 2 ^ 63
  posts_fit : s.posts.entries.length < 2 ^ 63
  tags : ∀ e ∈ active s, (e.2.tags.map PostTag.tagSlug).Nodup
  audiences : ∀ e ∈ active s, ∀ row ∈ e.2.audiences, revisionAudienceCheck row = true
  media : ∀ e ∈ active s, e.2.media.Nodup

theorem map_eq_of_forall₂ {γ : Type} {g : SlugRepair → γ} {k : Accepted → γ}
    (h : List.Forall₂ (fun a r ↦ slugRepair f clock a = .ok r) out repairs)
    (hgk : ∀ a r, slugRepair f clock a = .ok r → g r = k a) : repairs.map g = out.map k := by
  induction h with
  | nil => rfl
  | cons hr _ ih => rw [List.map_cons, List.map_cons, ih, hgk _ _ hr]

theorem attempts_bounded (hs : Admitted u f s) (h : Allocates s ['|'] (repairQueue f s) out) :
    ∀ a ∈ out, ∃ k, k < 10 ^ 78 ∧ a.newSlug = candidateSlug a.repair.oldSlug k := by
  have hposts := hs.posts_fit
  have hqueue := length_repairQueue_le f s
  have hactive : (active s).length ≤ s.posts.entries.length := List.length_filter_le _ _
  have hsquare : (1 + 102 * (repairQueue f s).length + 1) ^ 2 ≤ (102 * 2 ^ 63 + 2) ^ 2 :=
    Nat.pow_le_pow_left (by omega) 2
  refine h.attempts (fun q hq ↦ ?_) le_rfl ?_
  · obtain ⟨e, he, rfl⟩ := mem_repairQueue.mp hq
    exact hs.userIds e he.1
  · rw [List.length_singleton]
    omega

theorem sound_of_allocates (hu : u.Documented) (hs : Admitted u f s)
    (h : Allocates s ['|'] (repairQueue f s) out)
    (hmap : out.mapM (slugRepair f clock) = .ok repairs)
    (hrepairs : List.Forall₂ (fun a r ↦ slugRepair f clock a = .ok r) out repairs) :
    Sound u f s repairs := by
  have hids : repairs.map SlugRepair.postId = (repairQueue f s).map QueuedRepair.postId := by
    rw [← h.repairs, List.map_map]
    exact map_eq_of_forall₂ hrepairs (fun a r hr ↦ (slugRepair_ok hr).1)
  have hnames : repairs.map (fun r ↦ (r.userId, r.newSlug.toList)) =
      out.map (fun a ↦ (a.repair.userId, a.newSlug)) :=
    map_eq_of_forall₂ hrepairs (fun a r hr ↦
      Prod.ext (slugRepair_ok hr).2.1 (slugRepair_ok hr).2.2.2.2)
  have hsource : ∀ r ∈ repairs, ∃ a ∈ out, slugRepair f clock a = .ok r ∧
      ∃ e, Superseded s e ∧ queued f e = a.repair := by
    intro r hr
    obtain ⟨a, ha, har⟩ := mapM_eq_ok hmap r hr
    exact ⟨a, ha, har, mem_repairQueue.mp (h.repairs ▸ List.mem_map_of_mem ha)⟩
  refine ⟨?_, fun r hr ↦ ?_, fun e he ↦ ?_, fun r hr ↦ ?_, fun r hr e he huser ↦ ?_, ?_⟩
  · rw [hids]
    exact nodup_repairQueue f s
  · obtain ⟨a, -, har, e, he, hqueued⟩ := hsource r hr
    obtain ⟨hid, huser, hslug, hdate, -⟩ := slugRepair_ok har
    rw [← hqueued] at hid huser hslug hdate
    exact ⟨e, he, hid, huser, hslug, hdate⟩
  · have hmem : e.1 ∈ repairs.map SlugRepair.postId := by
      rw [hids]
      exact List.mem_map_of_mem (mem_repairQueue.mpr ⟨e, he, rfl⟩)
    exact List.mem_map.mp hmem
  · obtain ⟨a, ha, har, e, he, hqueued⟩ := hsource r hr
    obtain ⟨k, hk, hslug⟩ := attempts_bounded hs h a ha
    rw [(slugRepair_ok har).2.2.2.2, hslug, ← hqueued]
    exact isSlug_candidateSlug hu (hs.slugs e he.1) hk
  · obtain ⟨a, ha, har, -⟩ := hsource r hr
    obtain ⟨-, hrepairUser, -, -, hname⟩ := slugRepair_ok har
    intro hslug
    refine (h.free ha).1 e he (huser.trans hrepairUser) ?_
    rw [hslug, hname]
  · have hdistinct : (out.map (fun a ↦ (a.repair.userId, a.newSlug))).Pairwise
        (fun x y : ℤ × List Char ↦ x.1 = y.1 → x.2 ≠ y.2) :=
      List.pairwise_map.mpr (h.distinct (List.suffix_refl _))
    rw [← hnames] at hdistinct
    exact (List.pairwise_map.mp hdistinct).imp
      (fun hne huser hslug ↦ hne huser (congrArg String.toList hslug))

end Repairs

section Tables

variable {u : Unicode} {f : DateFunctions} {s s' : PostTables} {repairs : List SlugRepair}
  {r : SlugRepair} {e : Entry} {postId : ℤ} {p : Post}

theorem lookup_updatePosts (repairs : List SlugRepair) (posts : AList (fun _ : ℤ ↦ Post))
    (postId : ℤ) : (updatePosts repairs posts).lookup postId =
      (posts.lookup postId).map (repairedPost repairs postId) := by
  obtain ⟨entries, hnodup⟩ := posts
  change List.dlookup postId (entries.map _) = (List.dlookup postId entries).map _
  clear hnodup
  induction entries with
  | nil => rfl
  | cons e entries ih =>
    obtain ⟨id, p⟩ := e
    rw [List.map_cons]
    by_cases hid : postId = id
    · subst hid
      rw [List.dlookup_cons_eq, List.dlookup_cons_eq, Option.map_some]
    · rw [List.dlookup_cons_ne _ _ hid, List.dlookup_cons_ne _ _ hid, ih]

theorem Sound.find (h : Sound u f s repairs) (hr : r ∈ repairs) :
    repairs.find? (fun r' ↦ r'.postId = r.postId) = some r :=
  find?_eq_some_of_unique hr (by simp)
    (fun b hb hid ↦ List.inj_on_of_nodup_map h.ids hb hr (of_decide_eq_true hid))

theorem repairedPost_of_mem (h : Sound u f s repairs) (hr : r ∈ repairs) (p : Post) :
    repairedPost repairs r.postId p =
      { p with slug := r.newSlug, updatedAt := r.newUpdatedAt } := by
  unfold repairedPost
  rw [h.find hr]

/-- Every other post stays as it is. -/
theorem repairedPost_of_kept (h : Sound u f s repairs) (hp : s.posts.lookup postId = some p)
    (hkept : ¬Superseded s ⟨postId, p⟩) : repairedPost repairs postId p = p := by
  unfold repairedPost
  have hnone : repairs.find? (fun r ↦ r.postId = postId) = none := by
    rw [List.find?_eq_none]
    intro r hr hid
    obtain ⟨e, he, hpost, -⟩ := h.source r hr
    obtain ⟨id, old⟩ := e
    obtain rfl : id = postId := hpost.symm.trans (of_decide_eq_true hid)
    obtain rfl := Option.some.inj (hp.symm.trans (mem_active.mp he.1).1)
    exact hkept he
  rw [hnone]

/-- A post that the migration leaves behind: as it was, or with the slug of its repair. -/
theorem repairedPost_cases (h : Sound u f s repairs) (hp : s.posts.lookup postId = some p) :
    ¬Superseded s ⟨postId, p⟩ ∧ repairedPost repairs postId p = p ∨
      Superseded s ⟨postId, p⟩ ∧ ∃ r ∈ repairs, r.postId = postId ∧ r.userId = p.userId ∧
        r.oldSlug = p.slug ∧ permalinkDate f p = some r.oldPermalinkDate ∧
        repairedPost repairs postId p =
          { p with slug := r.newSlug, updatedAt := r.newUpdatedAt } := by
  by_cases hsuperseded : Superseded s ⟨postId, p⟩
  · obtain ⟨r, hr, hid⟩ := h.complete _ hsuperseded
    obtain ⟨e, he, hpost, huser, hslug, hdate⟩ := h.source r hr
    obtain rfl : e = ⟨postId, p⟩ :=
      eq_of_postId he.1 hsuperseded.1 (hpost.symm.trans hid)
    refine .inr ⟨hsuperseded, r, hr, hid, huser, hslug, hdate, ?_⟩
    have hpost := repairedPost_of_mem h hr p
    rwa [show r.postId = postId from hid] at hpost
  · exact .inl ⟨hsuperseded, repairedPost_of_kept h hp hsuperseded⟩

/-- Nothing of an active post changes but its slug and its modification time. -/
theorem repairedPost_fields (repairs : List SlugRepair) (postId : ℤ) (p : Post) :
    ∃ slug updatedAt, repairedPost repairs postId p = { p with slug, updatedAt } := by
  unfold repairedPost
  split
  · exact ⟨p.slug, p.updatedAt, rfl⟩
  · exact ⟨_, _, rfl⟩

/-- The new index can be created. -/
theorem slugsDistinct_of_repairs (h : Sound u f s repairs)
    (hposts : s'.posts = updatePosts repairs s.posts) : SlugsDistinct s' := by
  intro postId postId' p p' hp hp' hdeleted hdeleted' huser hslug
  rw [hposts, lookup_updatePosts, Option.map_eq_some_iff] at hp hp'
  obtain ⟨old, hold, rfl⟩ := hp
  obtain ⟨old', hold', rfl⟩ := hp'
  rcases repairedPost_cases h hold with ⟨hkept, hpost⟩ | ⟨-, r, hr, hid, hrepairUser, -, -, hpost⟩ <;>
    rcases repairedPost_cases h hold' with
      ⟨hkept', hpost'⟩ | ⟨-, r', hr', hid', hrepairUser', -, -, hpost'⟩ <;>
    rw [hpost, hpost'] at huser hslug <;> rw [hpost] at hdeleted <;> rw [hpost'] at hdeleted'
  · by_contra hne
    have hactive := mem_active_mk hold hdeleted
    have hactive' := mem_active_mk hold' hdeleted'
    rcases @newer_or_newer ⟨postId, old⟩ ⟨postId', old'⟩ hne with hnewer | hnewer
    · exact hkept' ⟨hactive', _, hactive, by simp [sameSlug, huser, hslug], hnewer⟩
    · exact hkept ⟨hactive, _, hactive', by simp [sameSlug, huser, hslug], hnewer⟩
  · exact absurd hslug (h.free r' hr' _ (mem_active_mk hold hdeleted)
      (huser.trans hrepairUser'.symm))
  · exact absurd hslug.symm (h.free r hr _ (mem_active_mk hold' hdeleted')
      (huser.symm.trans hrepairUser.symm))
  · by_contra hne
    have hrepairs : r ≠ r' := by
      rintro rfl
      exact hne (hid.symm.trans hid')
    have hsymm : Std.Symm (fun r r' : SlugRepair ↦ r.userId = r'.userId → r.newSlug ≠ r'.newSlug) :=
      ⟨fun a b hab hba hslug ↦ hab hba.symm hslug.symm⟩
    exact h.distinct.forall hr hr' hrepairs
      (hrepairUser.trans (huser.trans hrepairUser'.symm)) hslug

theorem eq_of_dateSlug {e' : Entry} (hs : Admitted u f s) (he : e ∈ active s) (he' : e' ∈ active s)
    (huser : e.2.userId = e'.2.userId) (hslug : e.2.slug = e'.2.slug) {date : ℤ}
    (hdate : permalinkDate f e.2 = some date) (hdate' : permalinkDate f e'.2 = some date) :
    e = e' := by
  by_contra hne
  have hsymm : Std.Symm (fun a b ↦ dateSlugClash f a b = false) := by
    refine ⟨fun a b hab ↦ ?_⟩
    rw [dateSlugClash, decide_eq_false_iff_not] at hab ⊢
    rintro ⟨h₁, h₂, h₃, h₄⟩
    exact hab ⟨h₁.symm, h₂.symm, by rwa [← h₄], h₄.symm⟩
  have hfree := List.Pairwise.forall hs.dateSlug he he' hne
  rw [dateSlugClash, decide_eq_false_iff_not] at hfree
  exact hfree ⟨huser, hslug, by rw [hdate]; rfl, hdate.trans hdate'.symm⟩

/-- The alias rows can be created. -/
theorem unique_aliases (hs : Admitted u f s) (h : Sound u f s repairs) :
    Unique aliasClash (repairs.map SlugRepair.permalinkAlias) := by
  unfold Foundation.UniqueIndex.Unique
  rw [List.pairwise_map]
  refine (List.pairwise_map.mp h.ids).imp_of_mem (fun {a b} ha hb hne ↦ ?_)
  obtain ⟨e, he, hid, huser, hslug, hdate⟩ := h.source a ha
  obtain ⟨e', he', hid', huser', hslug', hdate'⟩ := h.source b hb
  rw [aliasClash, decide_eq_false_iff_not]
  rintro ⟨hsameUser, hsameDate, hsameSlug⟩
  change a.userId = b.userId at hsameUser
  change a.oldPermalinkDate = b.oldPermalinkDate at hsameDate
  change a.oldSlug = b.oldSlug at hsameSlug
  rw [← hsameDate] at hdate'
  have heq := eq_of_dateSlug hs he.1 he'.1 (by rw [← huser, ← huser', hsameUser])
    (by rw [← hslug, ← hslug', hsameSlug]) hdate hdate'
  exact hne (by rw [hid, hid', heq])

theorem captureRevisions_ok (h : ∀ r ∈ repairs, ∃ p, s.posts.lookup r.postId = some p ∧
    (p.tags.map PostTag.tagSlug).Nodup ∧ (∀ row ∈ p.audiences, revisionAudienceCheck row = true) ∧
    p.audiences.Nodup ∧ p.media.Nodup) :
    ∃ s', captureRevisions s repairs = .ok s' ∧ SameContent s s' := by
  induction repairs generalizing s with
  | nil => exact ⟨s, rfl, .refl s⟩
  | cons r repairs ih =>
    obtain ⟨p, hp, htags, hcheck, hrows, hmedia⟩ := h r List.mem_cons_self
    obtain ⟨s₁, hs₁⟩ := @capture_of_children s _ p r.newUpdatedAt hp htags hcheck hrows hmedia
    have hsame := capture_ok hs₁
    obtain ⟨s₂, hs₂, hsame'⟩ := @ih s₁ (fun r' hr' ↦ by
      rw [hsame.posts]
      exact h r' (List.mem_cons_of_mem _ hr'))
    refine ⟨s₂, ?_, hsame.trans hsame'⟩
    unfold captureRevisions at hs₂ ⊢
    rw [List.foldlM_cons, hs₁, ok_bind]
    exact hs₂

theorem activeSlugsDistinct_of (h : SlugsDistinct s) : activeSlugsDistinct s = true := by
  unfold activeSlugsDistinct
  rw [List.all_eq_true]
  intro e he
  obtain ⟨hp, hdeleted⟩ := mem_active.mp he
  rw [h.free hp hdeleted]
  rfl

/-- What the amended claim asks of a post that the migration renames: SQLite knows its date, and its
audience rows do not repeat. -/
structure Movable (p : Post) : Prop where
  dated : 0 ≤ year (p.publishedAt.getD p.createdAt)
  audiences : p.audiences.Nodup

theorem applyRepairs_ok {clock : RepairClock} {store : Store} {out : List Accepted}
    (hs : Admitted u f store.tables) (h : Sound u f store.tables repairs)
    (hmovable : ∀ e, Superseded store.tables e → Movable e.2)
    (hmap : out.mapM (slugRepair f clock) = .ok repairs) :
    ∃ m, applyRepairs f clock store out = .ok m ∧
      m.tables.posts = updatePosts repairs store.tables.posts ∧
      m.tables.users = store.tables.users ∧
      m.aliases = repairs.map SlugRepair.permalinkAlias := by
  have hrepairs : insertRows repairClash [] repairs = some repairs :=
    insertRows_nil (unique_of_nodup h.ids (fun a b hab ↦ decide_eq_false hab))
  have haliases := insertRows_nil (unique_aliases hs h)
  have hkeys : ∀ a ∈ repairs.map SlugRepair.permalinkAlias, a.postId ∈ store.tables.posts.keys ∧
      a.userId ∈ store.tables.users.map Author.userId := by
    intro a ha
    obtain ⟨r, hr, rfl⟩ := List.mem_map.mp ha
    obtain ⟨e, he, hid, huser, -⟩ := h.source r hr
    change r.postId ∈ _ ∧ r.userId ∈ _
    rw [hid, huser]
    refine ⟨?_, hs.authors e he.1⟩
    rw [← AList.mem_keys, ← AList.lookup_isSome, (mem_active.mp he.1).1]
    rfl
  obtain ⟨captured, hcaptured, hsame⟩ := captureRevisions_ok (fun r hr ↦ by
    obtain ⟨e, he, hid, -⟩ := h.source r hr
    exact ⟨e.2, hid ▸ (mem_active.mp he.1).1, hs.tags e he.1, hs.audiences e he.1,
      (hmovable e he).audiences, hs.media e he.1⟩)
  have hindex : activeSlugsDistinct
      { captured with posts := updatePosts repairs captured.posts } = true :=
    activeSlugsDistinct_of (slugsDistinct_of_repairs h (by rw [hsame.posts]))
  have hcaptured' : (captureRevisions store.tables repairs).mapError MigrationError.revision =
      .ok captured := mapError_eq_ok.mpr hcaptured
  unfold applyRepairs
  simp only [hmap, ok_bind, hrepairs, orError_some, haliases, require_pos hkeys, hcaptured',
    require_pos hindex]
  refine ⟨_, rfl, ?_, hsame.users, rfl⟩
  rw [hsame.posts]

end Tables

end Jaunder.Storage.Migrations.SlugRepair
