import Jaunder.Foundation.Rows
import Jaunder.Storage.Posts.Lifecycle
import Mathlib.Data.String.Basic

namespace Jaunder.Storage.Posts.TagReconciliation

open Foundation.Rows List
open Jaunder.Common.Feed Jaunder.Common.Tag

/-- A row of `post_tags` of one post. -/
structure PostTagRow where
  tagId : ℕ
  tagDisplay : TagLabel
deriving DecidableEq

/-- The table `tags`, and the rows of `post_tags` of one post. -/
structure TagTables where
  tags : IdTable Tag
  postTags : List PostTagRow

/-- A row of `SELECT_POST_TAGS`. -/
structure PostTag where
  tagId : ℕ
  tagSlug : Tag
  tagDisplay : TagLabel
deriving DecidableEq

/-- The unique constraints of the two tables and the reference between them. -/
structure Valid (s : TagTables) : Prop where
  distinct : ∀ {id id' slug}, s.tags.get? id = some slug → s.tags.get? id' = some slug → id = id'
  key : (s.postTags.map PostTagRow.tagId).Nodup
  referenced : ∀ r ∈ s.postTags, ∃ slug, s.tags.get? r.tagId = some slug

def joinTag (tags : IdTable Tag) (r : PostTagRow) : Option PostTag :=
  (tags.get? r.tagId).map (fun slug ↦ ⟨r.tagId, slug, r.tagDisplay⟩)

def joined (s : TagTables) : List PostTag := s.postTags.filterMap (joinTag s.tags)

def selectPostTags (s : TagTables) : List PostTag :=
  (joined s).insertionSort (fun t t' ↦ t.tagSlug ≤ t'.tagSlug)

/-- `SELECT tag_id FROM tags WHERE tag_slug = slug` -/
def tagIdOf (tags : IdTable Tag) (slug : Tag) : Option ℕ :=
  (tags.rows.find? (fun r ↦ r.2 = slug)).map Prod.fst

/-- `UPSERT_TAG_RETURNING_ID` -/
def upsertTag (tags : IdTable Tag) (slug : Tag) : ℕ × IdTable Tag :=
  match tagIdOf tags slug with
  | some id => (id, tags)
  | none => (tags.next, tags.insert slug)

/-- `INSERT_POST_TAG` -/
def insertPostTag (rows : List PostTagRow) (tagId : ℕ) (label : TagLabel) : List PostTagRow :=
  if tagId ∈ rows.map PostTagRow.tagId then rows else rows ++ [⟨tagId, label⟩]

/-- `DELETE_POST_TAG_BY_SLUG` -/
def deletePostTagBySlug (s : TagTables) (slug : Tag) : TagTables :=
  { s with postTags := s.postTags.filter (fun r ↦ tagIdOf s.tags slug ≠ some r.tagId) }

structure PostTagDiff where
  toAdd : List TagLabel
  toRemove : List Tag

def labelsBySlug (labels : List TagLabel) : List TagLabel :=
  labels.insertionSort (fun a b ↦ a.slug ≤ b.slug)

def postTagDiff (existing : List PostTag) (desired : List TagLabel) : PostTagDiff where
  toAdd := labelsBySlug
    (desired.filter (fun label ↦ label.slug ∉ existing.map PostTag.tagSlug))
  toRemove :=
    (existing.filter (fun tag ↦ tag.tagSlug ∉ desired.map TagLabel.slug)).map PostTag.tagSlug

/-- The two statements that attach one label. -/
def attach (s : TagTables) (label : TagLabel) : TagTables :=
  ⟨(upsertTag s.tags label.slug).2,
    insertPostTag s.postTags (upsertTag s.tags label.slug).1 label⟩

def attachAll (s : TagTables) (labels : List TagLabel) : TagTables := labels.foldl attach s

def applyDiff (s : TagTables) (diff : PostTagDiff) : TagTables :=
  diff.toRemove.foldl deletePostTagBySlug (attachAll s diff.toAdd)

/-- The tag writes of `set_post_tags`. -/
def setPostTags (s : TagTables) (desired : List TagLabel) : TagTables :=
  applyDiff s (postTagDiff (selectPostTags s) desired)

/-- `insert_post_tags`, for a post that was just created. -/
def insertPostTags (s : TagTables) (desired : List TagLabel) : TagTables :=
  attachAll s (labelsBySlug desired)

section Catalog

variable {tags : IdTable Tag} {slug : Tag} {id : ℕ}

theorem get?_of_tagIdOf (h : tagIdOf tags slug = some id) : tags.get? id = some slug := by
  obtain ⟨r, hr, rfl⟩ := Option.map_eq_some_iff.mp h
  have hslug : r.2 = slug := by simpa using List.find?_some hr
  exact IdTable.get?_eq_some.mpr (hslug ▸ List.mem_of_find?_eq_some hr)

theorem get?_ne_of_tagIdOf (h : tagIdOf tags slug = none) (id : ℕ) : tags.get? id ≠ some slug := by
  intro hget
  have hall := List.find?_eq_none.mp (Option.map_eq_none_iff.mp h) _ (IdTable.get?_eq_some.mp hget)
  exact hall (decide_eq_true rfl)

theorem upsertTag_spec (tags : IdTable Tag) (slug : Tag) :
    (upsertTag tags slug).2.get? (upsertTag tags slug).1 = some slug ∧
      (∀ id found, tags.get? id = some found → (upsertTag tags slug).2.get? id = some found) ∧
      ∀ id found, (upsertTag tags slug).2.get? id = some found →
        tags.get? id = some found ∨
          (id = (upsertTag tags slug).1 ∧ found = slug ∧ ∀ id, tags.get? id ≠ some slug) := by
  rw [upsertTag]
  cases h : tagIdOf tags slug with
  | some id => exact ⟨get?_of_tagIdOf h, fun _ _ ↦ fun h ↦ h, fun _ _ ↦ .inl⟩
  | none =>
    refine ⟨?_, fun id found hget ↦ ?_, fun id found hget ↦ ?_⟩
    · rw [IdTable.get?_insert, if_pos rfl]
    · rw [IdTable.get?_insert, if_neg (IdTable.lt_next hget).ne, hget]
    · rw [IdTable.get?_insert] at hget
      by_cases hid : id = tags.next
      · rw [if_pos hid] at hget
        exact .inr ⟨hid, (Option.some.inj hget).symm, get?_ne_of_tagIdOf h⟩
      · rw [if_neg hid] at hget
        exact .inl hget

end Catalog

section Rows

variable {s : TagTables} {label : TagLabel} {t : PostTag}

theorem mem_joined : t ∈ joined s ↔
    s.tags.get? t.tagId = some t.tagSlug ∧ ⟨t.tagId, t.tagDisplay⟩ ∈ s.postTags := by
  rw [joined, List.mem_filterMap]
  constructor
  · rintro ⟨r, hr, hjoin⟩
    obtain ⟨slug, hslug, rfl⟩ := Option.map_eq_some_iff.mp hjoin
    exact ⟨hslug, hr⟩
  · rintro ⟨hslug, hr⟩
    exact ⟨_, hr, by rw [joinTag, hslug]; rfl⟩

theorem mem_selectPostTags : t ∈ selectPostTags s ↔ t ∈ joined s := List.mem_insertionSort _

/-- A slug names one row at most. -/
theorem Valid.unique (hs : Valid s) {t' : PostTag} (h : t ∈ joined s) (h' : t' ∈ joined s)
    (hslug : t.tagSlug = t'.tagSlug) : t = t' := by
  obtain ⟨hget, hrow⟩ := mem_joined.mp h
  obtain ⟨hget', hrow'⟩ := mem_joined.mp h'
  have hid : t.tagId = t'.tagId := hs.distinct hget (hslug ▸ hget')
  have hrows := List.inj_on_of_nodup_map hs.key hrow hrow' hid
  have hdisplay : t.tagDisplay = t'.tagDisplay := congrArg PostTagRow.tagDisplay hrows
  cases t
  cases t'
  exact PostTag.mk.injEq .. ▸ ⟨hid, hslug, hdisplay⟩

theorem attach_valid (hs : Valid s) (label : TagLabel) : Valid (attach s label) := by
  obtain ⟨hfound, hkept, hold⟩ := upsertTag_spec s.tags label.slug
  rw [attach]
  refine ⟨fun {id id' slug} h h' ↦ ?_, ?_, fun r hr ↦ ?_⟩
  · rcases hold id slug h with hget | ⟨rfl, rfl, hnew⟩
    · rcases hold id' slug h' with hget' | ⟨rfl, rfl, hnew⟩
      · exact hs.distinct hget hget'
      · exact absurd hget (hnew id)
    · rcases hold id' _ h' with hget' | ⟨rfl, -, -⟩
      · exact absurd hget' (hnew id')
      · rfl
  · rw [insertPostTag]
    split_ifs with hmem
    · exact hs.key
    · rw [List.map_append, List.nodup_append]
      refine ⟨hs.key, by simp, fun id hid id' hid' ↦ ?_⟩
      rintro rfl
      obtain rfl : id = (upsertTag s.tags label.slug).1 := List.mem_singleton.mp hid'
      exact hmem hid
  · rw [insertPostTag] at hr
    split_ifs at hr with hmem
    · exact (hs.referenced r hr).imp (fun slug ↦ hkept r.tagId slug)
    · rcases List.mem_append.mp hr with hr | hr
      · exact (hs.referenced r hr).imp (fun slug ↦ hkept r.tagId slug)
      · rw [List.mem_singleton.mp hr]
        exact ⟨label.slug, hfound⟩

theorem mem_joined_of_row (hs : Valid s) {tags : IdTable Tag}
    (hkept : ∀ id found, s.tags.get? id = some found → tags.get? id = some found)
    (hget : tags.get? t.tagId = some t.tagSlug) (hrow : ⟨t.tagId, t.tagDisplay⟩ ∈ s.postTags) :
    t ∈ joined s := by
  obtain ⟨slug, hslug⟩ := hs.referenced _ hrow
  obtain rfl : slug = t.tagSlug := Option.some.inj ((hkept _ _ hslug).symm.trans hget)
  exact mem_joined.mpr ⟨hslug, hrow⟩

theorem mem_slugs_iff (hs : Valid s) (label : TagLabel) :
    label.slug ∈ (joined s).map PostTag.tagSlug ↔
      (upsertTag s.tags label.slug).1 ∈ s.postTags.map PostTagRow.tagId := by
  obtain ⟨hfound, hkept, hold⟩ := upsertTag_spec s.tags label.slug
  rw [List.mem_map, List.mem_map]
  constructor
  · rintro ⟨t, ht, hslug⟩
    obtain ⟨hget, hrow⟩ := mem_joined.mp ht
    rw [hslug] at hget
    rcases hold _ _ hfound with hget' | ⟨-, -, hnew⟩
    · exact ⟨_, hrow, hs.distinct hget hget'⟩
    · exact absurd hget (hnew _)
  · rintro ⟨r, hr, hid⟩
    refine ⟨⟨r.tagId, label.slug, r.tagDisplay⟩, ?_, rfl⟩
    exact mem_joined_of_row hs hkept (by rw [hid, hfound]) hr

theorem joinTag_kept (hs : Valid s) {tags : IdTable Tag}
    (hkept : ∀ id found, s.tags.get? id = some found → tags.get? id = some found) :
    s.postTags.filterMap (joinTag tags) = joined s := by
  refine List.filterMap_congr (fun r hr ↦ ?_)
  obtain ⟨slug, hslug⟩ := hs.referenced r hr
  rw [joinTag, joinTag, hslug, hkept _ _ hslug]

/-- Attaching a label keeps the rows, and adds one where its slug has none. -/
theorem joined_attach (hs : Valid s) (label : TagLabel) :
    joined (attach s label) =
      if label.slug ∈ (joined s).map PostTag.tagSlug then joined s
      else joined s ++ [⟨(upsertTag s.tags label.slug).1, label.slug, label⟩] := by
  obtain ⟨hfound, hkept, -⟩ := upsertTag_spec s.tags label.slug
  rw [joined, attach, insertPostTag]
  by_cases hmem : (upsertTag s.tags label.slug).1 ∈ s.postTags.map PostTagRow.tagId
  · rw [if_pos hmem, if_pos ((mem_slugs_iff hs label).mpr hmem)]
    exact joinTag_kept hs hkept
  · rw [if_neg hmem, if_neg (fun h ↦ hmem ((mem_slugs_iff hs label).mp h))]
    simp only [List.filterMap_append, joinTag_kept hs hkept, List.filterMap_cons, joinTag, hfound,
      Option.map_some, List.filterMap_nil]

theorem mem_joined_attach (hs : Valid s) : t ∈ joined (attach s label) ↔
    t ∈ joined s ∨ (label.slug ∉ (joined s).map PostTag.tagSlug ∧
      t = ⟨(upsertTag s.tags label.slug).1, label.slug, label⟩) := by
  rw [joined_attach hs]
  by_cases hmem : label.slug ∈ (joined s).map PostTag.tagSlug
  · rw [if_pos hmem, or_iff_left (fun h ↦ h.1 hmem)]
  · rw [if_neg hmem, List.mem_append, List.mem_singleton, and_iff_right hmem]

/-- What attaching labels one after another comes to. -/
structure Attached (s : TagTables) (labels : List TagLabel) (s' : TagTables) : Prop where
  valid : Valid s'
  kept : ∀ t ∈ joined s, t ∈ joined s'
  present : ∀ label ∈ labels, label.slug ∈ (joined s').map PostTag.tagSlug
  added : ∀ t ∈ joined s', t ∈ joined s ∨ (t.tagSlug ∉ (joined s).map PostTag.tagSlug ∧
    t.tagDisplay.slug = t.tagSlug ∧ labels.find? (fun l ↦ l.slug = t.tagSlug) = some t.tagDisplay)

theorem attached_attachAll (labels : List TagLabel) : ∀ {s : TagTables}, Valid s →
    Attached s labels (attachAll s labels) := by
  induction labels with
  | nil => exact fun hs ↦ ⟨hs, fun _ ↦ fun h ↦ h, fun _ h ↦ absurd h List.not_mem_nil,
      fun _ ↦ .inl⟩
  | cons label labels ih =>
    intro s hs
    have hrest := ih (attach_valid hs label)
    have hkept (t : PostTag) (ht : t ∈ joined s) : t ∈ joined (attach s label) :=
      (mem_joined_attach hs).mpr (.inl ht)
    have hlabel : label.slug ∈ (joined (attach s label)).map PostTag.tagSlug := by
      by_cases hmem : label.slug ∈ (joined s).map PostTag.tagSlug
      · obtain ⟨t, ht, hslug⟩ := List.mem_map.mp hmem
        exact List.mem_map.mpr ⟨t, hkept t ht, hslug⟩
      · exact List.mem_map.mpr ⟨_, (mem_joined_attach hs).mpr (.inr ⟨hmem, rfl⟩), rfl⟩
    have hslugs {slug : Tag} (h : slug ∈ (joined s).map PostTag.tagSlug) :
        slug ∈ (joined (attach s label)).map PostTag.tagSlug := by
      obtain ⟨t, ht, hslug⟩ := List.mem_map.mp h
      exact List.mem_map.mpr ⟨t, hkept t ht, hslug⟩
    refine ⟨hrest.valid, fun t ht ↦ hrest.kept t (hkept t ht), fun l hl ↦ ?_, fun t ht ↦ ?_⟩
    · rcases List.mem_cons.mp hl with rfl | hl
      · obtain ⟨t, ht, hslug⟩ := List.mem_map.mp hlabel
        exact List.mem_map.mpr ⟨t, hrest.kept t ht, hslug⟩
      · exact hrest.present l hl
    · rcases hrest.added t ht with hold | ⟨hnew, hdisplay, hfind⟩
      · rcases (mem_joined_attach hs).mp hold with hold | ⟨hmem, rfl⟩
        · exact .inl hold
        · exact .inr ⟨hmem, rfl, List.find?_cons_of_pos (decide_eq_true rfl)⟩
      · have hne : ¬ label.slug = t.tagSlug := fun h ↦ hnew (h ▸ hlabel)
        refine .inr ⟨fun h ↦ hnew (hslugs h), hdisplay, ?_⟩
        rwa [List.find?_cons_of_neg (by simpa using hne)]

theorem delete_valid (hs : Valid s) (slug : Tag) : Valid (deletePostTagBySlug s slug) :=
  ⟨hs.distinct, hs.key.sublist (List.filter_sublist.map _),
    fun r hr ↦ hs.referenced r (List.mem_filter.mp hr).1⟩

theorem joined_delete (hs : Valid s) (slug : Tag) :
    joined (deletePostTagBySlug s slug) = (joined s).filter (fun t ↦ t.tagSlug ≠ slug) := by
  rw [joined, joined, deletePostTagBySlug, List.filter_filterMap, List.filterMap_filter]
  refine List.filterMap_congr (fun r hr ↦ ?_)
  obtain ⟨found, hfound⟩ := hs.referenced r hr
  have hiff : tagIdOf s.tags slug = some r.tagId ↔ found = slug := by
    constructor
    · exact fun h ↦ Option.some.inj (hfound.symm.trans (get?_of_tagIdOf h))
    · rintro rfl
      cases h : tagIdOf s.tags found with
      | none => exact absurd hfound (get?_ne_of_tagIdOf h _)
      | some id => rw [hs.distinct (get?_of_tagIdOf h) hfound]
  simp only [joinTag, hfound, Option.map_some, ne_eq, hiff, Option.filter_some]

theorem deleteAll_spec (slugs : List Tag) : ∀ {s : TagTables}, Valid s →
    Valid (slugs.foldl deletePostTagBySlug s) ∧
      joined (slugs.foldl deletePostTagBySlug s) =
        (joined s).filter (fun t ↦ t.tagSlug ∉ slugs) := by
  induction slugs with
  | nil =>
    exact fun hs ↦ ⟨hs, (List.filter_eq_self.mpr
      (fun _ _ ↦ decide_eq_true List.not_mem_nil)).symm⟩
  | cons slug slugs ih =>
    intro s hs
    obtain ⟨hvalid, hjoined⟩ := ih (delete_valid hs slug)
    refine ⟨hvalid, hjoined.trans ?_⟩
    rw [joined_delete hs, List.filter_filter]
    refine List.filter_congr (fun t _ ↦ ?_)
    simp only [List.mem_cons, not_or, ← Bool.decide_and, and_comm]

theorem mem_deleteAll (hs : Valid s) (slugs : List Tag) :
    t ∈ joined (slugs.foldl deletePostTagBySlug s) ↔ t ∈ joined s ∧ t.tagSlug ∉ slugs := by
  rw [(deleteAll_spec slugs hs).2, List.mem_filter, decide_eq_true_eq]

end Rows

section Order

/-- The stable sort keeps the first label of a slug. -/
theorem find?_labelsBySlug (labels : List TagLabel) (slug : Tag) :
    (labelsBySlug labels).find? (fun l ↦ l.slug = slug) =
      labels.find? (fun l ↦ l.slug = slug) := by
  have hsub : labels.filter (fun l ↦ l.slug = slug) <+ labelsBySlug labels := by
    refine List.sublist_insertionSort ?_ List.filter_sublist
    refine List.pairwise_of_forall_mem_list (fun a ha b hb ↦ ?_)
    have haslug : a.slug = slug := of_decide_eq_true (List.mem_filter.mp ha).2
    have hbslug : b.slug = slug := of_decide_eq_true (List.mem_filter.mp hb).2
    rw [haslug, hbslug]
  have hfilter : (labelsBySlug labels).filter (fun l ↦ l.slug = slug) =
      labels.filter (fun l ↦ l.slug = slug) := by
    have hsub' := hsub.filter (fun l ↦ l.slug = slug)
    rw [List.filter_filter] at hsub'
    simp only [Bool.and_self] at hsub'
    exact (hsub'.eq_of_length ((List.perm_insertionSort _ labels).filter _).length_eq.symm).symm
  rw [← List.head?_filter, ← List.head?_filter, hfilter]

theorem mem_labelsBySlug {labels : List TagLabel} {label : TagLabel} :
    label ∈ labelsBySlug labels ↔ label ∈ labels := List.mem_insertionSort _

theorem find?_filter_slug (labels : List TagLabel) (p : Tag → Bool) {slug : Tag}
    (hp : p slug = true) :
    (labels.filter (fun l ↦ p l.slug)).find? (fun l ↦ l.slug = slug) =
      labels.find? (fun l ↦ l.slug = slug) := by
  rw [List.find?_filter]
  refine congrArg (fun f ↦ List.find? f labels) (funext fun l ↦ ?_)
  by_cases hl : l.slug = slug
  · simp [hl, hp]
  · simp [hl]

theorem map_selectPostTags_pairwise (s : TagTables) :
    ((selectPostTags s).map PostTag.tagSlug).Pairwise (· ≤ ·) :=
  List.pairwise_map.mpr (List.pairwise_insertionSort _ (joined s))

theorem mem_map_selectPostTags {s : TagTables} {slug : Tag} :
    slug ∈ (selectPostTags s).map PostTag.tagSlug ↔ slug ∈ (joined s).map PostTag.tagSlug :=
  ((List.perm_insertionSort _ (joined s)).map PostTag.tagSlug).mem_iff

end Order

/-- The tables as every write leaves them. -/
structure StoredTags extends TagTables where
  valid : Valid toTagTables

section Reconciliation

variable {s : TagTables} {desired : List TagLabel}

theorem mem_toAdd {existing : List PostTag} {label : TagLabel} :
    label ∈ (postTagDiff existing desired).toAdd ↔
      label ∈ desired ∧ label.slug ∉ existing.map PostTag.tagSlug := by
  rw [postTagDiff, mem_labelsBySlug, List.mem_filter, decide_eq_true_eq]

theorem mem_toRemove {existing : List PostTag} {slug : Tag} :
    slug ∈ (postTagDiff existing desired).toRemove ↔
      slug ∈ existing.map PostTag.tagSlug ∧ slug ∉ desired.map TagLabel.slug := by
  rw [postTagDiff, List.mem_map]
  constructor
  · rintro ⟨t, ht, rfl⟩
    obtain ⟨hmem, hnot⟩ := List.mem_filter.mp ht
    exact ⟨List.mem_map_of_mem hmem, of_decide_eq_true hnot⟩
  · rintro ⟨hmem, hnot⟩
    obtain ⟨t, ht, rfl⟩ := List.mem_map.mp hmem
    exact ⟨t, List.mem_filter.mpr ⟨ht, decide_eq_true hnot⟩, rfl⟩

theorem find?_toAdd {existing : List PostTag} {slug : Tag}
    (h : slug ∉ existing.map PostTag.tagSlug) :
    (postTagDiff existing desired).toAdd.find? (fun l ↦ l.slug = slug) =
      desired.find? (fun l ↦ l.slug = slug) := by
  rw [postTagDiff, find?_labelsBySlug]
  exact find?_filter_slug desired (fun slug ↦ slug ∉ existing.map PostTag.tagSlug)
    (decide_eq_true h)

theorem setPostTags_valid (hs : Valid s) (desired : List TagLabel) :
    Valid (setPostTags s desired) :=
  (deleteAll_spec _ (attached_attachAll _ hs).valid).1

/-- The rows that stay are those of a desired slug, and the rows that are new carry the first
spelling of theirs. -/
theorem mem_setPostTags (hs : Valid s) {t : PostTag} :
    (t ∈ joined (setPostTags s desired) → t.tagSlug ∈ desired.map TagLabel.slug ∧
      (t ∈ joined s ∨ (t.tagSlug ∉ (joined s).map PostTag.tagSlug ∧
        desired.find? (fun l ↦ l.slug = t.tagSlug) = some t.tagDisplay))) ∧
      (t ∈ joined s → t.tagSlug ∈ desired.map TagLabel.slug →
        t ∈ joined (setPostTags s desired)) := by
  have hattached := attached_attachAll (postTagDiff (selectPostTags s) desired).toAdd hs
  have hmem := mem_deleteAll (t := t) hattached.valid
    (postTagDiff (selectPostTags s) desired).toRemove
  constructor
  · intro ht
    obtain ⟨hjoined, hkept⟩ := hmem.mp ht
    rcases hattached.added t hjoined with hold | ⟨hnew, hdisplay, hfind⟩
    · refine ⟨?_, .inl hold⟩
      by_contra hnot
      exact hkept (mem_toRemove.mpr
        ⟨mem_map_selectPostTags.mpr (List.mem_map_of_mem hold), hnot⟩)
    · rw [find?_toAdd (fun h ↦ hnew (mem_map_selectPostTags.mp h))] at hfind
      refine ⟨?_, .inr ⟨hnew, hfind⟩⟩
      rw [← hdisplay]
      exact List.mem_map_of_mem (List.mem_of_find?_eq_some hfind)
  · intro hold hslug
    exact hmem.mpr ⟨hattached.kept t hold, fun h ↦ (mem_toRemove.mp h).2 hslug⟩

theorem mem_slugs_setPostTags (hs : Valid s) {slug : Tag} :
    slug ∈ (joined (setPostTags s desired)).map PostTag.tagSlug ↔
      slug ∈ desired.map TagLabel.slug := by
  constructor
  · intro h
    obtain ⟨t, ht, rfl⟩ := List.mem_map.mp h
    exact ((mem_setPostTags hs).1 ht).1
  · intro h
    by_cases hold : slug ∈ (joined s).map PostTag.tagSlug
    · obtain ⟨t, ht, rfl⟩ := List.mem_map.mp hold
      exact List.mem_map_of_mem ((mem_setPostTags hs).2 ht h)
    · obtain ⟨label, hlabel, rfl⟩ := List.mem_map.mp h
      have hattached := attached_attachAll (postTagDiff (selectPostTags s) desired).toAdd hs
      obtain ⟨t, ht, hslug⟩ := List.mem_map.mp (hattached.present label
        (mem_toAdd.mpr ⟨hlabel, fun hmem ↦ hold (mem_map_selectPostTags.mp hmem)⟩))
      refine List.mem_map.mpr ⟨t, ?_, hslug⟩
      exact (mem_deleteAll hattached.valid _).mpr
        ⟨ht, fun hremove ↦ (mem_toRemove.mp hremove).2 (hslug ▸ h)⟩

theorem slugs_nodup (hs : Valid s) : ((selectPostTags s).map PostTag.tagSlug).Nodup := by
  have hjoined : (joined s).Nodup := by
    refine List.Nodup.filterMap ?_ (List.Nodup.of_map _ hs.key)
    intro r r' t ht ht'
    obtain ⟨slug, -, rfl⟩ := Option.map_eq_some_iff.mp ht
    obtain ⟨slug', -, heq⟩ := Option.map_eq_some_iff.mp ht'
    obtain ⟨hid, -, hdisplay⟩ := PostTag.mk.inj heq
    cases r
    cases r'
    exact (PostTagRow.mk.injEq ..).mpr ⟨hid.symm, hdisplay.symm⟩
  rw [selectPostTags, ((List.perm_insertionSort _ (joined s)).map PostTag.tagSlug).nodup_iff]
  exact hjoined.map_on (fun t ht t' ht' ↦ hs.unique ht ht')

theorem postTagDiff_settled (hs : Valid s) :
    postTagDiff (selectPostTags (setPostTags s desired)) desired = ⟨[], []⟩ := by
  have hslugs (slug : Tag) : slug ∈ (selectPostTags (setPostTags s desired)).map PostTag.tagSlug ↔
      slug ∈ desired.map TagLabel.slug := mem_map_selectPostTags.trans (mem_slugs_setPostTags hs)
  have hadd : (postTagDiff (selectPostTags (setPostTags s desired)) desired).toAdd = [] := by
    refine List.eq_nil_iff_forall_not_mem.mpr (fun label hlabel ↦ ?_)
    obtain ⟨hmem, hnot⟩ := mem_toAdd.mp hlabel
    exact hnot ((hslugs _).mpr (List.mem_map_of_mem hmem))
  have hremove : (postTagDiff (selectPostTags (setPostTags s desired)) desired).toRemove = [] := by
    refine List.eq_nil_iff_forall_not_mem.mpr (fun slug hslug ↦ ?_)
    obtain ⟨hmem, hnot⟩ := mem_toRemove.mp hslug
    exact hnot ((hslugs _).mp hmem)
  exact congrArg₂ PostTagDiff.mk hadd hremove

/-- The reconciliation of the tags of a post with a list of labels in any order and spelling. -/
theorem setPostTags_reconciles (s : StoredTags) (desired : List TagLabel) :
    (∀ slug, slug ∈ (selectPostTags (setPostTags s.toTagTables desired)).map PostTag.tagSlug ↔
        slug ∈ desired.map TagLabel.slug) ∧
      ((selectPostTags (setPostTags s.toTagTables desired)).map PostTag.tagSlug).Nodup ∧
      (∀ label, label ∈ (postTagDiff (selectPostTags s.toTagTables) desired).toAdd ↔
        label ∈ desired ∧ label.slug ∉ (selectPostTags s.toTagTables).map PostTag.tagSlug) ∧
      (∀ slug, slug ∈ (postTagDiff (selectPostTags s.toTagTables) desired).toRemove ↔
        slug ∈ (selectPostTags s.toTagTables).map PostTag.tagSlug ∧
          slug ∉ desired.map TagLabel.slug) ∧
      (∀ t ∈ selectPostTags s.toTagTables, t.tagSlug ∈ desired.map TagLabel.slug →
        t ∈ selectPostTags (setPostTags s.toTagTables desired)) ∧
      (∀ t ∈ selectPostTags (setPostTags s.toTagTables desired),
        t ∈ selectPostTags s.toTagTables ∨
          (t.tagSlug ∉ (selectPostTags s.toTagTables).map PostTag.tagSlug ∧
            desired.find? (fun l ↦ l.slug = t.tagSlug) = some t.tagDisplay)) ∧
      postTagDiff (selectPostTags (setPostTags s.toTagTables desired)) desired = ⟨[], []⟩ ∧
      setPostTags (setPostTags s.toTagTables desired) desired = setPostTags s.toTagTables desired ∧
      (∀ desired' : List TagLabel, desired'.Perm desired →
        (selectPostTags (setPostTags s.toTagTables desired')).map PostTag.tagSlug =
          (selectPostTags (setPostTags s.toTagTables desired)).map PostTag.tagSlug) ∧
      (s.postTags = [] → insertPostTags s.toTagTables desired =
        setPostTags s.toTagTables desired) := by
  have hs := s.valid
  have hslugs (desired : List TagLabel) (slug : Tag) :
      slug ∈ (selectPostTags (setPostTags s.toTagTables desired)).map PostTag.tagSlug ↔
        slug ∈ desired.map TagLabel.slug :=
    mem_map_selectPostTags.trans (mem_slugs_setPostTags hs)
  have hnodup (desired : List TagLabel) := slugs_nodup (setPostTags_valid hs desired)
  refine ⟨hslugs desired, hnodup desired, fun label ↦ mem_toAdd, fun slug ↦ mem_toRemove,
    fun t ht hslug ↦ ?_, fun t ht ↦ ?_, postTagDiff_settled hs, ?_, fun desired' hperm ↦ ?_,
    fun hempty ↦ ?_⟩
  · exact mem_selectPostTags.mpr ((mem_setPostTags hs).2 (mem_selectPostTags.mp ht) hslug)
  · rcases ((mem_setPostTags hs).1 (mem_selectPostTags.mp ht)).2 with hold | ⟨hnew, hfind⟩
    · exact .inl (mem_selectPostTags.mpr hold)
    · exact .inr ⟨fun h ↦ hnew (mem_map_selectPostTags.mp h), hfind⟩
  · rw [setPostTags, postTagDiff_settled hs]
    rfl
  · refine List.Perm.eq_of_pairwise' (map_selectPostTags_pairwise _) (map_selectPostTags_pairwise _)
      ((List.perm_ext_iff_of_nodup (hnodup desired') (hnodup desired)).mpr (fun slug ↦ ?_))
    rw [hslugs, hslugs]
    exact (hperm.map TagLabel.slug).mem_iff
  · have hselect : selectPostTags s.toTagTables = [] := by
      rw [selectPostTags, joined, hempty]
      rfl
    have hall : desired.filter
        (fun label ↦ label.slug ∉ ([] : List PostTag).map PostTag.tagSlug) = desired :=
      List.filter_eq_self.mpr (fun label _ ↦ decide_eq_true List.not_mem_nil)
    rw [setPostTags, hselect, postTagDiff, hall]
    rfl

end Reconciliation

section Refinement

variable {s : TagTables} {desired : List TagLabel}

/-- Every row is stored under the slug of its label. -/
def Canonical (s : TagTables) : Prop := ∀ t ∈ joined s, t.tagDisplay.slug = t.tagSlug

/-- The rows as the whole post carries them, without their ids. -/
def display (t : PostTag) : Tables.PostTag := ⟨t.tagDisplay⟩

theorem slugs_display {existing : List PostTag}
    (h : ∀ t ∈ existing, t.tagDisplay.slug = t.tagSlug) :
    (existing.map display).map Tables.PostTag.tagSlug = existing.map PostTag.tagSlug := by
  rw [List.map_map]
  exact List.map_congr_left h

theorem canonical_attach (hs : Valid s) (hcanonical : Canonical s) (label : TagLabel) :
    Canonical (attach s label) := by
  intro t ht
  rcases (mem_joined_attach hs).mp ht with hold | ⟨-, rfl⟩
  · exact hcanonical t hold
  · rfl

theorem display_attachAll (labels : List TagLabel) : ∀ {s : TagTables}, Valid s → Canonical s →
    (joined (attachAll s labels)).map display =
      Lifecycle.insertPostTags ((joined s).map display) labels := by
  induction labels with
  | nil => exact fun _ _ ↦ rfl
  | cons label labels ih =>
    intro s hs hcanonical
    have hone : (joined (attach s label)).map display =
        Lifecycle.insertPostTag ((joined s).map display) label := by
      rw [joined_attach hs, Lifecycle.insertPostTag, slugs_display hcanonical]
      split_ifs with hmem
      · rfl
      · rw [List.map_append]
        rfl
    exact (ih (attach_valid hs label) (canonical_attach hs hcanonical label)).trans (by rw [hone]; rfl)

theorem canonical_setPostTags (hs : Valid s) (hcanonical : Canonical s) :
    Canonical (setPostTags s desired) := by
  intro t ht
  have hattached := attached_attachAll (postTagDiff (selectPostTags s) desired).toAdd hs
  rcases hattached.added t ((mem_deleteAll hattached.valid _).mp ht).1 with hold | ⟨-, hslug, -⟩
  · exact hcanonical t hold
  · exact hslug

/-- The tags of the whole post move as its tables do. -/
theorem display_setPostTags (hs : Valid s) (hcanonical : Canonical s) :
    (joined (setPostTags s desired)).map display =
      Lifecycle.applyTagDiff ((joined s).map display)
        (Lifecycle.postTagDiff ((selectPostTags s).map display) desired) := by
  have hselect : ∀ t ∈ selectPostTags s, t.tagDisplay.slug = t.tagSlug :=
    fun t ht ↦ hcanonical t (mem_selectPostTags.mp ht)
  have hadd : (Lifecycle.postTagDiff ((selectPostTags s).map display) desired).toAdd =
      (postTagDiff (selectPostTags s) desired).toAdd := by
    rw [Lifecycle.postTagDiff, slugs_display hselect]
    rfl
  have hremove : (Lifecycle.postTagDiff ((selectPostTags s).map display) desired).toRemove =
      (postTagDiff (selectPostTags s) desired).toRemove := by
    rw [Lifecycle.postTagDiff, postTagDiff, List.filter_map, slugs_display
      (fun t ht ↦ hselect t (List.mem_filter.mp ht).1)]
    refine congrArg _ (List.filter_congr (fun t ht ↦ ?_))
    exact congrArg (fun slug ↦ decide (slug ∉ desired.map TagLabel.slug)) (hselect t ht)
  have hattached := attached_attachAll (postTagDiff (selectPostTags s) desired).toAdd hs
  rw [Lifecycle.applyTagDiff, hadd, hremove, ← display_attachAll _ hs hcanonical, setPostTags,
    applyDiff, (deleteAll_spec _ hattached.valid).2, List.filter_map]
  refine congrArg _ (List.filter_congr (fun t ht ↦ ?_))
  have hslug : t.tagDisplay.slug = t.tagSlug := by
    rcases hattached.added t ht with hold | ⟨-, hslug, -⟩
    · exact hcanonical t hold
    · exact hslug
  exact congrArg (fun slug ↦ decide (slug ∉ (postTagDiff (selectPostTags s) desired).toRemove))
    hslug.symm

end Refinement

end Jaunder.Storage.Posts.TagReconciliation
