import Jaunder.Storage.Migrations.SlugRepair

namespace Jaunder.Storage.Migrations.HistoricalPermalinks

open Foundation.Outcome Foundation.UniqueIndex
open Jaunder.Common.Slug Jaunder.Common.SqliteTime Jaunder.Common.Time
open Jaunder.Storage.Migrations.ActivePostSlugUniqueness Jaunder.Storage.Migrations.SlugAllocation
open Jaunder.Storage.Migrations.SlugRepair Jaunder.Storage.Posts.Runs Jaunder.Storage.Posts.Tables

section Permalinks

variable {u : Unicode} {f : DateFunctions} {s s' : PostTables} {repairs : List SlugRepair}
  {a : Author} {e : Entry} {route : PermalinkRoute} {reader : Reader} {now : UtcInstant}
  {record : PostRecord}

theorem postRecord_ok (h : postRecord a e = .ok record) :
    e.2.title.isSome = e.2.renderedTitle.isSome ∧
      record = ⟨e.1, a.username, a.displayName, e.2.toPostColumns, tagsBySlug e.2.tags⟩ := by
  obtain ⟨_, hpresence, h⟩ := bind_eq_ok.mp h
  exact ⟨require_eq_ok.mp hpresence, (pure_eq_ok.mp h).symm⟩

theorem postRecord_of_presence (h : e.2.title.isSome = e.2.renderedTitle.isSome) :
    postRecord a e =
      .ok ⟨e.1, a.username, a.displayName, e.2.toPostColumns, tagsBySlug e.2.tags⟩ := by
  unfold postRecord validateRenderedTitlePresence
  rw [require_pos h, ok_bind]
  rfl

theorem author_username {username : Jaunder.Common.Feed.Username} (h : author s username = some a) :
    a.username = username := by
  unfold author at h
  have hname := List.find?_some h
  exact of_decide_eq_true hname

theorem getPostByPermalink_some (h : getPostByPermalink f s route reader now = .ok (some record)) :
    ∃ a e, author s route.username = some a ∧ e ∈ s.posts.entries ∧
      permalinkClause f a route reader now e = true ∧ postRecord a e = .ok record := by
  unfold getPostByPermalink at h
  cases hauthor : author s route.username with
  | none =>
    rw [hauthor] at h
    cases h
  | some a =>
    rw [hauthor] at h
    dsimp only at h
    cases hfind : s.posts.entries.find? (permalinkClause f a route reader now) with
    | none =>
      rw [hfind] at h
      cases h
    | some e =>
      rw [hfind] at h
      dsimp only at h
      refine ⟨a, e, rfl, List.mem_of_find?_eq_some hfind, List.find?_some hfind, ?_⟩
      cases hrecord : postRecord a e with
      | error error =>
        rw [hrecord] at h
        cases h
      | ok record' =>
        rw [hrecord] at h
        rw [Option.some.inj (Except.ok.inj h)]

theorem getPostByPermalink_of_unique (hauthor : author s route.username = some a)
    (he : e ∈ s.posts.entries) (hclause : permalinkClause f a route reader now e = true)
    (honly : ∀ e' ∈ s.posts.entries, permalinkClause f a route reader now e' = true → e' = e) :
    getPostByPermalink f s route reader now = (postRecord a e).map some := by
  unfold getPostByPermalink
  rw [hauthor]
  dsimp only
  rw [find?_eq_some_of_unique he hclause honly]

theorem getPostByPermalink_of_none (hauthor : author s route.username = some a)
    (hnone : ∀ e' ∈ s.posts.entries, permalinkClause f a route reader now e' ≠ true) :
    getPostByPermalink f s route reader now = .ok none := by
  unfold getPostByPermalink
  rw [hauthor]
  dsimp only
  rw [List.find?_eq_none.mpr hnone]

theorem isPublished_iff {p : Post} : isPublished now p = true ↔
    (∃ at_, p.publishedAt = some at_ ∧ sqliteText at_ ≤ sqliteText now) ∧ p.deletedAt = none := by
  unfold isPublished
  rw [decide_eq_true_iff, Option.any_eq_true]
  simp only [decide_eq_true_iff]

theorem mem_active_of_clause (he : e ∈ s.posts.entries)
    (hclause : permalinkClause f a route reader now e = true) : e ∈ active s := by
  obtain ⟨-, -, hpublished, -⟩ := of_decide_eq_true hclause
  exact mem_active.mpr ⟨AList.mem_lookup_iff.mpr he, (isPublished_iff.mp hpublished).2⟩

/-- What is found under a slug and a date of before is the post of before. -/
theorem eq_of_migrated (hs : Admitted u f s) (h : Sound u f s repairs)
    (hposts : s'.posts = updatePosts repairs s.posts) {e' : Entry} {date : ℤ} (he : e ∈ active s)
    (he' : e' ∈ active s') (huser : e'.2.userId = e.2.userId) (hslug : e'.2.slug = e.2.slug)
    (hdate : permalinkDate f e.2 = some date) (hdate' : permalinkDate f e'.2 = some date) :
    e' = e ∧ ¬Superseded s e := by
  obtain ⟨hlookup, hdeleted⟩ := mem_active.mp he'
  obtain ⟨postId, p'⟩ := e'
  rw [hposts, lookup_updatePosts, Option.map_eq_some_iff] at hlookup
  obtain ⟨p, hp, hpost⟩ := hlookup
  dsimp only at hpost hdeleted huser hslug hdate'
  subst hpost
  rcases repairedPost_cases h hp with ⟨hkept, hpost⟩ | ⟨-, r, hr, -, hrepairUser, -, -, hpost⟩
  · rw [hpost] at hdeleted huser hslug hdate' ⊢
    obtain rfl := eq_of_dateSlug hs (mem_active_mk hp hdeleted) he huser hslug hdate' hdate
    exact ⟨rfl, hkept⟩
  · rw [hpost] at huser hslug
    exact absurd hslug.symm (h.free r hr e he (huser.symm.trans hrepairUser.symm))

theorem eq_of_clause (hs : Admitted u f s) (h : Sound u f s repairs)
    (hposts : s'.posts = updatePosts repairs s.posts) {e' : Entry}
    (he : e ∈ s.posts.entries) (hclause : permalinkClause f a route reader now e = true)
    (he' : e' ∈ s'.posts.entries) (hclause' : permalinkClause f a route reader now e' = true) :
    e' = e ∧ ¬Superseded s e := by
  obtain ⟨huser, hslug, -, hdate, -⟩ := of_decide_eq_true hclause
  obtain ⟨huser', hslug', -, hdate', -⟩ := of_decide_eq_true hclause'
  exact eq_of_migrated hs h hposts (mem_active_of_clause he hclause)
    (mem_active_of_clause he' hclause') (huser'.trans huser.symm) (hslug'.trans hslug.symm)
    hdate hdate'

theorem mem_migrated (hposts : s'.posts = updatePosts repairs s.posts) (he : e ∈ s.posts.entries) :
    (⟨e.1, repairedPost repairs e.1 e.2⟩ : Entry) ∈ s'.posts.entries := by
  rw [hposts]
  exact List.mem_map.mpr ⟨e, he, rfl⟩

/-- A permalink of a post that keeps its slug leads where it led. -/
theorem permalink_kept (hs : Admitted u f s) (h : Sound u f s repairs)
    (hposts : s'.posts = updatePosts repairs s.posts) (husers : s'.users = s.users)
    (hauthor : author s route.username = some a) (he : e ∈ s.posts.entries)
    (hclause : permalinkClause f a route reader now e = true) (hkept : ¬Superseded s e) :
    getPostByPermalink f s' route reader now = (postRecord a e).map some := by
  have hauthor' : author s' route.username = some a := by
    rw [author, husers]
    exact hauthor
  have hpost := repairedPost_of_kept h (AList.mem_lookup_iff.mpr he) hkept
  have hmem := mem_migrated hposts he
  rw [hpost] at hmem
  exact getPostByPermalink_of_unique hauthor' hmem hclause
    (fun e' he' hclause' ↦ (eq_of_clause hs h hposts he hclause he' hclause').1)

theorem findSome?_eq_of_only {α β : Type} {g : α → Option β} {l : List α} {b : α} (hb : b ∈ l)
    (honly : ∀ c ∈ l, c = b) : l.findSome? g = g b := by
  cases hfind : l.findSome? g with
  | none => exact (List.findSome?_eq_none_iff.mp hfind b hb).symm
  | some x =>
    obtain ⟨c, hc, hx⟩ := List.exists_of_findSome?_eq_some hfind
    rw [← honly c hc, hx]

/-- A permalink of a post that was renamed misses, and its alias leads to the post. -/
theorem permalink_moved {m : Migrated} (hs : Admitted u f s) (h : Sound u f s repairs)
    (hposts : m.tables.posts = updatePosts repairs s.posts) (husers : m.tables.users = s.users)
    (haliases : m.aliases = repairs.map SlugRepair.permalinkAlias)
    (hauthor : author s route.username = some a) (he : e ∈ s.posts.entries)
    (hclause : permalinkClause f a route anonymous now e = true)
    (hpresence : e.2.title.isSome = e.2.renderedTitle.isSome) (hsuperseded : Superseded s e) :
    getPostByPermalink f m.tables route anonymous now = .ok none ∧ ∃ p at_,
      m.tables.posts.lookup e.1 = some p ∧ p.publishedAt = some at_ ∧
      resolveHistoricalPostPermalinkAlias f m route now =
        .ok (some ⟨a.username, epochDay at_, p.slug⟩) ∧
      ∀ date, f.date at_ = some date → getPostByPermalink f m.tables ⟨route.username, date, p.slug⟩
        anonymous now = (postRecord a ⟨e.1, p⟩).map some := by
  have hauthor' : author m.tables route.username = some a := by
    rw [author, husers]
    exact hauthor
  have hlookup := AList.mem_lookup_iff.mpr he
  have hclause' := hclause
  obtain ⟨huser, hslug, hpublished, hdate, hresolves⟩ := of_decide_eq_true hclause'
  have hmiss : ∀ e' ∈ m.tables.posts.entries,
      permalinkClause f a route anonymous now e' ≠ true :=
    fun e' he' hc ↦ (eq_of_clause hs h hposts he hclause he' hc).2 hsuperseded
  refine ⟨getPostByPermalink_of_none hauthor' hmiss, ?_⟩
  rcases repairedPost_cases h hlookup with
    ⟨hkept, -⟩ | ⟨-, r, hr, hid, hrepairUser, hrepairSlug, hrepairDate, hpost⟩
  · exact absurd hsuperseded hkept
  set p := repairedPost repairs e.1 e.2 with hp
  have hlookup' : m.tables.posts.lookup e.1 = some p := by
    rw [hposts, lookup_updatePosts, hlookup]
    rfl
  have hpublished' : isPublished now p = true := by
    rw [hpost]
    exact hpublished
  have hresolves' : resolves anonymous p = true := by
    rw [hpost]
    exact hresolves
  have huser' : p.userId = e.2.userId := by rw [hpost]
  have hdate' : permalinkDate f p = permalinkDate f e.2 := by rw [hpost]; rfl
  obtain ⟨⟨at_, hat, -⟩, hdeleted⟩ := isPublished_iff.mp hpublished'
  refine ⟨p, at_, hlookup', hat, ?_, fun date hatDate ↦ ?_⟩
  · have hshadow : shadowed f m.tables r.permalinkAlias = false := by
      rw [shadowed, Bool.eq_false_iff]
      intro hany
      obtain ⟨e', he', hc⟩ := List.any_eq_true.mp hany
      obtain ⟨huser₁, hslug₁, hdate₁⟩ := of_decide_eq_true hc
      exact (eq_of_migrated hs h hposts hsuperseded.1 he' (huser₁.trans hrepairUser)
        (hslug₁.trans hrepairSlug) hrepairDate hdate₁).2 hsuperseded
    have haliasDate : r.oldPermalinkDate = route.date :=
      Option.some.inj (hrepairDate.symm.trans hdate)
    have hmem : r.permalinkAlias ∈ m.aliases.filter (aliasClause f m.tables a route) := by
      rw [List.mem_filter, haliases]
      refine ⟨List.mem_map_of_mem hr, ?_⟩
      rw [aliasClause, decide_eq_true_iff, hshadow]
      exact ⟨hrepairUser.trans huser, hrepairSlug.trans hslug, haliasDate, by simp⟩
    have honly : ∀ b ∈ m.aliases.filter (aliasClause f m.tables a route),
        b = r.permalinkAlias := by
      intro b hb
      obtain ⟨hbmem, hbclause⟩ := List.mem_filter.mp hb
      obtain ⟨hbuser, hbslug, hbdate, -⟩ := of_decide_eq_true hbclause
      rw [haliases] at hbmem
      obtain ⟨r', hr', rfl⟩ := List.mem_map.mp hbmem
      obtain ⟨e', he', hid', huser₁, hslug₁, hdate₁⟩ := h.source r' hr'
      have hsame := eq_of_dateSlug hs he'.1 hsuperseded.1
        (huser₁.symm.trans (hbuser.trans huser.symm))
        (hslug₁.symm.trans (hbslug.trans hslug.symm))
        (hdate₁.trans (congrArg some hbdate)) hdate
      rw [List.inj_on_of_nodup_map h.ids hr' hr (hid'.trans (by rw [hsame, hid]))]
    have haliased : aliasedPost m.tables now r.permalinkAlias = some ⟨e.1, p⟩ := by
      have hlookupAlias : m.tables.posts.lookup r.permalinkAlias.postId = some p := by
        change m.tables.posts.lookup r.postId = some p
        rw [hid]
        exact hlookup'
      rw [aliasedPost, hlookupAlias, Option.filter_some, if_pos, Option.map_some]
      · rw [show r.permalinkAlias.postId = e.1 from hid]
      · rw [decide_eq_true_iff]
        exact ⟨huser'.trans hrepairUser.symm, hpublished', hresolves'⟩
    have hrecord := @postRecord_of_presence a ⟨e.1, p⟩ (by rw [hpost]; exact hpresence)
    unfold resolveHistoricalPostPermalinkAlias
    simp only [hauthor', findSome?_eq_of_only hmem honly, haliased, hrecord, ok_bind, hat,
      Option.getD_some]
    rfl
  · have hentry : (⟨e.1, p⟩ : Entry) ∈ m.tables.posts.entries := AList.mem_lookup_iff.mp hlookup'
    refine getPostByPermalink_of_unique hauthor' hentry ?_ (fun e' he' hc ↦ ?_)
    · rw [permalinkClause, decide_eq_true_iff]
      refine ⟨huser'.trans huser, rfl, hpublished', ?_, hresolves'⟩
      rw [permalinkDate, hat]
      exact hatDate
    · obtain ⟨huser₁, hslug₁, -⟩ := of_decide_eq_true hc
      have hactive := mem_active_of_clause he' hc
      have hid' := slugsDistinct_of_repairs h hposts e'.1 e.1 e'.2 p
        (mem_active.mp hactive).1 hlookup' (mem_active.mp hactive).2 hdeleted
        (huser₁.trans (huser.symm.trans huser'.symm)) hslug₁
      exact eq_of_postId hactive (mem_active.mpr ⟨hlookup', hdeleted⟩) hid'

end Permalinks

section Migration

variable {u : Unicode} {f : DateFunctions} {clock : RepairClock} {store : Store}

/-- What an anonymous reader of an old permalink finds after the migration: the post, or the redirect
of an alias to the route on which the post is now. -/
def StillLeads (f : DateFunctions) (m : Migrated) (route : PermalinkRoute) (now : UtcInstant)
    (record : PostRecord) : Prop :=
  getPostByPermalink f m.tables route anonymous now = .ok (some record) ∨
    getPostByPermalink f m.tables route anonymous now = .ok none ∧ ∃ p at_,
      m.tables.posts.lookup record.postId = some p ∧ p.publishedAt = some at_ ∧
      resolveHistoricalPostPermalinkAlias f m route now =
        .ok (some ⟨route.username, epochDay at_, p.slug⟩) ∧
      (f.date at_ = some (epochDay at_) → ∃ record',
        getPostByPermalink f m.tables ⟨route.username, epochDay at_, p.slug⟩ anonymous now =
          .ok (some record') ∧ record'.postId = record.postId)

structure Repaired (u : Unicode) (f : DateFunctions) (s : PostTables) (m : Migrated) : Prop where
  index : SlugsDistinct m.tables
  posts : ∀ postId, (m.tables.posts.lookup postId).isSome = (s.posts.lookup postId).isSome
  newest : ∀ e ∈ active s, ∃ e' ∈ active s, sameSlug e e' = true ∧ ¬Superseded s e'
  kept : ∀ postId p, s.posts.lookup postId = some p → ¬Superseded s ⟨postId, p⟩ →
    m.tables.posts.lookup postId = some p
  renamed : ∀ postId p, s.posts.lookup postId = some p → Superseded s ⟨postId, p⟩ →
    ∃ slug updatedAt, m.tables.posts.lookup postId = some { p with slug, updatedAt } ∧
      IsSlug u slug.toList ∧ ∀ e ∈ active s, e.2.userId = p.userId → e.2.slug ≠ slug
  permalinks : ∀ route now record,
    getPostByPermalink f s route anonymous now = .ok (some record) →
      StillLeads f m route now record

/-- The first of the newest members of a group. -/
theorem exists_newest {s : PostTables} {e : Entry} (he : e ∈ active s) :
    ∃ e' ∈ active s, sameSlug e e' = true ∧ ¬Superseded s e' := by
  let key : Entry → List Char ×ₗ ℤ := fun e ↦ toLex (sqliteText e.2.createdAt, e.1)
  let group := (active s).filter (sameSlug e ·)
  have hgroup : e ∈ group := List.mem_filter.mpr ⟨he, by simp [sameSlug]⟩
  obtain ⟨top, htop, hle⟩ := Finset.exists_max_image group.toFinset key
    ⟨e, List.mem_toFinset.mpr hgroup⟩
  obtain ⟨hactive, hsame⟩ := List.mem_filter.mp (List.mem_toFinset.mp htop)
  refine ⟨top, hactive, hsame, ?_⟩
  rintro ⟨-, e', he', hsame', hnewer⟩
  obtain ⟨huser, hslug⟩ := of_decide_eq_true hsame
  obtain ⟨huser', hslug'⟩ := of_decide_eq_true hsame'
  have hmem : e' ∈ group := List.mem_filter.mpr
    ⟨he', decide_eq_true ⟨huser.trans huser', hslug.trans hslug'⟩⟩
  have hkey := Prod.Lex.toLex_le_toLex.mp (hle e' (List.mem_toFinset.mpr hmem))
  rcases of_decide_eq_true hnewer with hlt | ⟨heq, hid⟩
  · rcases hkey with hlt' | ⟨heq', -⟩
    · exact lt_asymm hlt hlt'
    · exact hlt.ne' heq'
  · rcases hkey with hlt' | ⟨-, hid'⟩
    · exact hlt'.ne heq.symm
    · exact absurd hid (not_lt_of_ge hid')

theorem stillLeads_of_repairs {s : PostTables} {repairs : List SlugRepair} {m : Migrated}
    (hs : Admitted u f s) (h : Sound u f s repairs)
    (hposts : m.tables.posts = updatePosts repairs s.posts) (husers : m.tables.users = s.users)
    (haliases : m.aliases = repairs.map SlugRepair.permalinkAlias) {route : PermalinkRoute}
    {now : UtcInstant} {record : PostRecord}
    (hrecord : getPostByPermalink f s route anonymous now = .ok (some record)) :
    StillLeads f m route now record := by
  obtain ⟨a, e, hauthor, he, hclause, hpost⟩ := getPostByPermalink_some hrecord
  have hname := author_username hauthor
  obtain ⟨hpresence, rfl⟩ := postRecord_ok hpost
  by_cases hsuperseded : Superseded s e
  · obtain ⟨hmiss, p, at_, hlookup, hat, halias, hroute⟩ := permalink_moved hs h hposts husers
      haliases hauthor he hclause hpresence hsuperseded
    refine .inr ⟨hmiss, p, at_, hlookup, hat, by rw [halias, hname], fun hdate ↦ ?_⟩
    rw [hroute _ hdate, postRecord_of_presence]
    · exact ⟨_, rfl, rfl⟩
    · have hlookup' := AList.mem_lookup_iff.mpr he
      rw [hposts, lookup_updatePosts, hlookup', Option.map_some] at hlookup
      obtain ⟨slug, updatedAt, hfields⟩ := repairedPost_fields repairs e.1 e.2
      rw [← Option.some.inj hlookup, hfields]
      exact hpresence
  · refine .inl ?_
    rw [permalink_kept hs h hposts husers hauthor he hclause hsuperseded, hpost]
    rfl

/-- The migration comes to its end on whatever the earlier schema admits, provided that the posts
that lose their slug have dates and can be copied, and old public permalinks go on leading to their
posts. -/
theorem slug_repair_completes (hu : u.Documented) (hf : f.Documented) (clock : RepairClock)
    (hs : Admitted u f store.tables)
    (hmovable : ∀ e, Superseded store.tables e → Movable e.2) :
    ∃ fuel₀ m, (∀ fuel, fuel₀ ≤ fuel → migrate f clock store fuel = some (.ok m)) ∧
      Repaired u f store.tables m := by
  obtain ⟨out, hout⟩ := exists_allocates store.tables ['|'] (repairQueue f store.tables)
  obtain ⟨fuel₀, hfuel⟩ := allocation_completes hout
  have hdated : ∀ a ∈ out, ∃ r, slugRepair f clock a = .ok r := by
    intro a ha
    obtain ⟨e, he, hqueued⟩ := mem_repairQueue.mp (hout.repairs ▸ List.mem_map_of_mem ha)
    refine exists_slugRepair hf ?_
    rw [← hqueued]
    exact hf.date_isSome _ (hmovable e he).dated
  obtain ⟨repairs, hmap, hrepairs⟩ := exists_mapM_eq_ok hdated
  have hsound := sound_of_allocates hu hs hout hmap hrepairs
  obtain ⟨m, hm, hposts, husers, haliases⟩ := applyRepairs_ok hs hsound hmovable hmap
  refine ⟨fuel₀, m, fun fuel hle ↦ ?_, ?_⟩
  · obtain ⟨rows, hrows, haccepted⟩ := hfuel fuel hle
    rw [migrate, hrows, Option.map_some, haccepted, hm]
  · have hlookup : ∀ postId, m.tables.posts.lookup postId =
        (store.tables.posts.lookup postId).map (repairedPost repairs postId) := by
      intro postId
      rw [hposts, lookup_updatePosts]
    refine ⟨slugsDistinct_of_repairs hsound hposts, fun postId ↦ ?_, fun e he ↦ exists_newest he,
      fun postId p hp hkept ↦ ?_, fun postId p hp hsuperseded ↦ ?_, fun route now record hrecord ↦
        stillLeads_of_repairs hs hsound hposts husers haliases hrecord⟩
    · rw [hlookup, Option.isSome_map]
    · rw [hlookup, hp, Option.map_some, repairedPost_of_kept hsound hp hkept]
    · rcases repairedPost_cases hsound hp with ⟨hkept, -⟩ | ⟨-, r, hr, -, huser, -, -, hpost⟩
      · exact absurd hsuperseded hkept
      · refine ⟨r.newSlug, r.newUpdatedAt, ?_, hsound.valid r hr, fun e he heq ↦ ?_⟩
        · rw [hlookup, hp, Option.map_some, hpost]
        · exact hsound.free r hr e he (heq.trans huser.symm)

def asciiText : Unicode := ⟨id, fun _ _ ↦ true, Char.isAlphanum⟩

theorem asciiText_documented : asciiText.Documented where
  normal_take _ _ _ := rfl
  normal_suffix _ _ _ _ := rfl
  digit d hd := by
    change d.isAlphanum = true
    rw [Char.isAlphanum, hd, Bool.or_true]
  digit_boundary _ _ _ _ _ := rfl
  hyphen := by decide

def sqliteDates : DateFunctions where
  date t := if 0 ≤ year t then some (epochDay t) else none
  secondLater t := if 0 ≤ year t then some (t.wholeSeconds.saturatingAdd 1000000000) else none

theorem sqliteDates_documented : sqliteDates.Documented where
  date_isSome t ht := by simp [sqliteDates, ht]
  secondLater_isSome t ht := by simp [sqliteDates, ht]

def firstMorning : UtcInstant := ⟨36000000000000, by decide, by decide⟩

def secondMorning : UtcInstant := ⟨122400000000000, by decide, by decide⟩

def beforeYearZero : UtcInstant := ⟨-62200000000000000000, by decide, by decide⟩

def memoClock : RepairClock := ⟨⟨172800000000000, by decide, by decide⟩, by decide +kernel⟩

def memo (publishedAt : UtcInstant) (audiences : List AudienceRow) : Post where
  userId := 1
  title := none
  renderedTitle := none
  slug := "memo"
  body := "Closed today."
  format := .markdown
  renderedHtml := "<p>Closed today.</p>"
  createdAt := publishedAt
  updatedAt := publishedAt
  publishedAt := some publishedAt
  deletedAt := none
  summary := none
  tags := []
  audiences := audiences
  media := []
  searchText := none
  mutationVersion := 1

/-- Two posts of one user with one slug, on different dates. -/
def memoTables (first : Post) : PostTables where
  users := [⟨1, "alice", none⟩]
  audiences := []
  posts := ⟨[⟨1, first⟩, ⟨2, memo secondMorning [⟨.public_, none⟩]⟩],
    by simp [List.NodupKeys, List.keys]⟩
  lastPostId := 2
  revisions := []
  lastRevisionId := 0
  idempotencyKeys := []

def memoStore (first : Post) : Store := ⟨memoTables first, fun _ ↦ none⟩

def memoRoute : PermalinkRoute := ⟨"alice", 0, "memo"⟩

theorem memoTables_admitted {first : Post} (hlive : first.deletedAt = none)
    (huser : first.userId = 1) (hslug : first.slug = "memo") (htags : first.tags = [])
    (hmedia : first.media = [])
    (hcheck : ∀ row ∈ first.audiences, revisionAudienceCheck row = true)
    (hdate : permalinkDate sqliteDates first ≠ some 1) :
    Admitted asciiText sqliteDates (memoTables first) := by
  have hactive : active (memoTables first) =
      [⟨1, first⟩, ⟨2, memo secondMorning [⟨.public_, none⟩]⟩] := by
    simp [active, memoTables, hlive, memo]
  have hmemo : IsSlug asciiText "memo".toList := by decide +kernel
  have hsecond : permalinkDate sqliteDates (memo secondMorning [⟨.public_, none⟩]) = some 1 := by
    decide +kernel
  constructor
  · rw [hactive]
    refine List.pairwise_pair.mpr ?_
    rw [dateSlugClash, decide_eq_false_iff_not]
    rintro ⟨-, -, -, hsame⟩
    exact hdate (hsame.trans hsecond)
  · simpa [hactive, hslug] using ⟨hmemo, hmemo⟩
  · rw [hactive]
    simp [huser, memoTables, memo]
  · simp [hactive, huser, memo]
  · simp [memoTables]
  · simp [hactive, htags, memo]
  · simpa [hactive, memo] using ⟨hcheck, by decide⟩
  · simp [hactive, hmedia, memo]

theorem memos_repaired : ∃ fuel₀ m,
    (∀ fuel, fuel₀ ≤ fuel → migrate sqliteDates memoClock
      (memoStore (memo firstMorning [⟨.public_, none⟩])) fuel = some (.ok m)) ∧
    Repaired asciiText sqliteDates (memoTables (memo firstMorning [⟨.public_, none⟩])) m := by
  refine slug_repair_completes asciiText_documented sqliteDates_documented memoClock
    (memoTables_admitted rfl rfl rfl rfl rfl (by decide) (by decide +kernel)) ?_
  intro e he
  have hmem : e ∈ ([⟨1, memo firstMorning [⟨.public_, none⟩]⟩,
      ⟨2, memo secondMorning [⟨.public_, none⟩]⟩] : List Entry) := List.mem_of_mem_filter he.1
  rcases List.mem_pair.mp hmem with rfl | rfl
  · exact ⟨by decide +kernel, by decide⟩
  · exact ⟨by decide +kernel, by decide⟩

def aliceHerself : Reader := ⟨some 1, fun _ ↦ false, fun _ ↦ false⟩

/-- An old permalink of a post for subscribers leads its author nowhere. A post with two `public`
rows, or one from before year 0, keeps the migration from completing. -/
theorem slug_repair_fails :
    (Admitted asciiText sqliteDates (memoTables (memo firstMorning [⟨.subscribers, none⟩])) ∧
      (getPostByPermalink sqliteDates (memoTables (memo firstMorning [⟨.subscribers, none⟩]))
        memoRoute aliceHerself memoClock.observedAt).map (Option.map PostRecord.postId) =
          .ok (some 1) ∧
      (migrate sqliteDates memoClock (memoStore (memo firstMorning [⟨.subscribers, none⟩])) 4).map
        (Except.map (fun m ↦
          ((getPostByPermalink sqliteDates m.tables memoRoute aliceHerself
            memoClock.observedAt).map Option.isSome,
          resolveHistoricalPostPermalinkAlias sqliteDates m memoRoute memoClock.observedAt))) =
        some (.ok (.ok false, .ok none))) ∧
    (Admitted asciiText sqliteDates
        (memoTables (memo firstMorning [⟨.public_, none⟩, ⟨.public_, none⟩])) ∧
      (migrate sqliteDates memoClock
        (memoStore (memo firstMorning [⟨.public_, none⟩, ⟨.public_, none⟩])) 4).map
          (Except.map Migrated.aliases) =
        some (.error (.revision (.uniqueViolation .postRevisionAudiences)))) ∧
    Admitted asciiText sqliteDates (memoTables (memo beforeYearZero [⟨.public_, none⟩])) ∧
      (migrate sqliteDates memoClock (memoStore (memo beforeYearZero [⟨.public_, none⟩])) 4).map
        (Except.map Migrated.aliases) = some (.error (.notNull .slugRepairs)) := by
  refine ⟨⟨memoTables_admitted rfl rfl rfl rfl rfl (by decide) (by decide +kernel),
    by decide +kernel, by decide +kernel⟩, ⟨memoTables_admitted rfl rfl rfl rfl rfl (by decide)
      (by decide +kernel), by decide +kernel⟩, memoTables_admitted rfl rfl rfl rfl rfl (by decide)
        (by decide +kernel), by decide +kernel⟩

end Migration

end Jaunder.Storage.Migrations.HistoricalPermalinks
