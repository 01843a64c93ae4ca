import Jaunder.Foundation.UniqueIndex
import Jaunder.Storage.Visibility

namespace Jaunder.Storage.Audiences

open Foundation.UniqueIndex
open Jaunder.Common.Owned
open Jaunder.Storage.Schema Jaunder.Storage.Visibility

inductive AudienceError
  | duplicateName
  | notFound
  | storage
deriving DecidableEq

/-- The content tables with the names of the audiences and the identifiers that have been given out. -/
structure AudienceTables where
  db : Database
  nameOf : ℤ → Text
  lastAudienceId : ℤ
  lastSubscriptionId : ℤ
  name_unique : ∀ a ∈ db.audiences, ∀ b ∈ db.audiences, a.authorUserId = b.authorUserId →
    nameOf a.audienceId = nameOf b.audienceId → a = b
  audiences_numbered : ∀ a ∈ db.audiences, a.audienceId ≤ lastAudienceId
  subscriptions_numbered : ∀ s ∈ db.subscriptions, s.subscriptionId ≤ lastSubscriptionId
  post_audiences_post : ∀ t ∈ db.postAudiences, ∃ p ∈ db.posts, p.postId = t.postId

section Keys

/-- A key stays one when a row with a greater number comes. -/
theorem nodup_concat {α : Type} {rows : List α} {key : α → ℤ} (h : (rows.map key).Nodup) {last : ℤ}
    (hlast : ∀ row ∈ rows, key row ≤ last) {row : α} (hrow : key row = last + 1) :
    ((rows ++ [row]).map key).Nodup := by
  rw [List.map_append, List.map_singleton, hrow]
  refine List.nodup_append.mpr ⟨h, List.nodup_singleton _, fun k hk k' hk' ↦ ?_⟩
  obtain ⟨old, hold, rfl⟩ := List.mem_map.mp hk
  rw [List.mem_singleton.mp hk']
  have hle := hlast old hold
  omega

theorem nodup_filter {α β : Type} {rows : List α} {key : α → β} (h : (rows.map key).Nodup)
    (keep : α → Bool) : ((rows.filter keep).map key).Nodup :=
  h.sublist (List.filter_sublist.map key)

end Keys

section Audiences

variable (s : AudienceTables) (author id : ℤ) (name : Text)

theorem members_audience_of_subset {members : List AudienceMember} {audiences audiences' : List Audience}
    (h : ∀ m ∈ members, ∃ a ∈ audiences, a.audienceId = m.audienceId ∧ a.authorUserId = m.authorUserId)
    (hsub : audiences ⊆ audiences') :
    ∀ m ∈ members, ∃ a ∈ audiences', a.audienceId = m.audienceId ∧ a.authorUserId = m.authorUserId := by
  intro m hm
  obtain ⟨a, ha, hsame⟩ := h m hm
  exact ⟨a, hsub ha, hsame⟩

def withAudience : Database :=
  { s.db with
    audiences := s.db.audiences ++ [⟨s.lastAudienceId + 1, author⟩]
    audiences_key := nodup_concat s.db.audiences_key s.audiences_numbered rfl
    members_audience := members_audience_of_subset s.db.members_audience (List.subset_append_left _ _)
    post_audiences_audience := fun t ht i hi ↦
      let ⟨a, ha, hid⟩ := s.db.post_audiences_audience t ht i hi
      ⟨a, List.mem_append_left _ ha, hid⟩ }

theorem name_unique_concat
    (hname : ¬∃ a ∈ s.db.audiences, a.authorUserId = author ∧ s.nameOf a.audienceId = name) :
    ∀ a ∈ (withAudience s author).audiences, ∀ b ∈ (withAudience s author).audiences,
      a.authorUserId = b.authorUserId →
      Function.update s.nameOf (s.lastAudienceId + 1) name a.audienceId =
        Function.update s.nameOf (s.lastAudienceId + 1) name b.audienceId → a = b := by
  have hne : ∀ a ∈ s.db.audiences, a.audienceId ≠ s.lastAudienceId + 1 := by
    intro a ha
    have hle := s.audiences_numbered a ha
    omega
  intro a ha b hb hauthor hsame
  rcases List.mem_append.mp ha with ha | ha
  · rcases List.mem_append.mp hb with hb | hb
    · rw [Function.update_of_ne (hne a ha), Function.update_of_ne (hne b hb)] at hsame
      exact s.name_unique a ha b hb hauthor hsame
    · rw [List.mem_singleton.mp hb] at hauthor hsame
      rw [Function.update_of_ne (hne a ha), Function.update_self] at hsame
      exact absurd ⟨a, ha, hauthor, hsame⟩ hname
  · rcases List.mem_append.mp hb with hb | hb
    · rw [List.mem_singleton.mp ha] at hauthor hsame
      rw [Function.update_of_ne (hne b hb), Function.update_self] at hsame
      exact absurd ⟨b, hb, hauthor.symm, hsame.symm⟩ hname
    · rw [List.mem_singleton.mp ha, List.mem_singleton.mp hb]

theorem audiences_numbered_concat :
    ∀ a ∈ (withAudience s author).audiences, a.audienceId ≤ s.lastAudienceId + 1 := by
  intro a ha
  rcases List.mem_append.mp ha with ha | ha
  · have hle := s.audiences_numbered a ha
    omega
  · rw [List.mem_singleton.mp ha]

def createAudience : Except AudienceError (ℤ × AudienceTables) :=
  if hname : ∃ a ∈ s.db.audiences, a.authorUserId = author ∧ s.nameOf a.audienceId = name then
    .error .duplicateName
  else if ∃ u ∈ s.db.users, u.userId = author then
    .ok (s.lastAudienceId + 1,
      { s with
        db := withAudience s author
        nameOf := Function.update s.nameOf (s.lastAudienceId + 1) name
        lastAudienceId := s.lastAudienceId + 1
        name_unique := name_unique_concat s author name hname
        audiences_numbered := audiences_numbered_concat s author
        subscriptions_numbered := s.subscriptions_numbered
        post_audiences_post := s.post_audiences_post })
  else .error .storage

theorem name_unique_update (howner : ∃ a ∈ s.db.audiences, a.audienceId = id ∧ a.authorUserId = author)
    (hname : ¬∃ a ∈ s.db.audiences, a.authorUserId = author ∧ a.audienceId ≠ id ∧
      s.nameOf a.audienceId = name) :
    ∀ a ∈ s.db.audiences, ∀ b ∈ s.db.audiences, a.authorUserId = b.authorUserId →
      Function.update s.nameOf id name a.audienceId = Function.update s.nameOf id name b.audienceId →
        a = b := by
  obtain ⟨c, hc, hcid, hcauthor⟩ := howner
  intro a ha b hb hauthor hsame
  by_cases haid : a.audienceId = id
  · by_cases hbid : b.audienceId = id
    · exact eq_of_key s.db.audiences_key ha hb (haid.trans hbid.symm)
    · rw [haid, Function.update_self, Function.update_of_ne hbid] at hsame
      rw [eq_of_key s.db.audiences_key ha hc (haid.trans hcid.symm), hcauthor] at hauthor
      exact absurd ⟨b, hb, hauthor.symm, hbid, hsame.symm⟩ hname
  · by_cases hbid : b.audienceId = id
    · rw [hbid, Function.update_self, Function.update_of_ne haid] at hsame
      rw [eq_of_key s.db.audiences_key hb hc (hbid.trans hcid.symm), hcauthor] at hauthor
      exact absurd ⟨a, ha, hauthor, haid, hsame⟩ hname
    · rw [Function.update_of_ne haid, Function.update_of_ne hbid] at hsame
      exact s.name_unique a ha b hb hauthor hsame

def renameAudience : Except AudienceError AudienceTables :=
  if howner : ∃ a ∈ s.db.audiences, a.audienceId = id ∧ a.authorUserId = author then
    if hname : ∃ a ∈ s.db.audiences, a.authorUserId = author ∧ a.audienceId ≠ id ∧
        s.nameOf a.audienceId = name then .error .duplicateName
    else .ok { s with
      nameOf := Function.update s.nameOf id name
      name_unique := name_unique_update s author id name howner hname }
  else .error .notFound

def keptMembers : List AudienceMember :=
  s.db.audienceMembers.filter (fun m ↦ ¬(m.authorUserId = author ∧ m.audienceId = id))

def keptAudiences : List Audience :=
  s.db.audiences.filter (fun a ↦ ¬(a.authorUserId = author ∧ a.audienceId = id))

/-- No member is left of an audience that goes. -/
theorem members_audience_kept : ∀ m ∈ keptMembers s author id,
    ∃ a ∈ keptAudiences s author id, a.audienceId = m.audienceId ∧ a.authorUserId = m.authorUserId := by
  intro m hm
  obtain ⟨hm, hkept⟩ := List.mem_filter.mp hm
  obtain ⟨a, ha, hid, hauthor⟩ := s.db.members_audience m hm
  refine ⟨a, List.mem_filter.mpr ⟨ha, ?_⟩, hid, hauthor⟩
  rwa [hid, hauthor]

/-- The rows that target the audience keep it: the deletion fails. -/
def deleteAudience : Option AudienceTables :=
  if htargets : ∀ t ∈ s.db.postAudiences, ∀ i ∈ t.audienceId,
      ∃ a ∈ keptAudiences s author id, a.audienceId = i then
    some { s with
      db := { s.db with
        audiences := keptAudiences s author id
        audienceMembers := keptMembers s author id
        audiences_key := nodup_filter s.db.audiences_key _
        members_audience := members_audience_kept s author id
        members_subscription := fun m hm ↦ s.db.members_subscription m (List.mem_of_mem_filter hm)
        post_audiences_audience := htargets }
      name_unique := fun a ha b hb ↦
        s.name_unique a (List.mem_of_mem_filter ha) b (List.mem_of_mem_filter hb)
      audiences_numbered := fun a ha ↦ s.audiences_numbered a (List.mem_of_mem_filter ha)
      subscriptions_numbered := s.subscriptions_numbered
      post_audiences_post := s.post_audiences_post }
  else none

end Audiences

section Members

variable (s : AudienceTables) (author audience subscription : ℤ)

theorem members_concat {P : AudienceMember → Prop} {members : List AudienceMember} {new : AudienceMember}
    (h : ∀ m ∈ members, P m) (hnew : P new) : ∀ m ∈ members ++ [new], P m :=
  List.forall_mem_append.mpr ⟨h, List.forall_mem_singleton.mpr hnew⟩

def addMember : Except AudienceError AudienceTables :=
  if ∃ m ∈ s.db.audienceMembers, m.audienceId = audience ∧ m.subscriptionId = subscription then .ok s
  else if hkeys : (∃ a ∈ s.db.audiences, a.audienceId = audience ∧ a.authorUserId = author) ∧
      ∃ r ∈ s.db.subscriptions, r.subscriptionId = subscription ∧ r.authorUserId = author then
    .ok { s with
      db := { s.db with
        audienceMembers := s.db.audienceMembers ++ [⟨audience, subscription, author⟩]
        members_audience := members_concat s.db.members_audience hkeys.1
        members_subscription := members_concat s.db.members_subscription hkeys.2 } }
  else .error .storage

def removeMember : AudienceTables :=
  { s with
    db := { s.db with
      audienceMembers := s.db.audienceMembers.filter (fun m ↦
        ¬(m.authorUserId = author ∧ m.audienceId = audience ∧ m.subscriptionId = subscription))
      members_audience := fun m hm ↦ s.db.members_audience m (List.mem_of_mem_filter hm)
      members_subscription := fun m hm ↦ s.db.members_subscription m (List.mem_of_mem_filter hm) } }

end Members

section Subscriptions

variable (s : AudienceTables) (author channel : ℤ) (ref : String)

def matchesTriple (r : Subscription) : Bool :=
  r.authorUserId = author ∧ r.channelId = channel ∧ r.subscriberRef = ref

def newSubscription (status : ℤ) : Subscription :=
  ⟨s.lastSubscriptionId + 1, author, channel, ref, status⟩

theorem subscriptions_unique_concat (status : ℤ)
    (hnew : s.db.subscriptions.find? (matchesTriple author channel ref) = none) :
    ((s.db.subscriptions ++ [newSubscription s author channel ref status]).map
      (fun r ↦ (r.authorUserId, r.channelId, r.subscriberRef))).Nodup := by
  rw [List.map_append]
  refine List.nodup_append.mpr ⟨s.db.subscriptions_unique, List.nodup_singleton _, fun k hk k' hk' ↦ ?_⟩
  obtain ⟨r, hr, rfl⟩ := List.mem_map.mp hk
  rw [List.mem_singleton.mp hk']
  intro hsame
  obtain ⟨hauthor, hrest⟩ := Prod.mk.inj hsame
  obtain ⟨hchannel, href⟩ := Prod.mk.inj hrest
  exact List.find?_eq_none.mp hnew r hr (decide_eq_true ⟨hauthor, hchannel, href⟩)

theorem members_subscription_concat (r : Subscription) : ∀ m ∈ s.db.audienceMembers,
    ∃ r' ∈ s.db.subscriptions ++ [r], r'.subscriptionId = m.subscriptionId ∧
      r'.authorUserId = m.authorUserId := by
  intro m hm
  obtain ⟨r', hr', hsame⟩ := s.db.members_subscription m hm
  exact ⟨r', List.mem_append_left _ hr', hsame⟩

theorem subscriptions_numbered_concat (status : ℤ) :
    ∀ r ∈ s.db.subscriptions ++ [newSubscription s author channel ref status],
      r.subscriptionId ≤ s.lastSubscriptionId + 1 := by
  intro r hr
  rcases List.mem_append.mp hr with hr | hr
  · have hle := s.subscriptions_numbered r hr
    omega
  · rw [List.mem_singleton.mp hr]
    exact le_refl _

/-- The upsert under the status that the admission policy gives; a row that is there keeps its own. -/
def subscribe (status : String) : Option (ℤ × AudienceTables) :=
  match s.db.subscriptionStatuses.find? (fun st ↦ st.name = status) with
  | none => none
  | some st =>
    match hfound : s.db.subscriptions.find? (matchesTriple author channel ref) with
    | some r => some (r.subscriptionId, s)
    | none =>
      if ref ≠ "" ∧ (∃ u ∈ s.db.users, u.userId = author) ∧ ∃ c ∈ s.db.channels, c.id = channel then
        some (s.lastSubscriptionId + 1,
          { s with
            db := { s.db with
              subscriptions := s.db.subscriptions ++ [newSubscription s author channel ref st.id]
              subscriptions_key := nodup_concat s.db.subscriptions_key s.subscriptions_numbered rfl
              subscriptions_unique := subscriptions_unique_concat s author channel ref st.id hfound
              members_subscription := members_subscription_concat s _ }
            lastSubscriptionId := s.lastSubscriptionId + 1
            subscriptions_numbered := subscriptions_numbered_concat s author channel ref st.id
            name_unique := s.name_unique
            audiences_numbered := s.audiences_numbered
            post_audiences_post := s.post_audiences_post })
      else none

def keptSubscriptions : List Subscription :=
  s.db.subscriptions.filter (fun r ↦ matchesTriple author channel ref r = false)

/-- A subscription that is a member of an audience keeps its row: the deletion fails. -/
def unsubscribe : Option AudienceTables :=
  if hmembers : ∀ m ∈ s.db.audienceMembers, ∃ r ∈ keptSubscriptions s author channel ref,
      r.subscriptionId = m.subscriptionId ∧ r.authorUserId = m.authorUserId then
    some { s with
      db := { s.db with
        subscriptions := keptSubscriptions s author channel ref
        subscriptions_key := nodup_filter s.db.subscriptions_key _
        subscriptions_unique := nodup_filter s.db.subscriptions_unique _
        members_subscription := hmembers }
      subscriptions_numbered := fun r hr ↦ s.subscriptions_numbered r (List.mem_of_mem_filter hr)
      name_unique := s.name_unique
      audiences_numbered := s.audiences_numbered
      post_audiences_post := s.post_audiences_post }
  else none

def isActive (db : Database) (r : Subscription) : Bool :=
  db.subscriptionStatuses.any (fun st ↦ st.id = r.statusId ∧ st.name = "active")

def isSubscriber : ViewerIdentity → Bool
  | .anonymous => false
  | .local_ userId => s.db.subscriptions.any (fun r ↦
      s.db.channels.any (fun c ↦ c.name = "local" ∧
        matchesTriple author c.id (localSubscriberRef userId) r) ∧ isActive s.db r)
  | .remote channelId subscriberRef => s.db.subscriptions.any (fun r ↦
      matchesTriple author channelId subscriberRef r ∧ isActive s.db r)

end Subscriptions

section Targets

inductive Dialect
  | sqlite
  | postgres
deriving DecidableEq

/-- Which targets of one Post exclude each other. NULLs are distinct in the primary key of SQLite. -/
def Dialect.clash : Dialect → PostAudience → PostAudience → Bool
  | .sqlite, a, b =>
    a.postId = b.postId ∧ a.targetKindId = b.targetKindId ∧ a.audienceId.isSome ∧
      a.audienceId = b.audienceId
  | .postgres, a, b =>
    a.postId = b.postId ∧ ((a.audienceId.isSome ∧ a.audienceId = b.audienceId) ∨
      (a.audienceId = none ∧ b.audienceId = none ∧ a.targetKindId = b.targetKindId))

variable (d : Dialect) (s : AudienceTables) (postId : Int64) (targets : List AudienceTarget)

/-- The row of a target, when its kind is seeded. -/
def postAudienceRow (row : String × Option ℤ) : Option PostAudience :=
  (s.db.targetKinds.find? (fun k ↦ k.name = row.1)).map (fun k ↦ ⟨postId, k.id, row.2⟩)

def targetRows : Option (List PostAudience) :=
  (targets.filterMap audienceTargetRow).mapM (postAudienceRow s postId)

def otherTargets : List PostAudience := s.db.postAudiences.filter (fun t ↦ t.postId ≠ postId)

structure Insertable (rows : List PostAudience) : Prop where
  post : ∃ p ∈ s.db.posts, p.postId = postId
  row : ∀ t ∈ rows, t.postId = postId
  kind : ∀ t ∈ rows, ∃ k ∈ s.db.targetKinds, k.id = t.targetKindId
  audience : ∀ t ∈ rows, ∀ i ∈ t.audienceId, ∃ a ∈ s.db.audiences, a.audienceId = i

def replaceRows (rows : List PostAudience) (h : Insertable s postId rows) : AudienceTables :=
  { s with
    db := { s.db with
      postAudiences := otherTargets s postId ++ rows
      post_audiences_kind := List.forall_mem_append.mpr
        ⟨fun t ht ↦ s.db.post_audiences_kind t (List.mem_of_mem_filter ht), h.kind⟩
      post_audiences_audience := List.forall_mem_append.mpr
        ⟨fun t ht ↦ s.db.post_audiences_audience t (List.mem_of_mem_filter ht), h.audience⟩ }
    post_audiences_post := List.forall_mem_append.mpr
      ⟨fun t ht ↦ s.post_audiences_post t (List.mem_of_mem_filter ht),
        fun t ht ↦ h.row t ht ▸ h.post⟩ }

variable {s postId targets} {rows : List PostAudience}

theorem targetRows_eq_some (h : targetRows s postId targets = some rows) :
    List.Forall₂ (fun row t ↦ t.postId = postId ∧ t.audienceId = row.2 ∧
      ∃ k ∈ s.db.targetKinds, k.id = t.targetKindId ∧ k.name = row.1)
      (targets.filterMap audienceTargetRow) rows := by
  unfold targetRows at h
  generalize targets.filterMap audienceTargetRow = named at h
  induction named generalizing rows with
  | nil =>
    cases h
    exact .nil
  | cons row named ih =>
    rw [List.mapM_cons] at h
    obtain ⟨t, ht, h⟩ := Option.bind_eq_some_iff.mp h
    obtain ⟨rest, hrest, h⟩ := Option.bind_eq_some_iff.mp h
    cases h
    obtain ⟨k, hk, rfl⟩ := Option.map_eq_some_iff.mp ht
    refine .cons ⟨rfl, rfl, k, List.mem_of_find?_eq_some hk, rfl, ?_⟩ (ih hrest)
    exact of_decide_eq_true (List.find?_some (p := fun k : Lookup ↦ decide (k.name = row.1)) hk)

theorem insertable_of_targetRows (h : targetRows s postId targets = some rows)
    (hpost : ∃ p ∈ s.db.posts, p.postId = postId)
    (haudience : ∀ t ∈ rows, ∀ i ∈ t.audienceId, ∃ a ∈ s.db.audiences, a.audienceId = i) :
    Insertable s postId rows := by
  have hrows := (targetRows_eq_some h).flip
  have hboth := (List.forall₂_and_left _ _).mp (hrows.imp (fun t row ht ↦
    (⟨⟨ht.1, ht.2.2.imp (fun k hk ↦ ⟨hk.1, hk.2.1⟩)⟩, ht⟩ :
      (t.postId = postId ∧ ∃ k ∈ s.db.targetKinds, k.id = t.targetKindId) ∧ _)))
  exact ⟨hpost, fun t ht ↦ (hboth.1 t ht).1, fun t ht ↦ (hboth.1 t ht).2, haudience⟩

end Targets

section Posts

variable (d : Dialect) (s : AudienceTables)

def replacePostAudiences (postId : Int64) (targets : List AudienceTarget) : Option AudienceTables :=
  match hrows : targetRows s postId targets with
  | none => none
  | some rows =>
    if h : rows.Pairwise (fun a b ↦ d.clash a b = false) ∧ (∃ p ∈ s.db.posts, p.postId = postId) ∧
        ∀ t ∈ rows, ∀ i ∈ t.audienceId, ∃ a ∈ s.db.audiences, a.audienceId = i then
      some (replaceRows s postId rows (insertable_of_targetRows hrows h.2.1 h.2.2))
    else none

structure Creatable (post : Post) : Prop where
  fresh : ∀ p ∈ s.db.posts, p.postId ≠ post.postId
  fit : s.db.posts.length + 1 < 2 ^ 63
  user : ∃ u ∈ s.db.users, u.userId = post.userId

theorem posts_key_concat {post : Post} (h : Creatable s post) :
    ((s.db.posts ++ [post]).map Post.postId).Nodup := by
  rw [List.map_append]
  refine List.nodup_append.mpr ⟨s.db.posts_key, List.nodup_singleton _, fun k hk k' hk' ↦ ?_⟩
  obtain ⟨p, hp, rfl⟩ := List.mem_map.mp hk
  rw [List.mem_singleton.mp hk']
  exact h.fresh p hp

theorem posts_fit_concat {post : Post} (h : Creatable s post) :
    (s.db.posts ++ [post]).length < 2 ^ 63 := by
  rw [List.length_append, List.length_singleton]
  exact h.fit

theorem posts_user_concat {post : Post} (h : Creatable s post) :
    ∀ p ∈ s.db.posts ++ [post], ∃ u ∈ s.db.users, u.userId = p.userId :=
  List.forall_mem_append.mpr ⟨s.db.posts_user, List.forall_mem_singleton.mpr h.user⟩

def withPost (post : Post) (h : Creatable s post) : AudienceTables :=
  { s with
    db := { s.db with
      posts := s.db.posts ++ [post]
      posts_key := posts_key_concat s h
      posts_fit := posts_fit_concat s h
      posts_user := posts_user_concat s h }
    post_audiences_post := fun t ht ↦ (s.post_audiences_post t ht).imp
      (fun _ hp ↦ ⟨List.mem_append_left _ hp.1, hp.2⟩) }

instance (post : Post) : Decidable (Creatable s post) :=
  decidable_of_iff ((∀ p ∈ s.db.posts, p.postId ≠ post.postId) ∧ s.db.posts.length + 1 < 2 ^ 63 ∧
      ∃ u ∈ s.db.users, u.userId = post.userId)
    ⟨fun h ↦ ⟨h.1, h.2.1, h.2.2⟩, fun h ↦ ⟨h.fresh, h.fit, h.user⟩⟩

/-- A Post and its targets, in one transaction. -/
def createPost (post : Post) (targets : List AudienceTarget) : Option AudienceTables :=
  if h : Creatable s post then replacePostAudiences d (withPost s post h) post.postId targets else none

/-- An editor gives a Post of their own other targets. -/
def updatePost (editor : ℤ) (postId : Int64) (targets : List AudienceTarget) : Option AudienceTables :=
  if ∃ p ∈ s.db.posts, p.postId = postId ∧ p.userId = editor then
    replacePostAudiences d s postId targets
  else none

structure KeepsKeys (f : Post → Post) : Prop where
  postId : ∀ p ∈ s.db.posts, (f p).postId = p.postId
  userId : ∀ p ∈ s.db.posts, (f p).userId = p.userId

theorem posts_key_map {f : Post → Post} (h : KeepsKeys s f) :
    ((s.db.posts.map f).map Post.postId).Nodup := by
  have hkeys : s.db.posts.map (Post.postId ∘ f) = s.db.posts.map Post.postId :=
    List.map_congr_left h.postId
  rw [List.map_map, hkeys]
  exact s.db.posts_key

theorem posts_fit_map (f : Post → Post) : (s.db.posts.map f).length < 2 ^ 63 := by
  rw [List.length_map]
  exact s.db.posts_fit

theorem posts_user_map {f : Post → Post} (h : KeepsKeys s f) :
    ∀ p ∈ s.db.posts.map f, ∃ u ∈ s.db.users, u.userId = p.userId := by
  intro p hp
  obtain ⟨q, hq, rfl⟩ := List.mem_map.mp hp
  rw [h.userId q hq]
  exact s.db.posts_user q hq

theorem post_audiences_post_map {f : Post → Post} (h : KeepsKeys s f) :
    ∀ t ∈ s.db.postAudiences, ∃ p ∈ s.db.posts.map f, p.postId = t.postId := by
  intro t ht
  obtain ⟨p, hp, hid⟩ := s.post_audiences_post t ht
  exact ⟨f p, List.mem_map_of_mem hp, (h.postId p hp).trans hid⟩

instance (f : Post → Post) : Decidable (KeepsKeys s f) :=
  decidable_of_iff ((∀ p ∈ s.db.posts, (f p).postId = p.postId) ∧ ∀ p ∈ s.db.posts, (f p).userId = p.userId)
    ⟨fun h ↦ ⟨h.1, h.2⟩, fun h ↦ ⟨h.postId, h.userId⟩⟩

/-- Any other change of the Posts, such as publishing, deleting or rendering one again. -/
def editPosts (f : Post → Post) : Option AudienceTables :=
  if h : KeepsKeys s f then
    some { s with
      db := { s.db with
        posts := s.db.posts.map f
        posts_key := posts_key_map s h
        posts_fit := posts_fit_map s f
        posts_user := posts_user_map s h }
      post_audiences_post := post_audiences_post_map s h }
  else none

end Posts

section Runs

/-- What a door does: a check of named targets reads only. -/
inductive Event
  | createAudience (author : ℤ) (name : Text)
  | renameAudience (author id : ℤ) (name : Text)
  | deleteAudience (author id : ℤ)
  | addMember (author audience subscription : ℤ)
  | removeMember (author audience subscription : ℤ)
  | subscribe (author channel : ℤ) (ref status : String)
  | unsubscribe (author channel : ℤ) (ref : String)
  | validate (author : ℤ) (targets : List AudienceTarget)
  | createPost (post : Post) (targets : List AudienceTarget)
  | updatePost (editor : ℤ) (postId : Int64) (targets : List AudienceTarget)
  | editPosts (f : Post → Post)

variable (d : Dialect)

def step (s : AudienceTables) : Event → Option AudienceTables
  | .createAudience author name => (createAudience s author name).toOption.map Prod.snd
  | .renameAudience author id name => (renameAudience s author id name).toOption
  | .deleteAudience author id => deleteAudience s author id
  | .addMember author audience subscription => (addMember s author audience subscription).toOption
  | .removeMember author audience subscription => some (removeMember s author audience subscription)
  | .subscribe author channel ref status => (subscribe s author channel ref status).map Prod.snd
  | .unsubscribe author channel ref => unsubscribe s author channel ref
  | .validate author targets => if validateNamedAudienceTargets s.db author targets then some s else none
  | .createPost post targets => createPost d s post targets
  | .updatePost editor postId targets => updatePost d s editor postId targets
  | .editPosts f => editPosts s f

/-- A transaction that fails leaves the tables as they were. -/
def next (s : AudienceTables) (e : Event) : AudienceTables := (step d s e).getD s

def run (s : AudienceTables) (events : List Event) : AudienceTables := events.foldl (next d) s

end Runs

end Jaunder.Storage.Audiences
