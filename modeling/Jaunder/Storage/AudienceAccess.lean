import Jaunder.Storage.AudienceOwnership

namespace Jaunder.Storage.AudienceAccess

open Foundation.Sql
open Jaunder.Common.Owned
open Jaunder.Storage.Schema Jaunder.Storage.Visibility Jaunder.Storage.Audiences
open Jaunder.Storage.AudienceOwnership

section Doors

/-- Every write of targets has been checked, at that moment or at any earlier one. -/
def Audited (d : Dialect) (s : AudienceTables) (events : List Event) : Prop :=
  ∀ before e after w, events = before ++ e :: after → Event.write e = some w →
    ∃ earlier later, before = earlier ++ Event.validate w.author w.targets :: later ∧
      validateNamedAudienceTargets (run d s earlier).db w.author w.targets = true

variable {d : Dialect} {s s' t : AudienceTables} {events : List Event} {p : Post} {w : Write}

/-- A check holds on until the write: an audience that is still there has the owner it had. -/
theorem validated_at_write (howners : SameOwners t s) (hwrote : Wrote s w s')
    (hvalid : validateNamedAudienceTargets t.db w.author w.targets = true) :
    validateNamedAudienceTargets s.db w.author w.targets = true := by
  refine List.all_eq_true.mpr (fun target htarget ↦ ?_)
  have hthen := List.all_eq_true.mp hvalid target htarget
  cases target with
  | public_ => rfl
  | private_ => rfl
  | subscribers => rfl
  | named id =>
    obtain ⟨a, ha, hauthor, rfl⟩ := mem_allowed.mp (of_decide_eq_true hthen)
    obtain ⟨row, hrow, -, haudience, -⟩ := hwrote.complete (.named a.audienceId) htarget _ rfl
    obtain ⟨b, hb, hbid⟩ := s'.db.post_audiences_audience row hrow a.audienceId haudience
    rw [hwrote.audiences] at hb
    have hle := t.audiences_numbered a ha
    have hbt := howners.owner b hb (by omega)
    have hsame := eq_of_key t.db.audiences_key hbt ha hbid
    exact decide_eq_true (mem_allowed.mpr ⟨b, hb, hsame ▸ hauthor, hbid⟩)

theorem owned_of_audited (hposts : s.db.posts = []) (haudited : Audited d s events)
    (hp : p ∈ (run d s events).db.posts) : NamedTargetsOwned (run d s events).db p := by
  rcases owned_after hp with ⟨t, w, hlast, -, howned⟩ | ⟨-, q, hq, -⟩
  · obtain ⟨-, before, e, after, hevents, rfl, hwrite, hwrote⟩ := lastWrite_spec hlast
    obtain ⟨earlier, later, rfl, hvalid⟩ := haudited before e after w hevents hwrite
    refine howned.mpr (validated_at_write ?_ hwrote hvalid)
    rw [run_append]
    exact run_sameOwners d _ _
  · rw [hposts] at hq
    cases hq

/-- A target with an audience is a named one. -/
def NamesAudiences (s : AudienceTables) : Prop :=
  ∀ t ∈ s.db.postAudiences, t.audienceId.isSome = true → KindNamed s.db t "named"

theorem next_namesAudiences (h : NamesAudiences s) (e : Event) : NamesAudiences (next d s e) := by
  intro t ht haudience
  have hkeep : t ∈ s.db.postAudiences → KindNamed (next d s e).db t "named" := by
    intro hmem
    obtain ⟨k, hk, hname⟩ := h t hmem haudience
    exact ⟨k, (next_sameOwners d s e).kinds ▸ hk, hname⟩
  rcases next_cases d s e with ⟨-, hsame⟩ | ⟨-, hquiet⟩ | ⟨w, -, -, hwrote⟩
  · rw [hsame] at ht
    exact hkeep ht
  · rw [hquiet.postAudiences] at ht
    exact hkeep ht
  · by_cases hid : t.postId = w.postId
    · obtain ⟨target, -, name, hrow, hkind⟩ := hwrote.sound t ht hid
      obtain ⟨id, hsome⟩ := Option.isSome_iff_exists.mp haudience
      rw [hsome] at hrow
      cases target with
      | public_ => cases hrow
      | private_ => cases hrow
      | subscribers => cases hrow
      | named id =>
        cases hrow
        exact hkind
    · exact hkeep ((hwrote.others t hid).mp ht)

theorem run_namesAudiences (h : NamesAudiences s) (events : List Event) :
    NamesAudiences (run d s events) := by
  induction events generalizing s with
  | nil => exact h
  | cons e events ih => exact ih (next_namesAudiences h e)

theorem postAudiences_of_noPosts (hposts : s.db.posts = []) : s.db.postAudiences = [] := by
  refine List.eq_nil_iff_forall_not_mem.mpr (fun t ht ↦ ?_)
  obtain ⟨p, hp, -⟩ := s.post_audiences_post t ht
  rw [hposts] at hp
  cases hp

theorem deleteAudience_eq_none_iff {author id : ℤ} : deleteAudience s author id = none ↔
    ∃ a ∈ s.db.audiences, (a.authorUserId = author ∧ a.audienceId = id) ∧
      ∃ t ∈ s.db.postAudiences, t.audienceId = some id := by
  unfold deleteAudience
  split
  next htargets =>
    refine iff_of_false (Option.some_ne_none _) ?_
    rintro ⟨a, ha, ⟨hauthor, hid⟩, t, ht, haudience⟩
    obtain ⟨b, hb, hbid⟩ := htargets t ht id haudience
    obtain ⟨hb, hkept⟩ := List.mem_filter.mp hb
    rw [eq_of_key s.db.audiences_key hb ha (hbid.trans hid.symm)] at hkept
    exact of_decide_eq_true hkept ⟨hauthor, hid⟩
  next htargets =>
    refine iff_of_true rfl ?_
    push Not at htargets
    obtain ⟨t, ht, i, haudience, hgone⟩ := htargets
    obtain ⟨a, ha, rfl⟩ := s.db.post_audiences_audience t ht i haudience
    have hdeleted : a.authorUserId = author ∧ a.audienceId = id := by
      by_contra hkept
      exact hgone a (List.mem_filter.mpr ⟨ha, decide_eq_true hkept⟩) rfl
    exact ⟨a, ha, hdeleted, t, ht, hdeleted.2 ▸ haudience⟩

/-- Under doors that check, the predicate admits to a Post its author, the public, and who has an
active subscription to the author, also where the targets are audiences. -/
theorem audited_admits (d : Dialect) (s : AudienceTables) (events : List Event)
    (hposts : s.db.posts = []) (haudited : Audited d s events) (p : Post)
    (hp : p ∈ (run d s events).db.posts) (viewer : ViewerIdentity) (before after : List Value)
    (env : Env) :
    ((resolutionWhere viewer (before.length + 1)).1.Holds (sqlTables (run d s events).db)
        (before ++ (resolutionWhere viewer (before.length + 1)).2.1.values ++ after)
        (env.bind "p" (postRow p)) ↔ Admits (run d s events).db viewer p (fun _ ↦ p.userId)) ∧
    (Admits (run d s events).db viewer p (fun _ ↦ p.userId) → viewer = .local_ p.userId ∨
      (∃ t, TargetOf (run d s events).db p "public" t) ∨
        ∃ r, SubscribedTo (run d s events).db viewer p.userId r) := by
  have howned := owned_of_audited hposts haudited hp
  refine ⟨(holds_iff_admits _ viewer p before after env).trans (admits_of_owned howned viewer), ?_⟩
  rintro (hauthor | hpublic | ⟨-, r, hr⟩ | ⟨_, -, _, -, -, _, -, -, r, hr, -⟩)
  · exact .inl hauthor
  · exact .inr (.inl hpublic)
  · exact .inr (.inr ⟨r, hr⟩)
  · exact .inr (.inr ⟨r, hr⟩)

/-- Under doors that check, an audience stays exactly as long as a Post of its owner targets it. -/
theorem audited_deletion (d : Dialect) (s : AudienceTables) (events : List Event)
    (hposts : s.db.posts = []) (haudited : Audited d s events) (author id : ℤ) :
    deleteAudience (run d s events) author id = none ↔
      ∃ p ∈ (run d s events).db.posts, p.userId = author ∧
        ∃ t, TargetOf (run d s events).db p "named" t ∧ t.audienceId = some id := by
  have hnames : NamesAudiences s := by
    intro t ht
    rw [postAudiences_of_noPosts hposts] at ht
    cases ht
  rw [deleteAudience_eq_none_iff]
  constructor
  · rintro ⟨a, ha, ⟨rfl, rfl⟩, t, ht, haudience⟩
    obtain ⟨p, hp, hid⟩ := (run d s events).post_audiences_post t ht
    have hkind := run_namesAudiences hnames events t ht (Option.isSome_of_eq_some haudience)
    have htarget : TargetOf (run d s events).db p "named" t := ⟨ht, hid.symm, hkind⟩
    have howner := owned_of_audited hposts haudited hp t htarget a ha haudience
    exact ⟨p, hp, howner.symm, t, htarget, haudience⟩
  · rintro ⟨p, hp, rfl, t, htarget, haudience⟩
    obtain ⟨a, ha, rfl⟩ := (run d s events).db.post_audiences_audience t htarget.1 id haudience
    have howner := owned_of_audited hposts haudited hp t htarget a ha haudience
    exact ⟨a, ha, ⟨howner, rfl⟩, t, htarget.1, haudience⟩

/-- User 1 makes an audience and a Post for it, which the door has checked. -/
def ownTarget : List Event :=
  [.createAudience 1 (.compose "friends"), .validate 1 [.named 8], .createPost adaPost [.named 8]]

theorem audited_ownTarget : Audited .sqlite beforePosts ownTarget := by
  intro before e after w hevents hwrite
  rcases before with _ | ⟨a, _ | ⟨b, _ | ⟨c, rest⟩⟩⟩
  · cases hevents
    cases hwrite
  · cases hevents
    cases hwrite
  · cases hevents
    cases hwrite
    exact ⟨[.createAudience 1 (.compose "friends")], [], rfl, rfl⟩
  · simp [ownTarget] at hevents

/-- The Post for the friends of user 1. -/
theorem audited_admits_ownTarget :
    ((resolutionWhere (.local_ 3) 1).1.Holds (sqlTables (run .sqlite beforePosts ownTarget).db)
        ([] ++ (resolutionWhere (.local_ 3) 1).2.1.values ++ [])
        (Env.bind (fun _ _ ↦ .null) "p" (postRow adaPost)) ↔
      Admits (run .sqlite beforePosts ownTarget).db (.local_ 3) adaPost (fun _ ↦ adaPost.userId)) ∧
    (Admits (run .sqlite beforePosts ownTarget).db (.local_ 3) adaPost (fun _ ↦ adaPost.userId) →
      ViewerIdentity.local_ 3 = .local_ adaPost.userId ∨
        (∃ t, TargetOf (run .sqlite beforePosts ownTarget).db adaPost "public" t) ∨
          ∃ r, SubscribedTo (run .sqlite beforePosts ownTarget).db (.local_ 3) adaPost.userId r) :=
  audited_admits .sqlite beforePosts ownTarget rfl audited_ownTarget adaPost List.mem_cons_self
    (.local_ 3) [] [] (fun _ _ ↦ .null)

theorem audited_deletion_ownTarget : deleteAudience (run .sqlite beforePosts ownTarget) 1 8 = none ↔
    ∃ p ∈ (run .sqlite beforePosts ownTarget).db.posts, p.userId = 1 ∧
      ∃ t, TargetOf (run .sqlite beforePosts ownTarget).db p "named" t ∧ t.audienceId = some 8 :=
  audited_deletion .sqlite beforePosts ownTarget rfl audited_ownTarget 1 8

end Doors

section Revocation

variable {d : Dialect} {s s' : AudienceTables} {author channel : ℤ} {ref : String}

/-- A subscription cannot end while it is a member of an audience. -/
theorem unsubscribe_eq_none_iff : unsubscribe s author channel ref = none ↔
    ∃ m ∈ s.db.audienceMembers, ∃ r ∈ s.db.subscriptions, r.subscriptionId = m.subscriptionId ∧
      matchesTriple author channel ref r = true := by
  unfold unsubscribe
  split
  next hmembers =>
    refine iff_of_false (Option.some_ne_none _) ?_
    rintro ⟨m, hm, r, hr, hid, htriple⟩
    obtain ⟨r', hr', hid', -⟩ := hmembers m hm
    obtain ⟨hr', hkept⟩ := List.mem_filter.mp hr'
    rw [eq_of_key s.db.subscriptions_key hr' hr (hid'.trans hid.symm)] at hkept
    rw [of_decide_eq_true hkept] at htriple
    cases htriple
  next hmembers =>
    refine iff_of_true rfl ?_
    push Not at hmembers
    obtain ⟨m, hm, hgone⟩ := hmembers
    obtain ⟨r, hr, hid, hauthor⟩ := s.db.members_subscription m hm
    refine ⟨m, hm, r, hr, hid, ?_⟩
    by_contra hkept
    exact hgone r (List.mem_filter.mpr ⟨hr, decide_eq_true (Bool.eq_false_iff.mpr hkept)⟩) hid hauthor

theorem matchesTriple_eq_true {r : Subscription} : matchesTriple author channel ref r = true ↔
    r.authorUserId = author ∧ r.channelId = channel ∧ r.subscriberRef = ref := decide_eq_true_iff

def NoneOf (s : AudienceTables) (author channel : ℤ) (ref : String) : Prop :=
  ∀ r ∈ s.db.subscriptions, matchesTriple author channel ref r = false

theorem next_noneOf (h : NoneOf s author channel ref) {e : Event}
    (he : ∀ status, e ≠ .subscribe author channel ref status) :
    NoneOf (next d s e) author channel ref := by
  intro r hr
  rcases next_cases d s e with ⟨-, hsame⟩ | ⟨-, hquiet⟩ | ⟨w, -, -, hwrote⟩
  · rw [hsame] at hr
    exact h r hr
  · rcases hquiet.subscriptions r hr with hr | hnew
    · exact h r hr
    · refine Bool.eq_false_iff.mpr (fun htriple ↦ ?_)
      obtain ⟨rfl, rfl, rfl⟩ := matchesTriple_eq_true.mp htriple
      cases e with
      | subscribe author channel ref status =>
        obtain ⟨rfl, rfl, rfl⟩ := matchesTriple_eq_true.mp hnew
        exact he status rfl
      | _ => cases hnew
  · rw [hwrote.subscriptions] at hr
    exact h r hr

theorem run_noneOf (h : NoneOf s author channel ref) {events : List Event}
    (hevents : ∀ e ∈ events, ∀ status, e ≠ .subscribe author channel ref status) :
    NoneOf (run d s events) author channel ref := by
  induction events generalizing s with
  | nil => exact h
  | cons e events ih =>
    obtain ⟨he, hevents⟩ := List.forall_mem_cons.mp hevents
    exact ih (next_noneOf h he) hevents

theorem viewerOn_unique {db : Database} {viewer : ViewerIdentity} {channel' : ℤ} {ref' : String}
    (h : ViewerOn db viewer channel ref) (h' : ViewerOn db viewer channel' ref') :
    channel' = channel ∧ ref' = ref := by
  cases viewer with
  | anonymous => exact h.elim
  | local_ userId =>
    obtain ⟨⟨c, hc, hname, rfl⟩, rfl⟩ := h
    obtain ⟨⟨c', hc', hname', rfl⟩, rfl⟩ := h'
    rw [eq_of_key db.channel_name_unique hc' hc (hname'.trans hname.symm)]
    exact ⟨rfl, rfl⟩
  | remote channelId subscriberRef =>
    obtain ⟨rfl, rfl⟩ := h
    exact h'

theorem not_subscribedTo (h : NoneOf s author channel ref) {viewer : ViewerIdentity}
    (hviewer : ViewerOn s.db viewer channel ref) (r : Subscription) :
    ¬SubscribedTo s.db viewer author r := by
  rintro ⟨hr, hauthor, hon, -⟩
  obtain ⟨hchannel, href⟩ := viewerOn_unique hviewer hon
  have hnone := h r hr
  rw [matchesTriple_eq_true.mpr ⟨hauthor, hchannel, href⟩] at hnone
  cases hnone

theorem isSubscriber_eq_true_iff {viewer : ViewerIdentity} : isSubscriber s author viewer = true ↔
    ∃ r, SubscribedTo s.db viewer author r := by
  have hactive : ∀ r, isActive s.db r = true ↔ Active s.db r := by
    intro r
    simp only [isActive, Active, List.any_eq_true, decide_eq_true_eq]
  cases viewer with
  | anonymous =>
    refine iff_of_false Bool.false_ne_true ?_
    rintro ⟨r, -, -, hon, -⟩
    exact hon
  | local_ userId =>
    simp only [isSubscriber, List.any_eq_true, decide_eq_true_eq,
      matchesTriple_eq_true, hactive, SubscribedTo, ViewerOn]
    constructor
    · rintro ⟨r, hr, ⟨c, hc, hname, hauthor, hchannel, href⟩, hactive⟩
      exact ⟨r, hr, hauthor, ⟨⟨c, hc, hname, hchannel.symm⟩, href⟩, hactive⟩
    · rintro ⟨r, hr, hauthor, ⟨⟨c, hc, hname, hchannel⟩, href⟩, hactive⟩
      exact ⟨r, hr, ⟨c, hc, hname, hauthor, hchannel.symm, href⟩, hactive⟩
  | remote channelId subscriberRef =>
    simp only [isSubscriber, List.any_eq_true, decide_eq_true_eq,
      matchesTriple_eq_true, hactive, SubscribedTo, ViewerOn, and_assoc]

/-- An unsubscription fails while its row is in an audience; once it succeeds, and until the same
subscriber comes back, they see of the author what the public sees. -/
theorem unsubscribed_until_subscribed (d : Dialect) (s : AudienceTables) (author channel : ℤ)
    (ref : String) :
    (unsubscribe s author channel ref = none ↔
      ∃ m ∈ s.db.audienceMembers, ∃ r ∈ s.db.subscriptions, r.subscriptionId = m.subscriptionId ∧
        matchesTriple author channel ref r = true) ∧
    ∀ s', unsubscribe s author channel ref = some s' → ∀ events,
      (∀ e ∈ events, ∀ status, e ≠ .subscribe author channel ref status) →
      ∀ viewer, ViewerOn (run d s' events).db viewer channel ref →
        isSubscriber (run d s' events) author viewer = false ∧
        ∀ p ∈ (run d s' events).db.posts, p.userId = author →
          NamedTargetsOwned (run d s' events).db p → ∀ before after env,
            ((resolutionWhere viewer (before.length + 1)).1.Holds (sqlTables (run d s' events).db)
              (before ++ (resolutionWhere viewer (before.length + 1)).2.1.values ++ after)
              (Env.bind env "p" (postRow p)) ↔
                viewer = .local_ author ∨ ∃ t, TargetOf (run d s' events).db p "public" t) := by
  refine ⟨unsubscribe_eq_none_iff, fun s' hs' events hevents viewer hviewer ↦ ?_⟩
  have hnone : NoneOf (run d s' events) author channel ref := by
    refine run_noneOf (fun r hr ↦ ?_) hevents
    rw [subscriptions_of_unsubscribe hs'] at hr
    exact of_decide_eq_true (List.mem_filter.mp hr).2
  have hgone := not_subscribedTo hnone hviewer
  refine ⟨?_, fun p _ hauthor howned before after env ↦ ?_⟩
  · rw [Bool.eq_false_iff, Ne, isSubscriber_eq_true_iff]
    rintro ⟨r, hr⟩
    exact hgone r hr
  · rw [holds_iff_admits, admits_of_owned howned, ← hauthor]
    constructor
    · rintro (hown | hpublic | ⟨-, r, hr⟩ | ⟨_, -, _, -, -, _, -, -, r, hr, -⟩)
      · exact .inl hown
      · exact .inr hpublic
      · exact absurd (hauthor ▸ hr) (hgone r)
      · exact absurd (hauthor ▸ hr) (hgone r)
    · rintro (hown | hpublic)
      · exact .inl hown
      · exact .inr (.inl hpublic)

/-- User 3 leaves user 2, who took them out of the audience before. -/
theorem unsubscribed_until_subscribed_local :
    ∃ s', unsubscribe (removeMember beforePosts 2 7 5) 2 1 "3" = some s' ∧
      isSubscriber (run .sqlite s' foreignTarget) 2 (.local_ 3) = false :=
  ⟨_, rfl, ((unsubscribed_until_subscribed .sqlite (removeMember beforePosts 2 7 5) 2 1 "3").2 _ rfl
    foreignTarget (List.forall_mem_singleton.mpr (fun _ h ↦ Event.noConfusion h)) (.local_ 3)
    ⟨⟨⟨1, "local"⟩, List.mem_cons_self, rfl, rfl⟩, rfl⟩).1⟩

end Revocation

end Jaunder.Storage.AudienceAccess
