import Jaunder.Storage.Audiences

namespace Jaunder.Storage.AudienceOwnership

open Jaunder.Common.Owned
open Jaunder.Storage.Schema Jaunder.Storage.Visibility Jaunder.Storage.Audiences

/-- A write of the targets of a Post by its author. -/
structure Write where
  postId : Int64
  author : ℤ
  targets : List AudienceTarget

def Event.write : Event → Option Write
  | .createPost post targets => some ⟨post.postId, post.userId, targets⟩
  | .updatePost editor postId targets => some ⟨postId, editor, targets⟩
  | _ => none

/-- Whether a row of the subscriptions may come from the event. -/
def Event.subscribes (r : Subscription) : Event → Bool
  | .subscribe author channel ref _ => matchesTriple author channel ref r
  | _ => false

section Changes

/-- An audience keeps its owner, and its number is not given out again. -/
structure SameOwners (s s' : AudienceTables) : Prop where
  kinds : s'.db.targetKinds = s.db.targetKinds
  numbered : s.lastAudienceId ≤ s'.lastAudienceId
  owner : ∀ a ∈ s'.db.audiences, a.audienceId ≤ s.lastAudienceId → a ∈ s.db.audiences

theorem SameOwners.refl (s : AudienceTables) : SameOwners s s :=
  ⟨rfl, le_refl _, fun _ ha _ ↦ ha⟩

theorem SameOwners.trans {s s' s'' : AudienceTables} (h : SameOwners s s') (h' : SameOwners s' s'') :
    SameOwners s s'' :=
  ⟨h'.kinds.trans h.kinds, h.numbered.trans h'.numbered,
    fun a ha hle ↦ h.owner a (h'.owner a ha (hle.trans h.numbered)) hle⟩

/-- A step that leaves the targets and the authors of the Posts alone. -/
structure Quiet (s : AudienceTables) (new : Subscription → Bool) (s' : AudienceTables) : Prop
    extends SameOwners s s' where
  subscriptions : ∀ r ∈ s'.db.subscriptions, r ∈ s.db.subscriptions ∨ new r = true
  postAudiences : s'.db.postAudiences = s.db.postAudiences
  posts : ∀ p ∈ s'.db.posts, ∃ q ∈ s.db.posts, q.postId = p.postId ∧ q.userId = p.userId

/-- A step that gives a Post the targets of a write. -/
structure Wrote (s : AudienceTables) (w : Write) (s' : AudienceTables) : Prop where
  kinds : s'.db.targetKinds = s.db.targetKinds
  audiences : s'.db.audiences = s.db.audiences
  subscriptions : s'.db.subscriptions = s.db.subscriptions
  numbered : s'.lastAudienceId = s.lastAudienceId
  others : ∀ t, t.postId ≠ w.postId → (t ∈ s'.db.postAudiences ↔ t ∈ s.db.postAudiences)
  sound : ∀ t ∈ s'.db.postAudiences, t.postId = w.postId → ∃ target ∈ w.targets, ∃ name,
    audienceTargetRow target = some (name, t.audienceId) ∧ KindNamed s'.db t name
  complete : ∀ target ∈ w.targets, ∀ row, audienceTargetRow target = some row →
    ∃ t ∈ s'.db.postAudiences, t.postId = w.postId ∧ t.audienceId = row.2 ∧ KindNamed s'.db t row.1
  author : ∃ p ∈ s'.db.posts, p.postId = w.postId ∧ p.userId = w.author
  posts : ∀ p ∈ s'.db.posts, p.postId ≠ w.postId → p ∈ s.db.posts

theorem Wrote.sameOwners {s s' : AudienceTables} {w : Write} (h : Wrote s w s') : SameOwners s s' :=
  ⟨h.kinds, h.numbered.ge, fun _ ha _ ↦ h.audiences ▸ ha⟩

theorem quiet_of_eq {s s' : AudienceTables} {new : Subscription → Bool}
    (hkinds : s'.db.targetKinds = s.db.targetKinds) (hnumbered : s'.lastAudienceId = s.lastAudienceId)
    (haudiences : ∀ a ∈ s'.db.audiences, a ∈ s.db.audiences)
    (hsubscriptions : ∀ r ∈ s'.db.subscriptions, r ∈ s.db.subscriptions ∨ new r = true)
    (htargets : s'.db.postAudiences = s.db.postAudiences) (hposts : s'.db.posts = s.db.posts) :
    Quiet s new s' where
  kinds := hkinds
  numbered := hnumbered.ge
  owner := fun a ha _ ↦ haudiences a ha
  subscriptions := hsubscriptions
  postAudiences := htargets
  posts := fun p hp ↦ ⟨p, hposts ▸ hp, rfl, rfl⟩

end Changes

section Operations

variable {d : Dialect} {s s' : AudienceTables} {author id : ℤ} {name : Text} {new : Subscription → Bool}

theorem createAudience_quiet (h : createAudience s author name = .ok (id, s')) : Quiet s new s' := by
  unfold createAudience at h
  split at h
  · cases h
  · split at h
    · cases h
      have hlt : ¬s.lastAudienceId + 1 ≤ s.lastAudienceId := by omega
      refine ⟨⟨rfl, (not_le.mp hlt).le, fun a ha hle ↦ ?_⟩, fun r hr ↦ .inl hr, rfl,
        fun p hp ↦ ⟨p, hp, rfl, rfl⟩⟩
      rcases List.mem_append.mp ha with ha | ha
      · exact ha
      · rw [List.mem_singleton.mp ha] at hle
        exact absurd hle hlt
    · cases h

theorem renameAudience_quiet (h : renameAudience s author id name = .ok s') : Quiet s new s' := by
  unfold renameAudience at h
  split at h
  · split at h
    · cases h
    · cases h
      exact quiet_of_eq rfl rfl (fun _ ha ↦ ha) (fun _ hr ↦ .inl hr) rfl rfl
  · cases h

theorem deleteAudience_quiet (h : deleteAudience s author id = some s') : Quiet s new s' := by
  unfold deleteAudience at h
  split at h
  · cases h
    exact quiet_of_eq rfl rfl (fun _ ha ↦ List.mem_of_mem_filter ha) (fun _ hr ↦ .inl hr) rfl rfl
  · cases h

theorem addMember_quiet {subscription : ℤ} (h : addMember s author id subscription = .ok s') :
    Quiet s new s' := by
  unfold addMember at h
  split at h
  · cases h
    exact quiet_of_eq rfl rfl (fun _ ha ↦ ha) (fun _ hr ↦ .inl hr) rfl rfl
  · split at h
    · cases h
      exact quiet_of_eq rfl rfl (fun _ ha ↦ ha) (fun _ hr ↦ .inl hr) rfl rfl
    · cases h

theorem subscribe_quiet {channel : ℤ} {ref status : String}
    (h : subscribe s author channel ref status = some (id, s')) :
    Quiet s (matchesTriple author channel ref) s' := by
  unfold subscribe at h
  split at h
  · cases h
  · split at h
    · cases h
      exact quiet_of_eq rfl rfl (fun _ ha ↦ ha) (fun _ hr ↦ .inl hr) rfl rfl
    · split at h
      · cases h
        refine quiet_of_eq rfl rfl (fun _ ha ↦ ha) (fun r hr ↦ ?_) rfl rfl
        rcases List.mem_append.mp hr with hr | hr
        · exact .inl hr
        · rw [List.mem_singleton.mp hr]
          exact .inr (decide_eq_true ⟨rfl, rfl, rfl⟩)
      · cases h

theorem subscriptions_of_unsubscribe {channel : ℤ} {ref : String}
    (h : unsubscribe s author channel ref = some s') :
    s'.db.subscriptions = keptSubscriptions s author channel ref := by
  unfold unsubscribe at h
  split at h
  · cases h
    rfl
  · cases h

theorem unsubscribe_quiet {channel : ℤ} {ref : String}
    (h : unsubscribe s author channel ref = some s') : Quiet s new s' := by
  unfold unsubscribe at h
  split at h
  · cases h
    exact quiet_of_eq rfl rfl (fun _ ha ↦ ha) (fun _ hr ↦ .inl (List.mem_of_mem_filter hr)) rfl rfl
  · cases h

theorem editPosts_quiet {f : Post → Post} (h : editPosts s f = some s') : Quiet s new s' := by
  unfold editPosts at h
  split at h
  next hkeys =>
    cases h
    refine ⟨⟨rfl, le_refl _, fun _ ha _ ↦ ha⟩, fun _ hr ↦ .inl hr, rfl, fun p hp ↦ ?_⟩
    obtain ⟨q, hq, rfl⟩ := List.mem_map.mp hp
    exact ⟨q, hq, (hkeys.postId q hq).symm, (hkeys.userId q hq).symm⟩
  next => cases h

theorem exists_of_forall₂ {α β : Type} {R : α → β → Prop} {as : List α} {bs : List β}
    (h : List.Forall₂ R as bs) : (∀ a ∈ as, ∃ b ∈ bs, R a b) ∧ ∀ b ∈ bs, ∃ a ∈ as, R a b := by
  induction h with
  | nil => exact ⟨List.forall_mem_nil _, List.forall_mem_nil _⟩
  | cons hab _ ih =>
    refine ⟨List.forall_mem_cons.mpr ⟨⟨_, List.mem_cons_self, hab⟩, fun a ha ↦ ?_⟩,
      List.forall_mem_cons.mpr ⟨⟨_, List.mem_cons_self, hab⟩, fun b hb ↦ ?_⟩⟩
    · obtain ⟨b, hb, hab⟩ := ih.1 a ha
      exact ⟨b, List.mem_cons_of_mem _ hb, hab⟩
    · obtain ⟨a, ha, hab⟩ := ih.2 b hb
      exact ⟨a, List.mem_cons_of_mem _ ha, hab⟩

/-- The targets that a Post has after their replacement are the ones that were given. -/
theorem replacePostAudiences_wrote {postId : Int64} {targets : List AudienceTarget}
    (h : replacePostAudiences d s postId targets = some s')
    (hauthor : ∃ p ∈ s.db.posts, p.postId = postId ∧ p.userId = author) :
    Wrote s ⟨postId, author, targets⟩ s' := by
  unfold replacePostAudiences at h
  split at h
  · cases h
  · next rows hrows =>
    split at h
    · cases h
      have hrow := exists_of_forall₂ (targetRows_eq_some hrows)
      refine ⟨rfl, rfl, rfl, rfl, fun t ht ↦ ?_, fun t ht hid ↦ ?_, fun target htarget row hname ↦ ?_,
        hauthor, fun p hp _ ↦ hp⟩
      · constructor
        · intro hmem
          rcases List.mem_append.mp hmem with hmem | hmem
          · exact List.mem_of_mem_filter hmem
          · obtain ⟨-, -, hid, -⟩ := hrow.2 t hmem
            exact absurd hid ht
        · intro hmem
          exact List.mem_append_left _ (List.mem_filter.mpr ⟨hmem, decide_eq_true ht⟩)
      · rcases List.mem_append.mp ht with ht | ht
        · exact absurd hid (of_decide_eq_true (List.mem_filter.mp ht).2)
        · obtain ⟨row, hrow, -, haudience, hkind⟩ := hrow.2 t ht
          obtain ⟨target, htarget, hname⟩ := List.mem_filterMap.mp hrow
          exact ⟨target, htarget, row.1, by rw [hname, haudience], hkind⟩
      · obtain ⟨t, ht, hid, haudience, hkind⟩ :=
          hrow.1 row (List.mem_filterMap.mpr ⟨target, htarget, hname⟩)
        exact ⟨t, List.mem_append_right _ ht, hid, haudience, hkind⟩
    · cases h

theorem createPost_wrote {post : Post} {targets : List AudienceTarget}
    (h : createPost d s post targets = some s') : Wrote s ⟨post.postId, post.userId, targets⟩ s' := by
  unfold createPost at h
  split at h
  next hnew =>
    have hwrote := replacePostAudiences_wrote h
      ⟨post, List.mem_append_right _ List.mem_cons_self, rfl, rfl⟩
    refine ⟨hwrote.kinds, hwrote.audiences, hwrote.subscriptions, hwrote.numbered, hwrote.others,
      hwrote.sound, hwrote.complete, hwrote.author, fun p hp hid ↦ ?_⟩
    rcases List.mem_append.mp (hwrote.posts p hp hid) with hp | hp
    · exact hp
    · rw [List.mem_singleton.mp hp] at hid
      exact absurd rfl hid
  next => cases h

theorem updatePost_wrote {editor : ℤ} {postId : Int64} {targets : List AudienceTarget}
    (h : updatePost d s editor postId targets = some s') : Wrote s ⟨postId, editor, targets⟩ s' := by
  unfold updatePost at h
  split at h
  next hauthor => exact replacePostAudiences_wrote h hauthor
  next => cases h

theorem eq_ok_of_toOption {ε α : Type} {x : Except ε α} {a : α} (h : x.toOption = some a) :
    x = .ok a := by
  cases x with
  | error e => cases h
  | ok b =>
    cases h
    rfl

/-- What a step can do. -/
theorem step_cases {e : Event} (h : step d s e = some s') :
    (Event.write e = none ∧ Quiet s (fun r ↦ Event.subscribes r e) s') ∨
      ∃ w, Event.write e = some w ∧ Wrote s w s' := by
  cases e with
  | createAudience author name =>
    obtain ⟨⟨id, t⟩, ht, rfl⟩ := Option.map_eq_some_iff.mp h
    exact .inl ⟨rfl, createAudience_quiet (eq_ok_of_toOption ht)⟩
  | renameAudience author id name => exact .inl ⟨rfl, renameAudience_quiet (eq_ok_of_toOption h)⟩
  | deleteAudience author id => exact .inl ⟨rfl, deleteAudience_quiet h⟩
  | addMember author audience subscription =>
    exact .inl ⟨rfl, addMember_quiet (eq_ok_of_toOption h)⟩
  | removeMember author audience subscription =>
    cases h
    exact .inl ⟨rfl, quiet_of_eq rfl rfl (fun _ ha ↦ ha) (fun _ hr ↦ .inl hr) rfl rfl⟩
  | subscribe author channel ref status =>
    obtain ⟨⟨id, t⟩, ht, rfl⟩ := Option.map_eq_some_iff.mp h
    exact .inl ⟨rfl, subscribe_quiet ht⟩
  | unsubscribe author channel ref => exact .inl ⟨rfl, unsubscribe_quiet h⟩
  | validate author targets =>
    obtain ⟨-, hs⟩ := Option.ite_none_right_eq_some.mp h
    cases hs
    exact .inl ⟨rfl, quiet_of_eq rfl rfl (fun _ ha ↦ ha) (fun _ hr ↦ .inl hr) rfl rfl⟩
  | createPost post targets => exact .inr ⟨_, rfl, createPost_wrote h⟩
  | updatePost editor postId targets => exact .inr ⟨_, rfl, updatePost_wrote h⟩
  | editPosts f => exact .inl ⟨rfl, editPosts_quiet h⟩

end Operations

section Ownership

variable {d : Dialect} {s s' : AudienceTables} {p : Post} {w : Write}

theorem next_cases (d : Dialect) (s : AudienceTables) (e : Event) :
    (step d s e = none ∧ next d s e = s) ∨
      (Event.write e = none ∧ Quiet s (fun r ↦ Event.subscribes r e) (next d s e)) ∨
        ∃ w, Event.write e = some w ∧ (step d s e).isSome = true ∧ Wrote s w (next d s e) := by
  unfold next
  cases h : step d s e with
  | none => exact .inl ⟨rfl, rfl⟩
  | some s' =>
    rcases step_cases h with hquiet | ⟨w, hw, hwrote⟩
    · exact .inr (.inl hquiet)
    · exact .inr (.inr ⟨w, hw, rfl, hwrote⟩)

theorem next_sameOwners (d : Dialect) (s : AudienceTables) (e : Event) : SameOwners s (next d s e) := by
  rcases next_cases d s e with ⟨-, h⟩ | ⟨-, h⟩ | ⟨w, -, -, h⟩
  · rw [h]
    exact SameOwners.refl s
  · exact h.toSameOwners
  · exact h.sameOwners

theorem run_cons (d : Dialect) (s : AudienceTables) (e : Event) (events : List Event) :
    run d s (e :: events) = run d (next d s e) events := rfl

theorem run_append (d : Dialect) (s : AudienceTables) (events later : List Event) :
    run d s (events ++ later) = run d (run d s events) later := List.foldl_append

theorem run_sameOwners (d : Dialect) (s : AudienceTables) (events : List Event) :
    SameOwners s (run d s events) := by
  induction events generalizing s with
  | nil => exact SameOwners.refl s
  | cons e events ih => exact (next_sameOwners d s e).trans (ih (next d s e))

theorem mem_allowed {db : Database} {author id : ℤ} :
    id ∈ (db.audiences.filter (fun a ↦ a.authorUserId = author)).map Audience.audienceId ↔
      ∃ a ∈ db.audiences, a.authorUserId = author ∧ a.audienceId = id := by
  simp only [List.mem_map, List.mem_filter, decide_eq_true_eq, and_assoc]

/-- A write leaves the named targets of its Post owned exactly when its author owned them before. -/
theorem Wrote.owned_iff (h : Wrote s w s') (hid : p.postId = w.postId) (hauthor : p.userId = w.author) :
    NamedTargetsOwned s'.db p ↔ validateNamedAudienceTargets s.db w.author w.targets = true := by
  have hsame : validateNamedAudienceTargets s'.db w.author w.targets =
      validateNamedAudienceTargets s.db w.author w.targets := by
    unfold validateNamedAudienceTargets
    rw [h.audiences]
  rw [← hsame]
  constructor
  · intro howned
    refine List.all_eq_true.mpr (fun target htarget ↦ ?_)
    cases target with
    | public_ => rfl
    | private_ => rfl
    | subscribers => rfl
    | named id =>
      obtain ⟨t, ht, hpost, haudience, hkind⟩ := h.complete (.named id) htarget _ rfl
      obtain ⟨a, ha, haid⟩ := s'.db.post_audiences_audience t ht id haudience
      refine decide_eq_true (mem_allowed.mpr ⟨a, ha, ?_, haid⟩)
      exact (howned t ⟨ht, hpost.trans hid.symm, hkind⟩ a ha (haid ▸ haudience)).trans hauthor
  · intro hvalid
    exact owned_of_validated (hauthor ▸ hvalid) (fun t ht hpost ↦ h.sound t ht (hpost.trans hid))

theorem owned_congr {q : Post} (hid : q.postId = p.postId) (huser : q.userId = p.userId)
    (howners : SameOwners s s') (htargets : ∀ t, t.postId = p.postId →
      (t ∈ s'.db.postAudiences ↔ t ∈ s.db.postAudiences)) :
    NamedTargetsOwned s'.db p ↔ NamedTargetsOwned s.db q := by
  have hkind : ∀ t name, KindNamed s'.db t name ↔ KindNamed s.db t name := by
    intro t name
    unfold KindNamed
    rw [howners.kinds]
  constructor
  · rintro h t ⟨ht, hpost, hnamed⟩ a ha haudience
    have ht' := (htargets t (hpost.trans hid)).mpr ht
    obtain ⟨b, hb, hbid⟩ := s'.db.post_audiences_audience t ht' a.audienceId haudience
    have hle := s.audiences_numbered a ha
    have hbs := howners.owner b hb (by omega)
    rw [← eq_of_key s.db.audiences_key hbs ha hbid, huser]
    exact h t ⟨ht', hpost.trans hid, (hkind t _).mpr hnamed⟩ b hb (hbid ▸ haudience)
  · rintro h t ⟨ht, hpost, hnamed⟩ a ha haudience
    have ht' := (htargets t hpost).mp ht
    obtain ⟨b, hb, hbid⟩ := s.db.post_audiences_audience t ht' a.audienceId haudience
    have hle := s.audiences_numbered b hb
    have has := howners.owner a ha (by omega)
    rw [← huser]
    exact h t ⟨ht', hpost.trans hid.symm, (hkind t _).mp hnamed⟩ a has haudience

end Ownership

section LastWrite

variable (d : Dialect) (s : AudienceTables) (events : List Event)

/-- The last write of the targets of a Post that succeeds in a run, with the tables that it found. -/
def lastWrite (postId : Int64) : AudienceTables → List Event → Option (AudienceTables × Write)
  | _, [] => none
  | s, e :: events => (lastWrite postId (next d s e) events).or
      (if (step d s e).isSome then ((Event.write e).filter (fun w ↦ w.postId = postId)).map (s, ·)
       else none)

variable {d s events} {p : Post} {postId : Int64} {t : AudienceTables} {w : Write}

theorem lastWrite_spec (h : lastWrite d postId s events = some (t, w)) :
    w.postId = postId ∧ ∃ before e after, events = before ++ e :: after ∧ t = run d s before ∧
      Event.write e = some w ∧ Wrote t w (next d t e) := by
  induction events generalizing s with
  | nil => cases h
  | cons e events ih =>
    rw [lastWrite] at h
    rcases Option.or_eq_some_iff.mp h with h | ⟨-, h⟩
    · obtain ⟨hid, before, e', after, rfl, ht, hwrite, hwrote⟩ := ih h
      exact ⟨hid, e :: before, e', after, rfl, ht, hwrite, hwrote⟩
    · obtain ⟨hsome, h⟩ := Option.ite_none_right_eq_some.mp h
      obtain ⟨w', hfilter, hpair⟩ := Option.map_eq_some_iff.mp h
      cases hpair
      obtain ⟨hwrite, hid⟩ := Option.filter_eq_some_iff.mp hfilter
      refine ⟨of_decide_eq_true hid, [], e, events, rfl, rfl, hwrite, ?_⟩
      rcases next_cases d t e with ⟨hnone, -⟩ | ⟨hnone, -⟩ | ⟨w', hw', -, hwrote⟩
      · rw [hnone] at hsome
        cases hsome
      · rw [hwrite] at hnone
        cases hnone
      · rw [hwrite] at hw'
        cases hw'
        exact hwrote

/-- A Post that a run leaves has had its targets written, or they are the ones from before the run. -/
theorem owned_after (hp : p ∈ (run d s events).db.posts) :
    (∃ t w, lastWrite d p.postId s events = some (t, w) ∧ w.author = p.userId ∧
      (NamedTargetsOwned (run d s events).db p ↔
        validateNamedAudienceTargets t.db w.author w.targets = true)) ∨
    (lastWrite d p.postId s events = none ∧ ∃ q ∈ s.db.posts, q.postId = p.postId ∧
      q.userId = p.userId ∧ (NamedTargetsOwned (run d s events).db p ↔ NamedTargetsOwned s.db q)) := by
  induction events generalizing s with
  | nil => exact .inr ⟨rfl, p, hp, rfl, rfl, Iff.rfl⟩
  | cons e events ih =>
    rw [run_cons] at hp ⊢
    rcases ih hp with ⟨t, w, hlast, hauthor, howned⟩ | ⟨hlast, q, hq, hid, huser, howned⟩
    · exact .inl ⟨t, w, by rw [lastWrite, hlast]; rfl, hauthor, howned⟩
    · rw [lastWrite, hlast, Option.none_or]
      rcases next_cases d s e with ⟨hnone, hsame⟩ | ⟨hnone, hquiet⟩ | ⟨w, hwrite, hsome, hwrote⟩
      · rw [hsame] at hq howned
        exact .inr ⟨by rw [hnone]; rfl, q, hq, hid, huser, by rw [hsame]; exact howned⟩
      · obtain ⟨q', hq', hid', huser'⟩ := hquiet.posts q hq
        refine .inr ⟨by rw [hnone]; exact ite_self _, q', hq', hid'.trans hid, huser'.trans huser, ?_⟩
        refine howned.trans (owned_congr hid' huser' hquiet.toSameOwners (fun t _ ↦ ?_))
        rw [hquiet.postAudiences]
      · rw [hwrite, if_pos hsome]
        by_cases hpost : w.postId = p.postId
        · obtain ⟨q', hq', hid', hauthor⟩ := hwrote.author
          have hsame : q' = q := eq_of_key (next d s e).db.posts_key hq' hq (by rw [hid', hpost, hid])
          subst hsame
          refine .inl ⟨s, w, ?_, hauthor.symm.trans huser, howned.trans (hwrote.owned_iff hid' hauthor)⟩
          rw [Option.filter_some, if_pos (decide_eq_true hpost)]
          rfl
        · have hne : q.postId ≠ w.postId := fun h ↦ hpost (h.symm.trans hid)
          refine .inr ⟨?_, q, hwrote.posts q hq hne, hid, huser, howned.trans ?_⟩
          · rw [Option.filter_some, if_neg (by simpa using hpost)]
            rfl
          · refine owned_congr rfl rfl hwrote.sameOwners (fun t ht ↦ hwrote.others t ?_)
            rw [ht]
            exact hne

/-- The named targets of a Post are its author's own audiences exactly when they were at the last
write of them; no later event on any audience changes it. -/
theorem owned_iff_validated_at_last_write (d : Dialect) (s : AudienceTables) (hposts : s.db.posts = [])
    (events : List Event) (p : Post) (hp : p ∈ (run d s events).db.posts) :
    ∃ t w, lastWrite d p.postId s events = some (t, w) ∧ w.author = p.userId ∧
      (NamedTargetsOwned (run d s events).db p ↔
        validateNamedAudienceTargets t.db w.author w.targets = true) := by
  rcases owned_after hp with h | ⟨-, q, hq, -⟩
  · exact h
  · rw [hposts] at hq
    cases hq

/-- Before the first Post; user 2 has an audience. -/
def beforePosts : AudienceTables where
  db := { foreignAudience with
    posts := []
    postAudiences := []
    posts_key := List.nodup_nil
    posts_fit := adaSite.posts_fit
    posts_user := List.forall_mem_nil _
    post_audiences_kind := List.forall_mem_nil _
    post_audiences_audience := List.forall_mem_nil _ }
  nameOf := fun _ ↦ .compose "friends"
  lastAudienceId := 7
  lastSubscriptionId := 5
  name_unique := fun _ ha _ hb _ _ ↦ (List.mem_singleton.mp ha).trans (List.mem_singleton.mp hb).symm
  audiences_numbered := List.forall_mem_singleton.mpr (le_refl 7)
  subscriptions_numbered := List.forall_mem_singleton.mpr (le_refl 5)
  post_audiences_post := List.forall_mem_nil _

def foreignTarget : List Event := [.createPost adaPost [.named 7]]

theorem owned_iff_validated_at_last_write_foreignTarget :
    ∃ t w, lastWrite .sqlite adaPost.postId beforePosts foreignTarget = some (t, w) ∧
      w.author = adaPost.userId ∧
      (NamedTargetsOwned (run .sqlite beforePosts foreignTarget).db adaPost ↔
        validateNamedAudienceTargets t.db w.author w.targets = true) :=
  owned_iff_validated_at_last_write .sqlite beforePosts rfl foreignTarget adaPost List.mem_cons_self

end LastWrite

end Jaunder.Storage.AudienceOwnership
