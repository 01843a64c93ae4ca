import Jaunder.Foundation.Sql
import Jaunder.Storage.Schema

namespace Jaunder.Storage.Visibility

open Foundation.Sql
open Jaunder.Storage.Schema

def postRow (p : Post) : Row
  | "post_id" => .int p.postId.toInt
  | "user_id" => .int p.userId
  | _ => .null

def lookupRow (id : String) (r : Lookup) : Row :=
  fun c ↦ if c = id then .int r.id else if c = "name" then .text r.name else .null

def subscriptionRow (s : Subscription) : Row
  | "subscription_id" => .int s.subscriptionId
  | "author_user_id" => .int s.authorUserId
  | "channel_id" => .int s.channelId
  | "subscriber_ref" => .text s.subscriberRef
  | "status_id" => .int s.statusId
  | _ => .null

def memberRow (m : AudienceMember) : Row
  | "audience_id" => .int m.audienceId
  | "subscription_id" => .int m.subscriptionId
  | "author_user_id" => .int m.authorUserId
  | _ => .null

def targetRow (t : PostAudience) : Row
  | "post_id" => .int t.postId.toInt
  | "target_kind_id" => .int t.targetKindId
  | "audience_id" => t.audienceId.elim .null .int
  | _ => .null

/-- The tables that the resolution predicate reads. -/
def sqlTables (db : Database) : Tables
  | "channels" => db.channels.map (lookupRow "channel_id")
  | "subscription_statuses" => db.subscriptionStatuses.map (lookupRow "status_id")
  | "target_kinds" => db.targetKinds.map (lookupRow "kind_id")
  | "subscriptions" => db.subscriptions.map subscriptionRow
  | "audience_members" => db.audienceMembers.map memberRow
  | "post_audiences" => db.postAudiences.map targetRow
  | _ => []

inductive ViewerIdentity
  | anonymous
  | local_ (userId : ℤ)
  | remote (channelId : ℤ) (subscriberRef : String)
deriving DecidableEq

def localSubscriberRef (userId : ℤ) : String := toString userId

inductive ResolutionBinds
  | anonymous
  | local_ (userId : ℤ) (subref : String)
  | remote (channel : ℤ) (subref : String)
deriving DecidableEq

def localChannel : Expr := .lookup "channel_id" "channels" "name" "local"

/-- The text of the predicate with its five holes. -/
def resolutionTemplate (author subChannel subRefnum namedChannel namedRefnum : Expr) : Pred :=
  .or (.eq (.column "p" "user_id") author)
    (.existsFrom [("post_audiences", "pa"), ("target_kinds", "tk")]
      (.eq (.column "tk" "kind_id") (.column "pa" "target_kind_id"))
      (.and (.eq (.column "pa" "post_id") (.column "p" "post_id"))
        (.or (.eq (.column "tk" "name") (.literal "public"))
          (.or
            (.and (.eq (.column "tk" "name") (.literal "subscribers"))
              (.existsFrom [("subscriptions", "s"), ("subscription_statuses", "st")]
                (.eq (.column "st" "status_id") (.column "s" "status_id"))
                (.and (.eq (.column "s" "author_user_id") (.column "p" "user_id"))
                  (.and (.eq (.column "s" "channel_id") subChannel)
                    (.and (.eq (.column "s" "subscriber_ref") subRefnum)
                      (.eq (.column "st" "name") (.literal "active")))))))
            (.and (.eq (.column "tk" "name") (.literal "named"))
              (.existsFrom
                [("audience_members", "am"), ("subscriptions", "s"),
                  ("subscription_statuses", "st")]
                (.and (.eq (.column "s" "subscription_id") (.column "am" "subscription_id"))
                  (.eq (.column "st" "status_id") (.column "s" "status_id")))
                (.and (.eq (.column "am" "audience_id") (.column "pa" "audience_id"))
                  (.and (.eq (.column "s" "channel_id") namedChannel)
                    (.and (.eq (.column "s" "subscriber_ref") namedRefnum)
                      (.eq (.column "st" "name") (.literal "active")))))))))))

/-- `resolution_where`: the predicate, its binds and the next free placeholder. -/
def resolutionWhere (viewer : ViewerIdentity) (start : ℕ) : Pred × ResolutionBinds × ℕ :=
  match viewer with
  | .anonymous =>
    (resolutionTemplate (.placeholder start) (.placeholder (start + 1)) (.placeholder (start + 2))
      (.placeholder (start + 3)) (.placeholder (start + 4)), .anonymous, start + 5)
  | .local_ userId =>
    (resolutionTemplate (.placeholder start) localChannel (.placeholder (start + 1)) localChannel
      (.placeholder (start + 2)), .local_ userId (localSubscriberRef userId), start + 3)
  | .remote channelId subscriberRef =>
    (resolutionTemplate (.placeholder start) (.placeholder (start + 1)) (.placeholder (start + 2))
      (.placeholder (start + 3)) (.placeholder (start + 4)), .remote channelId subscriberRef,
      start + 5)

/-- `bind_onto`: the values that the resolution placeholders receive, in their order. -/
def ResolutionBinds.values : ResolutionBinds → List Value
  | .anonymous => [.null, .null, .null, .null, .null]
  | .local_ userId subref => [.int userId, .text subref, .text subref]
  | .remote channel subref => [.null, .int channel, .text subref, .int channel, .text subref]

def KindNamed (db : Database) (t : PostAudience) (name : String) : Prop :=
  ∃ k ∈ db.targetKinds, k.id = t.targetKindId ∧ k.name = name

def Active (db : Database) (s : Subscription) : Prop :=
  ∃ st ∈ db.subscriptionStatuses, st.id = s.statusId ∧ st.name = "active"

section Template

variable {db : Database} {args : List Value} {env : Env} {post : Post}
  {author subChannel subRefnum namedChannel namedRefnum : Expr} {a c r c' r' : Value}

theorem mem_channels {row : Row} : row ∈ sqlTables db "channels" ↔
    ∃ x ∈ db.channels, lookupRow "channel_id" x = row := List.mem_map

theorem mem_statuses {row : Row} : row ∈ sqlTables db "subscription_statuses" ↔
    ∃ x ∈ db.subscriptionStatuses, lookupRow "status_id" x = row := List.mem_map

theorem mem_kinds {row : Row} : row ∈ sqlTables db "target_kinds" ↔
    ∃ x ∈ db.targetKinds, lookupRow "kind_id" x = row := List.mem_map

theorem mem_subscriptions {row : Row} : row ∈ sqlTables db "subscriptions" ↔
    ∃ x ∈ db.subscriptions, subscriptionRow x = row := List.mem_map

theorem mem_members {row : Row} : row ∈ sqlTables db "audience_members" ↔
    ∃ x ∈ db.audienceMembers, memberRow x = row := List.mem_map

theorem mem_targets {row : Row} : row ∈ sqlTables db "post_audiences" ↔
    ∃ x ∈ db.postAudiences, targetRow x = row := List.mem_map

theorem holds_subscribers (hp : env "p" = postRow post)
    (hc : ∀ env, subChannel.eval (sqlTables db) args env = c)
    (hr : ∀ env, subRefnum.eval (sqlTables db) args env = r) :
    (Pred.existsFrom [("subscriptions", "s"), ("subscription_statuses", "st")]
      (.eq (.column "st" "status_id") (.column "s" "status_id"))
      (.and (.eq (.column "s" "author_user_id") (.column "p" "user_id"))
        (.and (.eq (.column "s" "channel_id") subChannel)
          (.and (.eq (.column "s" "subscriber_ref") subRefnum)
            (.eq (.column "st" "name") (.literal "active")))))).Holds (sqlTables db) args env ↔
      ∃ s ∈ db.subscriptions, s.authorUserId = post.userId ∧ c = .int s.channelId ∧
        r = .text s.subscriberRef ∧ Active db s := by
  simp only [holds_existsFrom, anyJoined_cons, anyJoined_nil, holds_and, holds_eq,
    eval_column, eval_literal, hc, hr, Env.bind, hp, Bool.and_eq_true, decide_eq_true_eq,
    mem_statuses, mem_subscriptions, exists_exists_and_eq_and, Active, String.reduceEq, if_true,
    if_false, subscriptionRow, lookupRow, postRow, Value.int.injEq, Value.text.injEq, ne_eq,
    reduceCtorEq, not_false_eq_true, and_true]
  constructor
  · rintro ⟨s, hs, st, hst, hstatus, hauthor, hchannel, href, hname⟩
    exact ⟨s, hs, hauthor, hchannel.symm, href.symm, st, hst, hstatus, hname⟩
  · rintro ⟨s, hs, hauthor, hchannel, href, st, hst, hstatus, hname⟩
    exact ⟨s, hs, st, hst, hstatus, hauthor, hchannel.symm, href.symm, hname⟩

theorem holds_named {t : PostAudience} (ht : env "pa" = targetRow t)
    (hc : ∀ env, namedChannel.eval (sqlTables db) args env = c')
    (hr : ∀ env, namedRefnum.eval (sqlTables db) args env = r') :
    (Pred.existsFrom
      [("audience_members", "am"), ("subscriptions", "s"), ("subscription_statuses", "st")]
      (.and (.eq (.column "s" "subscription_id") (.column "am" "subscription_id"))
        (.eq (.column "st" "status_id") (.column "s" "status_id")))
      (.and (.eq (.column "am" "audience_id") (.column "pa" "audience_id"))
        (.and (.eq (.column "s" "channel_id") namedChannel)
          (.and (.eq (.column "s" "subscriber_ref") namedRefnum)
            (.eq (.column "st" "name") (.literal "active")))))).Holds (sqlTables db) args env ↔
      ∃ m ∈ db.audienceMembers, t.audienceId = some m.audienceId ∧
        ∃ s ∈ db.subscriptions, s.subscriptionId = m.subscriptionId ∧ c' = .int s.channelId ∧
          r' = .text s.subscriberRef ∧ Active db s := by
  simp only [holds_existsFrom, anyJoined_cons, anyJoined_nil, holds_and, holds_eq,
    eval_column, eval_literal, hc, hr, Env.bind, ht, Bool.and_eq_true, decide_eq_true_eq,
    mem_statuses, mem_subscriptions, mem_members, exists_exists_and_eq_and, Active,
    String.reduceEq, if_true, if_false, subscriptionRow, lookupRow, memberRow, targetRow,
    Value.int.injEq, Value.text.injEq, ne_eq, reduceCtorEq, not_false_eq_true, and_true]
  have haudience : ∀ m : AudienceMember,
      Value.int m.audienceId = t.audienceId.elim .null .int ↔ t.audienceId = some m.audienceId := by
    intro m
    cases t.audienceId <;> simp [eq_comm]
  simp only [haudience]
  constructor
  · rintro ⟨m, hm, s, hs, st, hst, ⟨hjoin, hstatus⟩, htarget, hchannel, href, hname⟩
    exact ⟨m, hm, htarget, s, hs, hjoin, hchannel.symm, href.symm, st, hst, hstatus, hname⟩
  · rintro ⟨m, hm, htarget, s, hs, hjoin, hchannel, href, st, hst, hstatus, hname⟩
    exact ⟨m, hm, s, hs, st, hst, ⟨hjoin, hstatus⟩, htarget, hchannel.symm, href.symm, hname⟩

/-- The predicate with arbitrary values in its holes. -/
theorem holds_template (hp : env "p" = postRow post)
    (ha : author.eval (sqlTables db) args env = a)
    (hc : ∀ env, subChannel.eval (sqlTables db) args env = c)
    (hr : ∀ env, subRefnum.eval (sqlTables db) args env = r)
    (hc' : ∀ env, namedChannel.eval (sqlTables db) args env = c')
    (hr' : ∀ env, namedRefnum.eval (sqlTables db) args env = r') :
    (resolutionTemplate author subChannel subRefnum namedChannel namedRefnum).Holds
        (sqlTables db) args env ↔
      a = .int post.userId ∨ ∃ t ∈ db.postAudiences, t.postId = post.postId ∧
        (KindNamed db t "public" ∨
          (KindNamed db t "subscribers" ∧ ∃ s ∈ db.subscriptions, s.authorUserId = post.userId ∧
            c = .int s.channelId ∧ r = .text s.subscriberRef ∧ Active db s) ∨
          (KindNamed db t "named" ∧ ∃ m ∈ db.audienceMembers, t.audienceId = some m.audienceId ∧
            ∃ s ∈ db.subscriptions, s.subscriptionId = m.subscriptionId ∧ c' = .int s.channelId ∧
              r' = .text s.subscriberRef ∧ Active db s)) := by
  have hown : (Pred.eq (.column "p" "user_id") author).Holds (sqlTables db) args env ↔
      a = .int post.userId := by
    simp only [holds_eq, eval_column, ha, hp, postRow, ne_eq, reduceCtorEq,
      not_false_eq_true, and_true]
    exact eq_comm
  rw [resolutionTemplate, holds_or, hown, holds_existsFrom]
  refine or_congr_right ?_
  simp only [anyJoined_cons, anyJoined_nil, mem_targets, mem_kinds, exists_exists_and_eq_and,
    Bool.and_eq_true, decide_eq_true_eq]
  have hsub : ∀ (t : PostAudience) (k : Lookup),
      ((env.bind "pa" (targetRow t)).bind "tk" (lookupRow "kind_id" k)) "p" = postRow post := by
    intro t k
    simp only [Env.bind, String.reduceEq, if_false, hp]
  have htarget : ∀ (t : PostAudience) (k : Lookup),
      ((env.bind "pa" (targetRow t)).bind "tk" (lookupRow "kind_id" k)) "pa" = targetRow t := by
    intro t k
    simp only [Env.bind, String.reduceEq, if_false, if_true]
  simp only [holds_and, holds_or, holds_subscribers (hsub _ _) hc hr,
    holds_named (htarget _ _) hc' hr']
  simp only [holds_eq, eval_column, eval_literal, Env.bind,
    String.reduceEq, if_true, if_false, targetRow, lookupRow, hp, postRow, Value.int.injEq,
    Value.text.injEq, ne_eq, reduceCtorEq, not_false_eq_true, and_true, KindNamed]
  constructor
  · rintro ⟨t, ht, k, hk, hkind, hpost, hpublic | ⟨hname, hsubscribed⟩ | ⟨hname, hmember⟩⟩
    · exact ⟨t, ht, Int64.toInt_inj.mp hpost, .inl ⟨k, hk, hkind, hpublic⟩⟩
    · exact ⟨t, ht, Int64.toInt_inj.mp hpost, .inr (.inl ⟨⟨k, hk, hkind, hname⟩, hsubscribed⟩)⟩
    · exact ⟨t, ht, Int64.toInt_inj.mp hpost, .inr (.inr ⟨⟨k, hk, hkind, hname⟩, hmember⟩)⟩
  · rintro ⟨t, ht, hpost, ⟨k, hk, hkind, hname⟩ | ⟨⟨k, hk, hkind, hname⟩, hsubscribed⟩ |
      ⟨⟨k, hk, hkind, hname⟩, hmember⟩⟩
    · exact ⟨t, ht, k, hk, hkind, congrArg _ hpost, .inl hname⟩
    · exact ⟨t, ht, k, hk, hkind, congrArg _ hpost, .inr (.inl ⟨hname, hsubscribed⟩)⟩
    · exact ⟨t, ht, k, hk, hkind, congrArg _ hpost, .inr (.inr ⟨hname, hmember⟩)⟩

end Template

/-- The channel and the reference under which a viewer's own subscriptions are stored. -/
def ViewerOn (db : Database) : ViewerIdentity → ℤ → String → Prop
  | .anonymous, _, _ => False
  | .local_ userId, channel, ref =>
    (∃ x ∈ db.channels, x.name = "local" ∧ x.id = channel) ∧ ref = localSubscriberRef userId
  | .remote channelId subscriberRef, channel, ref => channel = channelId ∧ ref = subscriberRef

/-- An active subscription of the viewer to the author. -/
def SubscribedTo (db : Database) (viewer : ViewerIdentity) (author : ℤ) (s : Subscription) : Prop :=
  s ∈ db.subscriptions ∧ s.authorUserId = author ∧
    ViewerOn db viewer s.channelId s.subscriberRef ∧ Active db s

def TargetOf (db : Database) (post : Post) (kind : String) (t : PostAudience) : Prop :=
  t ∈ db.postAudiences ∧ t.postId = post.postId ∧ KindNamed db t kind

/-- Membership in a targeted audience through a subscription to the given user. -/
def AdmittedByAudience (db : Database) (viewer : ViewerIdentity) (post : Post)
    (author : Audience → ℤ) : Prop :=
  ∃ t, TargetOf db post "named" t ∧ ∃ a ∈ db.audiences, t.audienceId = some a.audienceId ∧
    ∃ m ∈ db.audienceMembers, m.audienceId = a.audienceId ∧
      ∃ s, SubscribedTo db viewer (author a) s ∧ s.subscriptionId = m.subscriptionId

/-- Who may see a post, when an audience admits the subscribers of the given user. -/
def Admits (db : Database) (viewer : ViewerIdentity) (post : Post) (author : Audience → ℤ) : Prop :=
  viewer = .local_ post.userId ∨
  (∃ t, TargetOf db post "public" t) ∨
  ((∃ t, TargetOf db post "subscribers" t) ∧ ∃ s, SubscribedTo db viewer post.userId s) ∨
  AdmittedByAudience db viewer post author

def authorValue : ViewerIdentity → Value
  | .local_ userId => .int userId
  | _ => .null

/-- What the channel slots of the predicate evaluate to. -/
def channelValue (db : Database) : ViewerIdentity → Value
  | .anonymous => .null
  | .local_ _ => ((db.channels.find? (fun x ↦ x.name = "local")).map (fun x ↦ Value.int x.id)).getD .null
  | .remote channelId _ => .int channelId

def refValue : ViewerIdentity → Value
  | .anonymous => .null
  | .local_ userId => .text (localSubscriberRef userId)
  | .remote _ subscriberRef => .text subscriberRef

theorem eval_localChannel (db : Database) (args : List Value) (env : Env) (userId : ℤ) :
    localChannel.eval (sqlTables db) args env = channelValue db (.local_ userId) := by
  have hfind : ∀ rows : List Lookup,
      (((rows.map (lookupRow "channel_id")).find? (fun row ↦ row "name" = .text "local")).map
        (fun row ↦ row "channel_id")) =
        (rows.find? (fun x ↦ x.name = "local")).map (fun x ↦ Value.int x.id) := by
    intro rows
    induction rows with
    | nil => rfl
    | cons x rows ih =>
      by_cases hx : x.name = "local"
      · simp [lookupRow, hx]
      · simpa [lookupRow, hx] using ih
  exact congrArg (fun o ↦ Option.getD o Value.null) (hfind db.channels)

theorem viewerOn_iff (db : Database) (viewer : ViewerIdentity) (channel : ℤ) (ref : String) :
    ViewerOn db viewer channel ref ↔
      channelValue db viewer = .int channel ∧ refValue viewer = .text ref := by
  cases viewer with
  | anonymous => simp [ViewerOn, channelValue]
  | remote channelId subscriberRef => simp [ViewerOn, channelValue, refValue, eq_comm]
  | local_ userId =>
    simp only [ViewerOn, channelValue, refValue, Value.text.injEq]
    refine and_congr ?_ eq_comm
    cases hfind : db.channels.find? (fun x ↦ x.name = "local") with
    | none =>
      have hnone := List.find?_eq_none.mp hfind
      simp only [decide_eq_true_eq] at hnone
      simp only [Option.map_none, Option.getD_none, reduceCtorEq, iff_false]
      rintro ⟨x, hx, hname, -⟩
      exact hnone x hx hname
    | some y =>
      have hname : y.name = "local" := by simpa using List.find?_some hfind
      have hy := List.mem_of_find?_eq_some hfind
      simp only [Option.map_some, Option.getD_some, Value.int.injEq]
      constructor
      · rintro ⟨x, hx, hxname, rfl⟩
        rw [eq_of_key db.channel_name_unique hx hy (hxname.trans hname.symm)]
      · rintro rfl
        exact ⟨y, hy, hname, rfl⟩

theorem admitted_by_audience_iff (db : Database) (viewer : ViewerIdentity) (t : PostAudience) :
    (∃ m ∈ db.audienceMembers, t.audienceId = some m.audienceId ∧
      ∃ s ∈ db.subscriptions, s.subscriptionId = m.subscriptionId ∧
        channelValue db viewer = .int s.channelId ∧ refValue viewer = .text s.subscriberRef ∧
          Active db s) ↔
      ∃ a ∈ db.audiences, t.audienceId = some a.audienceId ∧
        ∃ m ∈ db.audienceMembers, m.audienceId = a.audienceId ∧
          ∃ s, SubscribedTo db viewer a.authorUserId s ∧ s.subscriptionId = m.subscriptionId := by
  constructor
  · rintro ⟨m, hm, htarget, s, hs, hjoin, hchannel, href, hactive⟩
    obtain ⟨a, ha, haid, haowner⟩ := db.members_audience m hm
    obtain ⟨s', hs', hid', howner'⟩ := db.members_subscription m hm
    obtain rfl : s = s' := eq_of_key db.subscriptions_key hs hs' (hjoin.trans hid'.symm)
    exact ⟨a, ha, haid ▸ htarget, m, hm, haid.symm, s, ⟨hs, howner'.trans haowner.symm,
      (viewerOn_iff db viewer _ _).mpr ⟨hchannel, href⟩, hactive⟩, hjoin⟩
  · rintro ⟨a, ha, htarget, m, hm, hma, s, ⟨hs, -, hviewer, hactive⟩, hjoin⟩
    obtain ⟨hchannel, href⟩ := (viewerOn_iff db viewer _ _).mp hviewer
    exact ⟨m, hm, hma ▸ htarget, s, hs, hjoin, hchannel, href, hactive⟩

theorem authorValue_iff (viewer : ViewerIdentity) (userId : ℤ) :
    authorValue viewer = .int userId ↔ viewer = .local_ userId := by
  cases viewer <;> simp [authorValue]

theorem getD_append {before values after : List Value} {k : ℕ} (hk : k < values.length) :
    (before ++ values ++ after).getD (before.length + 1 + k - 1) .null = values.getD k .null := by
  have hindex : before.length + 1 + k - 1 = before.length + k := by omega
  rw [hindex, List.getD_eq_getElem?_getD, List.getD_eq_getElem?_getD, List.append_assoc,
    List.getElem?_append_right (by omega), Nat.add_sub_cancel_left, List.getElem?_append_left hk]

/-- The binds reach the placeholders that they are meant for. -/
theorem holds_resolutionWhere (db : Database) (viewer : ViewerIdentity) (post : Post)
    (before after : List Value) (env : Env) :
    (resolutionWhere viewer (before.length + 1)).1.Holds (sqlTables db)
        (before ++ (resolutionWhere viewer (before.length + 1)).2.1.values ++ after)
        (env.bind "p" (postRow post)) ↔
      viewer = .local_ post.userId ∨ ∃ t ∈ db.postAudiences, t.postId = post.postId ∧
        (KindNamed db t "public" ∨
          (KindNamed db t "subscribers" ∧ ∃ s ∈ db.subscriptions, s.authorUserId = post.userId ∧
            channelValue db viewer = .int s.channelId ∧ refValue viewer = .text s.subscriberRef ∧
              Active db s) ∨
          (KindNamed db t "named" ∧ ∃ m ∈ db.audienceMembers, t.audienceId = some m.audienceId ∧
            ∃ s ∈ db.subscriptions, s.subscriptionId = m.subscriptionId ∧
              channelValue db viewer = .int s.channelId ∧ refValue viewer = .text s.subscriberRef ∧
                Active db s)) := by
  have hslot : ∀ k (values : List Value), k < values.length →
      ∀ env, (Expr.placeholder (before.length + 1 + k)).eval (sqlTables db)
        (before ++ values ++ after) env = values.getD k .null :=
    fun k values hk env ↦ getD_append hk
  have hp : (env.bind "p" (postRow post)) "p" = postRow post := Env.bind_same _ _ _
  rw [← authorValue_iff]
  cases viewer with
  | anonymous =>
    have hlen : (resolutionWhere .anonymous (before.length + 1)).2.1.values.length = 5 := rfl
    exact holds_template hp (hslot 0 _ (by omega) _) (hslot 1 _ (by omega)) (hslot 2 _ (by omega))
      (hslot 3 _ (by omega)) (hslot 4 _ (by omega))
  | local_ userId =>
    have hlen : (resolutionWhere (.local_ userId) (before.length + 1)).2.1.values.length = 3 := rfl
    exact holds_template hp (hslot 0 _ (by omega) _)
      (fun env ↦ eval_localChannel db _ env userId) (hslot 1 _ (by omega))
      (fun env ↦ eval_localChannel db _ env userId) (hslot 2 _ (by omega))
  | remote channelId subscriberRef =>
    have hlen : (resolutionWhere (.remote channelId subscriberRef)
        (before.length + 1)).2.1.values.length = 5 := rfl
    exact holds_template hp (hslot 0 _ (by omega) _) (hslot 1 _ (by omega)) (hslot 2 _ (by omega))
      (hslot 3 _ (by omega)) (hslot 4 _ (by omega))

theorem holds_iff_admits (db : Database) (viewer : ViewerIdentity) (post : Post)
    (before after : List Value) (env : Env) :
    (resolutionWhere viewer (before.length + 1)).1.Holds (sqlTables db)
        (before ++ (resolutionWhere viewer (before.length + 1)).2.1.values ++ after)
        (env.bind "p" (postRow post)) ↔ Admits db viewer post Audience.authorUserId := by
  rw [holds_resolutionWhere]
  have hsubscribed : (∃ s ∈ db.subscriptions, s.authorUserId = post.userId ∧
      channelValue db viewer = .int s.channelId ∧ refValue viewer = .text s.subscriberRef ∧
        Active db s) ↔ ∃ s, SubscribedTo db viewer post.userId s := by
    simp only [SubscribedTo, viewerOn_iff, and_assoc]
  simp only [hsubscribed, admitted_by_audience_iff]
  refine or_congr_right ?_
  constructor
  · rintro ⟨t, ht, hpost, hpublic | ⟨hkind, hsub⟩ | ⟨hkind, hnamed⟩⟩
    · exact .inl ⟨t, ht, hpost, hpublic⟩
    · exact .inr (.inl ⟨⟨t, ht, hpost, hkind⟩, hsub⟩)
    · exact .inr (.inr ⟨t, ⟨ht, hpost, hkind⟩, hnamed⟩)
  · rintro (⟨t, ht, hpost, hpublic⟩ | ⟨⟨t, ht, hpost, hkind⟩, hsub⟩ | ⟨t, ⟨ht, hpost, hkind⟩, hnamed⟩)
    · exact ⟨t, ht, hpost, .inl hpublic⟩
    · exact ⟨t, ht, hpost, .inr (.inl ⟨hkind, hsub⟩)⟩
    · exact ⟨t, ht, hpost, .inr (.inr ⟨hkind, hnamed⟩)⟩

theorem placeholders_resolutionWhere (viewer : ViewerIdentity) (start : ℕ) :
    (resolutionWhere viewer start).1.placeholders =
        List.range' start (resolutionWhere viewer start).2.1.values.length ∧
      (resolutionWhere viewer start).2.2 =
        start + (resolutionWhere viewer start).2.1.values.length := by
  cases viewer <;> exact ⟨rfl, rfl⟩

theorem admits_anonymous (db : Database) (post : Post) (author : Audience → ℤ) :
    Admits db .anonymous post author ↔ ∃ t, TargetOf db post "public" t := by
  simp [Admits, AdmittedByAudience, SubscribedTo, ViewerOn]

/-- Every audience that the post names belongs to the author of the post. -/
def NamedTargetsOwned (db : Database) (post : Post) : Prop :=
  ∀ t, TargetOf db post "named" t → ∀ a ∈ db.audiences, t.audienceId = some a.audienceId →
    a.authorUserId = post.userId

theorem admits_of_owned {db : Database} {post : Post} (h : NamedTargetsOwned db post)
    (viewer : ViewerIdentity) :
    Admits db viewer post Audience.authorUserId ↔ Admits db viewer post (fun _ ↦ post.userId) := by
  refine or_congr_right (or_congr_right (or_congr_right ?_))
  refine exists_congr (fun t ↦ and_congr_right (fun ht ↦ exists_congr (fun a ↦ ?_)))
  refine and_congr_right (fun ha ↦ and_congr_right (fun htarget ↦ ?_))
  rw [h t ht a ha htarget]

inductive AudienceTarget
  | public_
  | private_
  | subscribers
  | named (audienceId : ℤ)
deriving DecidableEq

/-- The `post_audiences` row of a target; a private target has none. -/
def audienceTargetRow : AudienceTarget → Option (String × Option ℤ)
  | .public_ => some ("public", none)
  | .subscribers => some ("subscribers", none)
  | .named id => some ("named", some id)
  | .private_ => none

/-- The check of the doors that write a post: its author owns every audience it names. -/
def validateNamedAudienceTargets (db : Database) (authorUserId : ℤ)
    (targets : List AudienceTarget) : Bool :=
  let allowed := (db.audiences.filter (fun a ↦ a.authorUserId = authorUserId)).map
    Audience.audienceId
  targets.all (fun target ↦
    match target with
    | .named id => id ∈ allowed
    | _ => true)

theorem owned_of_validated {db : Database} {post : Post} {targets : List AudienceTarget}
    (hvalid : validateNamedAudienceTargets db post.userId targets = true)
    (hrows : ∀ t ∈ db.postAudiences, t.postId = post.postId → ∃ target ∈ targets, ∃ name,
      audienceTargetRow target = some (name, t.audienceId) ∧ KindNamed db t name) :
    NamedTargetsOwned db post := by
  rintro t ⟨ht, hpost, hkind⟩ a ha haudience
  obtain ⟨target, htarget, name, hrow, hname⟩ := hrows t ht hpost
  have hcheck := List.all_eq_true.mp hvalid target htarget
  cases target with
  | public_ => simp [audienceTargetRow, haudience] at hrow
  | private_ => simp [audienceTargetRow] at hrow
  | subscribers => simp [audienceTargetRow, haudience] at hrow
  | named id =>
    simp only [audienceTargetRow, haudience, Option.some_inj, Prod.mk.injEq] at hrow
    simp only [List.mem_map, List.mem_filter, decide_eq_true_eq] at hcheck
    obtain ⟨b, ⟨hb, howner⟩, hid⟩ := hcheck
    rw [eq_of_key db.audiences_key ha hb (hrow.2.symm.trans hid.symm)]
    exact howner

/-- The predicate admits the author, the public, the author's subscribers and the members of
targeted audiences; membership rests on a subscription to the owner of the audience. -/
theorem resolution_admits (db : Database) (viewer : ViewerIdentity) (post : Post)
    (before after : List Value) (env : Env) :
    ((resolutionWhere viewer (before.length + 1)).1.Holds (sqlTables db)
        (before ++ (resolutionWhere viewer (before.length + 1)).2.1.values ++ after)
        (env.bind "p" (postRow post)) ↔ Admits db viewer post Audience.authorUserId) ∧
    (NamedTargetsOwned db post → (Admits db viewer post Audience.authorUserId ↔
      Admits db viewer post (fun _ ↦ post.userId))) ∧
    (Admits db .anonymous post Audience.authorUserId ↔ ∃ t, TargetOf db post "public" t) ∧
    (∀ channel ref, Admits db (.remote channel ref) post Audience.authorUserId ↔
      (∃ t, TargetOf db post "public" t) ∨
      ((∃ t, TargetOf db post "subscribers" t) ∧
        ∃ s, SubscribedTo db (.remote channel ref) post.userId s) ∨
      AdmittedByAudience db (.remote channel ref) post Audience.authorUserId) ∧
    (∀ start, (resolutionWhere viewer start).1.placeholders =
        List.range' start (resolutionWhere viewer start).2.1.values.length ∧
      (resolutionWhere viewer start).2.2 =
        start + (resolutionWhere viewer start).2.1.values.length) := by
  refine ⟨holds_iff_admits db viewer post before after env, fun h ↦ admits_of_owned h viewer,
    admits_anonymous db post _, fun channel ref ↦ ?_, placeholders_resolutionWhere viewer⟩
  rw [Admits, or_iff_right (by simp)]

def adaPost : Post :=
  ⟨10, 1, none, .compose "hello", .compose "<p>hello</p>", .epoch,
    .epoch, some .epoch, none, none⟩

/-- A site of one user without posts. -/
def adaSite : Database where
  users := [⟨1, .compose "ada", none, .ccBy4_0⟩]
  posts := []
  tags := []
  postTags := []
  channels := [⟨1, "local"⟩]
  subscriptionStatuses := [⟨1, "active"⟩]
  targetKinds := [⟨1, "public"⟩]
  subscriptions := []
  audiences := []
  audienceMembers := []
  postAudiences := []
  users_key := by decide
  username_unique := by decide
  posts_key := by decide
  posts_fit := by decide
  posts_user := by decide
  tags_key := by decide
  tag_slug_unique := by decide
  post_tags_unique := by decide
  post_tags_fit := by decide
  channels_key := by decide
  channel_name_unique := by decide
  statuses_key := by decide
  status_name_unique := by decide
  kinds_key := by decide
  kind_name_unique := by decide
  subscriptions_key := by decide
  subscriptions_unique := by decide
  audiences_key := by decide
  members_audience := by decide
  members_subscription := by decide
  post_audiences_kind := by decide
  post_audiences_audience := by decide

/-- A post of user 1 that targets an audience of user 2, of which user 3 is a member. -/
def foreignAudience : Database :=
  { adaSite with
    users := [⟨1, .compose "ada", none, .ccBy4_0⟩, ⟨2, .compose "bob", none, .ccBy4_0⟩,
      ⟨3, .compose "cyn", none, .ccBy4_0⟩]
    posts := [adaPost]
    targetKinds := [⟨1, "public"⟩, ⟨2, "subscribers"⟩, ⟨3, "named"⟩]
    subscriptions := [⟨5, 2, 1, "3", 1⟩]
    audiences := [⟨7, 2⟩]
    audienceMembers := [⟨7, 5, 2⟩]
    postAudiences := [⟨10, 3, some 7⟩]
    users_key := by decide
    username_unique := by decide
    posts_key := by decide
    posts_fit := by decide
    posts_user := by decide
    kinds_key := by decide
    kind_name_unique := by decide
    subscriptions_key := by decide
    subscriptions_unique := by decide
    audiences_key := by decide
    members_audience := by decide
    members_subscription := by decide
    post_audiences_kind := by decide
    post_audiences_audience := by decide }

/-- User 3 sees the post without any subscription to its author. -/
theorem foreign_audience_admitted :
    (resolutionWhere (.local_ 3) 1).1.Holds (sqlTables foreignAudience)
        (resolutionWhere (.local_ 3) 1).2.1.values (Env.bind (fun _ _ ↦ .null) "p" (postRow adaPost)) ∧
      ¬ Admits foreignAudience (.local_ 3) adaPost (fun _ ↦ adaPost.userId) := by
  refine ⟨by decide, ?_⟩
  rintro (hauthor | ⟨t, ht, -, k, hk, hkind, hname⟩ | ⟨-, s, hs, hauthor, -⟩ |
    ⟨t, -, a, -, -, m, -, -, s, ⟨hs, hauthor, -⟩, -⟩)
  · exact absurd hauthor (by decide)
  · obtain rfl := List.mem_singleton.mp ht
    simp only [foreignAudience, List.mem_cons, List.not_mem_nil, or_false] at hk
    rcases hk with rfl | rfl | rfl
    · exact absurd hkind (by decide)
    · exact absurd hkind (by decide)
    · exact absurd hname (by decide)
  · obtain rfl := List.mem_singleton.mp hs
    exact absurd hauthor (by decide)
  · obtain rfl := List.mem_singleton.mp hs
    exact absurd hauthor (show ¬(2 : ℤ) = 1 by decide)

end Jaunder.Storage.Visibility
