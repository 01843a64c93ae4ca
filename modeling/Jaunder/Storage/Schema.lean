import Jaunder.Common.Copyright
import Jaunder.Common.Time

namespace Jaunder.Storage.Schema

open Jaunder.Common.Copyright Jaunder.Common.Owned Jaunder.Common.Time

structure User where
  userId : ℤ
  username : Text
  displayName : Option Text
  contentLicense : ContentLicense
deriving DecidableEq

structure Post where
  postId : Int64
  userId : ℤ
  renderedTitle : Option Text
  slug : Text
  renderedHtml : Text
  createdAt : UtcInstant
  updatedAt : UtcInstant
  publishedAt : Option UtcInstant
  deletedAt : Option UtcInstant
  summary : Option Text
deriving DecidableEq

structure Tag where
  tagId : ℤ
  tagSlug : Text
deriving DecidableEq

structure PostTag where
  postId : Int64
  tagId : ℤ
  tagDisplay : Text
deriving DecidableEq

/-- A row of one of the seeded lookup tables. -/
structure Lookup where
  id : ℤ
  name : String
deriving DecidableEq

structure Subscription where
  subscriptionId : ℤ
  authorUserId : ℤ
  channelId : ℤ
  subscriberRef : String
  statusId : ℤ
deriving DecidableEq

structure Audience where
  audienceId : ℤ
  authorUserId : ℤ
deriving DecidableEq

structure AudienceMember where
  audienceId : ℤ
  subscriptionId : ℤ
  authorUserId : ℤ
deriving DecidableEq

structure PostAudience where
  postId : Int64
  targetKindId : ℤ
  audienceId : Option ℤ
deriving DecidableEq

/-- The content tables, with the keys and references that the migrations declare on them. -/
structure Database where
  users : List User
  posts : List Post
  tags : List Tag
  postTags : List PostTag
  channels : List Lookup
  subscriptionStatuses : List Lookup
  targetKinds : List Lookup
  subscriptions : List Subscription
  audiences : List Audience
  audienceMembers : List AudienceMember
  postAudiences : List PostAudience
  users_key : (users.map User.userId).Nodup
  username_unique : (users.map User.username).Nodup
  posts_key : (posts.map Post.postId).Nodup
  posts_fit : posts.length < 2 ^ 63
  posts_user : ∀ p ∈ posts, ∃ u ∈ users, u.userId = p.userId
  tags_key : (tags.map Tag.tagId).Nodup
  tag_slug_unique : (tags.map Tag.tagSlug).Nodup
  post_tags_unique : (postTags.map (fun t ↦ (t.postId, t.tagId))).Nodup
  post_tags_fit : postTags.length < 2 ^ 63
  channels_key : (channels.map Lookup.id).Nodup
  channel_name_unique : (channels.map Lookup.name).Nodup
  statuses_key : (subscriptionStatuses.map Lookup.id).Nodup
  status_name_unique : (subscriptionStatuses.map Lookup.name).Nodup
  kinds_key : (targetKinds.map Lookup.id).Nodup
  kind_name_unique : (targetKinds.map Lookup.name).Nodup
  subscriptions_key : (subscriptions.map Subscription.subscriptionId).Nodup
  subscriptions_unique :
    (subscriptions.map (fun s ↦ (s.authorUserId, s.channelId, s.subscriberRef))).Nodup
  audiences_key : (audiences.map Audience.audienceId).Nodup
  members_audience : ∀ m ∈ audienceMembers,
    ∃ a ∈ audiences, a.audienceId = m.audienceId ∧ a.authorUserId = m.authorUserId
  members_subscription : ∀ m ∈ audienceMembers,
    ∃ s ∈ subscriptions, s.subscriptionId = m.subscriptionId ∧ s.authorUserId = m.authorUserId
  post_audiences_kind : ∀ t ∈ postAudiences, ∃ k ∈ targetKinds, k.id = t.targetKindId
  post_audiences_audience : ∀ t ∈ postAudiences, ∀ id ∈ t.audienceId,
    ∃ a ∈ audiences, a.audienceId = id

/-- Two rows of a table with the same key are the same row. -/
theorem eq_of_key {α β : Type} {rows : List α} {key : α → β} (h : (rows.map key).Nodup) {a b : α}
    (ha : a ∈ rows) (hb : b ∈ rows) (he : key a = key b) : a = b :=
  List.inj_on_of_nodup_map h ha hb he

end Jaunder.Storage.Schema
