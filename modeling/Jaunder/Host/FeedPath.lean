import Jaunder.Common.Feed

namespace Jaunder.Host.FeedPath

open Jaunder.Common.Feed

/-- A canonical feed path, as the `(surface, format)` pair that `parts` recovers from it. -/
structure FeedPath where
  surface : FeedSurface
  format : FeedFormat
deriving DecidableEq

/-- `canonicalize`: the text of the path. -/
def FeedPath.text (path : FeedPath) : String :=
  let ext := path.format.ext
  match path.surface with
  | .site => "/feed." ++ ext
  | .siteTag tag => "/tags/" ++ tag ++ "/feed." ++ ext
  | .user username => "/~" ++ username ++ "/feed." ++ ext
  | .userTag username tag => "/~" ++ username ++ "/tags/" ++ tag ++ "/feed." ++ ext

def affectedSurfaces (username : Username) (tags : List Tag) : List FeedSurface :=
  .site :: .user username :: tags.flatMap (fun tag ↦ [.siteTag tag, .userTag username tag])

def affectedFeedUrls (username : Username) (tags : List Tag) : List FeedPath :=
  (affectedSurfaces username tags).flatMap (fun surface ↦
    [FeedFormat.rss, .atom, .json].map (FeedPath.mk surface))

theorem mem_affectedFeedUrls {username : Username} {tags : List Tag} {path : FeedPath} :
    path ∈ affectedFeedUrls username tags ↔
      path.surface = .site ∨ path.surface = .user username ∨
        ∃ tag ∈ tags, path.surface = .siteTag tag ∨ path.surface = .userTag username tag := by
  have hformat : path.format ∈ [FeedFormat.rss, .atom, .json] := by
    cases path.format <;> decide
  have hsurface : path ∈ affectedFeedUrls username tags ↔
      path.surface ∈ affectedSurfaces username tags := by
    rw [affectedFeedUrls, List.mem_flatMap]
    constructor
    · rintro ⟨surface, hs, hpath⟩
      obtain ⟨format, -, rfl⟩ := List.mem_map.mp hpath
      exact hs
    · intro hs
      exact ⟨path.surface, hs, List.mem_map.mpr ⟨path.format, hformat, rfl⟩⟩
  rw [hsurface, affectedSurfaces]
  simp only [List.mem_cons, List.mem_flatMap, List.not_mem_nil, or_false]

end Jaunder.Host.FeedPath
