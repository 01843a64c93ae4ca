import Jaunder.Common.Render
import Jaunder.Common.Tag
import Jaunder.Common.Visibility

namespace Jaunder.Host.ContentEtag

open Jaunder.Common.Render Jaunder.Common.Tag Jaunder.Common.Visibility

/-- The inputs of a post's strong validator. -/
structure PostContentEtag where
  title : Option String
  slug : String
  body : String
  format : PostFormat
  summary : Option String
  tags : List TagLabel
  audiences : List AudienceTarget
  draft : Bool
deriving DecidableEq

def audienceRank : AudienceTarget → ℕ × ℤ
  | .public_ => (0, 0)
  | .subscribers => (1, 0)
  | .named id => (2, id)
  | .private_ => (3, 0)

def audienceLe (a b : AudienceTarget) : Bool :=
  (audienceRank a).1 < (audienceRank b).1 ∨
    (audienceRank a).1 = (audienceRank b).1 ∧ (audienceRank a).2 ≤ (audienceRank b).2

/-- No audience at all is private. -/
def projectedAudiences (audiences : List AudienceTarget) : List AudienceTarget :=
  (if audiences = [] then [.private_] else audiences).insertionSort (fun a b ↦ audienceLe a b = true)

/-- The digest of the serialized content, whose audiences are in canonical order. -/
def PostContentEtag.etag (digest : PostContentEtag → String) (content : PostContentEtag) : String :=
  digest { content with audiences := projectedAudiences content.audiences }

theorem audienceLe_iff {a b : AudienceTarget} :
    audienceLe a b = true ↔ toLex (audienceRank a) ≤ toLex (audienceRank b) := by
  rw [Prod.Lex.toLex_le_toLex]
  exact decide_eq_true_iff

theorem audienceRank_injective : Function.Injective audienceRank := by
  intro a b h
  cases a <;> cases b <;> simp_all [audienceRank]

instance : Std.Total (fun a b ↦ audienceLe a b = true) :=
  ⟨fun a b ↦ by simpa only [audienceLe_iff] using le_total (toLex (audienceRank a)) (toLex (audienceRank b))⟩

instance : IsTrans AudienceTarget (fun a b ↦ audienceLe a b = true) :=
  ⟨fun a b c ↦ by simpa only [audienceLe_iff] using le_trans⟩

/-- The order in which audiences are listed does not matter. -/
theorem projectedAudiences_perm {a b : List AudienceTarget} (h : a.Perm b) :
    projectedAudiences a = projectedAudiences b := by
  have hshown : (if a = [] then [.private_] else a).Perm (if b = [] then [.private_] else b) := by
    have hnil : a = [] ↔ b = [] := by
      rw [← List.length_eq_zero_iff, ← List.length_eq_zero_iff, h.length_eq]
    by_cases ha : a = []
    · rw [if_pos ha, if_pos (hnil.mp ha)]
    · rw [if_neg ha, if_neg (fun hb ↦ ha (hnil.mpr hb))]
      exact h
  have hsorted : (projectedAudiences a).Perm (projectedAudiences b) :=
    (List.perm_insertionSort _ _).trans (hshown.trans (List.perm_insertionSort _ _).symm)
  refine hsorted.eq_of_pairwise (fun x y _ _ hxy hyx ↦ ?_) (List.pairwise_insertionSort _ _)
    (List.pairwise_insertionSort _ _)
  exact audienceRank_injective
    (toLex.injective (le_antisymm (audienceLe_iff.mp hxy) (audienceLe_iff.mp hyx)))

theorem PostContentEtag.etag_perm {digest : PostContentEtag → String} {content : PostContentEtag}
    {audiences : List AudienceTarget} (h : content.audiences.Perm audiences) :
    content.etag digest = { content with audiences }.etag digest := by
  rw [PostContentEtag.etag, PostContentEtag.etag, projectedAudiences_perm h]

end Jaunder.Host.ContentEtag
