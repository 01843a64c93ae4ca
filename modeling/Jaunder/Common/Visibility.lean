import Mathlib.Tactic

namespace Jaunder.Common.Visibility

inductive TargetKind
  | public_
  | subscribers
  | named
deriving DecidableEq

/-- What a post is addressed to. -/
inductive AudienceTarget
  | public_
  | private_
  | subscribers
  | named (audienceId : ℤ)
deriving DecidableEq

/-- The audience picker of the web form. -/
structure AudienceSelection where
  public_ : Bool
  subscribers : Bool
  named : List ℤ
deriving DecidableEq

def audienceSelectionToTargets (selection : AudienceSelection) : List AudienceTarget :=
  (if selection.public_ then [.public_] else []) ++
    (if selection.subscribers then [.subscribers] else []) ++ selection.named.map .named

end Jaunder.Common.Visibility
