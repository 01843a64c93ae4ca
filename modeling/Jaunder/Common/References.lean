import Jaunder.Common.Hash
import Jaunder.Common.Media

namespace Jaunder.Common.References

open Jaunder.Common.Hash Jaunder.Common.Media

inductive MediaSource
  | upload
  | cached
deriving DecidableEq

def MediaSource.asRef : MediaSource → String
  | .upload => "upload"
  | .cached => "cached"

def MediaSource.fromStr (s : String) : Option MediaSource :=
  if s = "upload" then some .upload else if s = "cached" then some .cached else none

structure MediaRef where
  source : MediaSource
  sha256 : ContentHash
  filename : Filename
deriving DecidableEq

inductive MediaReferenceKind
  | local_
  | absolute
  | schemeRelative
deriving DecidableEq

def MediaReferenceKind.asRef : MediaReferenceKind → String
  | .local_ => "local"
  | .absolute => "absolute"
  | .schemeRelative => "scheme_relative"

def MediaReferenceKind.fromStr (s : String) : Option MediaReferenceKind :=
  if s = "local" then some .local_
  else if s = "absolute" then some .absolute
  else if s = "scheme_relative" then some .schemeRelative
  else none

theorem MediaSource.fromStr_asRef (source : MediaSource) : fromStr source.asRef = some source := by
  cases source <;> rfl

theorem MediaReferenceKind.fromStr_asRef (kind : MediaReferenceKind) :
    fromStr kind.asRef = some kind := by
  cases kind <;> rfl

/-- A media URL of a rendered post, with the spelling that named it. -/
structure MediaReference where
  media : MediaRef
  kind : MediaReferenceKind
  referenceForm : String
deriving DecidableEq

end Jaunder.Common.References
