import Jaunder.Common.Owned

namespace Jaunder.Common.Copyright

open Jaunder.Common.Owned

inductive ContentLicense
  | allRightsReserved
  | cc0_1_0
  | ccBy4_0
  | ccBySa4_0
  | ccByNd4_0
  | ccByNc4_0
  | ccByNcSa4_0
  | ccByNcNd4_0
deriving DecidableEq

def ContentLicense.token : ContentLicense → String
  | .allRightsReserved => "all-rights-reserved"
  | .cc0_1_0 => "CC0-1.0"
  | .ccBy4_0 => "CC-BY-4.0"
  | .ccBySa4_0 => "CC-BY-SA-4.0"
  | .ccByNd4_0 => "CC-BY-ND-4.0"
  | .ccByNc4_0 => "CC-BY-NC-4.0"
  | .ccByNcSa4_0 => "CC-BY-NC-SA-4.0"
  | .ccByNcNd4_0 => "CC-BY-NC-ND-4.0"

/-- The current author identity selected for public rights presentation. -/
inductive CopyrightAuthor
  | displayName (name : Text)
  | username (name : Text)
deriving DecidableEq

def CopyrightAuthor.asStr : CopyrightAuthor → Text
  | .displayName name => name
  | .username name => name

structure CopyrightDeclaration where
  year : Int16
  author : CopyrightAuthor
  license : ContentLicense
deriving DecidableEq

def CopyrightDeclaration.authorName (d : CopyrightDeclaration) : Text := d.author.asStr

end Jaunder.Common.Copyright
