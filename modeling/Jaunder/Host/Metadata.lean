import Jaunder.Common.Copyright
import Jaunder.Common.Feed
import Jaunder.Common.Time

namespace Jaunder.Host.Metadata

open Jaunder.Common.Copyright Jaunder.Common.Owned Jaunder.Common.Time

structure FeedMetadata where
  title : Text
  description : Option Text
  canonicalUrl : Text
  selfUrl : Text
  hubUrl : Option Text
  representationModifiedAt : UtcInstant

structure FeedItem where
  id : Int64
  copyrightDeclaration : CopyrightDeclaration
  renderedTitle : Option Text
  visibleTitle : Option Text
  permalink : Text
  summary : Option Text
  contentHtml : Text
  publishedAt : UtcInstant
  updatedAt : UtcInstant
  tags : Vec Text

end Jaunder.Host.Metadata
