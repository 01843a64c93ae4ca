namespace Jaunder.Common.Feed

inductive FeedFormat
  | rss
  | atom
  | json
deriving DecidableEq

def FeedFormat.ext : FeedFormat → String
  | .rss => "rss"
  | .atom => "atom"
  | .json => "json"

def FeedFormat.contentType : FeedFormat → String
  | .rss => "application/rss+xml; charset=utf-8"
  | .atom => "application/atom+xml; charset=utf-8"
  | .json => "application/feed+json"

abbrev Tag := String

abbrev Username := String

/-- The public page whose Syndication Feed representation is addressed. -/
inductive FeedSurface
  | site
  | siteTag (tag : Tag)
  | user (username : Username)
  | userTag (username : Username) (tag : Tag)
deriving DecidableEq

end Jaunder.Common.Feed
