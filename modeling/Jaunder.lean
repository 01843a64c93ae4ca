import Jaunder.Common.Body
import Jaunder.Common.Copyright
import Jaunder.Common.Etag
import Jaunder.Common.Feed
import Jaunder.Common.Hash
import Jaunder.Common.Keywords
import Jaunder.Common.Media
import Jaunder.Common.MediaIntake
import Jaunder.Common.MediaSpellings
import Jaunder.Common.MediaUrl
import Jaunder.Common.Org
import Jaunder.Common.OrgNormalization
import Jaunder.Common.OrgStability
import Jaunder.Common.Owned
import Jaunder.Common.Pagination
import Jaunder.Common.PostNaming
import Jaunder.Common.PostSearch
import Jaunder.Common.PostSummaries
import Jaunder.Common.PostText
import Jaunder.Common.References
import Jaunder.Common.Render
import Jaunder.Common.Seed
import Jaunder.Common.Slug
import Jaunder.Common.SlugCharacters
import Jaunder.Common.SlugTitles
import Jaunder.Common.SpellingAgreement
import Jaunder.Common.SqliteDecoding
import Jaunder.Common.SqliteTime
import Jaunder.Common.Tag
import Jaunder.Common.ThemePool
import Jaunder.Common.Time
import Jaunder.Common.Visibility
import Jaunder.Common.Xml
import Jaunder.Elisp.BatchOutcomes
import Jaunder.Elisp.InventoryPartition
import Jaunder.Elisp.Keywords
import Jaunder.Elisp.LinkPairing
import Jaunder.Elisp.LinkPublishing
import Jaunder.Elisp.MediaInstallation
import Jaunder.Elisp.MediaSafety
import Jaunder.Elisp.OrgLinks
import Jaunder.Elisp.PostInventory
import Jaunder.Elisp.PostWrites
import Jaunder.Elisp.StagedMedia
import Jaunder.Foundation.ByteOffsets
import Jaunder.Foundation.Calendar
import Jaunder.Foundation.CanonicalJson
import Jaunder.Foundation.Components
import Jaunder.Foundation.Decimal
import Jaunder.Foundation.Fence
import Jaunder.Foundation.FileOwnership
import Jaunder.Foundation.FiniteMap
import Jaunder.Foundation.FreeName
import Jaunder.Foundation.Graphemes
import Jaunder.Foundation.IpAddress
import Jaunder.Foundation.Json
import Jaunder.Foundation.Ledger
import Jaunder.Foundation.Locks
import Jaunder.Foundation.Octets
import Jaunder.Foundation.OneTime
import Jaunder.Foundation.Outcome
import Jaunder.Foundation.Paging
import Jaunder.Foundation.Procedures
import Jaunder.Foundation.QuotedLists
import Jaunder.Foundation.RankedPrefix
import Jaunder.Foundation.RecursiveQuery
import Jaunder.Foundation.Rows
import Jaunder.Foundation.Run
import Jaunder.Foundation.ScriptData
import Jaunder.Foundation.Segmentation
import Jaunder.Foundation.SelfDelimiting
import Jaunder.Foundation.SharedFiles
import Jaunder.Foundation.Sql
import Jaunder.Foundation.Substrings
import Jaunder.Foundation.TextLines
import Jaunder.Foundation.Transactions
import Jaunder.Foundation.TreeWalks
import Jaunder.Foundation.Trimming
import Jaunder.Foundation.UniqueIndex
import Jaunder.Host.ContentEtag
import Jaunder.Host.CssContainment
import Jaunder.Host.CssIsolation
import Jaunder.Host.CssReferences
import Jaunder.Host.Etag
import Jaunder.Host.FeedDocuments
import Jaunder.Host.FeedPath
import Jaunder.Host.FeedPathText
import Jaunder.Host.ForeignMarkers
import Jaunder.Host.Metadata
import Jaunder.Host.Passkey
import Jaunder.Host.Render
import Jaunder.Host.ThemeCss
import Jaunder.Host.ThemePackage
import Jaunder.Host.ThemeValidation
import Jaunder.Host.UploadPreparer
import Jaunder.Host.UploadProtocol
import Jaunder.Host.Window
import Jaunder.Server.BackupRetention
import Jaunder.Server.BackupWorker
import Jaunder.Server.Conditional
import Jaunder.Server.Document
import Jaunder.Server.Drain
import Jaunder.Server.EntityTagList
import Jaunder.Server.FeedCharacters
import Jaunder.Server.FeedWorker
import Jaunder.Server.GoLive
import Jaunder.Server.Handlers
import Jaunder.Server.Listings
import Jaunder.Server.Members
import Jaunder.Server.ProxyChains
import Jaunder.Server.ProxyResolution
import Jaunder.Server.Publisher
import Jaunder.Server.Regenerate
import Jaunder.Server.RuntimeFile
import Jaunder.Server.RuntimeOwnership
import Jaunder.Server.RuntimeProcesses
import Jaunder.Server.RuntimeSafety
import Jaunder.Server.TrustedProxy
import Jaunder.Storage.Accounts
import Jaunder.Storage.AudienceAccess
import Jaunder.Storage.AudienceOwnership
import Jaunder.Storage.Audiences
import Jaunder.Storage.CodeMigrations.MediaReferences
import Jaunder.Storage.CodeMigrations.RenderedPosts
import Jaunder.Storage.Dialect
import Jaunder.Storage.FeedCache
import Jaunder.Storage.FeedEvents
import Jaunder.Storage.FeedInvalidation
import Jaunder.Storage.GoLive
import Jaunder.Storage.HeaderPoolAgreement
import Jaunder.Storage.HeaderPools
import Jaunder.Storage.IdempotentCreation
import Jaunder.Storage.Listings
import Jaunder.Storage.Media
import Jaunder.Storage.MediaManager
import Jaunder.Storage.MediaQuota
import Jaunder.Storage.MediaSafety
import Jaunder.Storage.Migrations.ActivePostSlugUniqueness
import Jaunder.Storage.Migrations.HistoricalPermalinks
import Jaunder.Storage.Migrations.SlugAllocation
import Jaunder.Storage.Migrations.SlugRepair
import Jaunder.Storage.OneTimeSecrets
import Jaunder.Storage.Passkeys
import Jaunder.Storage.PostService
import Jaunder.Storage.Posts.AudienceEquality
import Jaunder.Storage.Posts.AudienceRows
import Jaunder.Storage.Posts.Bulk
import Jaunder.Storage.Posts.BulkRefinement
import Jaunder.Storage.Posts.History
import Jaunder.Storage.Posts.Lifecycle
import Jaunder.Storage.Posts.ProjectionAgreement
import Jaunder.Storage.Posts.Refresh
import Jaunder.Storage.Posts.RevisionMedia
import Jaunder.Storage.Posts.Runs
import Jaunder.Storage.Posts.SearchBackfill
import Jaunder.Storage.Posts.Tables
import Jaunder.Storage.Posts.TagReconciliation
import Jaunder.Storage.Posts.Update
import Jaunder.Storage.Posts.UpdateStatement
import Jaunder.Storage.Publisher
import Jaunder.Storage.Redrive
import Jaunder.Storage.Schema
import Jaunder.Storage.SessionLifetime
import Jaunder.Storage.Sessions
import Jaunder.Storage.SlugAllocation
import Jaunder.Storage.Syndication
import Jaunder.Storage.SystemReleases
import Jaunder.Storage.SystemThemes
import Jaunder.Storage.ThemeAccounting
import Jaunder.Storage.ThemeAssetManager
import Jaunder.Storage.ThemeBooks
import Jaunder.Storage.ThemeContentDiscipline
import Jaunder.Storage.ThemeContentRuns
import Jaunder.Storage.ThemeContentSafety
import Jaunder.Storage.ThemeContentSteps
import Jaunder.Storage.ThemeDrafts
import Jaunder.Storage.ThemeNames
import Jaunder.Storage.ThemePublication
import Jaunder.Storage.ThemeReferences
import Jaunder.Storage.ThemeRemoval
import Jaunder.Storage.ThemeRepublication
import Jaunder.Storage.Themes
import Jaunder.Storage.TitleSearch
import Jaunder.Storage.Visibility
import Jaunder.Storage.WriteScope
import Jaunder.Web.Composer
import Jaunder.Web.PasskeySafety
import Jaunder.Web.Passkeys
import Jaunder.Web.TagInput
import Jaunder.Web.Timeline
