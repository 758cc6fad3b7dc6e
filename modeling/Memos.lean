import Memos.Proofs.Filter.SpaceAccess
import Memos.Proofs.Store.UserSetting
import Memos.Proofs.Store.MemoHistory
import Memos.Proofs.Store.MemoImport
import Memos.Proofs.Api.Session
import Memos.Proofs.Store.UserCache
import Memos.Proofs.Store.Webhooks
import Memos.Proofs.Store.MigratorRestart
import Memos.Proofs.Api.BlockedWordsCache
import Memos.Proofs.Store.DailyQuestion
import Memos.Proofs.Api.SSEHub
import Memos.Proofs.Api.MemoRelations
import Memos.Proofs.Frontend.Sitemap
import Memos.Proofs.Api.MemoShare
import Memos.Proofs.Api.MemoMention
import Memos.Proofs.Api.PayloadRebuild
import Memos.Proofs.Api.PollVote
import Memos.Proofs.Api.Backup
import Memos.Proofs.Filter.PostgresQuery
import Memos.Proofs.Api.AttachmentStorage
import Memos.Proofs.Filter.TextMatch
import Memos.Proofs.Markdown.Snippet
import Memos.Proofs.Outbound.Destination
import Memos.Proofs.Api.MemoAttachmentRequest
import Memos.Proofs.Scheduler.Cron
import Memos.Proofs.Scheduler.Runner
import Memos.Proofs.Markdown.RenameFits
import Memos.Proofs.Web.DailyQuestion
import Memos.Proofs.Outbound.Allowlist
import Memos.Proofs.Store.StorageNormal
import Memos.Proofs.Store.MemoRevision
import Memos.Proofs.Api.MemoCategory
import Memos.Proofs.Web.QuestionBank
import Memos.Proofs.Motionphoto.Motionphoto
import Memos.Proofs.Mcp.Adapter
import Memos.Proofs.Web.ManagedAttachment
import Memos.Proofs.Httpgetter.JsonLd
import Memos.Proofs.Api.UserBanRelease
import Memos.Proofs.Fileserver.StorageFiles
import Memos.Proofs.Api.BlogImport
import Memos.Proofs.SafeArchive.Zip
import Memos.Proofs.Store.Cache
import Memos.Proofs.StylePack.Css
import Memos.Proofs.Web.MediaItem
import Memos.Proofs.Markdown.GfmEmail
import Memos.Proofs.Api.DiagnosticLog
import Memos.Proofs.Httpgetter.HtmlMeta
import Memos.Proofs.Web.HeadingId
