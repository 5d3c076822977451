import Stelyph.Lib.Steps
import Stelyph.Lib.Prog
import Stelyph.Lib.Pool
import Stelyph.Lib.Turns
import Stelyph.Lib.Budget
import Stelyph.Lib.Typestate
import Stelyph.Lib.Text
import Stelyph.Lib.Table
import Stelyph.Lib.Format
import Stelyph.Errors
import Stelyph.Plc
import Stelyph.Accounts
import Stelyph.Registration
import Stelyph.RegistrationGate
import Stelyph.RegistrationAtomic
import Stelyph.OauthStore
import Stelyph.Jose
import Stelyph.Dpop
import Stelyph.DpopReplay
import Stelyph.OauthClient
import Stelyph.TokenEndpoint
import Stelyph.RefreshRevocation
import Stelyph.OauthSqlite
import Stelyph.LiveToken
import Stelyph.WorkerSignin
import Stelyph.SigninSecrecy
import Stelyph.SigninRefusal
import Stelyph.SigninDecided
import Stelyph.Registry
import Stelyph.RegistryInvites
import Stelyph.WorkerFront
import Stelyph.HandleHeld
import Stelyph.SingleAccount
import Stelyph.Repo
import Stelyph.RepoWriter
import Stelyph.RepoBlocks
import Stelyph.DoCommit
import Stelyph.RepoBatch
import Stelyph.RepoChain
import Stelyph.RepoCritical
import Stelyph.RepoHistory
import Stelyph.RepoReach
import Stelyph.RepoCalls
import Stelyph.RepoClosed
import Stelyph.RepoListed
import Stelyph.RepoAtRest
import Stelyph.RepoReplay
import Stelyph.RepoUtil
import Stelyph.RepoRevs
import Stelyph.FirehoseTail
import Stelyph.Sequencer
import Stelyph.SequencerOrder
import Stelyph.SequencerHop
import Stelyph.FirehoseSubscribe
import Stelyph.FirehosePublish
import Stelyph.FirehoseDelivery
import Stelyph.FirehoseEmbedded
import Stelyph.FirehoseLog
import Stelyph.FirehosePrefix
import Stelyph.FirehoseAttested
import Stelyph.XrpcAuth
import Stelyph.Authorize
import Stelyph.Server
import Stelyph.ServerStages
import Stelyph.SingleCode
import Stelyph.XrpcHandlers
import Stelyph.EmbeddedRepo
import Stelyph.RecordServing
import Stelyph.WorkerRepo
import Stelyph.WorkerObject
import Stelyph.WorkerHistory
import Stelyph.Tenants
import Stelyph.Erasure
import Stelyph.TenantIsolation
import Stelyph.SequencerHistory
import Stelyph.ApplyWrites
import Stelyph.RecordRaces
import Stelyph.RecordOrder
import Stelyph.ScopeEnforcement
import Stelyph.Takedown
import Stelyph.Provenance
import Stelyph.FirehoseLive
import Stelyph.AcceptedAlike
import Stelyph.RefreshNotAccess
import Stelyph.RepoExport
import Stelyph.ListingAgrees
import Stelyph.StorageBackend
import Stelyph.MemoryBackend
import Stelyph.SqlTables
import Stelyph.SqliteBackend
import Stelyph.DurableBackend
import Stelyph.MemorySqlite
import Stelyph.SqliteDurable
import Stelyph.BackendsAgree
import Stelyph.ListingPages
import Stelyph.TokenRuns
import Stelyph.RefreshHolder
import Stelyph.ConfidentialClients
import Stelyph.ProofOfPossession
import Stelyph.FirehoseVerified
import Stelyph.SigninPending
import Stelyph.InviteSpending
import Stelyph.KeyTransfer
import Stelyph.SigningKeyKept
import Stelyph.JsonIpld
import Stelyph.WsControl
import Stelyph.RedirectQuery
import Stelyph.FrontQuery
import Stelyph.FrontGuard
import Stelyph.ClientIds
import Stelyph.HandleLogin
import Stelyph.RecordKeys
import Stelyph.RecordNames
import Stelyph.HtuResources
import Stelyph.Collections
import Stelyph.Backfill
import Stelyph.DidWeb
import Stelyph.CrawlGuard
import Stelyph.Lib.Memo
import Stelyph.Lib.Expand
import Stelyph.Lib.UrlBase
import Stelyph.AppviewGuard
import Stelyph.ServiceDid
import Stelyph.ServiceForward
import Stelyph.SigningKeyCache
import Stelyph.ListingWhileWriting
import Stelyph.OauthFlow
import Stelyph.BlobServing
import Stelyph.Lib.Html
import Stelyph.OauthPages
