import Privahub.Audit.VerifyRace
import Privahub.Audit.Expired
import Privahub.Audit.Shutdown
import Privahub.Http.KeysAgree
import Privahub.Http.CaseResponse
import Privahub.Http.RateLimit
import Privahub.Sync.P2POrder
import Privahub.Sync.Restored
import Privahub.Sync.Checkpoint
import Privahub.Sync.Echo
import Privahub.Sched.Finished
import Privahub.Sched.Offline
import Privahub.Graph.Serial
import Privahub.Route.Running
import Privahub.Inst.Register
import Privahub.Serving.Orphan
import Privahub.Serving.Status
import Privahub.Vote.Counted
import Privahub.Vote.Signed
import Privahub.Vote.PartyInfo
import Privahub.Job.Pending
import Privahub.Auth.Fresh
import Privahub.Auth.Lockout
import Privahub.Web.NodeIds
import Privahub.Web.Canvas
import Privahub.Web.TidyLayout
import Privahub.Web.Remap
import Privahub.Web.ModelChain
import Privahub.Web.Reopened
import Privahub.Http.Session
import Privahub.Vote.Archive
import Privahub.Web.GraphEditor
import Privahub.Web.ScheduleAgree
import Privahub.Sched.Expand
import Privahub.Audit.SpoolRun
import Privahub.Audit.ArchiveText
import Privahub.Sync.Sse
import Privahub.Sched.JobIds
import Privahub.Sched.Retry
import Privahub.Sync.Upsert
import Privahub.Crypto.AtRest
import Privahub.Node.PartnerKept
import Privahub.Job.Extended
import Privahub.Job.Vanished
import Privahub.Vote.PreCheck
import Privahub.Vote.NodeRoute
import Privahub.Tee.Render
import Privahub.Tee.Authorized
import Privahub.Serving.Export
import Privahub.Graph.Partitions
import Privahub.Graph.PartitionRule
import Privahub.Graph.Scql
import Privahub.Graph.NodeDef
import Privahub.Data.Confined
import Privahub.Auth.StoredText
import Privahub.Crypto.Rotation
import Privahub.Data.Deletion
import Privahub.Vote.Nonces
import Privahub.Kuscia.Pool
import Privahub.Web.Registry
