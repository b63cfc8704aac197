import Harpoon.Laws.Ledger
import Harpoon.Laws.Plan
import Harpoon.Laws.Acceptance
import Harpoon.Laws.Leases
import Harpoon.Laws.Promises
import Harpoon.Laws.Startup
import Harpoon.Laws.Lives
import Harpoon.Laws.Survival
import Harpoon.Laws.TornTail
import Harpoon.Laws.FileJournal
import Harpoon.Laws.Drain
import Harpoon.Laws.Poll
import Harpoon.Laws.Repeat
import Harpoon.Laws.Machine
import Harpoon.Laws.Pins
import Harpoon.Laws.Credentials
import Harpoon.Laws.Sqlite
import Harpoon.Laws.Serving
import Harpoon.Laws.LedgerLines
import Harpoon.Laws.GitRecords
import Harpoon.Laws.Registrations
import Harpoon.Laws.Migration
import Harpoon.Docker.Dockerfile
import Harpoon.Docker.Surroundings
import Harpoon.Laws.Orphans
import Harpoon.Laws.Paths
import Harpoon.Laws.Router
import Harpoon.Laws.Context
import Harpoon.Laws.CommandLines
import Harpoon.Laws.Tips
import Harpoon.Interact.Process
import Harpoon.Cli.JournalUpgrade
import Harpoon.Laws.JournalUpgrade
import Harpoon.Host.PortForward
import Harpoon.Laws.PortForward
import Harpoon.Git.Watch
import Harpoon.Laws.Watch
import Harpoon.Laws.Glob
import Harpoon.Laws.Delivery
import Harpoon.Laws.Resolve
import Harpoon.Laws.FileUrl
import Harpoon.Uri.Authority
import Harpoon.Laws.Urls
import Harpoon.Laws.Destinations
import Harpoon.Laws.Redactor
import Harpoon.Host.RuntimeConfig
import Harpoon.Host.Lifecycle
import Harpoon.Laws.Restart
import Harpoon.Laws.BuildOutput
import Harpoon.Laws.LogChunks
import Harpoon.Laws.Ports
import Harpoon.Laws.IdGenerator
import Harpoon.Laws.RunHealth
import Harpoon.Laws.Routes
import Harpoon.Laws.Restoration
import Harpoon.Docker.Probe
import Harpoon.Laws.Attribution
import Harpoon.Laws.Teardown
import Harpoon.Laws.JsonRoundTrip
import Harpoon.Laws.LogFrames
import Harpoon.Laws.Webhook
import Harpoon.Laws.HttpMessages
import Harpoon.Laws.GitLabPushes
import Harpoon.Laws.RequestHeads
import Harpoon.Laws.Rows
import Harpoon.Laws.Streams
import Harpoon.Laws.FormRules
import Harpoon.Laws.UntouchedForms
import Harpoon.Laws.Sha256
import Harpoon.Laws.SshCommand
import Harpoon.Laws.Observations
import Harpoon.Laws.SharedRoots
import Harpoon.Laws.HostPaths
import Harpoon.Docker.Frontend
import Harpoon.Laws.BaseImages
import Harpoon.Host.UnixBridge
import Harpoon.Laws.RequestFields
import Harpoon.Laws.UnixBridge
import Harpoon.Laws.RequestReading
import Harpoon.Laws.CreateRequests
import Harpoon.Laws.Spared
import Harpoon.Laws.Replayed
import Harpoon.Deploy.Rollback
import Harpoon.Laws.Rollback
