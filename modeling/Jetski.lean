import Jetski.Relational.Store
import Jetski.Relational.Cascade
import Jetski.Relational.CascadeOutcome
import Jetski.Relational.Constraints
import Jetski.Relational.Client
import Jetski.Relational.Schedule
import Jetski.Relational.Provenance
import Jetski.Relational.Alone
import Jetski.Relational.Vetted
import Jetski.Schema
import Jetski.Types
import Jetski.Queries
import Jetski.Logs
import Jetski.Gateway
import Jetski.Validation
import Jetski.Analytics
import Jetski.Database
import Jetski.Ownership
import Jetski.Reachability
import Jetski.Migration
import Jetski.Deletion
import Jetski.Summaries
import Jetski.GatewayConfig
import Jetski.Handlers
import Jetski.Routes
import Jetski.ApiRuns
import Jetski.RowChecks
import Jetski.Requests
import Jetski.Sources
import Jetski.Hosts
import Jetski.Settings
import Jetski.Relational.Discipline
import Jetski.Relational.Updates
import Jetski.Relational.Drafts
import Jetski.Relational.Failures
import Jetski.Transactions
import Jetski.RevisionAtomicity
import Jetski.ConcurrentDeletion
import Jetski.RecentSessions
import Jetski.ToolAnalytics
import Jetski.TopTools
import Jetski.Latency
import Jetski.Offsets
import Jetski.Rounding
import Jetski.Attention
import Jetski.HostNames
import Jetski.ArgumentPager
import Jetski.HostFormat
import Jetski.RecentPrompts
import Jetski.Statements
import Jetski.RevisionFilter
import Jetski.Duties
import Jetski.Serial
import Jetski.SettingsRuns
import Jetski.OrganizationRuns
import Jetski.Creation
import Jetski.Webhook
import Jetski.Upstreams
import Jetski.Ask
import Jetski.Periods
import Jetski.Upsert
import Jetski.Members
import Jetski.Relational.Informed
import Jetski.Existence
import Jetski.Attribution
import Jetski.Relational.Mirror
import Jetski.GatewaySync
import Jetski.Isolation
import Jetski.Disclosure
import Jetski.StrangerRequests
import Jetski.Kubernetes
import Jetski.Children
import Jetski.ObjectNames
import Jetski.ProjectUrl
import Jetski.Usage
import Jetski.SettingsResponse
import Jetski.Tally
import Jetski.AnalyticsOrder
import Jetski.Paging
import Jetski.AnalyticsViews
import Jetski.PromptReaders
import Jetski.Pages
import Jetski.StableSort
import Jetski.BuildNumbers
import Jetski.RevisionOrder
import Jetski.Relational.Chronicle
import Jetski.Relational.Lasting
import Jetski.Permanence
import Jetski.Conduct
import Jetski.Answers
import Jetski.Mediation
import Jetski.Warrants
import Jetski.Origins
import Jetski.Relational.Erasure
import Jetski.Secrecy
import Jetski.Snapshots
import Jetski.Shown
