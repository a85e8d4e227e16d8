import Athos.Backoff.Schedule
import Athos.Certificate.Coverage
import Athos.Cluster.BackupSettings
import Athos.Cluster.Credentials
import Athos.Cluster.Deletion
import Athos.Cluster.Reflection
import Athos.Cluster.VersionPolicy
import Athos.Conditions.History
import Athos.Configfile.PostgresConf
import Athos.Datadir.Paths
import Athos.Duration.Format
import Athos.Eventbus.Bus
import Athos.Ha.PodOrdinal
import Athos.Healthcheck.Report
import Athos.Imageutil.Reference
import Athos.Initialize.Bootstrap
import Athos.Labels.Validation
import Athos.Manifest.Documents
import Athos.Network.Policies
import Athos.Operator.DerivedNames
import Athos.Operator.Fleet
import Athos.Operator.Ownership
import Athos.Operator.Retirement
import Athos.Patcher.Diff
import Athos.Patcher.OwnerRef
import Athos.Podmanager.Groups
import Athos.Pooler.Annotation
import Athos.Pooler.UserList
import Athos.Postgres.AutoTune
import Athos.Postgres.Effective
import Athos.Postgres.Hba
import Athos.Predicates.Updates
import Athos.Recovery.Target
import Athos.Replication.SlotNames
import Athos.Replication.Standby
import Athos.Resourcerequests.Merge
import Athos.Rolerollout.Plan
import Athos.Schedule.Grammar
import Athos.Schedule.Matching
import Athos.Schedule.Retention
import Athos.Snapshot.Retention
import Athos.Store.Connections
import Athos.Store.RoundTrip
import Athos.Timeutil.Durations
import Athos.Timeutil.Occurrence
import Athos.User.Applied
import Athos.User.QuoteRoundTrip
import Athos.User.RedactedScript
import Athos.Userstate.Role
import Athos.Validation.DnsLabel
import Athos.Walarchive.Commands
import Athos.Walarchive.Segment
