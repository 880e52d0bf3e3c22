import LabTether.RetryBackoff
import LabTether.ScheduledChildren
import LabTether.RemoteWriteDelivery
import LabTether.GroupHierarchy
import LabTether.CompositeInvariant
import LabTether.TopologyRead
import LabTether.TopologyRedraw
import LabTether.CommandSpelling
import LabTether.CommandInterpreters
import LabTether.CommandQuoting
import LabTether.OutboundPrecheck
import LabTether.RemoteWriteAcceptance
import LabTether.PushDigestSettlement
import LabTether.AlertPauseRuns
import LabTether.AlertStores
import LabTether.RuleSweeps
import LabTether.AgentLifecycleRuns
import LabTether.FleetCapacity
import LabTether.LiveAccess
import LabTether.TicketRedemption
import LabTether.StreamRaces
import LabTether.LoginRaces
import LabTether.ScheduleCapacity
import LabTether.MaintenanceGuards
import LabTether.PushRelay
import LabTether.RecordingSweep
import LabTether.SftpDelete
import LabTether.UserAdminRaces
import LabTether.AnchorStores
import LabTether.RateLimit
import LabTether.Scrollback
import LabTether.CorrelationSweep
import LabTether.DockerTargets
import LabTether.FilePool
import LabTether.Mdns
import LabTether.WebServiceCache
import LabTether.ScrapeBudget
import LabTether.Containment
import LabTether.TopologyLayout
import LabTether.ServiceHealth
import LabTether.StatusAggregate
import LabTether.QuietHours
import LabTether.Admissions
import LabTether.HostMatch
import LabTether.AlertComposites
