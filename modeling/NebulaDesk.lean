import NebulaDesk.Client.Budget
import NebulaDesk.Agent.FrameEpochs
import NebulaDesk.Agent.FlowControl
import NebulaDesk.Agent.FileSession
import NebulaDesk.Multipath.RouteRuns
import NebulaDesk.Multipath.Failover
import NebulaDesk.Multipath.Fairness
import NebulaDesk.Clipboard.Echo
import NebulaDesk.Clipboard.Atomic
import NebulaDesk.Clipboard.Wire
import NebulaDesk.Transport.OrderedReads
import NebulaDesk.Agent.ReferenceChain
import NebulaDesk.Proto.Batches
import NebulaDesk.Client.StuckKeys
import NebulaDesk.Relay.Agreement
import NebulaDesk.Gateway.Attachment
import NebulaDesk.Gateway.Departure
import NebulaDesk.Manager.Placement
import NebulaDesk.Manager.Publishing
import NebulaDesk.Manager.SecretsRuns
import NebulaDesk.Agent.MacSession
import NebulaDesk.Manager.SessionRecords
import NebulaDesk.Manager.Administrators
import NebulaDesk.Manager.Suspension
import NebulaDesk.Desktop.SignOutRuns
import NebulaDesk.Desktop.Isolation
import NebulaDesk.Desktop.ServiceProbes
import NebulaDesk.Agent.TelemetryOrder
import NebulaDesk.Agent.AuthorityRuns
import NebulaDesk.Manager.Deletion
import NebulaDesk.Agent.SessionRegistry
import NebulaDesk.Relay.Splice
import NebulaDesk.Gateway.Connections
import NebulaDesk.Agent.Geometry
import NebulaDesk.Client.Converters
import NebulaDesk.Multipath.DirectOffer
import NebulaDesk.Desktop.EnrollmentRuns
import NebulaDesk.Desktop.CommandRuns
import NebulaDesk.Crypto.ReplayRuns
import NebulaDesk.Client.VideoRecovery
import NebulaDesk.Clipboard.Announced
import NebulaDesk.Agent.FileExpiry
import NebulaDesk.Agent.WindowsModifiers
import NebulaDesk.Agent.AudioPump
import NebulaDesk.Agent.SurfaceRuntimeRuns
import NebulaDesk.Desktop.UiStoreRuns
import NebulaDesk.Client.Coalescing
import NebulaDesk.Agent.LinuxSharingRuns
import NebulaDesk.Agent.MacInput
import NebulaDesk.Client.AudioPlayback
