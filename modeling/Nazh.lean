import Nazh.Graph.DataPlane
import Nazh.Io.Approval
import Nazh.Desktop.Confirmation
import Nazh.Io.CanSelection
import Nazh.Graph.DefaultPort
import Nazh.Dsl.Reachable
import Nazh.Connections.Twin
import Nazh.Io.CanSession
import Nazh.Io.ApprovalRace
import Nazh.Desktop.AtMostOnce
import Nazh.Desktop.Ownership
import Nazh.Desktop.ActiveWorkflow
import Nazh.Desktop.Shutdown
import Nazh.Store.Batch
import Nazh.Desktop.Persistence
import Nazh.Desktop.RedeployRuns
import Nazh.Io.PollAccounting
import Nazh.Io.CanLock
import Nazh.Desktop.DefinitionCheck
import Nazh.Desktop.MetadataReaders
import Nazh.Web.RuntimeState
import Nazh.Desktop.ProjectLibrary
import Nazh.Graph.TopologyLoops
import Nazh.Connections.Upsert
import Nazh.Connections.Dates
import Nazh.Graph.BlockUntilReady
import Nazh.Desktop.DeploymentSession
import Nazh.Desktop.SessionMarker
import Nazh.Graph.Bridges
import Nazh.Graph.EdgeWindow
import Nazh.Graph.PullAncestors
import Nazh.Io.EthercatEntry
import Nazh.Io.TemplateCheck
import Nazh.Flow.TransitionChoice
import Nazh.Dsl.ConditionWords
import Nazh.Desktop.QueueDepth
import Nazh.Io.SerialDelimiters
import Nazh.Desktop.ImportedDevices
import Nazh.Io.SlcanRoundTrip
import Nazh.Desktop.TraceSummaries
import Nazh.Web.ProjectIds
import Nazh.Web.Parameters
import Nazh.Web.Nesting
import Nazh.Web.CopilotProtocol
import Nazh.Desktop.DatabasePaths
import Nazh.Web.ProjectRollback
import Nazh.Desktop.AiConfig
import Nazh.Script.IntegerHelpers
import Nazh.Io.ManualDispatch
import Nazh.Desktop.PatchField
import Nazh.Dsl.Meaning
import Nazh.Flow.BranchingNodes
