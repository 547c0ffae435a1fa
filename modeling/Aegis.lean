import Aegis.Text
import Aegis.Scalars
import Aegis.Printable
import Aegis.Value
import Aegis.StepPath
import Aegis.Trail
import Aegis.GatewayDomain
import Aegis.Policy
import Aegis.RateLimit
import Aegis.Untrusted
import Aegis.AuditLog
import Aegis.AuditRows
import Aegis.InvokeTool
import Aegis.GatewayAuthority
import Aegis.AuditCompleteness
import Aegis.ClaimedIdentity
import Aegis.PolicyStamp
import Aegis.AuditChain
import Aegis.Incident
import Aegis.LifecycleRace
import Aegis.ManageRules
import Aegis.PolicyPublish
import Aegis.Evidence
import Aegis.Plan
import Aegis.Rca
import Aegis.Grounding
import Aegis.Collect
import Aegis.Graph
import Aegis.Routes
import Aegis.RunEnd
import Aegis.LlmFailure
import Aegis.TransitionRca
import Aegis.ReviewStates
import Aegis.CitationSoundness
import Aegis.Runner
import Aegis.Worker
import Aegis.Handling
import Aegis.Delivery
import Aegis.AuditCustody
import Aegis.ContextIsolation
import Aegis.ExactlyOnce
import Aegis.FreshRestart
import Aegis.Chunking
import Aegis.Ingest
import Aegis.IngestRuns
import Aegis.IngestOutcome
import Aegis.ManifestTrust
import Aegis.Regex
import Aegis.LineScan
import Aegis.Redact
import Aegis.RuleOrder
import Aegis.PlainText
import Aegis.Ensuring
import Aegis.PackIds
import Aegis.PromptHeads
import Aegis.PromptLines
import Aegis.CodeTools
import Aegis.Moments
import Aegis.TamperEvidence
import Aegis.RcaHistory
import Aegis.TransitionIncident
import Aegis.PauseControl
import Aegis.IncidentSignals
import Aegis.ChangeLog
import Aegis.PolicyChanges
import Aegis.Traceability
import Aegis.Metering
import Aegis.TokenBuckets
import Aegis.RateIsolation
import Aegis.PolicySpec
import Aegis.Windows
import Aegis.ChunkGroups
import Aegis.WindowBounds
import Aegis.Cuts
import Aegis.VisibleText
import Aegis.WindowSources
import Aegis.ChunkCover
import Aegis.Limits
import Aegis.BreakerTrace
import Aegis.OutputCap
import Aegis.DirectiveLines
import Aegis.TruncationFlag
import Aegis.RegexContext
import Aegis.SecretResidue
import Aegis.RankFusion
import Aegis.Fingerprints
import Aegis.PauseInverse
import Aegis.EvidenceProjection
import Aegis.EvidenceSources
import Aegis.Gathering
import Aegis.EvidencePack
import Aegis.RcaRoundTrip
import Aegis.JsonText
import Aegis.ClaudeJson
import Aegis.RegexLines
import Aegis.SecretLines
import Aegis.PostIncident
import Aegis.ReportSecrets
import Aegis.ReportSources
import Aegis.TimeOrder
import Aegis.IncidentRows
import Aegis.IncidentRoundTrip
import Aegis.HardSplit
import Aegis.ProgressSteps
import Aegis.ProgressOrder
import Aegis.NeutralFixpoint
import Aegis.JsonReader
import Aegis.JsonReading
import Aegis.Loads
import Aegis.Access
import Aegis.Api
import Aegis.Requests
import Aegis.Attribution
import Aegis.HandledEvents
import Aegis.OpenIncidents
import Aegis.Envelope
import Aegis.MessageQueue
import Aegis.EventFlow
import Aegis.FlowRuns
import Aegis.Simulator
import Aegis.McpDoor
import Aegis.SimulatorSignal
import Aegis.ObservabilityClient
import Aegis.KnowledgeOrigin
import Aegis.KnowledgeSearch
import Aegis.BulkBody
