import PieRelay.AcpFraming
import PieRelay.AcpTurns
import PieRelay.Admission
import PieRelay.AsyncSender
import PieRelay.Attempts
import PieRelay.Base64Url
import PieRelay.BlobAccounting
import PieRelay.BlobReferences
import PieRelay.BlobStore
import PieRelay.CachedVerify
import PieRelay.CachedVersions
import PieRelay.ChangeCursor
import PieRelay.ChangeLog
import PieRelay.ChatConversation
import PieRelay.ChatIdle
import PieRelay.ChatJournal
import PieRelay.ChatLiveness
import PieRelay.ChatLocks
import PieRelay.ChatMoves
import PieRelay.ChatOutcomes
import PieRelay.ChatReducer
import PieRelay.ChatRequests
import PieRelay.ChatTurns
import PieRelay.ChildSupervisor
import PieRelay.ClaudeTurns
import PieRelay.CodexAnswers
import PieRelay.CodexTurns
import PieRelay.ControlPlane
import PieRelay.CredentialRotation
import PieRelay.DeviceDrain
import PieRelay.DeviceProjection
import PieRelay.DeviceReconcile
import PieRelay.DeviceSessions
import PieRelay.DirectoryAtomicity
import PieRelay.DirectoryStore
import PieRelay.DrainCompletion
import PieRelay.DrainOutcome
import PieRelay.DriverAgreement
import PieRelay.DriverLease
import PieRelay.EnsuredLimits
import PieRelay.EventStreams
import PieRelay.Executions
import PieRelay.ExecutorAgreement
import PieRelay.ExecutorCapacity
import PieRelay.ExecutorRegistry
import PieRelay.FileTrees
import PieRelay.GoStrings
import PieRelay.HostProjection
import PieRelay.HostStatus
import PieRelay.IdentityInjection
import PieRelay.InactiveUsers
import PieRelay.InstallStatus
import PieRelay.IntegrationQuotas
import PieRelay.InviteScope
import PieRelay.JobCancellation
import PieRelay.JobConsistency
import PieRelay.JobEvents
import PieRelay.JobPersistence
import PieRelay.JobRuns
import PieRelay.JobTable
import PieRelay.JournalFaults
import PieRelay.JournalFile
import PieRelay.JournalReplay
import PieRelay.JsonNumbers
import PieRelay.JsonObjects
import PieRelay.JsonRecords
import PieRelay.JsonScanner
import PieRelay.JsonStrings
import PieRelay.KeysetPages
import PieRelay.LatePresence
import PieRelay.MemoryIndexes
import PieRelay.MobileBridge
import PieRelay.MobileRevocation
import PieRelay.MobileTerminal
import PieRelay.OperationExecution
import PieRelay.OperationIdempotency
import PieRelay.OperationLifecycle
import PieRelay.OperationSteps
import PieRelay.OperationStore
import PieRelay.OrphanedSessions
import PieRelay.OutputScheduler
import PieRelay.ParticipantRouting
import PieRelay.PreviewGateway
import PieRelay.PreviewPaths
import PieRelay.PreviewPorts
import PieRelay.PreviewRecords
import PieRelay.PreviewShutdown
import PieRelay.ProvisionFlights
import PieRelay.PtyDaemon
import PieRelay.PtyOutput
import PieRelay.PtySnapshots
import PieRelay.QuotaLimits
import PieRelay.RateLimits
import PieRelay.RealPaths
import PieRelay.Refills
import PieRelay.RelayAssignment
import PieRelay.RelayFencing
import PieRelay.RelayFrames
import PieRelay.RelayReconnection
import PieRelay.RelayToken
import PieRelay.ReplayBuffer
import PieRelay.ReplicaConvergence
import PieRelay.Replicas
import PieRelay.RequestReplay
import PieRelay.RestartTracker
import PieRelay.RoomRegistry
import PieRelay.RoomsReducer
import PieRelay.RoutingIsolation
import PieRelay.ScrollBoundary
import PieRelay.ScrollFrames
import PieRelay.SessionCapability
import PieRelay.SessionCredentials
import PieRelay.SessionHistory
import PieRelay.SessionManager
import PieRelay.SessionRouting
import PieRelay.SnapshotRecovery
import PieRelay.StoppedPreviews
import PieRelay.SynchronousRequests
import PieRelay.TaskCorrelation
import PieRelay.TerminalScreens
import PieRelay.TerminalStream
import PieRelay.TerminalViewer
import PieRelay.Timestamps
import PieRelay.UsageCompleteness
import PieRelay.UsageLedger
import PieRelay.UsagePages
import PieRelay.UserLifecycle
import PieRelay.UserRequests
import PieRelay.UserSuspension
import PieRelay.VersionHistory
import PieRelay.Workspace
import PieRelay.WorkspaceSave
