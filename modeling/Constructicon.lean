import Constructicon.AcquisitionClosure
import Constructicon.AddressKey
import Constructicon.Alike
import Constructicon.Atomic
import Constructicon.AttemptRecord
import Constructicon.Attestation
import Constructicon.AttestationMint
import Constructicon.Binding
import Constructicon.CanonicalForm
import Constructicon.Channel
import Constructicon.ClaudeProtocol
import Constructicon.Clean
import Constructicon.CleanBinding
import Constructicon.CleanupCustody
import Constructicon.Closed
import Constructicon.ClosedLoop
import Constructicon.Closedness
import Constructicon.Combinators
import Constructicon.CommandLaw
import Constructicon.Commands
import Constructicon.Compilation
import Constructicon.CompileRules
import Constructicon.CompiledSources
import Constructicon.Congruence
import Constructicon.ConnectGrammar
import Constructicon.ContentOrder
import Constructicon.ControlDouble
import Constructicon.ControlLifecycle
import Constructicon.ControlPages
import Constructicon.ControlQueries
import Constructicon.Cursor
import Constructicon.Decisions
import Constructicon.DetailChunks
import Constructicon.EffectBoundary
import Constructicon.Egress
import Constructicon.EgressRelay
import Constructicon.ExactlyOnce
import Constructicon.ExplicitMaps
import Constructicon.FaultEmission
import Constructicon.FaultFrames
import Constructicon.FaultText
import Constructicon.Grants
import Constructicon.Graph
import Constructicon.GraphCycles
import Constructicon.HostDeferral
import Constructicon.HostWorkers
import Constructicon.Human
import Constructicon.HumanExchange
import Constructicon.Identity
import Constructicon.InProcess
import Constructicon.InProcessCalls
import Constructicon.InProcessHistory
import Constructicon.Inbox
import Constructicon.Inline
import Constructicon.Journal
import Constructicon.JournalChange
import Constructicon.JournalIntact
import Constructicon.JournalReaders
import Constructicon.JournalSeals
import Constructicon.JournalWriters
import Constructicon.Json
import Constructicon.JsonFrames
import Constructicon.LaunchOrder
import Constructicon.LeaseExpiry
import Constructicon.Level
import Constructicon.Library.Base64
import Constructicon.Library.Calendar
import Constructicon.Library.Collect
import Constructicon.Library.Connection
import Constructicon.Library.DepthFirst
import Constructicon.Library.DepthGuard
import Constructicon.Library.Dict
import Constructicon.Library.Emit
import Constructicon.Library.IpLiteral
import Constructicon.Library.IsoTime
import Constructicon.Library.JsonFinite
import Constructicon.Library.JsonNesting
import Constructicon.Library.JsonSize
import Constructicon.Library.Keyset
import Constructicon.Library.Lines
import Constructicon.Library.Locked
import Constructicon.Library.Numbered
import Constructicon.Library.Paging
import Constructicon.Library.Place
import Constructicon.Library.PosixPath
import Constructicon.Library.Preceded
import Constructicon.Library.Procedure
import Constructicon.Library.PyJson
import Constructicon.Library.Relational
import Constructicon.Library.Separated
import Constructicon.Library.Threaded
import Constructicon.Library.Transaction
import Constructicon.Library.Utf8
import Constructicon.Library.Vectors
import Constructicon.LoopPrograms
import Constructicon.Mailbox
import Constructicon.MailboxGrowth
import Constructicon.MailboxRuns
import Constructicon.MailboxSound
import Constructicon.MailboxWrites
import Constructicon.MaintenanceMode
import Constructicon.MaintenanceSound
import Constructicon.Manifest
import Constructicon.MergeInstall
import Constructicon.NodeCongruence
import Constructicon.OperatorMetadata
import Constructicon.OperatorStore
import Constructicon.Panel
import Constructicon.PiDecoder
import Constructicon.PiDepth
import Constructicon.PlanManifest
import Constructicon.ProcessPump
import Constructicon.Program
import Constructicon.PromotionChain
import Constructicon.ReadTransaction
import Constructicon.RecordStream
import Constructicon.Registry
import Constructicon.RegistryLog
import Constructicon.RegistryParity
import Constructicon.RegistryStores
import Constructicon.Replay
import Constructicon.ReverseDependencies
import Constructicon.RunFencing
import Constructicon.RunHistory
import Constructicon.RunHost
import Constructicon.SchemaLadder
import Constructicon.SchemaRungs
import Constructicon.Sealed
import Constructicon.StoreGenerations
import Constructicon.UnresolvedEffect
import Constructicon.UpstreamOrder
import Constructicon.Validator
import Constructicon.VectorCodec
import Constructicon.VectorGate
import Constructicon.WakeScan
import Constructicon.Walker
import Constructicon.WalkerAdmitted
import Constructicon.WalkerAttempt
import Constructicon.WalkerCoherent
import Constructicon.WalkerExecute
import Constructicon.WalkerFenced
import Constructicon.WalkerHistory
import Constructicon.WalkerLoop
import Constructicon.WalkerMeaning
import Constructicon.WalkerMemory
import Constructicon.WalkerOrder
import Constructicon.WalkerRecovery
import Constructicon.WalkerRun
import Constructicon.WalkerSealed
import Constructicon.WalkerSettled
import Constructicon.WalkerSteps
import Constructicon.WalkerValues
import Constructicon.WalkerWired
