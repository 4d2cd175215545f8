import Shelly.Daemon.Lossless
import Shelly.Daemon.Killed
import Shelly.Daemon.Revoked
import Shelly.Protocol.Signing
import Shelly.Protocol.Canonical
import Shelly.Relay.State
import Shelly.Relay.Endpoints
import Shelly.Relay.Frames
import Shelly.Relay.Rekey
import Shelly.Relay.TokenCap
import Shelly.Relay.Publications
import Shelly.Relay.SingleUse
import Shelly.Relay.OneActive
import Shelly.Relay.Replay
import Shelly.Relay.Tenancy
import Shelly.Relay.Rollback
import Shelly.Relay.Mirror
import Shelly.Relay.Pruning
import Shelly.Relay.Ownership
import Shelly.Relay.Durability
import Shelly.Daemon.Pairing
import Shelly.Daemon.PairingSafety
import Shelly.Daemon.Creation
import Shelly.Daemon.Names
import Shelly.Daemon.UniqueNames
import Shelly.Daemon.Dispatch
import Shelly.Daemon.Approved
import Shelly.Daemon.Effects
import Shelly.Daemon.ExitFinal
import Shelly.Daemon.InStep
import Shelly.Daemon.Queries
import Shelly.Daemon.Persisted
import Shelly.Daemon.Unleaked
import Shelly.Daemon.FramedWriter
import Shelly.Daemon.Listing
import Shelly.Daemon.SessionList
import Shelly.Daemon.SingleDaemonRuns
import Shelly.Daemon.Ansi
import Shelly.Daemon.AnsiStandard
import Shelly.Daemon.Drawing
import Shelly.Daemon.Handover
import Shelly.Daemon.ListCurrent
import Shelly.Daemon.Snapshot
import Shelly.Protocol.Encoding
import Shelly.Protocol.FramedStream
import Shelly.Daemon.StoredPayload
import Shelly.Daemon.PruneSessions
import Shelly.Daemon.SizeNegotiation
import Shelly.Daemon.NaturalExit
import Shelly.Daemon.PushTokens
import Shelly.Mobile.Recovery
import Shelly.Mobile.ReplayBase
import Shelly.Framework.Sizes
import Shelly.Framework.Deque
import Shelly.Daemon.WrappedRing
import Shelly.Daemon.Exhaustion
import Shelly.Daemon.ResumeExited
import Shelly.Daemon.DeviceAtomicity
import Shelly.Daemon.PtyInput
import Shelly.Mobile.ViewModel
import Shelly.Mobile.TerminalTabs
import Shelly.Mobile.ShownSessions
import Shelly.Mobile.PairingStore
import Shelly.Mobile.PushTombstone
import Shelly.Framework.Custody
import Shelly.Mobile.AttachmentOwners
import Shelly.Mobile.OwnedAttachments
import Shelly.Mobile.PairingScreen
import Shelly.Mobile.PairingAttempts
import Shelly.Mobile.PairingAgreement
import Shelly.Framework.RadixText
import Shelly.Framework.LossyText
import Shelly.Protocol.SignatureHeader
import Shelly.Relay.SignedBytes
import Shelly.Framework.Postcard
import Shelly.Protocol.Ticket
import Shelly.Cli.DetachState
import Shelly.Cli.AttachedFrames
import Shelly.Daemon.RemoveDevice
import Shelly.Daemon.FailedKill
import Shelly.Relay.FreshToken
import Shelly.Daemon.Authorized
import Shelly.Daemon.ShellOnly
import Shelly.Daemon.Completed
import Shelly.Mobile.PendingPairing
import Shelly.Mobile.PairingGate
import Shelly.Mobile.PairingCeremony
import Shelly.Cli.ResolveSession
import Shelly.Protocol.PairingCode
import Shelly.Mobile.TypedCode
import Shelly.Framework.Json
import Shelly.Cli.CodexEvents
import Shelly.Daemon.LastLineCache
import Shelly.Daemon.RetryBudget
import Shelly.Daemon.AutoNames
import Shelly.Daemon.PtyOutput
import Shelly.Daemon.IdleLoop
import Shelly.Daemon.NotificationEdges
import Shelly.Daemon.FailedAttach
import Shelly.Daemon.CutStreams
import Shelly.Mobile.RetryBackoff
import Shelly.Cli.StatusLine
import Shelly.Relay.ClientIdentifier
import Shelly.Cli.Settings
import Shelly.Relay.ApnsUrl
import Shelly.Relay.ProviderTokens
import Shelly.Relay.RateLimit
import Shelly.Daemon.ReplyFrames
import Shelly.Daemon.Understood
import Shelly.Relay.WorkerRequests
import Shelly.Daemon.WorkerServices
