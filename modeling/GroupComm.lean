import GroupComm.Lab0.Readiness
import GroupComm.Lab1.SnapshotCompletion
import GroupComm.Lab2.Rest
import GroupComm.Lab2.Balance
import GroupComm.Lab2.TakeoverSteps
import GroupComm.Lab1.Datagrams
import GroupComm.Lab1.Completion
import GroupComm.Lab1.Liveness
import GroupComm.Lab1.Uniformity
import GroupComm.Lab1.CausalOrder
import GroupComm.Lab1.Counters
import GroupComm.Lab1.SendingThread
import GroupComm.Lab2.ViewIds
import GroupComm.Lab2.ViewNumbers
import GroupComm.Lab2.OutstandingRequest
import GroupComm.Lab2.Succession
import GroupComm.Lab2.Followers
import GroupComm.Lab2.Commanding
import GroupComm.Lab2.Outlook
import GroupComm.Lab2.NewestConnection
import GroupComm.Lab0.Drained
import GroupComm.Lab2.ViewArray
import GroupComm.Lab2.Listed
import GroupComm.Lab2.Wire
import GroupComm.Lab1.Serde
import GroupComm.Library.Layout
import GroupComm.Lab1.HoldBackOrder
import GroupComm.Lab1.Aggregation
import GroupComm.Lab1.SenderHistory
import GroupComm.Library.Obligations
import GroupComm.Lab2.StableLeader
import GroupComm.Lab2.Tracked
import GroupComm.Lab2.Leading
import GroupComm.Lab2.Views
import GroupComm.Lab2.InStep
import GroupComm.Lab2.Roles
import GroupComm.Lab2.Protocol
import GroupComm.Library.Session
import GroupComm.Lab2.Announcements
import GroupComm.Lab2.LeaderThreads
import GroupComm.Lab2.Serde
import GroupComm.Library.Framing
import GroupComm.Lab1.Cut
import GroupComm.Lab1.Recording
import GroupComm.Lab1.Turns
import GroupComm.Lab1.Markers
import GroupComm.Lab1.SnapshotService
import GroupComm.Library.Log
import GroupComm.Lab0.Stranded
import GroupComm.Lab0.Barrier
import GroupComm.Lab0.Heartbeat
import GroupComm.Lab1.FinalKeys
import GroupComm.Lab1.AckCache
import GroupComm.Lab1.Representation
import GroupComm.Lab2.Connections
import GroupComm.Lab2.Suspicion
import GroupComm.Lab2.Election
import GroupComm.Lab2.Admission
import GroupComm.Lab2.Wiring
import GroupComm.Lab2.LocalInvariant
import GroupComm.Lab2.WorldStep
import GroupComm.Lab2.ThreadStep
import GroupComm.Lab2.System
import GroupComm.Lab2.Process
import GroupComm.Lab2.CrashAgreement
import GroupComm.Lab2.PendingRequest
import GroupComm.Lab2.Takeover
import GroupComm.Lab2.MembershipService
import GroupComm.Library.OrderedSet
import GroupComm.Lab1.Quiescence
import GroupComm.Lab1.Integrity
import GroupComm.Lab1.Wrapping
import GroupComm.Lab1.Progress
import GroupComm.Lab1.Identifiers
import GroupComm.Lab1.TotalOrder
import GroupComm.Lab1.Soundness
import GroupComm.Lab1.Invariant
import GroupComm.Lab1.Network
import GroupComm.Lab1.MulticastService
import GroupComm.Lab1.HoldBackQueue
import GroupComm.Lab1.ContinuousMsgSender
import GroupComm.Library.Transition
import GroupComm.Library.PrefixOrder
import GroupComm.Library.StdAlgorithm
