import SwarmDB.Machine
import SwarmDB.Quorum
import SwarmDB.ReplicatedLog
import SwarmDB.Cell
import SwarmDB.OrderedMap
import SwarmDB.Shelf
import SwarmDB.PeerAddress
import SwarmDB.Raft.Log
import SwarmDB.Raft.Log.Lemmas
import SwarmDB.TextStream
import SwarmDB.FileSystem
import SwarmDB.Raft.Log.File
import SwarmDB.Raft.Log.Mirror
import SwarmDB.Raft.Message
import SwarmDB.Raft.Node
import SwarmDB.Raft.Membership
import SwarmDB.Raft.Node.Commit
import SwarmDB.Raft.Node.Handlers
import SwarmDB.Raft.Node.Move
import SwarmDB.Raft.Node.Votes
import SwarmDB.Raft.Node.Journal
import SwarmDB.Raft.Node.Appends
import SwarmDB.Raft.Node.Receiver
import SwarmDB.Raft.Node.Heartbeat
import SwarmDB.Raft.Node.Tracking
import SwarmDB.Raft.Swarm
import SwarmDB.Raft.Swarm.Wiring
import SwarmDB.Raft.Swarm.Election
import SwarmDB.Raft.Swarm.Matching
import SwarmDB.Raft.Swarm.Agreement
import SwarmDB.Raft.Swarm.CommitPoint
import SwarmDB.Raft.Restart
import SwarmDB.Raft.Restart.Alternation
import SwarmDB.Raft.Restart.Deduction
import SwarmDB.Raft.Restart.Heartbeat
import SwarmDB.StorageBase
import SwarmDB.Raft.Restart.Storage
import SwarmDB.Raft.Restart.Replay
import SwarmDB.Handler
import SwarmDB.Json
import SwarmDB.Pbft.Configuration
import SwarmDB.Pbft.Configuration.Text
import SwarmDB.Pbft.Configuration.Peers
import SwarmDB.Pbft.Configuration.Store
import SwarmDB.Pbft.Configuration.Diff
import SwarmDB.Database
import SwarmDB.Pbft.Operation
import SwarmDB.Pbft.FailureDetector
import SwarmDB.Pbft.Message
import SwarmDB.Pbft.Replica
import SwarmDB.Pbft.Configuration.Canonical
import SwarmDB.Pbft.Configuration.Decoding
import SwarmDB.Pbft.Replica.Move
import SwarmDB.Pbft.Replica.Journal
import SwarmDB.Pbft.Replica.Safety
import SwarmDB.Pbft.Replica.Frame
import SwarmDB.Pbft.Replica.Checkpoint
import SwarmDB.Pbft.Replica.Primary
import SwarmDB.Pbft.Replica.Window
import SwarmDB.Pbft.Replica.Ordering
import SwarmDB.Pbft.Replica.Configurations
import SwarmDB.Pbft.Replica.Reconfiguration
import SwarmDB.Pbft.Replica.Quorums
import SwarmDB.Pbft.Replica.Membership
import SwarmDB.Pbft.Replica.Independence
import SwarmDB.Pbft.Swarm
import SwarmDB.Protobuf
import SwarmDB.Pbft.Serialization
import SwarmDB.Pbft.Gateway
import SwarmDB.Pbft.Transport
import SwarmDB.Bytes
import SwarmDB.Base64
import SwarmDB.Storage
import SwarmDB.Storage.Implementations
import SwarmDB.Storage.Same
import SwarmDB.Crud
import SwarmDB.Raft.Crud
import SwarmDB.Http
import SwarmDB.Pbft.Service
import SwarmDB.Pbft.Service.Order
import SwarmDB.Pbft.Service.Recovery
import SwarmDB.Pbft.Service.Again
import SwarmDB.Pbft.Replica.Steady
import SwarmDB.Pbft.Replica.Stability
import SwarmDB.Pbft.System
import SwarmDB.Pbft.System.Order
import SwarmDB.Pbft.System.Checkpoints
import SwarmDB.Pbft.Client
import SwarmDB.Window
import SwarmDB.Audit
import SwarmDB.Audit.Window
import SwarmDB.Audit.Progress
import SwarmDB.Raft.Log.Majorities
import SwarmDB.Regex
import SwarmDB.Options
import SwarmDB.Crypto
import SwarmDB.Crud.Size
import SwarmDB.Raft.Log.Stream
import SwarmDB.Nest
import SwarmDB.SubscriptionManager
import SwarmDB.SubscriptionManager.Refinement
import SwarmDB.Raft.Admission
import SwarmDB.Raft.Admission.Verdict
import SwarmDB.Raft.Admission.Typed
import SwarmDB.Raft.Crud.Routing
import SwarmDB.Raft.System
import SwarmDB.Raft.System.Replication
import SwarmDB.Raft.System.Validity
import SwarmDB.Raft.System.Subscribers
import SwarmDB.Audit.Hearsay
import SwarmDB.Raft.Node.Notices
import SwarmDB.Raft.Monitor
import SwarmDB.Pbft.Replica.Reports
import SwarmDB.Pbft.Monitor
import SwarmDB.Raft.Swarm.CatchUp
import SwarmDB.Pbft.System.Completion
import SwarmDB.Pbft.System.Answers
