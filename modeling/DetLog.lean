import DetLog.Consensus.History
import DetLog.Consensus.Safety
import DetLog.Consensus.Operation
import DetLog.Container.OrdMap
import DetLog.Container.Wire
import DetLog.Model
import DetLog.StateMachine
import DetLog.Raft.Node
import DetLog.Raft.Step
import DetLog.Raft.Log
import DetLog.Raft.Outcome
import DetLog.Raft.Handlers
import DetLog.Codec
import DetLog.Codec.Roundtrip
import DetLog.Wal
import DetLog.Wal.Codec
import DetLog.Wal.Scan
import DetLog.Wal.Accepted
import DetLog.Wal.Damage
import DetLog.Raft.Gate
import DetLog.Raft.Driven
import DetLog.Sessions
import DetLog.Raft.Books
import DetLog.Raft.Micro
import DetLog.Raft.Turn
import DetLog.Raft.Structure
import DetLog.Raft.Replay
import DetLog.Raft.Tokens
import DetLog.Raft.Timers
import DetLog.Raft.Latency
import DetLog.Cluster
import DetLog.Raft.Replication
import DetLog.Raft.Proper
import DetLog.Refinement.Relation
import DetLog.Refinement.Reaction
import DetLog.Refinement.Simulation
import DetLog.Refinement.Carried
import DetLog.Faults
import DetLog.Safety
import DetLog.Admission
import DetLog.Clients
import DetLog.Recovery
import DetLog.InFlight
import DetLog.Repair
import DetLog.Delivery
import DetLog.Config
import DetLog.Frames
import DetLog.Raft.Batches
import DetLog.Host.Worker
import DetLog.Host.Owner
import DetLog.Host.Moves
import DetLog.Host.Pipeline
import DetLog.Host.Gate
import DetLog.Host.Slots
import DetLog.Execution
import DetLog.Reference
import DetLog.Interpreters
import DetLog.Wal.Group
import DetLog.Wal.Failure
import DetLog.Tcp
import DetLog.Tcp.Selection
import DetLog.Tcp.Framing
import DetLog.Simulator
import DetLog.Simulator.Queue
import DetLog.Simulator.Accounting
import DetLog.Simulator.Disk
import DetLog.Random
import DetLog.Simulator.History
import DetLog.Observer
import DetLog.Guarantees
