import DetLog.Codec
import DetLog.Raft.Step
import DetLog.Wal.Codec

/-!
# Configurations that are accepted

A node runs in a host with a file and a network, or in a simulated cluster. Both check their
configuration before they construct a node: `DetLog.validateHostConfig` and
`DetLog.validateClusterConfig`. Beside the bounds of their own queues they compare the limits of
the node with those of the codec and of the WAL, so that what the node sends and stores can be
encoded.

`DetLog.Accepts` is what a node and its WAL may rely on, whichever of the two runs them, and
`DetLog.Accepts.bounds` are the comparisons that both make.
-/

namespace DetLog

/-! ### The host -/

/-- Who a node is to its peers. -/
structure TcpIdentity where
  clusterIdHigh : UInt64
  clusterIdLow : UInt64
  nodeId : UInt32
  deriving DecidableEq, Repr

/-- The limits of the transport. -/
structure TcpTransportLimits where
  maxFrameBytes : ℕ := 1024 * 1024
  maxOutboundBytesPerPeer : ℕ := 4 * 1024 * 1024
  maxTotalOutboundBytes : ℕ := 16 * 1024 * 1024
  deriving DecidableEq, Repr

/-- The part of the transport's configuration that the host looks at; of an endpoint that is the
node behind it. -/
structure TcpTransportConfig where
  identity : TcpIdentity
  peers : List NodeId
  limits : TcpTransportLimits := {}
  deriving DecidableEq, Repr

/-- The limits of the host. -/
structure NodeHostLimits where
  maxOwnerEvents : ℕ := 1024
  maxClientQueue : ℕ := 256
  /-- Outstanding requests and replies that wait to be polled share this bound. -/
  maxClientSlots : ℕ := 1024
  maxTraceRecords : ℕ := 4096
  maxStorageTasks : ℕ := 16
  maxStorageCompletions : ℕ := 16
  maxGroupQuarantinedEffects : ℕ := 4096
  maxTcpEventsPerPoll : ℕ := 128
  deriving DecidableEq, Repr

/-- Durations are in milliseconds. -/
structure NodeHostGroupCommitConfig where
  enabled : Bool := false
  maxOperations : ℕ := 8
  maxDelay : ℤ := 2
  deriving DecidableEq, Repr

/-- The parts of a host. -/
structure NodeHostConfig where
  raft : RaftConfig
  identity : WalIdentity
  walPath : String
  wal : WalFileOptions := {}
  tcp : TcpTransportConfig
  codec : Codec.Limits := {}
  tickDuration : ℤ := 10
  idleSleep : ℤ := 1
  limits : NodeHostLimits := {}
  groupCommit : NodeHostGroupCommitConfig := {}
  deriving DecidableEq, Repr

/-- The group mode flushes by itself. -/
def runtimeWalOptions (config : NodeHostConfig) : WalFileOptions :=
  if config.groupCommit.enabled then { config.wal with flushPolicy := .unsafeNoFlush }
  else config.wal

/-- What precedes a frame. -/
def kTcpLengthPrefixBytes : ℕ := 4

/-- The parts of a host fit together. -/
def validateHostConfig (config : NodeHostConfig) : Except String Unit :=
  if config.walPath = "" ∨ config.raft.nodeId = 0 ∨
      config.identity.nodeId.toNat ≠ config.raft.nodeId ∨
      config.tcp.identity.nodeId.toNat ≠ config.raft.nodeId ∨
      config.identity.clusterIdHigh ≠ config.tcp.identity.clusterIdHigh ∨
      config.identity.clusterIdLow ≠ config.tcp.identity.clusterIdLow then
    .error "NodeHost identity configuration is inconsistent"
  else if config.tickDuration ≤ 0 ∨ config.idleSleep < 0 ∨
      config.limits.maxOwnerEvents = 0 ∨ config.limits.maxClientQueue = 0 ∨
      config.limits.maxClientSlots = 0 ∨ config.limits.maxTraceRecords = 0 ∨
      config.limits.maxStorageTasks = 0 ∨ config.limits.maxStorageCompletions = 0 ∨
      config.limits.maxGroupQuarantinedEffects = 0 ∨ config.limits.maxTcpEventsPerPoll = 0 then
    .error "NodeHost queue and timing bounds must be nonzero"
  else if config.groupCommit.enabled = true ∧
      (config.wal.flushPolicy ≠ .flushEveryAppend ∨ config.groupCommit.maxOperations = 0 ∨
        config.wal.maxGroupFrames < config.groupCommit.maxOperations ∨
        config.groupCommit.maxDelay ≤ 0 ∨ 60 * 1000 < config.groupCommit.maxDelay) then
    .error ("safe group commit requires the safe WAL policy and bounded positive " ++
      "operation/delay limits")
  else if config.codec.maxFrameBytes = 0 ∨
      config.tcp.limits.maxFrameBytes < config.codec.maxFrameBytes then
    .error "TCP frame bound is smaller than codec bound"
  else if config.codec.maxKeyBytes < config.raft.maxKeyBytes ∨
      config.wal.maxKeyBytes < config.raft.maxKeyBytes ∨
      config.codec.maxValueBytes < config.raft.maxValueBytes ∨
      config.wal.maxValueBytes < config.raft.maxValueBytes ∨
      config.codec.maxEntriesPerAppend < config.raft.maxAppendEntriesPerRpc ∨
      config.wal.maxEntriesPerFrame < config.raft.maxAppendEntriesPerRpc ∨
      config.codec.maxFrameBytes < config.raft.maxAppendBytesPerRpc ∨
      config.wal.maxFrameBytes < config.raft.maxAppendBytesPerRpc ∨
      config.codec.maxFrameBytes < config.raft.maxCommandBytes ∨
      config.wal.maxFrameBytes < config.raft.maxCommandBytes then
    .error "Raft command/append bounds exceed codec or WAL bounds"
  else if maxU64 - kTcpLengthPrefixBytes < config.raft.maxAppendBytesPerRpc ∨
      config.tcp.limits.maxOutboundBytesPerPeer <
        config.raft.maxAppendBytesPerRpc + kTcpLengthPrefixBytes ∨
      config.tcp.limits.maxTotalOutboundBytes <
        config.raft.maxAppendBytesPerRpc + kTcpLengthPrefixBytes then
    .error "TCP outbound queue cannot hold one maximum Raft frame"
  else if config.raft.sorted.membershipValid = false then
    .error "NodeHost requires 3 or 5 unique members including this node"
  else if config.tcp.peers.insertionSort (· ≤ ·) ≠
      config.raft.sorted.members.filter (· ≠ config.raft.nodeId) then
    .error "TCP peer set must exactly match Raft members except this node"
  else .ok ()

/-! ### The simulated cluster -/

namespace Sim

/-- The limits of the queue. -/
structure EventQueueLimits where
  maxPendingEvents : ℕ := 100000
  maxTotalEvents : ℕ := 1000000
  deriving DecidableEq, Repr

/-- The limits of the network. -/
structure TransportLimits where
  maxFrameBytes : ℕ := 1024 * 1024
  maxQueuedBytesPerLink : ℕ := 2 * 1024 * 1024
  maxTotalQueuedBytes : ℕ := 16 * 1024 * 1024
  maxExtraDuplicatesPerSend : ℕ := 8
  dropInFlightOnEndpointCrash : Bool := true
  deriving DecidableEq, Repr

/-- The limits of a disk. -/
structure StorageLimits where
  maxFileBytes : ℕ := 64 * 1024 * 1024
  maxWriteBytes : ℕ := 1024 * 1024
  maxPendingBytes : ℕ := 4 * 1024 * 1024
  maxPendingOperations : ℕ := 1024
  deriving DecidableEq, Repr

/-- The limits of the world. -/
structure SimulatorConfig where
  events : EventQueueLimits := {}
  transport : TransportLimits := {}
  storage : StorageLimits := {}
  deriving DecidableEq, Repr

end Sim

/-- A cluster and its world. -/
structure ClusterConfig where
  members : List NodeId := [1, 2, 3]
  seed : UInt64 := 1
  raft : RaftConfig
  codec : Codec.Limits := {}
  simulator : Sim.SimulatorConfig := {}
  wal : WalFileOptions := {}
  clusterIdHigh : UInt64 := 0x4445544c4f470001
  clusterIdLow : UInt64 := 0x53494d554c41544f
  electionJitter : ℕ := 10
  networkDelay : ℕ := 1
  storageWriteLatency : ℕ := 1
  storageFlushLatency : ℕ := 1
  maxRetainedClientReplies : ℕ := 10000
  deriving DecidableEq, Repr

/-- The configuration of a member. -/
def ClusterConfig.raftConfig (config : ClusterConfig) (i : NodeId) : RaftConfig :=
  { config.raft with nodeId := i, members := config.members.insertionSort (· ≤ ·) }

/-- What a frame adds to an append. -/
def kWalFrameMargin : ℕ := 256

/-- The checks of `initialize`, before it constructs the members. -/
def validateClusterConfig (config : ClusterConfig) : Except String Unit :=
  let members := config.members.insertionSort (· ≤ ·)
  let maxRaftFrame := config.raft.maxAppendBytesPerRpc
  if (members.length ≠ 3 ∧ members.length ≠ 5) ∨ ¬members.IsChain (· ≠ ·) then
    .error "cluster membership must contain three or five unique node IDs"
  else if maxU64 - config.raft.electionTimeout < config.electionJitter then
    .error "election timeout plus jitter overflows"
  else if config.codec.maxEntriesPerAppend < config.raft.maxAppendEntriesPerRpc then
    .error "wire entry bound is smaller than the Raft append bound"
  else if config.wal.maxEntriesPerFrame < config.raft.maxAppendEntriesPerRpc then
    .error "WAL entry bound is smaller than the Raft append bound"
  else if config.codec.maxKeyBytes < config.raft.maxKeyBytes ∨
      config.codec.maxValueBytes < config.raft.maxValueBytes ∨
      config.wal.maxKeyBytes < config.raft.maxKeyBytes ∨
      config.wal.maxValueBytes < config.raft.maxValueBytes ∨
      config.codec.maxFrameBytes < config.raft.maxAppendBytesPerRpc ∨
      config.wal.maxFrameBytes < config.raft.maxAppendBytesPerRpc then
    .error "Raft payload bounds exceed codec or WAL bounds"
  else if config.simulator.transport.maxFrameBytes < maxRaftFrame ∨
      config.simulator.transport.maxQueuedBytesPerLink < maxRaftFrame ∨
      config.simulator.transport.maxTotalQueuedBytes < maxRaftFrame ∨
      maxU64 - kWalFrameMargin < maxRaftFrame ∨
      config.simulator.storage.maxWriteBytes < maxRaftFrame + kWalFrameMargin ∨
      config.simulator.storage.maxPendingBytes < maxRaftFrame + kWalFrameMargin ∨
      config.simulator.storage.maxPendingOperations = 0 ∨
      config.simulator.storage.maxFileBytes < maxRaftFrame + kWalFrameMargin ∨
      config.simulator.events.maxPendingEvents < members.length ∨
      config.simulator.events.maxTotalEvents < members.length then
    .error "simulator bounds cannot carry one maximum Raft/WAL operation"
  else if config.maxRetainedClientReplies = 0 then
    .error "client reply retention bound must be nonzero"
  else .ok ()

/-! ### What is accepted -/

/-- **A node and its WAL as a host or a cluster runs them.** -/
inductive Accepts : RaftConfig → WalFileOptions → Prop
  | host (config : NodeHostConfig) (valid : validateHostConfig config = .ok ()) :
      Accepts config.raft (runtimeWalOptions config)
  | cluster (config : ClusterConfig) (valid : validateClusterConfig config = .ok ()) (i : NodeId)
      (member : i ∈ config.members) : Accepts (config.raftConfig i) config.wal

/-- The limits of the node are within those of the WAL. -/
structure WithinWal (raft : RaftConfig) (wal : WalFileOptions) : Prop where
  keys : raft.maxKeyBytes ≤ wal.maxKeyBytes
  values : raft.maxValueBytes ≤ wal.maxValueBytes
  entries : raft.maxAppendEntriesPerRpc ≤ wal.maxEntriesPerFrame
  bytes : raft.maxAppendBytesPerRpc ≤ wal.maxFrameBytes
  size : raft.maxAppendBytesPerRpc < maxU64

theorem withinWal_of_validateHostConfig {config : NodeHostConfig}
    (h : validateHostConfig config = .ok ()) : WithinWal config.raft config.wal := by
  unfold validateHostConfig at h
  split_ifs at h with _ _ _ _ hbounds hsize
  simp only [not_or, not_lt] at hbounds hsize
  obtain ⟨-, hkeys, -, hvalues, -, hentries, -, hbytes, -⟩ := hbounds
  refine ⟨hkeys, hvalues, hentries, hbytes, hsize.1.trans_lt ?_⟩
  decide

theorem withinWal_of_validateClusterConfig {config : ClusterConfig}
    (h : validateClusterConfig config = .ok ()) (i : NodeId) :
    WithinWal (config.raftConfig i) config.wal := by
  unfold validateClusterConfig at h
  simp only at h
  split_ifs at h with _ _ _ hentries hbounds hsize
  simp only [not_or, not_lt] at hentries hbounds hsize
  obtain ⟨-, -, hkeys, hvalues, -, hbytes⟩ := hbounds
  refine ⟨hkeys, hvalues, hentries, hbytes, hsize.2.2.2.1.trans_lt ?_⟩
  decide

/-- **What both checks ask for.** -/
theorem Accepts.bounds {raft : RaftConfig} {wal : WalFileOptions} (h : Accepts raft wal) :
    WithinWal raft wal := by
  cases h with
  | host config valid =>
    obtain ⟨hkeys, hvalues, hentries, hbytes, hsize⟩ := withinWal_of_validateHostConfig valid
    -- The mode of flushing is no limit.
    unfold runtimeWalOptions
    split_ifs <;> exact ⟨hkeys, hvalues, hentries, hbytes, hsize⟩
  | cluster config valid i => exact withinWal_of_validateClusterConfig valid i

end DetLog
