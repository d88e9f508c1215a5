import DetLog.StateMachine

/-!
# The state of a consensus node

The configuration and the state of `RaftNode`, the events it consumes and the effects
it emits, and the pure queries over its log. A node is a single-threaded transition
engine: it mutates its state speculatively while a persistence batch is outstanding,
and it resumes through a stored continuation when the storage completes. The
continuations, closures in the source, are the constructors of
`DetLog.Continuation`, each with the values its closure captures.
-/

namespace DetLog

/-! ### Configuration, events and effects -/

/-- A node that has failed is `unavailable` for good. -/
inductive RaftRole where
  | follower
  | candidate
  | leader
  | unavailable
  deriving DecidableEq, Repr

/-- The members and the limits. -/
structure RaftConfig where
  nodeId : NodeId
  members : List NodeId
  electionTimeout : ℕ := 10
  heartbeatInterval : ℕ := 2
  maxDeferredEvents : ℕ := 128
  maxUncommittedEntries : ℕ := 1024
  maxUncommittedBytes : ℕ := 4 * 1024 * 1024
  maxCommandBytes : ℕ := 64 * 1024
  maxKeyBytes : ℕ := 4 * 1024
  maxValueBytes : ℕ := 64 * 1024
  maxAppendEntriesPerRpc : ℕ := 64
  maxAppendBytesPerRpc : ℕ := 512 * 1024
  appendRetryHeartbeats : ℕ := 3
  maxWaitersPerRequest : ℕ := 8
  deriving DecidableEq, Repr

/-- What a node recovers from its storage. -/
structure RecoveredState where
  hardState : HardState := {}
  log : List LogEntry := []
  commitIndex : ℕ := 0
  deriving DecidableEq, Repr

/-- A batch to be written, and its number. -/
structure PersistEffect where
  opId : ℕ
  batch : PersistBatch
  deriving DecidableEq, Repr

/-- What a node asks for. -/
inductive RaftEffect where
  | persist (p : PersistEffect)
  | send (envelope : MessageEnvelope)
  | scheduleTimer (timer : TimerRequest)
  | clientReply (reply : ClientReply)
  | trace (record : TraceRecord)
  deriving DecidableEq, Repr

/-- What can happen to a node. -/
inductive RaftEvent where
  | timerFired (kind : TimerKind) (generation : ℕ)
  | messageReceived (envelope : MessageEnvelope)
  | storageComplete (opId : ℕ) (success : Bool) (error : String)
  | clientRequest (token : ClientToken) (command : ClientCommand)
  deriving DecidableEq, Repr

/-! ### The node -/

/-- An append that is not answered. -/
structure InflightAppend where
  rpcId : ℕ
  prevIndex : ℕ
  lastIndex : ℕ
  deriving DecidableEq, Repr

/-- What a leader knows about a peer. -/
structure PeerProgress where
  nextIndex : ℕ := 1
  matchIndex : ℕ := 0
  inflight : Option InflightAppend := none
  inflightHeartbeatAge : ℕ := 0
  deriving DecidableEq, Repr

/-- The clients that wait for an entry. -/
structure PendingClientEntry where
  command : ClientCommand
  digest : UInt64
  waiters : List ClientToken
  deriving DecidableEq

/-- What a node does once its outstanding batch is durable. -/
inductive Continuation where
  /-- `begin_election`: ask the other members for their votes. -/
  | campaign
  /-- `on_request_vote`: answer the candidate. -/
  | voteReply (candidate : NodeId) (grant wasLeader : Bool)
  /-- A response with a higher term: arm the election timer. -/
  | rearm
  /-- `become_leader`: start replicating. -/
  | leaderEstablished
  /-- `on_append_entries`: report a rejected append. -/
  | appendReject (leader : NodeId) (rpcId : ℕ) (conflictIndex : ℕ) (conflictTerm : ℕ)
  /-- `on_append_entries`: report an accepted append. -/
  | appendAccept (leader : NodeId) (rpcId : ℕ) (matchIndex : ℕ) (apply : Bool)
  /-- `on_client_request`: replicate the new entry. -/
  | clientAppended
  /-- `maybe_advance_commit`: apply what is committed. -/
  | commitAdvanced
  deriving DecidableEq, Repr

/-- The operation that the node waits for. -/
structure PendingStorage where
  opId : ℕ
  batch : PersistBatch
  afterSuccess : Continuation
  deriving DecidableEq, Repr

/-- The state of a node. -/
structure RaftNode where
  config : RaftConfig
  role : RaftRole := .follower
  hardState : HardState
  durableHardState : HardState
  log : List LogEntry
  durableLastLogIndex : ℕ
  commitIndex : ℕ
  durableCommitIndex : ℕ
  lastApplied : ℕ := 0
  stateMachine : KvStateMachine := {}
  leaderHint : Option NodeId := none
  leaderReady : Bool := false
  readinessIndex : ℕ := 0
  votesReceived : Finset NodeId := ∅
  peers : OrdMap NodeId PeerProgress := ∅
  pendingClients : OrdMap ℕ PendingClientEntry := ∅
  pendingSessions : OrdMap SessionId ℕ := ∅
  pendingStorage : Option PendingStorage := none
  deferredEvents : List RaftEvent := []
  nextStorageOpId : ℕ := 1
  nextRpcId : ℕ := 1
  electionGeneration : ℕ := 0
  heartbeatGeneration : ℕ := 0
  started : Bool := false
  deriving DecidableEq

/-! ### Queries over a log -/

/-- Conservative upper bounds for the shared wire codec. -/
def kEntryOverhead : ℕ := 64

/-- An append without its entries. -/
def kAppendRpcOverhead : ℕ := 64

/-- The entry at a one-based index. -/
def entryAt (log : List LogEntry) (index : ℕ) : Option LogEntry :=
  if index = 0 ∨ log.length < index then none else log[index - 1]?

/-- Zero where there is no entry. -/
def termAt (log : List LogEntry) (index : ℕ) : ℕ :=
  match entryAt log index with
  | none => 0
  | some entry => entry.term

/-- The order of logs that votes respect. -/
def candidateIsUpToDate (log : List LogEntry) (index : ℕ) (term : ℕ) : Bool :=
  let localTerm := termAt log log.length
  decide (localTerm < term ∨ (term = localTerm ∧ log.length ≤ index))

/-- The size an entry is charged with, saturating at the largest integer. -/
def entryBytes (entry : LogEntry) : ℕ :=
  match entry.command with
  | none => kEntryOverhead
  | some command =>
    let keySize := command.key.length
    let valueSize := command.value.length
    if maxU64 - valueSize < keySize ∨ maxU64 - keySize - valueSize < kEntryOverhead then maxU64
    else kEntryOverhead + keySize + valueSize

/-- The limits on the key, the value and both. -/
def commandSizeWithin (command : ClientCommand) (maximum maxKey maxValue : ℕ) : Bool :=
  decide (command.key.length ≤ maxKey ∧ command.value.length ≤ maxValue ∧
    command.key.length ≤ maximum ∧ command.value.length ≤ maximum - command.key.length)

/-- The two checks every path makes on a client command: it is structurally valid and
within the configured sizes. -/
def commandAcceptable (config : RaftConfig) (command : ClientCommand) : Bool :=
  KvStateMachine.structurallyValid command &&
    commandSizeWithin command config.maxCommandBytes config.maxKeyBytes config.maxValueBytes

/-- The same for the command of an entry; a no-op is acceptable. -/
def entryAcceptable (config : RaftConfig) (entry : LogEntry) : Bool :=
  match entry.command with
  | none => true
  | some command => commandAcceptable config command

/-- The last entry of a term. -/
def lastIndexOfTerm (log : List LogEntry) (term : ℕ) : Option ℕ :=
  (log.reverse.find? fun entry => entry.term = term).map LogEntry.index

/-- The loop of `first_index_of_term`: walk down while the term stays the same. -/
def firstIndexFrom (log : List LogEntry) (term : ℕ) : ℕ → ℕ
  | 0 => 0
  | 1 => 1
  | k + 2 => if termAt log (k + 1) = term then firstIndexFrom log term (k + 1) else k + 2

/-- The first entry of the run that an entry is in. -/
def firstIndexOfTerm (log : List LogEntry) (index : ℕ) : ℕ :=
  if index = 0 ∨ log.length < index then log.length + 1
  else firstIndexFrom log (termAt log index) index

/-- The loop of `uncommitted_bytes`, with its running total. -/
def sumBytes : List LogEntry → ℕ → ℕ
  | [], total => total
  | entry :: rest, total =>
    if maxU64 - total < entryBytes entry then maxU64 else sumBytes rest (total + entryBytes entry)

/-- The longest run of entries that fits in one append, with the bytes used so far:
the loop of `send_append`. -/
def packEntries (limit : ℕ) : List LogEntry → ℕ → List LogEntry
  | [], _ => []
  | entry :: rest, encoded =>
    if limit - encoded < entryBytes entry then []
    else entry :: packEntries limit rest (encoded + entryBytes entry)

/-- The validation loop of `on_append_entries`, with the index before the entry and
the bytes used so far. -/
def entriesValidFrom (config : RaftConfig) (term : ℕ) : List LogEntry → ℕ → ℕ → Bool
  | [], _, _ => true
  | entry :: rest, expected, bytes =>
    if expected = maxU64 then false
    else if config.maxAppendBytesPerRpc - bytes < entryBytes entry then false
    else if entry.index ≠ expected + 1 ∨ entry.term = 0 ∨ term < entry.term ∨
        entryAcceptable config entry = false then false
    else entriesValidFrom config term rest (expected + 1) (bytes + entryBytes entry)

/-- The filter `step` applies to an append before it defers it, with the bytes used
so far. -/
def deferrableFrom (config : RaftConfig) : List LogEntry → ℕ → Bool
  | [], _ => true
  | entry :: rest, bytes =>
    if config.maxAppendBytesPerRpc - min config.maxAppendBytesPerRpc bytes < entryBytes entry then
      false
    else if entryAcceptable config entry = false then false
    else deferrableFrom config rest (bytes + entryBytes entry)

/-- How many leading entries of an append the log holds already. -/
def matchingEntries (log : List LogEntry) : List LogEntry → ℕ
  | [] => 0
  | entry :: rest =>
    if entryAt log entry.index = some entry then matchingEntries log rest + 1 else 0

/-! ### Queries over a node -/

namespace RaftNode

variable (n : RaftNode)

/-- The term in memory. -/
def currentTerm : ℕ := n.hardState.currentTerm

/-- The last entry in memory. -/
def lastLogIndex : ℕ := n.log.length

/-- The entry a leader appends next. -/
def nextEntry (command : Option ClientCommand) : LogEntry :=
  { index := n.lastLogIndex + 1, term := n.currentTerm, command }

/-- More than half of the members. -/
def quorumSize : ℕ := n.config.members.length / 2 + 1

/-- Membership; the source searches the sorted member list. -/
def isMember (id : NodeId) : Bool := decide (id ∈ n.config.members)

/-- The entries above the commit index. -/
def uncommittedEntryCount : ℕ := n.lastLogIndex - n.commitIndex

/-- Their size. -/
def uncommittedBytes : ℕ := sumBytes (n.log.drop n.commitIndex) 0

/-- Room for an entry above the commit index. -/
def canAppend (entry : LogEntry) : Bool :=
  if n.config.maxAppendBytesPerRpc - kAppendRpcOverhead < entryBytes entry then false
  else if n.config.maxUncommittedEntries ≤ n.uncommittedEntryCount then false
  else
    let current := n.uncommittedBytes
    let added := entryBytes entry
    decide (current ≤ n.config.maxUncommittedBytes ∧
      added ≤ n.config.maxUncommittedBytes - current)

/-- Admission of a client entry keeps one entry and one no-op's worth of bytes
available, so that a future leader can establish a current-term commit barrier. -/
def canAppendClient (entry : LogEntry) : Bool :=
  let count := n.uncommittedEntryCount
  if n.config.maxUncommittedEntries ≤ count ∨ n.config.maxUncommittedEntries - count ≤ 1 then false
  else
    let current := n.uncommittedBytes
    let added := entryBytes entry
    if n.config.maxUncommittedBytes < current ∨ n.config.maxUncommittedBytes - current < added then
      false
    else
      let afterEntry := current + added
      decide (afterEntry ≤ n.config.maxUncommittedBytes ∧
        kEntryOverhead ≤ n.config.maxUncommittedBytes - afterEntry)

/-- The replicas a leader knows to hold the log through an index, itself included. -/
def replicas (candidate : ℕ) : ℕ :=
  1 + (n.peers.entries.filter fun e => decide (candidate ≤ e.2.matchIndex)).length

/-- The search of `maybe_advance_commit`: the greatest index above the commit index,
walking down from `candidate`, that holds an entry of the current term and has a
quorum of replicas. -/
def commitTarget : ℕ → ℕ
  | 0 => n.commitIndex
  | k + 1 =>
    if n.commitIndex < k + 1 then
      match entryAt n.log (k + 1) with
      | none => commitTarget k
      | some entry =>
        if entry.term ≠ n.currentTerm then commitTarget k
        else if n.quorumSize ≤ n.replicas (k + 1) then k + 1
        else commitTarget k
    else n.commitIndex

end RaftNode

end DetLog
