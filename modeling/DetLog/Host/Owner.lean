import DetLog.Host.Worker
import DetLog.Raft.Batches

/-!
# The host of a node

The thread that owns a node. It collects what has happened (notices of the storage worker, due
timers, requests of clients, messages), feeds it to the node one event at a time, and carries out
the effects.

With group commit the node is told that a batch is complete before it is durable, so its effects
must wait. `DetLog.NodeHost.handleEffects` keeps every effect other than a batch in quarantine while
some batch is not durable, together with the last operation the effect may depend on, and
`DetLog.NodeHost.completeGroupBarrier` lets go of what a flush has made good. A failure throws the
quarantine away and stops the host; the clients that still wait are told so.

The owner and the worker meet only where the owner holds the lock of the worker: when it takes
notices and when it hands over a task. A poll therefore comes with the steps that the worker makes
before each of these moments (`DetLog.PollInputs.ahead`), and between two calls of the owner the
worker may make any step.

`DetLog.HostHistory` records what happens; nothing reads it.
-/

namespace DetLog

/-- An effect that waits until an operation is durable. -/
structure QuarantinedEffect where
  durabilityDependency : ℕ
  effect : RaftEffect
  deriving DecidableEq, Repr

/-- A timer of the host. -/
structure HostTimer where
  active : Bool := false
  request : TimerRequest
  deriving DecidableEq, Repr

/-- What others see of a node. -/
structure NodeHostStatus where
  node : NodeId
  role : RaftRole
  term : ℕ
  leaderHint : Option NodeId
  leaderReady : Bool
  lastLogIndex : ℕ
  durableLastLogIndex : ℕ
  commitIndex : ℕ
  lastApplied : ℕ
  storagePending : Bool
  ownerEvents : ℕ
  clientQueue : ℕ
  deriving DecidableEq, Repr

/-- What the transport reports; the opening and closing of connections is of no interest here. -/
inductive TcpTransportEvent where
  | message (peer : NodeId) (bytes : Bytes)
  | peerRejected
  | transportError
  | connection
  deriving DecidableEq, Repr

/-- What a poll finds, and what the worker does before each moment at which the owner holds its
lock. -/
structure PollInputs where
  tcpRunning : Bool := true
  electionDue : Bool := false
  heartbeatDue : Bool := false
  events : List TcpTransportEvent := []
  ahead : List (List WorkerStep) := []

/-- **What has happened so far.** -/
structure HostHistory where
  /-- The calls of the node, each with the number of batches that a flush has covered by then. -/
  calls : List (ℕ × Input) := []
  /-- The batches that the node has emitted. -/
  persisted : List PersistEffect := []
  /-- The other effects, each with the number of batches that the node has emitted up to and
  including the step that produced it. -/
  emitted : List (ℕ × RaftEffect) := []
  /-- The effects that have been carried out, each with the number of batches that a flush has
  covered by then. -/
  dispatched : List (ℕ × RaftEffect) := []
  /-- The tokens of the requests that have been accepted. -/
  accepted : List ClientToken := []
  /-- The replies that clients have got. -/
  delivered : List ClientReply := []
  /-- The replies for which there was no room. -/
  discarded : List ClientReply := []
  deriving DecidableEq

/-- What the node was given. -/
def HostHistory.inputs (y : HostHistory) : List Input := y.calls.map Prod.snd

/-- A call of the node and what it led to. -/
def HostHistory.record (y : HostHistory) (flushed : ℕ) (i : Input) (effects : List RaftEffect) :
    HostHistory :=
  let persisted := y.persisted ++ batchesOf effects
  { y with
    calls := y.calls ++ [(flushed, i)]
    persisted := persisted
    emitted := y.emitted ++
      (effects.filter fun e => e.batch?.isNone).map fun e => (persisted.length, e) }

/-- The state of the owner thread. -/
structure NodeHost where
  config : NodeHostConfig
  raft : RaftNode
  storage : StorageWorker
  ahead : List (List WorkerStep) := []
  ownerEvents : List RaftEvent := []
  clientQueue : List (ClientToken × ClientCommand) := []
  outstandingTokens : List ClientToken := []
  replies : List ClientReply := []
  traces : List TraceRecord := []
  quarantinedEffects : List QuarantinedEffect := []
  electionTimer : HostTimer := { request := ⟨.election, 0, 0⟩ }
  heartbeatTimer : HostTimer := { request := ⟨.heartbeat, 0, 0⟩ }
  publishedStatus : NodeHostStatus
  nextClientToken : ℕ := 1
  lastSubmittedOperation : ℕ := 0
  durableOperationThrough : ℕ := 0
  started : Bool := false
  running : Bool := false
  fatalError : Bool := false
  groupBarrierActive : Bool := false
  history : HostHistory := {}

namespace NodeHost

/-- The group mode. -/
def grouped (h : NodeHost) : Bool := h.config.groupCommit.enabled

/-- The worker is ahead of the owner by some steps. -/
def interfere (h : NodeHost) : NodeHost :=
  match h.ahead with
  | [] => h
  | steps :: rest => { h with ahead := rest, storage := steps.foldl StorageWorker.step h.storage }

/-! ### Status -/

/-- The status as the node has it. -/
def liveStatus (h : NodeHost) : NodeHostStatus where
  node := h.raft.config.nodeId
  role := if h.fatalError then .unavailable else h.raft.role
  term := h.raft.currentTerm
  leaderHint := h.raft.leaderHint
  leaderReady := h.raft.leaderReady
  lastLogIndex := h.raft.lastLogIndex
  durableLastLogIndex := h.raft.durableLastLogIndex
  commitIndex := h.raft.commitIndex
  lastApplied := h.raft.lastApplied
  storagePending := h.raft.pendingStorage.isSome
  ownerEvents := h.ownerEvents.length
  clientQueue := h.clientQueue.length

/-- The status is shown only when nothing waits for the disk. -/
def refreshPublishedStatus (h : NodeHost) : NodeHost :=
  if h.groupBarrierActive = false ∧ h.fatalError = false then
    { h with publishedStatus := h.liveStatus }
  else h

/-- The status that callers get. -/
def status (h : NodeHost) : NodeHostStatus :=
  let result :=
    if h.grouped && (h.groupBarrierActive || h.fatalError) then h.publishedStatus
    else h.liveStatus
  { result with
    ownerEvents := h.ownerEvents.length
    clientQueue := h.clientQueue.length
    storagePending := (h.grouped && h.groupBarrierActive) || result.storagePending }

/-! ### Failures -/

/-- The answer when the host fails. -/
def unavailableReply (token : ClientToken) : ClientReply :=
  { token, status := .unavailable, leaderHint := none, logIndex := 0, value := [] }

/-- The loop of `fail_transport` over the outstanding tokens; it ends when there is no room. -/
def answerAll (maximum : ℕ) : List ClientReply → List ClientToken → List ClientReply
  | replies, [] => replies
  | replies, token :: rest =>
    if maximum ≤ replies.length then replies
    else answerAll maximum (replies ++ [unavailableReply token]) rest

/-- A failure stops the host and answers all that wait. -/
def failTransport (h : NodeHost) : NodeHost :=
  if h.running = false then h
  else
    { h with
      fatalError := true
      running := false
      quarantinedEffects := []
      groupBarrierActive := false
      publishedStatus := { h.publishedStatus with
        role := .unavailable, leaderHint := none, leaderReady := false, storagePending := false }
      replies := answerAll h.config.limits.maxClientSlots h.replies h.outstandingTokens
      outstandingTokens := []
      clientQueue := []
      ownerEvents := []
      storage := h.storage.stop }

/-- A failed group also discards the effects that are held back. -/
def failGroupStorage (h : NodeHost) : NodeHost :=
  ({ h with quarantinedEffects := [], groupBarrierActive := false } : NodeHost).failTransport

/-! ### Effects -/

/-- A timer replaces the one of its kind. -/
def scheduleTimer (h : NodeHost) (request : TimerRequest) : NodeHost :=
  match request.kind with
  | .election => { h with electionTimer := { active := true, request } }
  | .heartbeat => { h with heartbeatTimer := { active := true, request } }

/-- A batch is handed to the worker. -/
def submitBatch (h : NodeHost) (p : PersistEffect) : NodeHost :=
  let h := h.interfere
  match h.storage.enqueue { operation := p.opId, batch := p.batch } with
  | some storage => { h with storage }
  | none =>
    if h.grouped then h.failGroupStorage
    else if h.ownerEvents.length < h.config.limits.maxOwnerEvents then
      { h with ownerEvents :=
          .storageComplete p.opId false "bounded storage queue unavailable" :: h.ownerEvents }
    else h

/-- A reply beyond the slots is discarded. -/
def reply (h : NodeHost) (reply : ClientReply) : NodeHost :=
  let h := { h with outstandingTokens := h.outstandingTokens.erase reply.token }
  if h.replies.length < h.config.limits.maxClientSlots then
    { h with replies := h.replies ++ [reply] }
  else { h with history := { h.history with discarded := h.history.discarded ++ [reply] } }

/-- An effect other than a batch is carried out. What becomes of a message that can be encoded is
the business of the transport. -/
def carryOut (h : NodeHost) : RaftEffect → NodeHost
  | .persist _ => h
  | .send envelope =>
    match Codec.encodeMessage envelope.message h.config.codec with
    | .error _ => h.failTransport
    | .ok _ => h
  | .scheduleTimer timer => h.scheduleTimer timer
  | .clientReply r => h.reply r
  | .trace record =>
    if h.traces.length < h.config.limits.maxTraceRecords then
      { h with traces := h.traces ++ [record] }
    else h

/-- One effect takes place. -/
def dispatchEffect (h : NodeHost) (effect : RaftEffect) : NodeHost :=
  match effect with
  | .persist p => h.submitBatch p
  | effect =>
    ({ h with history := { h.history with
        dispatched := h.history.dispatched ++ [(h.storage.journal.flushed, effect)] } } :
      NodeHost).carryOut effect

/-- One round of the loop of `handle_effects`. -/
def handleEffect (h : NodeHost) (dependency : ℕ) (effect : RaftEffect) : NodeHost :=
  if h.grouped && h.groupBarrierActive && effect.batch?.isNone then
    if h.config.limits.maxGroupQuarantinedEffects ≤ h.quarantinedEffects.length then
      h.failGroupStorage
    else
      { h with quarantinedEffects := h.quarantinedEffects ++
          [{ durabilityDependency := dependency, effect }] }
  else h.dispatchEffect effect

/-- The loop of `handle_effects`; a failure ends it. -/
def handleLoop (dependency : ℕ) : NodeHost → List RaftEffect → NodeHost
  | h, [] => h
  | h, effect :: rest =>
    let h := h.handleEffect dependency effect
    if h.running = false then h else handleLoop dependency h rest

/-- The last operation that the effects of a step may depend on. -/
def effectDependency (h : NodeHost) (effects : List RaftEffect) : ℕ :=
  if h.grouped then
    (batchesOf effects).foldl (fun d p => max d p.opId) h.lastSubmittedOperation
  else h.lastSubmittedOperation

/-- A new operation of a group raises the barrier. -/
def openGate (h : NodeHost) (dependency : ℕ) : NodeHost :=
  if h.grouped && decide (h.lastSubmittedOperation < dependency) then
    { h with lastSubmittedOperation := dependency, groupBarrierActive := true }
  else h

/-- All effects of a call, in their order. -/
def handleEffects (h : NodeHost) (effects : List RaftEffect) : NodeHost :=
  let dependency := h.effectDependency effects
  (handleLoop dependency (h.openGate dependency) effects).refreshPublishedStatus

/-- What the node does. -/
def reaction (h : NodeHost) : Input → Ctx
  | .start => h.raft.start
  | .event e => h.raft.step e

/-- The node is called. -/
def called (h : NodeHost) (i : Input) : NodeHost :=
  { h with
    raft := (h.reaction i).node
    history := h.history.record h.storage.journal.flushed i (h.reaction i).effects }

/-- The node is called, and its effects are handled. -/
def feed (h : NodeHost) (i : Input) : NodeHost := (h.called i).handleEffects (h.reaction i).effects

/-! ### Notices -/

/-- The loop of `complete_group_barrier`: what is durable is carried out, the rest stays. -/
def release : NodeHost → List QuarantinedEffect → List QuarantinedEffect →
    NodeHost × List QuarantinedEffect
  | h, [], stillWaiting => (h, stillWaiting)
  | h, held :: rest, stillWaiting =>
    if held.durabilityDependency ≤ h.durableOperationThrough then
      let h := h.dispatchEffect held.effect
      if h.running = false then (h, stillWaiting) else release h rest stillWaiting
    else release h rest (stillWaiting ++ [held])

/-- A flush releases what waited for it. -/
def completeGroupBarrier (h : NodeHost) (notice : StorageNotice) : NodeHost :=
  let h := { h with
    durableOperationThrough := max h.durableOperationThrough notice.durableThrough }
  let (h, stillWaiting) := h.release h.quarantinedEffects []
  let h := { h with
    quarantinedEffects := stillWaiting
    groupBarrierActive := decide (h.durableOperationThrough < h.lastSubmittedOperation) }
  let h :=
    match notice.delayedCompletion with
    | some completion => if h.running then h.feed (.event completion.event) else h
    | none => h
  h.refreshPublishedStatus

/-- One notice of the worker. -/
def takeNotice (h : NodeHost) (notice : StorageNotice) : NodeHost :=
  if h.grouped then
    match notice.kind with
    | .staged => h.feed (.event notice.completion.event)
    | .barrier => h.completeGroupBarrier notice
    | .failed => h.failGroupStorage
    | .complete => h.failGroupStorage
  else { h with ownerEvents := h.ownerEvents ++ [notice.completion.event] }

/-- The loop over the notices; in the group mode a failure ends it. -/
def takeNotices : NodeHost → List StorageNotice → NodeHost
  | h, [] => h
  | h, notice :: rest =>
    let h := h.takeNotice notice
    if h.grouped && !h.running then h else takeNotices h rest

/-! ### Polling -/

/-- How many more events the owner takes in. -/
def available (h : NodeHost) : ℕ := h.config.limits.maxOwnerEvents - h.ownerEvents.length

/-- Takes no more notices than there is room for events. -/
def collect (h : NodeHost) : NodeHost :=
  if h.available = 0 then h
  else
    let available := h.available
    let h := h.interfere
    let (notices, storage) := h.storage.take available
    takeNotices { h with storage } notices

/-- A timer becomes an event. -/
def fireTimer (h : NodeHost) (timer : HostTimer) : NodeHost :=
  { h with ownerEvents :=
      h.ownerEvents ++ [.timerFired timer.request.kind timer.request.generation] }

/-- The timers that are due, while there is room. -/
def fireTimers (h : NodeHost) (inputs : PollInputs) : NodeHost :=
  let h :=
    if h.electionTimer.active && inputs.electionDue && decide (h.available ≠ 0) then
      { h.fireTimer h.electionTimer with electionTimer := { h.electionTimer with active := false } }
    else h
  if h.heartbeatTimer.active && inputs.heartbeatDue && decide (h.available ≠ 0) then
    { h.fireTimer h.heartbeatTimer with
      heartbeatTimer := { h.heartbeatTimer with active := false } }
  else h

/-- Some requests move from the queue of the clients to that of the owner. -/
def admitClients (h : NodeHost) (count : ℕ) : NodeHost :=
  { h with
    ownerEvents := h.ownerEvents ++
      (h.clientQueue.take count).map fun r => .clientRequest r.1 r.2
    clientQueue := h.clientQueue.drop count }

/-- The loop over the events of the transport; an error of the transport ends it. -/
def receive : NodeHost → List TcpTransportEvent → NodeHost
  | h, [] => h
  | h, event :: rest =>
    match event with
    | .message peer bytes =>
      match Codec.decodeMessage bytes h.config.codec with
      | .error _ => receive h rest
      | .ok message =>
        receive { h with ownerEvents := h.ownerEvents ++
          [.messageReceived { sender := peer, target := h.config.raft.nodeId, message }] } rest
    | .peerRejected => receive h rest
    | .connection => receive h rest
    | .transportError => h.failTransport

/-- Timers come first, then one request of a client: a busy network can keep out neither. -/
def admitLocal (h : NodeHost) (inputs : PollInputs) : NodeHost :=
  let h := h.fireTimers inputs
  h.admitClients (min 1 h.available)

/-- What a poll takes in. -/
def gatherInputs (h : NodeHost) (inputs : PollInputs) : NodeHost :=
  if inputs.tcpRunning = false then h.failTransport
  else
    let h := h.collect
    if h.grouped && !h.running then h
    else
      let h := h.admitLocal inputs
      let h := h.receive
        (inputs.events.take (min h.available h.config.limits.maxTcpEventsPerPoll))
      if h.running = false then h else h.admitClients h.available

/-- Takes in what there is and handles one event. -/
def pollOnce (h : NodeHost) (inputs : PollInputs) : NodeHost :=
  if h.running = false then h
  else
    let h := ({ h with ahead := inputs.ahead } : NodeHost).gatherInputs inputs
    match h.ownerEvents with
    | [] => h
    | event :: rest => ({ h with ownerEvents := rest } : NodeHost).feed (.event event)

/-! ### Calls -/

/-- The answers of `submit`. -/
inductive NodeHostSubmitStatus where
  | accepted
  | wouldBlock
  | stopped
  | error
  deriving DecidableEq, Repr

/-- The result of `submit`, and the host after it. -/
def submit (h : NodeHost) (command : ClientCommand) :
    (NodeHostSubmitStatus × ClientToken) × NodeHost :=
  if h.running = false then ((.stopped, 0), h)
  else if commandAcceptable h.config.raft command = false then ((.error, 0), h)
  else if h.config.limits.maxClientQueue ≤ h.clientQueue.length ∨
      h.config.limits.maxClientSlots ≤ h.outstandingTokens.length + h.replies.length then
    ((.wouldBlock, 0), h)
  else if h.nextClientToken = 0 ∨ h.nextClientToken = maxU64 then ((.error, 0), h)
  else
    let token := h.nextClientToken
    ((.accepted, token), { h with
      nextClientToken := token + 1
      clientQueue := h.clientQueue ++ [(token, command)]
      outstandingTokens := h.outstandingTokens.orderedInsert (· ≤ ·) token
      history := { h.history with accepted := h.history.accepted ++ [token] } })

/-- The caller takes replies. -/
def pollReplies (h : NodeHost) (maximum : ℕ) : List ClientReply × NodeHost :=
  (h.replies.take maximum, { h with
    replies := h.replies.drop maximum
    history := { h.history with delivered := h.history.delivered ++ h.replies.take maximum } })

/-- The caller takes records. -/
def pollTraces (h : NodeHost) (maximum : ℕ) : List TraceRecord × NodeHost :=
  (h.traces.take maximum, { h with traces := h.traces.drop maximum })

/-- `start`, with whether the transport can be started. NodeHost and worker start once. -/
def start (h : NodeHost) (tcp : Bool) (ahead : List (List WorkerStep)) : NodeHost :=
  if h.started = true ∨ h.storage.started = true then h
  else if tcp = false then
    { h with storage := ({ h.storage with started := true } : StorageWorker).stop }
  else
    ({ h with
      started := true
      running := true
      storage := { h.storage with started := true }
      ahead := ahead } : NodeHost).feed .start

/-- The owner stops the host. -/
def stop (h : NodeHost) : NodeHost :=
  if h.started = false ∨ h.running = false then h
  else { h with running := false, storage := h.storage.stop }

/-- The members of a new host, with an empty status. -/
def fresh (config : NodeHostConfig) (raft : RaftNode) : NodeHost where
  config := config
  raft := raft
  storage :=
    { maxTasks := config.limits.maxStorageTasks
      maxCompletions := config.limits.maxStorageCompletions
      configuredFlushPolicy := config.wal.flushPolicy
      groupCommit := config.groupCommit
      maxFrameBytes := config.wal.maxFrameBytes
      maxGroupBytes := config.wal.maxGroupBytes }
  publishedStatus := ⟨0, .unavailable, 0, none, false, 0, 0, 0, 0, false, 0, 0⟩

/-- The constructor, for what the WAL has recovered. -/
def create (config : NodeHostConfig) (recovered : RecoveredState) : Except String NodeHost := do
  validateHostConfig config
  let raft ← RaftNode.create config.raft recovered
  .ok { fresh config raft with publishedStatus := (fresh config raft).liveStatus }

/-! ### Runs -/

/-- A call of the owner, or a step of the worker. -/
inductive Act where
  | start (tcp : Bool) (ahead : List (List WorkerStep))
  | poll (inputs : PollInputs)
  | submit (command : ClientCommand)
  | pollReplies (maximum : ℕ)
  | pollTraces (maximum : ℕ)
  | stop
  | worker (s : WorkerStep)

/-- One call from outside. -/
def act (h : NodeHost) : Act → NodeHost
  | .start tcp ahead => h.start tcp ahead
  | .poll inputs => h.pollOnce inputs
  | .submit command => (h.submit command).2
  | .pollReplies maximum => (h.pollReplies maximum).2
  | .pollTraces maximum => (h.pollTraces maximum).2
  | .stop => h.stop
  | .worker s => { h with storage := h.storage.step s }

/-- Call after call. -/
def run (h : NodeHost) (acts : List Act) : NodeHost := acts.foldl act h

end NodeHost

end DetLog
