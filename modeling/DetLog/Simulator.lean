import DetLog.Config
import DetLog.Container.OrdMap

/-!
# The simulator

A world for a cluster in one process: a clock, a network with faults, timers and one disk per node.
Everything that will happen is an event in one queue, and an event is handed out at its time; events
of the same time are handed out in the order in which they were scheduled. Nothing else decides
about the order, so a run can be repeated.

* `DetLog.Sim.EventQueue` is the queue. It has limits on the number of events, and its numbers are
  64-bit numbers that are not used again.
* A disk (`DetLog.Sim.StorageDevice`) works on one operation after the other: an operation starts
  when the one before it is complete. A write goes to the unstable part of the file, a flush moves
  the unstable part to the stable one. A crash leaves the stable part, and what it is told to leave
  of the rest.
* A node that is restarted has a new *incarnation*. An event for a node names the incarnation it is
  meant for, a timer also its *generation*: arming a timer again makes the event of the old one
  stale. `DetLog.Sim.Simulator.next` drops stale events.

The heap of the source is a list here, and the algorithms on heaps are replaced by what they are
for: the least element is found and taken out. The trace of the simulator is left out; no operation
looks at it.
-/

namespace DetLog

namespace Sim

/-! ### Events -/

/-- What a disk is asked for. -/
inductive StorageOperationKind where
  | write
  | flush
  deriving DecidableEq, Repr

/-- How an operation of a disk ends. -/
inductive StorageCompletionStatus where
  | success
  | ioError
  | shortWrite
  deriving DecidableEq, Repr

/-- The name of a status in the trace. -/
def StorageCompletionStatus.toString : StorageCompletionStatus → String
  | .success => "success"
  | .ioError => "io_error"
  | .shortWrite => "short_write"

/-- A timer fires, unless it was armed again. -/
structure TimerEvent where
  node : NodeId
  kind : TimerKind
  generation : ℕ
  incarnation : ℕ
  deriving DecidableEq, Repr

/-- One copy of a frame arrives. -/
structure NetworkEvent where
  deliveryId : ℕ
  sender : NodeId
  target : NodeId
  fromIncarnation : ℕ
  toIncarnation : ℕ
  copyIndex : ℕ
  bytes : Bytes
  deriving DecidableEq, Repr

/-- A disk completes an operation. -/
structure StorageEvent where
  node : NodeId
  operationId : ℕ
  kind : StorageOperationKind
  incarnation : ℕ
  byteCount : ℕ
  status : StorageCompletionStatus
  deriving DecidableEq, Repr

/-- What a caller has scheduled for a node. -/
structure UserEvent where
  node : NodeId
  tag : ℕ
  incarnation : ℕ
  bytes : Bytes
  deriving DecidableEq, Repr

/-- What can happen. -/
inductive EventPayload where
  | timer (event : TimerEvent)
  | network (event : NetworkEvent)
  | storage (event : StorageEvent)
  | user (event : UserEvent)
  deriving DecidableEq, Repr

/-- An event, its time and its number. -/
structure ScheduledEvent where
  time : ℕ
  sequence : ℕ
  payload : EventPayload
  deriving DecidableEq, Repr

/-- The order of the queue: by time, then by number. -/
def ScheduledEvent.Earlier (a b : ScheduledEvent) : Prop :=
  a.time < b.time ∨ a.time = b.time ∧ a.sequence < b.sequence

instance (a b : ScheduledEvent) : Decidable (a.Earlier b) :=
  inferInstanceAs (Decidable (_ ∨ _ ∧ _))

/-! ### The queue -/

/-- Why an event is not scheduled. -/
inductive ScheduleStatus where
  | scheduled
  | unknownNode
  | nodeDown
  | payloadLimit
  | timeInPast
  | timeOverflow
  | pendingLimit
  | totalLimit
  | sequenceExhausted
  deriving DecidableEq, Repr

/-- A sum that does not fit into 64 bits. -/
def addOverflows (lhs rhs : ℕ) : Prop := maxU64 - lhs < rhs

instance (lhs rhs : ℕ) : Decidable (addOverflows lhs rhs) := inferInstanceAs (Decidable (_ < _))

/-- The number that is given out next; zero when there is none left. -/
def following (number : ℕ) : ℕ := if number = maxU64 then 0 else number + 1

/-- The events that are still to happen, in any order. -/
structure EventQueue where
  limits : EventQueueLimits := {}
  now : ℕ := 0
  nextSequence : ℕ := 1
  totalScheduled : ℕ := 0
  heap : List ScheduledEvent := []
  deriving DecidableEq, Repr

/-- The least event of a list. -/
def least : List ScheduledEvent → Option ScheduledEvent
  | [] => none
  | e :: l =>
    match least l with
    | none => some e
    | some m => if m.Earlier e then some m else some e

namespace EventQueue

/-- The number of the event and the queue with it, or the reason for which it is refused. -/
def scheduleAt (q : EventQueue) (time : ℕ) (payload : EventPayload) :
    Except ScheduleStatus (ℕ × EventQueue) :=
  if time < q.now then .error .timeInPast
  else if q.limits.maxPendingEvents ≤ q.heap.length then .error .pendingLimit
  else if q.limits.maxTotalEvents ≤ q.totalScheduled then .error .totalLimit
  else if q.nextSequence = 0 then .error .sequenceExhausted
  else .ok (q.nextSequence, { q with
    nextSequence := following q.nextSequence
    totalScheduled := q.totalScheduled + 1
    heap := q.heap ++ [⟨time, q.nextSequence, payload⟩] })

/-- An event at a distance from now. -/
def scheduleAfter (q : EventQueue) (delay : ℕ) (payload : EventPayload) :
    Except ScheduleStatus (ℕ × EventQueue) :=
  if addOverflows q.now delay then .error .timeOverflow else q.scheduleAt (q.now + delay) payload

/-- The next event; the clock moves to its time. -/
def popNext (q : EventQueue) : Option (ScheduledEvent × EventQueue) :=
  (least q.heap).map fun e => (e, { q with now := e.time, heap := q.heap.erase e })

/-- The events that satisfy a test, and the queue without them. -/
def extractIf (q : EventQueue) (test : ScheduledEvent → Bool) : List ScheduledEvent × EventQueue :=
  (q.heap.filter test, { q with heap := q.heap.filter fun e => !test e })

/-- Room for several events at once. -/
def canSchedule (q : EventQueue) (count : ℕ := 1) : Bool :=
  if q.limits.maxPendingEvents < count ∨ q.limits.maxPendingEvents - count < q.heap.length then
    false
  else if q.limits.maxTotalEvents < count ∨ q.limits.maxTotalEvents - count < q.totalScheduled then
    false
  else if q.nextSequence = 0 then false
  else decide (count ≤ maxU64 - q.nextSequence + 1)

end EventQueue

/-! ### The state of the world -/

/-- An operation whose result is decided and not yet known. -/
structure PendingStorageOperation where
  kind : StorageOperationKind
  bytes : Bytes := []
  completionStatus : StorageCompletionStatus
  actualWriteBytes : ℕ := 0
  completionTime : ℕ
  eventSequence : ℕ
  deriving DecidableEq, Repr

/-- The disk of a node. -/
structure StorageDevice where
  stable : Bytes := []
  unstable : Bytes := []
  pending : OrdMap ℕ PendingStorageOperation := ∅
  pendingBytes : ℕ := 0
  availableAt : ℕ := 0
  failNextWrite : Bool := false
  shortWritePrefix : Option ℕ := none
  failNextFlush : Bool := false
  deriving DecidableEq

/-- What the simulator knows about a node. -/
structure NodeState where
  alive : Bool := true
  incarnation : ℕ := 1
  electionGeneration : ℕ := 0
  heartbeatGeneration : ℕ := 0
  storage : StorageDevice := {}
  deriving DecidableEq

/-- The faults of a link, in one direction. -/
structure LinkFaultState where
  partitioned : Bool := false
  additionalDelay : ℕ := 0
  dropNext : ℕ := 0
  extraCopiesNext : ℕ := 0
  deriving DecidableEq, Repr

/-- A link and the bytes on their way through it. -/
structure LinkState where
  fault : LinkFaultState := {}
  queuedBytes : ℕ := 0
  deriving DecidableEq, Repr

/-- The state of the world. -/
structure Simulator where
  config : SimulatorConfig
  events : EventQueue
  nodes : OrdMap NodeId NodeState := ∅
  links : OrdMap (NodeId ×ₗ NodeId) LinkState := ∅
  totalNetworkBytes : ℕ := 0
  nextDeliveryId : ℕ := 1
  nextStorageId : ℕ := 1
  deriving DecidableEq

/-- The number of copies is counted in 32 bits, so there is one number of extra copies less. -/
def Simulator.create (config : SimulatorConfig) : Simulator where
  config :=
    if config.transport.maxExtraDuplicatesPerSend = Codec.maxU32 then
      { config with transport :=
        { config.transport with
          maxExtraDuplicatesPerSend := config.transport.maxExtraDuplicatesPerSend - 1 } }
    else config
  events := { limits := config.events }

/-! ### Nodes and links -/

namespace Simulator

/-- A node is registered once. -/
def registerNode (s : Simulator) (node : NodeId) : Bool × Simulator :=
  match s.nodes.find node with
  | some _ => (false, s)
  | none =>
    (true, { s with nodes := s.nodes.insert node { storage := { availableAt := s.events.now } } })

/-- An unknown node is not alive. -/
def isAlive (s : Simulator) (node : NodeId) : Bool :=
  (s.nodes.find node).elim false NodeState.alive

/-- An unknown node has incarnation 0. -/
def incarnation (s : Simulator) (node : NodeId) : ℕ :=
  (s.nodes.find node).elim 0 NodeState.incarnation

/-- A node gets a new state. -/
def setNode (s : Simulator) (node : NodeId) (state : NodeState) : Simulator :=
  { s with nodes := s.nodes.insert node state }

/-- A change of a node that exists and is alive. -/
def onLive (s : Simulator) (node : NodeId) (change : NodeState → NodeState) : Bool × Simulator :=
  match s.nodes.find node with
  | none => (false, s)
  | some state => if state.alive then (true, s.setNode node (change state)) else (false, s)

/-- A link that was never used has no faults. -/
def link (s : Simulator) (sender target : NodeId) : LinkState :=
  (s.links.find (toLex (sender, target))).getD {}

/-- A link gets a new state. -/
def setLink (s : Simulator) (sender target : NodeId) (link : LinkState) : Simulator :=
  { s with links := s.links.insert (toLex (sender, target)) link }

/-- A frame leaves its link and the network. -/
def releaseNetworkBytes (s : Simulator) (delivery : NetworkEvent) : Simulator :=
  let bytes := delivery.bytes.length
  let s :=
    match s.links.find (toLex (delivery.sender, delivery.target)) with
    | none => s
    | some link =>
      s.setLink delivery.sender delivery.target { link with
        queuedBytes := if link.queuedBytes < bytes then 0 else link.queuedBytes - bytes }
  { s with
    totalNetworkBytes := if s.totalNetworkBytes < bytes then 0 else s.totalNetworkBytes - bytes }

/-- A change of a link between two nodes that exist. -/
def onLink (s : Simulator) (sender target : NodeId)
    (change : LinkFaultState → LinkFaultState) : Bool × Simulator :=
  if s.nodes.find sender = none ∨ s.nodes.find target = none then (false, s)
  else
    let link := s.link sender target
    (true, s.setLink sender target { link with fault := change link.fault })

/-- Cuts or heals one direction of a link. -/
def setPartition (s : Simulator) (sender target : NodeId) (partitioned : Bool) :
    Bool × Simulator :=
  s.onLink sender target fun fault => { fault with partitioned := partitioned }

/-- A delay on top of that of each frame. -/
def setLinkDelay (s : Simulator) (sender target : NodeId) (delay : ℕ) : Bool × Simulator :=
  s.onLink sender target fun fault => { fault with additionalDelay := delay }

/-- The next frames of a link are lost. -/
def dropNext (s : Simulator) (sender target : NodeId) (count : ℕ) : Bool × Simulator :=
  s.onLink sender target fun fault => { fault with dropNext := count }

/-- The next frame of a link arrives several times. -/
def duplicateNext (s : Simulator) (sender target : NodeId) (extraCopies : ℕ) : Bool × Simulator :=
  if s.config.transport.maxExtraDuplicatesPerSend < extraCopies then (false, s)
  else s.onLink sender target fun fault => { fault with extraCopiesNext := extraCopies }

end Simulator

/-! ### Crashes and restarts -/

/-- What a crash leaves of the bytes that are not stable. -/
structure StorageCrashSpec where
  survivingUnstableBytes : ℕ := 0
  tornPendingWriteBytes : ℕ := 0
  deriving DecidableEq, Repr

/-- The bytes of the write that the disk is working on. -/
def StorageDevice.activeWrite (device : StorageDevice) : Bytes :=
  match device.pending.entries with
  | [] => []
  | (_, active) :: _ => if active.kind = .write then active.bytes else []

/-- What a crash leaves of the bytes that are not stable. A later write begins after the complete
unstable part, so nothing of it is left unless all of that is. -/
def StorageDevice.survivors (device : StorageDevice) (crash : StorageCrashSpec) : Bytes :=
  let unstableSurvivors := min crash.survivingUnstableBytes device.unstable.length
  device.unstable.take unstableSurvivors ++
    if unstableSurvivors = device.unstable.length then
      device.activeWrite.take (min crash.tornPendingWriteBytes device.activeWrite.length)
    else []

/-- A disk after a crash: what is left is stable. -/
def StorageDevice.crash (device : StorageDevice) (crash : StorageCrashSpec) (now : ℕ) :
    StorageDevice where
  stable := device.stable ++ device.survivors crash
  availableAt := now

/-- The events that a crash of a node cancels. -/
def EventPayload.concerns (payload : EventPayload) (node : NodeId) (dropInFlight : Bool) : Bool :=
  match payload with
  | .timer event => event.node = node
  | .network event => event.target = node || dropInFlight && event.sender = node
  | .storage event => event.node = node
  | .user event => event.node = node

/-- The bytes of a cancelled delivery are no longer queued. -/
def Simulator.forget (s : Simulator) (e : ScheduledEvent) : Simulator :=
  match e.payload with
  | .network network => s.releaseNetworkBytes network
  | _ => s

/-- A crash, with the events that it cancels. -/
def Simulator.crashNode (s : Simulator) (node : NodeId) (crash : StorageCrashSpec) :
    Bool × Simulator :=
  match s.nodes.find node with
  | none => (false, s)
  | some state =>
    if state.alive then
      let s := s.setNode node
        { state with alive := false, storage := state.storage.crash crash s.events.now }
      let (cancelled, events) := s.events.extractIf fun e =>
        e.payload.concerns node s.config.transport.dropInFlightOnEndpointCrash
      (true, cancelled.foldl Simulator.forget { s with events := events })
    else (false, s)

/-- A node comes back with the next incarnation. -/
def Simulator.restartNode (s : Simulator) (node : NodeId) : Bool × Simulator :=
  match s.nodes.find node with
  | none => (false, s)
  | some state =>
    if state.alive = true ∨ state.incarnation = maxU64 then (false, s)
    else
      (true, s.setNode node { state with
        incarnation := state.incarnation + 1
        alive := true
        electionGeneration := 0
        heartbeatGeneration := 0
        storage := { state.storage with availableAt := s.events.now } })

/-! ### Timers -/

/-- The generation that counts for a timer. -/
def NodeState.timerGeneration (state : NodeState) : TimerKind → ℕ
  | .heartbeat => state.heartbeatGeneration
  | .election => state.electionGeneration

/-- A timer moves to a generation. -/
def NodeState.setTimerGeneration (state : NodeState) (generation : ℕ) : TimerKind → NodeState
  | .heartbeat => { state with heartbeatGeneration := generation }
  | .election => { state with electionGeneration := generation }

/-- Zero is kept for tokens that mean no timer. -/
def advanceGeneration (generation : ℕ) : ℕ :=
  if generation = maxU64 then 1 else generation + 1

/-- A timer that is armed. -/
structure TimerToken where
  node : NodeId
  kind : TimerKind
  generation : ℕ
  incarnation : ℕ
  eventSequence : ℕ
  deriving DecidableEq, Repr

/-- The timer keeps its generation, and with it its old event, if the queue is full. -/
def Simulator.armTimer (s : Simulator) (node : NodeId) (kind : TimerKind) (delay : ℕ) :
    Option TimerToken × Simulator :=
  match s.nodes.find node with
  | none => (none, s)
  | some state =>
    if state.alive then
      let generation := advanceGeneration (state.timerGeneration kind)
      match s.events.scheduleAfter delay (.timer ⟨node, kind, generation, state.incarnation⟩) with
      | .error _ => (none, s)
      | .ok (sequence, events) =>
        (some ⟨node, kind, generation, state.incarnation, sequence⟩,
          { s with events := events }.setNode node (state.setTimerGeneration generation kind))
    else (none, s)

/-- The event of a timer becomes stale. -/
def Simulator.cancelTimer (s : Simulator) (node : NodeId) (kind : TimerKind) : Bool × Simulator :=
  s.onLive node fun state =>
    state.setTimerGeneration (advanceGeneration (state.timerGeneration kind)) kind

/-! ### The network -/

/-- What becomes of a frame. -/
inductive SendStatus where
  | queued
  | dropped
  | partitioned
  | unknownNode
  | endpointDown
  | frameLimit
  | queueLimit
  | duplicateLimit
  | timeOverflow
  | eventLimit
  deriving DecidableEq, Repr

/-- A copy of a message is put into the queue; what the queue answers is ignored. -/
def EventQueue.scheduleCopy (time : ℕ) (payload : ℕ → EventPayload) (q : EventQueue) (copy : ℕ) :
    EventQueue :=
  match q.scheduleAt time (payload copy) with
  | .error _ => q
  | .ok (_, q) => q

/-- The end of `send`, when nothing forbids to queue the message. -/
def Simulator.queueCopies (s : Simulator) (sender target : NodeId) (source destination : NodeState)
    (bytes : Bytes) (copies deliveryTime : ℕ) : Simulator :=
  let link := s.link sender target
  let queuedBytes := bytes.length * copies
  let events := (List.range copies).foldl
    (EventQueue.scheduleCopy deliveryTime fun copy =>
      .network ⟨s.nextDeliveryId, sender, target, source.incarnation, destination.incarnation, copy,
        bytes⟩) s.events
  { s with
    events := events
    nextDeliveryId := following s.nextDeliveryId
    totalNetworkBytes := s.totalNetworkBytes + queuedBytes }.setLink sender target
      { fault := { link.fault with extraCopiesNext := 0 }
        queuedBytes := link.queuedBytes + queuedBytes }

/-- `send` between two nodes that are alive. -/
def Simulator.sendOver (s : Simulator) (sender target : NodeId) (source destination : NodeState)
    (link : LinkState) (bytes : Bytes) (baseDelay : ℕ) : SendStatus × Simulator :=
  let limits := s.config.transport
  let fault := link.fault
  let copies := fault.extraCopiesNext + 1
  let queuedBytes := bytes.length * copies
  if fault.partitioned then (.partitioned, s)
  else if fault.dropNext ≠ 0 then
    (.dropped, s.setLink sender target
      { link with fault := { fault with dropNext := fault.dropNext - 1 } })
  else if limits.maxExtraDuplicatesPerSend < fault.extraCopiesNext then (.duplicateLimit, s)
  else if bytes.length ≠ 0 ∧ maxU64 / bytes.length < copies then (.queueLimit, s)
  else if addOverflows s.events.now baseDelay ∨
      addOverflows (s.events.now + baseDelay) fault.additionalDelay then (.timeOverflow, s)
  else if limits.maxQueuedBytesPerLink < queuedBytes ∨
      limits.maxQueuedBytesPerLink - queuedBytes < link.queuedBytes ∨
      limits.maxTotalQueuedBytes < queuedBytes ∨
      limits.maxTotalQueuedBytes - queuedBytes < s.totalNetworkBytes then (.queueLimit, s)
  else if s.events.canSchedule copies = false ∨ s.nextDeliveryId = 0 then (.eventLimit, s)
  else
    (.queued, s.queueCopies sender target source destination bytes copies
      (s.events.now + baseDelay + fault.additionalDelay))

/-- The link exists from the first message on that is not too long. -/
def Simulator.send (s : Simulator) (sender target : NodeId) (bytes : Bytes) (baseDelay : ℕ) :
    SendStatus × Simulator :=
  match s.nodes.find sender, s.nodes.find target with
  | some source, some destination =>
    if source.alive = false ∨ destination.alive = false then (.endpointDown, s)
    else if s.config.transport.maxFrameBytes < bytes.length then (.frameLimit, s)
    else
      let link := s.link sender target
      (s.setLink sender target link).sendOver sender target source destination link bytes baseDelay
  | _, _ => (.unknownNode, s)

/-! ### The disk -/

/-- Why an operation is not accepted. -/
inductive StorageSubmitStatus where
  | queued
  | unknownNode
  | nodeDown
  | writeLimit
  | pendingLimit
  | fileLimit
  | timeOverflow
  | eventLimit
  | idExhausted
  deriving DecidableEq, Repr

/-- When an accepted operation will be complete. -/
structure StorageSubmitResult where
  status : StorageSubmitStatus
  operationId : ℕ := 0
  completionTime : ℕ := 0
  deriving DecidableEq, Repr

namespace Simulator

/-- A disk works on one operation at a time. -/
def storageStart (s : Simulator) (storage : StorageDevice) : ℕ :=
  max s.events.now storage.availableAt

/-- The common end of `submit_write` and `submit_flush`: a number is taken, the event of the
completion is scheduled, and the operation is pending. The flag of an injected fault is used up
by `after`. -/
def submit (s : Simulator) (node : NodeId) (state : NodeState) (latency : ℕ)
    (kind : StorageOperationKind) (bytes : Bytes) (status : StorageCompletionStatus) (actual : ℕ)
    (after : StorageDevice → StorageDevice) : StorageSubmitResult × Simulator :=
  let start := s.storageStart state.storage
  if addOverflows start latency then (⟨.timeOverflow, 0, 0⟩, s)
  else if s.events.canSchedule = false then (⟨.eventLimit, 0, 0⟩, s)
  else if s.nextStorageId = 0 then (⟨.idExhausted, 0, 0⟩, s)
  else
    let completion := start + latency
    let operationId := s.nextStorageId
    let s := { s with nextStorageId := following s.nextStorageId }
    match s.events.scheduleAt completion
        (.storage ⟨node, operationId, kind, state.incarnation, actual, status⟩) with
    | .error _ => (⟨.eventLimit, 0, 0⟩, s)
    | .ok (sequence, events) =>
      let pending : PendingStorageOperation :=
        ⟨kind, bytes, status, actual, completion, sequence⟩
      let storage := after { state.storage with
        pending := state.storage.pending.insert operationId pending
        pendingBytes := state.storage.pendingBytes + bytes.length
        availableAt := completion }
      (⟨.queued, operationId, completion⟩,
        { s with events := events }.setNode node { state with storage := storage })

/-- What will become of the next write. -/
def writeFate (storage : StorageDevice) (bytes : Bytes) : StorageCompletionStatus × ℕ :=
  if storage.failNextWrite then (.ioError, 0)
  else
    match storage.shortWritePrefix with
    | some kept => (.shortWrite, if bytes = [] then 0 else min kept (bytes.length - 1))
    | none => (.success, bytes.length)

/-- A write; its failure is decided here. -/
def submitWrite (s : Simulator) (node : NodeId) (bytes : Bytes) (latency : ℕ) :
    StorageSubmitResult × Simulator :=
  match s.nodes.find node with
  | none => (⟨.unknownNode, 0, 0⟩, s)
  | some state =>
    let storage := state.storage
    let limits := s.config.storage
    let size := storage.stable.length + storage.unstable.length
    if state.alive = false then (⟨.nodeDown, 0, 0⟩, s)
    else if limits.maxWriteBytes < bytes.length then (⟨.writeLimit, 0, 0⟩, s)
    else if limits.maxPendingOperations ≤ storage.pending.size ∨
        limits.maxPendingBytes < bytes.length ∨
        limits.maxPendingBytes - bytes.length < storage.pendingBytes then
      (⟨.pendingLimit, 0, 0⟩, s)
    else if addOverflows storage.stable.length storage.unstable.length ∨
        addOverflows size storage.pendingBytes ∨
        addOverflows (size + storage.pendingBytes) bytes.length ∨
        limits.maxFileBytes < size + storage.pendingBytes + bytes.length then
      (⟨.fileLimit, 0, 0⟩, s)
    else
      let (status, actual) := writeFate storage bytes
      s.submit node state latency .write bytes status actual fun storage =>
        { storage with failNextWrite := false, shortWritePrefix := none }

/-- A flush; its failure is decided here. -/
def submitFlush (s : Simulator) (node : NodeId) (latency : ℕ) : StorageSubmitResult × Simulator :=
  match s.nodes.find node with
  | none => (⟨.unknownNode, 0, 0⟩, s)
  | some state =>
    if state.alive = false then (⟨.nodeDown, 0, 0⟩, s)
    else if s.config.storage.maxPendingOperations ≤ state.storage.pending.size then
      (⟨.pendingLimit, 0, 0⟩, s)
    else
      s.submit node state latency .flush []
        (if state.storage.failNextFlush then .ioError else .success) 0 fun storage =>
          { storage with failNextFlush := false }

/-- A change to the disk of a live node. -/
def onStorage (s : Simulator) (node : NodeId) (change : StorageDevice → StorageDevice) :
    Bool × Simulator :=
  s.onLive node fun state => { state with storage := change state.storage }

/-- The next write fails and writes nothing. -/
def failNextWrite (s : Simulator) (node : NodeId) : Bool × Simulator :=
  s.onStorage node fun storage => { storage with failNextWrite := true, shortWritePrefix := none }

/-- The next write stops early. -/
def shortWriteNext (s : Simulator) (node : NodeId) (prefixBytes : ℕ) : Bool × Simulator :=
  s.onStorage node fun storage =>
    { storage with failNextWrite := false, shortWritePrefix := some prefixBytes }

/-- The next flush fails. -/
def failNextFlush (s : Simulator) (node : NodeId) : Bool × Simulator :=
  s.onStorage node fun storage => { storage with failNextFlush := true }

/-- An empty disk gets a file that is stable. -/
def initializeStorage (s : Simulator) (node : NodeId) (stableBytes : Bytes) : Bool × Simulator :=
  match s.nodes.find node with
  | none => (false, s)
  | some state =>
    let storage := state.storage
    if state.alive = false ∨ s.config.storage.maxFileBytes < stableBytes.length ∨
        storage.stable ≠ [] ∨ storage.unstable ≠ [] ∨ storage.pending.entries ≠ [] then (false, s)
    else
      (true, s.setNode node { state with
        storage := { storage with stable := stableBytes, availableAt := s.events.now } })

/-- The end of the file of a stopped node is cut off. -/
def truncateStableStorage (s : Simulator) (node : NodeId) (validBytes : ℕ) : Bool × Simulator :=
  match s.nodes.find node with
  | none => (false, s)
  | some state =>
    let storage := state.storage
    if state.alive = true ∨ storage.pending.entries ≠ [] ∨ storage.unstable ≠ [] ∨
        storage.stable.length < validBytes then (false, s)
    else
      (true, s.setNode node { state with
        storage := { storage with stable := storage.stable.take validBytes } })

/-- An event of the caller. -/
def scheduleUser (s : Simulator) (node : NodeId) (tag : ℕ) (bytes : Bytes) (delay : ℕ) :
    ScheduleStatus × Simulator :=
  match s.nodes.find node with
  | none => (.unknownNode, s)
  | some state =>
    if state.alive = false then (.nodeDown, s)
    else if s.config.transport.maxFrameBytes < bytes.length then (.payloadLimit, s)
    else
      match s.events.scheduleAfter delay (.user ⟨node, tag, state.incarnation, bytes⟩) with
      | .error status => (status, s)
      | .ok (_, events) => (.scheduled, { s with events := events })

/-! ### The next event -/

/-- The disk has finished an operation: the event with what came of it, and the disk. -/
def complete (device : StorageDevice) (event : StorageEvent) (operation : PendingStorageOperation)
    (now : ℕ) : StorageEvent × StorageDevice :=
  let (byteCount, device) :=
    if operation.kind = .write then
      (operation.actualWriteBytes, { device with
        unstable := device.unstable ++ operation.bytes.take operation.actualWriteBytes
        pendingBytes := device.pendingBytes - operation.bytes.length })
    else if operation.completionStatus = .success then
      (device.unstable.length,
        { device with stable := device.stable ++ device.unstable, unstable := [] })
    else (0, device)
  let pending := device.pending.erase event.operationId
  ({ event with status := operation.completionStatus, byteCount := byteCount },
    { device with
      pending := pending
      availableAt := if pending.entries = [] then now else device.availableAt })

/-- What `next` does with an event that it has taken out of the queue: it is handed out, or it is
stale and nothing is. -/
def serve (s : Simulator) (e : ScheduledEvent) : Option ScheduledEvent × Simulator :=
  match e.payload with
  | .timer timer =>
    match s.nodes.find timer.node with
    | none => (none, s)
    | some state =>
      if state.alive = true ∧ state.incarnation = timer.incarnation ∧
          state.timerGeneration timer.kind = timer.generation then (some e, s)
      else (none, s)
  | .network delivery =>
    let s := s.releaseNetworkBytes delivery
    let valid (node : NodeId) (incarnation : ℕ) : Bool :=
      (s.nodes.find node).elim false fun state =>
        state.alive && decide (state.incarnation = incarnation)
    if (s.link delivery.sender delivery.target).fault.partitioned then (none, s)
    else if valid delivery.target delivery.toIncarnation = false ∨
        s.config.transport.dropInFlightOnEndpointCrash = true ∧
          valid delivery.sender delivery.fromIncarnation = false then (none, s)
    else (some e, s)
  | .storage event =>
    match s.nodes.find event.node with
    | none => (none, s)
    | some state =>
      if state.alive = false ∨ state.incarnation ≠ event.incarnation then (none, s)
      else
        match state.storage.pending.find event.operationId with
        | none => (none, s)
        | some operation =>
          let (event, storage) := complete state.storage event operation s.events.now
          (some { e with payload := .storage event },
            s.setNode event.node { state with storage := storage })
  | .user user =>
    match s.nodes.find user.node with
    | none => (none, s)
    | some state =>
      if state.alive = false ∨ state.incarnation ≠ user.incarnation then (none, s) else (some e, s)

/-- At most so many events are taken out of the queue. -/
def nextWithin : ℕ → Simulator → Option ScheduledEvent × Simulator
  | 0, s => (none, s)
  | fuel + 1, s =>
    match s.events.popNext with
    | none => (none, s)
    | some (e, events) =>
      match { s with events := events }.serve e with
      | (some e, s) => (some e, s)
      | (none, s) => s.nextWithin fuel

/-- **The next event that is not stale**, and the world in which it happens. -/
def next (s : Simulator) : Option ScheduledEvent × Simulator := s.nextWithin s.events.heap.length

/-! ### What can be seen of a disk -/

/-- What a crash leaves in any case. -/
def stableBytes (s : Simulator) (node : NodeId) : Bytes :=
  (s.nodes.find node).elim [] fun state => state.storage.stable

/-- What is written and not flushed. -/
def unstableBytes (s : Simulator) (node : NodeId) : Bytes :=
  (s.nodes.find node).elim [] fun state => state.storage.unstable

/-- The bytes of the writes under way. -/
def pendingStorageBytes (s : Simulator) (node : NodeId) : ℕ :=
  (s.nodes.find node).elim 0 fun state => state.storage.pendingBytes

end Simulator

/-! ### Operations -/

/-- A call of the simulator. -/
inductive Operation where
  | registerNode (node : NodeId)
  | crashNode (node : NodeId) (crash : StorageCrashSpec)
  | restartNode (node : NodeId)
  | armTimer (node : NodeId) (kind : TimerKind) (delay : ℕ)
  | cancelTimer (node : NodeId) (kind : TimerKind)
  | setPartition (sender target : NodeId) (partitioned : Bool)
  | setLinkDelay (sender target : NodeId) (delay : ℕ)
  | dropNext (sender target : NodeId) (count : ℕ)
  | duplicateNext (sender target : NodeId) (extraCopies : ℕ)
  | send (sender target : NodeId) (bytes : Bytes) (baseDelay : ℕ)
  | submitWrite (node : NodeId) (bytes : Bytes) (latency : ℕ)
  | submitFlush (node : NodeId) (latency : ℕ)
  | failNextWrite (node : NodeId)
  | shortWriteNext (node : NodeId) (prefixBytes : ℕ)
  | failNextFlush (node : NodeId)
  | initializeStorage (node : NodeId) (stableBytes : Bytes)
  | truncateStableStorage (node : NodeId) (validBytes : ℕ)
  | scheduleUser (node : NodeId) (tag : ℕ) (bytes : Bytes) (delay : ℕ)
  | next
  deriving DecidableEq, Repr

/-- What a call returns. -/
inductive Answer where
  | done (success : Bool)
  | token (token : Option TimerToken)
  | sent (status : SendStatus)
  | submitted (result : StorageSubmitResult)
  | scheduled (status : ScheduleStatus)
  | event (event : Option ScheduledEvent)
  deriving DecidableEq, Repr

/-- One call of the simulator. -/
def Simulator.perform (s : Simulator) : Operation → Answer × Simulator
  | .registerNode node => (s.registerNode node).map .done id
  | .crashNode node crash => (s.crashNode node crash).map .done id
  | .restartNode node => (s.restartNode node).map .done id
  | .armTimer node kind delay => (s.armTimer node kind delay).map .token id
  | .cancelTimer node kind => (s.cancelTimer node kind).map .done id
  | .setPartition sender target partitioned =>
    (s.setPartition sender target partitioned).map .done id
  | .setLinkDelay sender target delay => (s.setLinkDelay sender target delay).map .done id
  | .dropNext sender target count => (s.dropNext sender target count).map .done id
  | .duplicateNext sender target extraCopies =>
    (s.duplicateNext sender target extraCopies).map .done id
  | .send sender target bytes baseDelay => (s.send sender target bytes baseDelay).map .sent id
  | .submitWrite node bytes latency => (s.submitWrite node bytes latency).map .submitted id
  | .submitFlush node latency => (s.submitFlush node latency).map .submitted id
  | .failNextWrite node => (s.failNextWrite node).map .done id
  | .shortWriteNext node prefixBytes => (s.shortWriteNext node prefixBytes).map .done id
  | .failNextFlush node => (s.failNextFlush node).map .done id
  | .initializeStorage node stableBytes => (s.initializeStorage node stableBytes).map .done id
  | .truncateStableStorage node validBytes =>
    (s.truncateStableStorage node validBytes).map .done id
  | .scheduleUser node tag bytes delay => (s.scheduleUser node tag bytes delay).map .scheduled id
  | .next => s.next.map .event id

end Sim

end DetLog
