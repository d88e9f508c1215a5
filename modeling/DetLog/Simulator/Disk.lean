import DetLog.Simulator.Accounting

/-!
# The disk is an ordered, prefix-durable device

What a client of the simulator may rely on. The client keeps a ledger of what it is told about the
disk of one node (`DetLog.Sim.Ledger`): the file that an initialization, a crash or a repair has
left, the operations that it has submitted since the last crash, and the completions that it has
seen. From the ledger it knows the file: the stable and the unstable part together are the image
and the bytes of the completed writes, in order.

The order of the completions is not kept by the disk but by the queue. An operation is scheduled to
complete not before the one that was submitted before it, and if both complete at the same time then
the number of its event is larger. `DetLog.Sim.Timeline` says so about the operations that are
pending, and that each of them has its event in the queue; so the event that is taken out next is
that of the oldest one (`DetLog.Sim.Timeline.oldest`).

Most operations of the simulator do not touch the disk of the node at all, or only its flags:
`DetLog.Sim.Simulator.Frame`.
-/

namespace DetLog

namespace Sim

/-! ### The ledger of a client -/

/-- What a client knows about the disk of one node. -/
structure Ledger where
  /-- The file after the last initialization, crash or repair. -/
  image : Bytes := []
  /-- The bytes of the writes that were completed since. -/
  written : List Bytes := []
  /-- The operations that were submitted since the last crash, with their bytes. -/
  submitted : List (ℕ × Bytes) := []
  /-- The operations whose completion was seen since the last crash. -/
  returned : List ℕ := []
  deriving DecidableEq

namespace Ledger

/-- A submission is noted. -/
def submit (ledger : Ledger) (result : StorageSubmitResult) (bytes : Bytes) : Ledger :=
  if result.status = .queued then
    { ledger with submitted := ledger.submitted ++ [(result.operationId, bytes)] }
  else ledger

/-- A completed write has written as many of its bytes as the event says. -/
def complete (ledger : Ledger) (event : StorageEvent) : Ledger :=
  { ledger with
    returned := ledger.returned ++ [event.operationId]
    written :=
      if event.kind = .write then
        ledger.written ++
          [((ledger.submitted.lookup event.operationId).getD []).take event.byteCount]
      else ledger.written }

/-- What the client writes down after a call; it may look at the stable bytes. -/
def note (node : NodeId) (ledger : Ledger) (stable : Bytes) : Operation → Answer → Ledger
  | .initializeStorage n _, .done true =>
    if n = node then { ledger with image := stable, written := [] } else ledger
  | .truncateStableStorage n _, .done true =>
    if n = node then { ledger with image := stable, written := [] } else ledger
  | .crashNode n _, .done true => if n = node then { image := stable } else ledger
  | .submitWrite n bytes _, .submitted result =>
    if n = node then ledger.submit result bytes else ledger
  | .submitFlush n _, .submitted result => if n = node then ledger.submit result [] else ledger
  | .next, .event (some ⟨_, _, .storage event⟩) =>
    if event.node = node then ledger.complete event else ledger
  | _, _ => ledger

/-- The bytes of the oldest operation that is not completed; a flush has none. -/
def oldest (ledger : Ledger) : Bytes :=
  (ledger.submitted.drop ledger.returned.length).head?.elim [] Prod.snd

end Ledger

/-- An event of the disk of a node. -/
def ScheduledEvent.DiskOf (node : NodeId) (e : ScheduledEvent) : Prop :=
  ∃ event, e.payload = .storage event ∧ event.node = node

/-- **The pending operations of a disk and the events in the queue belong together**, and the
events come in the order of the operations. -/
structure Timeline (node : NodeId) (incarnation : ℕ) (device : StorageDevice)
    (heap : List ScheduledEvent) : Prop where
  scheduled : ∀ id operation, device.pending.find id = some operation → ∃ e ∈ heap,
    e.DiskOf node ∧ e.time = operation.completionTime ∧ e.sequence = operation.eventSequence
  matched : ∀ e ∈ heap, ∀ event, e.payload = .storage event → event.node = node →
    ∃ operation, device.pending.find event.operationId = some operation ∧
      operation.completionTime = e.time ∧ operation.eventSequence = e.sequence ∧
      event.kind = operation.kind ∧ event.incarnation = incarnation
  fifo : ∀ id id' operation operation', device.pending.find id = some operation →
    device.pending.find id' = some operation' → id < id' →
      operation.completionTime ≤ operation'.completionTime ∧
        operation.eventSequence < operation'.eventSequence
  available : ∀ id operation, device.pending.find id = some operation →
    operation.completionTime ≤ device.availableAt

namespace Timeline

variable {node : NodeId} {incarnation : ℕ} {device : StorageDevice} {heap : List ScheduledEvent}
  {e : ScheduledEvent} {event : StorageEvent}

/-- **The disk completes the oldest operation.** -/
theorem oldest (h : Timeline node incarnation device heap) (he : e ∈ heap)
    (hleast : ∀ e' ∈ heap, ¬e'.Earlier e) (hpayload : e.payload = .storage event)
    (hnode : event.node = node) {operation : PendingStorageOperation}
    (hfind : device.pending.find event.operationId = some operation) :
    ∃ rest, device.pending.entries = (event.operationId, operation) :: rest := by
  obtain ⟨operation', hfind', htime, hseq, -⟩ := h.matched e he event hpayload hnode
  obtain rfl : operation' = operation := Option.some.inj (hfind'.symm.trans hfind)
  have hmem := OrdMap.mem_entries_iff.mpr hfind
  have hsorted := device.pending.sorted
  cases hentries : device.pending.entries with
  | nil => simp [hentries] at hmem
  | cons first rest =>
    refine ⟨rest, ?_⟩
    obtain ⟨id, oldest⟩ := first
    rw [hentries] at hmem hsorted
    rcases List.mem_cons.mp hmem with heq | hrest
    · rw [heq]
    · -- an older operation would have an earlier event
      have hlt : id < event.operationId := (List.pairwise_cons.mp hsorted).1 _ hrest
      have hold : device.pending.find id = some oldest :=
        OrdMap.mem_entries_iff.mp (hentries ▸ List.mem_cons_self)
      obtain ⟨htimes, hseqs⟩ := h.fifo id event.operationId oldest operation' hold hfind hlt
      obtain ⟨e', he', -, htime', hseq'⟩ := h.scheduled id oldest hold
      refine absurd ?_ (hleast e' he')
      unfold ScheduledEvent.Earlier
      omega

/-- A disk with nothing to do. -/
theorem idle (hpending : device.pending = ∅) (hnone : ∀ e ∈ heap, ¬e.DiskOf node) :
    Timeline node incarnation device heap where
  scheduled id operation h := by simp [hpending] at h
  matched e he event hpayload hnode := absurd ⟨event, hpayload, hnode⟩ (hnone e he)
  fifo id id' operation operation' h := by simp [hpending] at h
  available id operation h := by simp [hpending] at h

/-- A disk with nothing to do has no event. -/
theorem not_diskOf (h : Timeline node incarnation device heap) (hpending : device.pending = ∅)
    (he : e ∈ heap) : ¬e.DiskOf node := by
  rintro ⟨event, hpayload, hnode⟩
  obtain ⟨operation, hfind, -⟩ := h.matched e he event hpayload hnode
  simp [hpending] at hfind

/-- **A new operation comes last.** -/
theorem submit {q : EventQueue} (h : Timeline node incarnation device q.heap) (hq : q.Numbered)
    {id number completion : ℕ} {q' : EventQueue} (hfresh : ∀ id' ∈ device.pending.keys, id' < id)
    {kind : StorageOperationKind} {bytes : Bytes} {status : StorageCompletionStatus} {actual : ℕ}
    (hcompletion : device.availableAt ≤ completion)
    (hschedule : q.scheduleAt completion
      (.storage ⟨node, id, kind, incarnation, actual, status⟩) = .ok (number, q'))
    {device' : StorageDevice} (hpending : device'.pending =
      device.pending.insert id ⟨kind, bytes, status, actual, completion, number⟩)
    (havailable : device'.availableAt = completion) :
    Timeline node incarnation device' q'.heap := by
  obtain ⟨-, hnext, rfl, rfl⟩ := EventQueue.scheduleAt_eq_ok hschedule
  have hkeys : ∀ id' operation, device.pending.find id' = some operation → id' < id :=
    fun id' operation hfind =>
      hfresh id' (List.mem_map.mpr ⟨_, OrdMap.mem_entries_iff.mpr hfind, rfl⟩)
  -- An operation is the new one, or it was pending before.
  have hcases : ∀ {id' operation}, device'.pending.find id' = some operation →
      (id' = id ∧ operation = ⟨kind, bytes, status, actual, completion, q.nextSequence⟩) ∨
        device.pending.find id' = some operation := fun {id' operation} hfind => by
    rw [hpending, OrdMap.find_insert] at hfind
    split_ifs at hfind with heq
    · exact Or.inl ⟨heq, (Option.some.inj hfind).symm⟩
    · exact Or.inr hfind
  have hbelow : ∀ {id' operation}, device.pending.find id' = some operation →
      operation.eventSequence < q.nextSequence := fun {id' operation} hfind => by
    obtain ⟨e, he, -, -, hseq⟩ := h.scheduled id' operation hfind
    exact hseq ▸ (hq.below e he).resolve_left hnext
  refine ⟨fun id' operation hfind => ?_, fun e he event hpayload hnode => ?_,
    fun id₁ id₂ operation₁ operation₂ hfind₁ hfind₂ hlt => ?_, fun id' operation hfind => ?_⟩
  · rcases hcases hfind with ⟨rfl, rfl⟩ | hold
    · exact ⟨_, List.mem_append_right _ (List.mem_singleton_self _), ⟨_, rfl, rfl⟩, rfl, rfl⟩
    · obtain ⟨e, he, hmatch⟩ := h.scheduled id' operation hold
      exact ⟨e, List.mem_append_left _ he, hmatch⟩
  · rcases List.mem_append.mp he with he | he
    · obtain ⟨operation, hfind, hmatch⟩ := h.matched e he event hpayload hnode
      refine ⟨operation, ?_, hmatch⟩
      rw [hpending, OrdMap.find_insert_of_ne _ _ (hkeys _ _ hfind).ne, hfind]
    · obtain rfl := List.mem_singleton.mp he
      obtain rfl := EventPayload.storage.inj hpayload
      exact ⟨_, by rw [hpending, OrdMap.find_insert_self], rfl, rfl, rfl, rfl⟩
  · rcases hcases hfind₁ with ⟨rfl, rfl⟩ | hold₁ <;> rcases hcases hfind₂ with ⟨rfl, rfl⟩ | hold₂
    · exact absurd hlt (lt_irrefl _)
    · exact absurd hlt (hkeys _ _ hold₂).asymm
    · exact ⟨(h.available _ _ hold₁).trans hcompletion, hbelow hold₁⟩
    · exact h.fifo _ _ _ _ hold₁ hold₂ hlt
  · rw [havailable]
    rcases hcases hfind with ⟨rfl, rfl⟩ | hold
    · exact le_rfl
    · exact (h.available _ _ hold).trans hcompletion

/-- **The oldest operation leaves together with its event.** -/
theorem complete {q : EventQueue} (h : Timeline node incarnation device q.heap) (hq : q.Numbered)
    (he : e ∈ q.heap) (hpayload : e.payload = .storage event) (hnode : event.node = node)
    {operation : PendingStorageOperation}
    (hfind : device.pending.find event.operationId = some operation) {device' : StorageDevice}
    (hpending : device'.pending = device.pending.erase event.operationId)
    (havailable : device'.pending ≠ ∅ → device'.availableAt = device.availableAt) :
    Timeline node incarnation device' (q.heap.erase e) := by
  obtain ⟨operation', hfind', htime, hseq, -⟩ := h.matched e he event hpayload hnode
  obtain rfl : operation' = operation := Option.some.inj (hfind'.symm.trans hfind)
  have hold : ∀ {id operation}, device'.pending.find id = some operation →
      id ≠ event.operationId ∧ device.pending.find id = some operation := fun {id operation} h => by
    rw [hpending, OrdMap.find_erase] at h
    split_ifs at h with heq
    exact ⟨heq, h⟩
  -- Different operations have events with different numbers.
  have hapart : ∀ {id operation}, id ≠ event.operationId →
      device.pending.find id = some operation → operation.eventSequence ≠ e.sequence :=
    fun {id operation} hne hid => by
      rcases lt_or_gt_of_ne hne with hlt | hlt
      · have := (h.fifo _ _ _ _ hid hfind hlt).2
        omega
      · have := (h.fifo _ _ _ _ hfind hid hlt).2
        omega
  refine ⟨fun id operation hid => ?_, fun d hd event' hpayload' hnode' => ?_,
    fun id₁ id₂ operation₁ operation₂ hid₁ hid₂ hlt => ?_, fun id operation hid => ?_⟩
  · obtain ⟨hne, hid⟩ := hold hid
    obtain ⟨d, hd, hdisk, htime', hseq'⟩ := h.scheduled id operation hid
    refine ⟨d, (hq.mem_erase he).mpr ⟨hd, ?_⟩, hdisk, htime', hseq'⟩
    rw [hseq']
    exact hapart hne hid
  · obtain ⟨hd, hne⟩ := (hq.mem_erase he).mp hd
    obtain ⟨operation, hid, htime', hseq', hrest⟩ := h.matched d hd event' hpayload' hnode'
    refine ⟨operation, ?_, htime', hseq', hrest⟩
    rw [hpending, OrdMap.find_erase, if_neg, hid]
    intro heq
    rw [heq, hfind] at hid
    obtain rfl := Option.some.inj hid
    exact hne (hseq'.symm.trans hseq)
  · exact h.fifo _ _ _ _ (hold hid₁).2 (hold hid₂).2 hlt
  · rw [havailable]
    · exact h.available _ _ (hold hid).2
    · rintro hempty
      simp [hempty] at hid

end Timeline

/-! ### Operations that leave a disk alone -/

/-- The state of a node without its timers, its flags of faults and its count of bytes. -/
def NodeState.core (state : NodeState) : Bool × ℕ × StorageDevice :=
  (state.alive, state.incarnation, {
    stable := state.storage.stable
    unstable := state.storage.unstable
    pending := state.storage.pending
    availableAt := state.storage.availableAt })

namespace Simulator

/-- The disk of a node; that of an unknown node is empty. -/
def device (s : Simulator) (node : NodeId) : StorageDevice :=
  (s.nodes.find node).elim {} NodeState.storage

/-- A number that will not be given to an operation any more. -/
def Used (s : Simulator) (id : ℕ) : Prop := s.nextStorageId = 0 ∨ id < s.nextStorageId

/-- **The disk of a node and its events are the same in two worlds.** -/
structure Frame (node : NodeId) (s s' : Simulator) : Prop where
  core : (s'.nodes.find node).map NodeState.core = (s.nodes.find node).map NodeState.core
  events : ∀ e : ScheduledEvent, e.DiskOf node → (e ∈ s'.events.heap ↔ e ∈ s.events.heap)
  used : ∀ id, s.Used id → s'.Used id

variable {node : NodeId} {s s' s'' : Simulator} {state : NodeState}

@[simp] theorem device_of_find (h : s.nodes.find node = some state) :
    s.device node = state.storage := by
  simp [device, h]

theorem isAlive_of_find (h : s.nodes.find node = some state) : s.isAlive node = state.alive := by
  simp [isAlive, h]

theorem incarnation_of_find (h : s.nodes.find node = some state) :
    s.incarnation node = state.incarnation := by
  simp [incarnation, h]

@[simp] theorem setNode_find_self (n : NodeId) (state : NodeState) :
    (s.setNode n state).nodes.find n = some state := OrdMap.find_insert_self _ _ _

theorem setNode_find_of_ne {n : NodeId} (h : node ≠ n) (state : NodeState) :
    (s.setNode n state).nodes.find node = s.nodes.find node := OrdMap.find_insert_of_ne _ _ h

namespace Frame

theorem refl (node : NodeId) (s : Simulator) : Frame node s s :=
  ⟨rfl, fun _ _ => Iff.rfl, fun _ => id⟩

theorem trans (h : Frame node s s') (h' : Frame node s' s'') : Frame node s s'' :=
  ⟨h'.core.trans h.core, fun e he => (h'.events e he).trans (h.events e he),
    fun id hid => h'.used id (h.used id hid)⟩

/-- What can be said about the disk in terms of its core. -/
theorem device (h : Frame node s s') :
    (s'.device node).stable = (s.device node).stable ∧
      (s'.device node).unstable = (s.device node).unstable ∧
      (s'.device node).pending = (s.device node).pending ∧
      (s'.device node).availableAt = (s.device node).availableAt ∧
      s'.isAlive node = s.isAlive node ∧ s'.incarnation node = s.incarnation node := by
  have hcore := h.core
  unfold Simulator.device isAlive incarnation
  cases hs : s.nodes.find node with
  | none =>
    rw [hs, Option.map_none, Option.map_eq_none_iff] at hcore
    simp [hcore]
  | some state =>
    rw [hs, Option.map_some, Option.map_eq_some_iff] at hcore
    obtain ⟨state', hs', heq⟩ := hcore
    simp only [NodeState.core, Prod.mk.injEq, StorageDevice.mk.injEq] at heq
    simp [hs', heq]

/-- A change of what is not a node, an event or the number of an operation. -/
theorem of_eq (hnodes : s'.nodes = s.nodes) (hheap : s'.events.heap = s.events.heap)
    (hid : s'.nextStorageId = s.nextStorageId) : Frame node s s' :=
  ⟨by rw [hnodes], fun e _ => by rw [hheap], fun id h => by unfold Used; rwa [hid]⟩

/-- A change of another node. -/
theorem setNode_of_ne {n : NodeId} (h : node ≠ n) (state : NodeState) :
    Frame node s (s.setNode n state) :=
  ⟨by rw [setNode_find_of_ne h], fun _ _ => Iff.rfl, fun _ => id⟩

theorem setLink (sender target : NodeId) (link : LinkState) :
    Frame node s (s.setLink sender target link) := of_eq rfl rfl rfl

theorem releaseNetworkBytes (delivery : NetworkEvent) :
    Frame node s (s.releaseNetworkBytes delivery) := by
  unfold Simulator.releaseNetworkBytes
  split <;> exact of_eq rfl rfl rfl

/-- Other events come and go. -/
theorem withEvents {q : EventQueue}
    (h : ∀ e : ScheduledEvent, e.DiskOf node → (e ∈ q.heap ↔ e ∈ s.events.heap)) :
    Frame node s { s with events := q } := ⟨rfl, h, fun _ => id⟩

/-- An event that is not of the disk is taken out. -/
theorem heap_erase {heap : List ScheduledEvent} {d : ScheduledEvent} (hd : ¬d.DiskOf node)
    (e : ScheduledEvent) (he : e.DiskOf node) : e ∈ heap.erase d ↔ e ∈ heap :=
  List.mem_erase_of_ne fun heq => hd (heq ▸ he)

end Frame

end Simulator

/-! ### The ledger is right -/

/-- **The ledger of a client and the disk.** -/
structure Kept (node : NodeId) (s : Simulator) (ledger : Ledger) : Prop where
  image : (s.device node).stable ++ (s.device node).unstable =
    ledger.image ++ ledger.written.flatten
  order : ledger.submitted.map Prod.fst = ledger.returned ++ (s.device node).pending.keys
  bytes : ∀ id operation, (s.device node).pending.find id = some operation →
    ledger.submitted.lookup id = some operation.bytes
  flushes : ∀ id operation, (s.device node).pending.find id = some operation →
    operation.kind = .flush → operation.bytes = []
  distinct : (ledger.submitted.map Prod.fst).Nodup
  used : ∀ id ∈ ledger.submitted.map Prod.fst, s.Used id
  stopped : s.isAlive node = false → (s.device node).pending = ∅
  timeline : Timeline node (s.incarnation node) (s.device node) s.events.heap

namespace Kept

variable {node : NodeId} {s s' : Simulator} {ledger ledger' : Ledger} {state : NodeState}

open Simulator

/-- An operation that leaves the disk alone. -/
theorem frame (h : Kept node s ledger) (hframe : Frame node s s') : Kept node s' ledger := by
  obtain ⟨hstable, hunstable, hpending, havailable, halive, hincarnation⟩ := hframe.device
  obtain ⟨hscheduled, hmatched, hfifo, hle⟩ := h.timeline
  refine ⟨?_, ?_, ?_, ?_, h.distinct, fun id hid => hframe.used id (h.used id hid), ?_, ?_, ?_, ?_,
    ?_⟩
  · rw [hstable, hunstable]
    exact h.image
  · rw [hpending]
    exact h.order
  · rw [hpending]
    exact h.bytes
  · rw [hpending]
    exact h.flushes
  · rw [hpending, halive]
    exact h.stopped
  · rw [hpending]
    intro id operation hfind
    obtain ⟨e, he, hdisk, hmatch⟩ := hscheduled id operation hfind
    exact ⟨e, (hframe.events e hdisk).mpr he, hdisk, hmatch⟩
  · rw [hpending, hincarnation]
    intro e he event hpayload hnode
    exact hmatched e ((hframe.events e ⟨event, hpayload, hnode⟩).mp he) event hpayload hnode
  · rw [hpending]
    exact hfifo
  · rw [hpending, havailable]
    exact hle

/-- A disk with nothing to do may be changed, as long as the ledger follows. -/
theorem idle (h : Kept node s ledger) (hpending : (s.device node).pending = ∅)
    (hpending' : (s'.device node).pending = ∅)
    (hheap : ∀ e : ScheduledEvent, e.DiskOf node → e ∈ s'.events.heap → e ∈ s.events.heap)
    (hused : s'.nextStorageId = s.nextStorageId)
    (himage : (s'.device node).stable ++ (s'.device node).unstable =
      ledger'.image ++ ledger'.written.flatten)
    (hsubmitted : ledger'.submitted = ledger.submitted)
    (hreturned : ledger'.returned = ledger.returned) : Kept node s' ledger' where
  image := himage
  order := by
    rw [hsubmitted, hreturned, hpending', ← hpending]
    exact h.order
  bytes id operation hfind := by simp [hpending'] at hfind
  flushes id operation hfind := by simp [hpending'] at hfind
  distinct := hsubmitted ▸ h.distinct
  used := by
    rw [hsubmitted]
    intro id hid
    unfold Used
    rw [hused]
    exact h.used id hid
  stopped _ := hpending'
  timeline := Timeline.idle hpending' fun e he hdisk =>
    h.timeline.not_diskOf hpending (hheap e hdisk he) hdisk

/-- The pending operations of the ledger. -/
theorem pending_lt (h : Kept node s ledger) (hid : s.nextStorageId ≠ 0) :
    ∀ id ∈ (s.device node).pending.keys, id < s.nextStorageId := fun id hmem =>
  (h.used id (h.order ▸ List.mem_append_right _ hmem)).resolve_left hid

/-- **A submission is written down.** -/
theorem submit (h : Kept node s ledger) (hq : s.events.Numbered)
    (hfind : s.nodes.find node = some state) (halive : state.alive = true)
    {operation : PendingStorageOperation} {result : StorageSubmitResult}
    (hflush : operation.kind = .flush → operation.bytes = [])
    (hs : s.Submits node state operation result s') :
    Kept node s' (ledger.submit result operation.bytes) := by
  obtain ⟨events, device, hid, hcompletion, hschedule, rfl, hstable, hunstable, hpending,
    havailable, rfl⟩ := hs
  have hdevice : s.device node = state.storage := device_of_find hfind
  have hlt := h.pending_lt hid
  rw [hdevice] at hlt
  have hfresh : ∀ id ∈ ledger.submitted.map Prod.fst, id < s.nextStorageId := fun id hmem =>
    (h.used id hmem).resolve_left hid
  have hkeys : device.pending.keys = state.storage.pending.keys ++ [s.nextStorageId] := by
    rw [hpending, OrdMap.keys, OrdMap.entries_insert_of_lt _ hlt, List.map_append]
    rfl
  generalize hs' : Simulator.setNode _ node _ = s'
  have hfind' : s'.nodes.find node = some { state with storage := device } := by
    rw [← hs']
    exact setNode_find_self _ _
  have hdevice' : s'.device node = device := device_of_find hfind'
  have hnext : s'.nextStorageId = following s.nextStorageId := by rw [← hs']; rfl
  have hevents : s'.events = events := by rw [← hs']; rfl
  rw [Ledger.submit, if_pos rfl]
  refine ⟨?_, ?_, fun id operation' hop => ?_, fun id operation' hop => ?_, ?_, fun id hmem => ?_,
    fun hdead => ?_, ?_⟩
  · rw [hdevice', hstable, hunstable, ← hdevice]
    exact h.image
  · rw [hdevice', hkeys, List.map_append, h.order, hdevice, List.append_assoc]
    rfl
  · rw [hdevice', hpending, OrdMap.find_insert] at hop
    rw [List.lookup_append]
    split_ifs at hop with heq
    · obtain rfl := Option.some.inj hop
      have hnone : ledger.submitted.lookup id = none := by
        rw [List.lookup_eq_none_iff]
        intro p hp
        have hlt : p.1 < id := heq ▸ hfresh p.1 (List.mem_map_of_mem hp)
        simpa using hlt.ne'
      rw [hnone, heq]
      simp
    · rw [h.bytes id operation' (by rw [hdevice]; exact hop)]
      rfl
  · rw [hdevice', hpending, OrdMap.find_insert] at hop
    split_ifs at hop with heq
    · obtain rfl := Option.some.inj hop
      exact hflush
    · exact h.flushes id operation' (by rw [hdevice]; exact hop)
  · rw [List.map_append, List.nodup_append]
    refine ⟨h.distinct, List.nodup_singleton _, ?_⟩
    rintro id hmem id' hmem' rfl
    exact (hfresh id hmem).ne (List.mem_singleton.mp hmem')
  · unfold Used
    rw [hnext]
    rw [List.map_append, List.mem_append] at hmem
    rcases hmem with hmem | hmem
    · exact EventQueue.below_following (hfresh id hmem).le
    · obtain rfl := List.mem_singleton.mp hmem
      exact EventQueue.below_following le_rfl
  · rw [isAlive_of_find hfind'] at hdead
    simp [halive] at hdead
  · rw [hdevice', hevents, incarnation_of_find hfind']
    have hline := h.timeline
    rw [hdevice, incarnation_of_find hfind] at hline
    exact hline.submit hq hlt hcompletion hschedule hpending havailable

/-- What a completion makes of a disk: the operation leaves it, and the file gets the bytes that
were written. -/
theorem complete_spec (device : StorageDevice) (now : ℕ) {event : StorageEvent}
    {operation : PendingStorageOperation} (hkind : event.kind = operation.kind) :
    let completed := Simulator.complete device event operation now
    completed.1.operationId = event.operationId ∧
    completed.2.pending = device.pending.erase event.operationId ∧
    completed.2.stable ++ completed.2.unstable = device.stable ++ device.unstable ++
      (if completed.1.kind = .write then operation.bytes.take completed.1.byteCount else []) ∧
    (completed.2.pending ≠ ∅ → completed.2.availableAt = device.availableAt) := by
  have hbusy : ∀ pending : OrdMap ℕ PendingStorageOperation, pending ≠ ∅ →
      (if pending.entries = [] then now else device.availableAt) = device.availableAt :=
    fun pending hne => if_neg fun hempty => hne (OrdMap.ext_entries hempty)
  unfold Simulator.complete
  split_ifs with hwrite
  all_goals exact ⟨rfl, rfl, by simp [hkind, hwrite], hbusy _⟩

/-- **A completion is written down**: it is that of the oldest pending operation. -/
theorem complete (h : Kept node s ledger) (hq : s.events.Numbered) {e : ScheduledEvent}
    (he : e ∈ s.events.heap) (hleast : ∀ e' ∈ s.events.heap, ¬e'.Earlier e) {event : StorageEvent}
    (hpayload : e.payload = .storage event) (hnode : event.node = node)
    (hfind : s.nodes.find node = some state) (halive : state.alive = true)
    {operation : PendingStorageOperation}
    (hop : state.storage.pending.find event.operationId = some operation)
    (hnodes : s'.nodes.find node = some { state with
      storage := (Simulator.complete state.storage event operation e.time).2 })
    (hheap : s'.events.heap = s.events.heap.erase e)
    (hnext : s'.nextStorageId = s.nextStorageId) :
    Kept node s' (ledger.complete (Simulator.complete state.storage event operation e.time).1) := by
  have hdevice : s.device node = state.storage := device_of_find hfind
  have hdevice' := device_of_find hnodes
  have hline := h.timeline
  rw [hdevice, incarnation_of_find hfind] at hline
  obtain ⟨operation', hop', -, -, hkind, -⟩ := hline.matched e he event hpayload hnode
  obtain rfl : operation' = operation := Option.some.inj (hop'.symm.trans hop)
  obtain ⟨rest, hrest⟩ := hline.oldest he hleast hpayload hnode hop
  have hbytes : ledger.submitted.lookup event.operationId = some operation'.bytes :=
    h.bytes _ _ (by rw [hdevice]; exact hop)
  have hspec := complete_spec state.storage e.time hkind
  generalize Simulator.complete state.storage event operation' e.time = completed
    at hspec hnodes hdevice' ⊢
  obtain ⟨event', device'⟩ := completed
  obtain ⟨hid, hpending, hfile, havailable⟩ := hspec
  have hkeys : state.storage.pending.keys = event.operationId :: device'.pending.keys := by
    rw [OrdMap.keys, OrdMap.keys, hpending, OrdMap.entries_erase_of_head hrest, hrest]
    rfl
  have hold : ∀ {id operation}, device'.pending.find id = some operation →
      state.storage.pending.find id = some operation := fun {id operation} hop => by
    rw [hpending, OrdMap.find_erase] at hop
    split_ifs at hop
    exact hop
  refine ⟨?_, ?_, fun id operation hop => ?_, fun id operation hop => ?_, h.distinct,
    fun id hmem => ?_, fun hdead => ?_, ?_⟩
  · rw [hdevice', hfile, ← hdevice, h.image, Ledger.complete, hid, hbytes]
    split_ifs <;> simp
  · rw [hdevice']
    change ledger.submitted.map Prod.fst =
      ledger.returned ++ [event'.operationId] ++ device'.pending.keys
    rw [h.order, hdevice, hkeys, hid, List.append_assoc]
    rfl
  · rw [hdevice'] at hop
    exact h.bytes id operation (by rw [hdevice]; exact hold hop)
  · rw [hdevice'] at hop
    exact h.flushes id operation (by rw [hdevice]; exact hold hop)
  · unfold Used
    rw [hnext]
    exact h.used id hmem
  · rw [isAlive_of_find hnodes] at hdead
    simp [halive] at hdead
  · rw [hdevice', incarnation_of_find hnodes, hheap]
    exact hline.complete hq he hpayload hnode hop hpending havailable

end Kept

/-! ### Crashes -/

namespace Simulator

variable {node : NodeId} {s s' : Simulator} {state : NodeState}

end Simulator

open Simulator

variable {node : NodeId} {s s' : Simulator} {ledger : Ledger} {state : NodeState}

namespace Simulator

/-- A stale event, or one of another disk. -/
theorem frame_serve {e : ScheduledEvent} {answer : Option ScheduledEvent}
    (hserve : s.serve e = (answer, s')) (h : answer = none ∨ ¬e.DiskOf node) :
    Frame node s s' := by
  rcases serve_cases hserve with ⟨-, ⟨rfl, -⟩ | ⟨delivery, -, rfl⟩⟩ |
    ⟨event, state, operation, hpayload, -, -, rfl, rfl⟩
  · exact Frame.refl _ _
  · exact Frame.releaseNetworkBytes _
  · refine Frame.setNode_of_ne (fun heq => ?_) _
    exact (h.resolve_left (by simp)) ⟨event, hpayload, heq.symm⟩

/-- What is handed out is what was scheduled. -/
theorem diskOf_of_serve {e e' : ScheduledEvent} (hserve : s.serve e = (some e', s'))
    (h : e'.DiskOf node) : e.DiskOf node := by
  rcases serve_cases hserve with ⟨hanswer, -⟩ | ⟨event, state, operation, hpayload, -, -, heq, -⟩
  · obtain rfl := Option.some.inj (hanswer.resolve_left (by simp))
    exact h
  · obtain rfl := Option.some.inj heq
    obtain ⟨event', heq, hnode⟩ := h
    obtain rfl := EventPayload.storage.inj heq
    exact ⟨event, hpayload, (node_complete _ _ _ _).symm.trans hnode⟩

/-- An event of the disk is handed out. -/
theorem serve_disk {e : ScheduledEvent} {event : StorageEvent}
    (hpayload : e.payload = .storage event) (hfind : s.nodes.find event.node = some state)
    (halive : state.alive = true) (hincarnation : event.incarnation = state.incarnation)
    {operation : PendingStorageOperation}
    (hop : state.storage.pending.find event.operationId = some operation) :
    s.serve e =
      (some { e with
        payload := .storage (complete state.storage event operation s.events.now).1 },
        s.setNode event.node { state with
          storage := (complete state.storage event operation s.events.now).2 }) := by
  unfold serve
  simp only [hpayload, hfind, halive, hincarnation, hop, node_complete, Bool.true_eq_false, ne_eq,
    not_true_eq_false, or_self, if_false]

end Simulator

/-- **What `next` does to a disk**: nothing, or it completes the oldest operation. The world `s₁` is
that in which all stale events are gone. -/
theorem next_cases (h : Kept node s ledger) (hq : s.events.Numbered) :
    (Frame node s s.next.2 ∧ ∀ e, s.next.1 = some e → ¬e.DiskOf node) ∨
      ∃ s₁ e event state operation, Frame node s s₁ ∧ s₁.events.Numbered ∧ e ∈ s₁.events.heap ∧
        (∀ e' ∈ s₁.events.heap, ¬e'.Earlier e) ∧ e.payload = .storage event ∧ event.node = node ∧
        s₁.nodes.find node = some state ∧ state.alive = true ∧
        state.storage.pending.find event.operationId = some operation ∧
        s.next.1 = some { e with
          payload := .storage (complete state.storage event operation e.time).1 } ∧
        s.next.2.nodes.find node = some { state with
          storage := (complete state.storage event operation e.time).2 } ∧
        s.next.2.events.heap = s₁.events.heap.erase e ∧
        s.next.2.nextStorageId = s₁.nextStorageId := by
  -- In a world in which the ledger is right, an event of the disk is handed out.
  have hdisk : ∀ {s₁ : Simulator} {e events answer s'}, Frame node s s₁ → s₁.events.Numbered →
      s₁.events.popNext = some (e, events) →
      { s₁ with events := events }.serve e = (answer, s') → e.DiskOf node →
      ∃ event state operation, e.payload = .storage event ∧ event.node = node ∧
        s₁.nodes.find node = some state ∧ state.alive = true ∧
        state.storage.pending.find event.operationId = some operation ∧
        answer = some { e with
          payload := .storage (complete state.storage event operation e.time).1 } ∧
        s' = { s₁ with events := events }.setNode node { state with
          storage := (complete state.storage event operation e.time).2 } := by
    rintro s₁ e events answer s' hframe - hpop hserve ⟨event, hpayload, hnode⟩
    obtain ⟨hmem, -, rfl⟩ := EventQueue.popNext_eq_some hpop
    have hkept := h.frame hframe
    obtain ⟨operation, hop, -, -, -, hincarnation⟩ :=
      hkept.timeline.matched e hmem event hpayload hnode
    cases hfind : s₁.nodes.find node with
    | none => simp [device, hfind] at hop
    | some state =>
      rw [device_of_find hfind] at hop
      rw [incarnation_of_find hfind] at hincarnation
      have halive : state.alive = true := by
        by_contra hdead
        have hempty := hkept.stopped (by
          rw [isAlive_of_find hfind]
          simpa using hdead)
        rw [device_of_find hfind] at hempty
        simp [hempty] at hop
      subst hnode
      have hserved := serve_disk (s := { s₁ with
        events := { s₁.events with now := e.time, heap := s₁.events.heap.erase e } })
        hpayload hfind halive hincarnation hop
      obtain ⟨rfl, rfl⟩ := Prod.mk.inj (hserve.symm.trans hserved)
      exact ⟨event, state, operation, hpayload, rfl, rfl, halive, hop, rfl, rfl⟩
  -- The other events leave the disk alone.
  have hother : ∀ {s₁ : Simulator} {e events answer s'}, Frame node s s₁ →
      s₁.events.popNext = some (e, events) →
      { s₁ with events := events }.serve e = (answer, s') → ¬e.DiskOf node → Frame node s s' :=
    fun {s₁ e events answer s'} hframe hpop hserve hnot => by
      obtain ⟨-, -, rfl⟩ := EventQueue.popNext_eq_some hpop
      exact (hframe.trans (Frame.withEvents (Frame.heap_erase hnot))).trans
        (frame_serve hserve (Or.inr hnot))
  rcases next_induction (motive := fun s₁ => Frame node s s₁ ∧ s₁.events.Numbered)
    (fun s₁ e events s' ⟨hframe, hq⟩ hpop hserve => by
      have hevents := serve_events (s := { s₁ with events := events }) e
      rw [hserve] at hevents
      refine ⟨hother hframe hpop hserve fun hof => ?_, hevents ▸ hq.popNext hpop⟩
      obtain ⟨_, _, _, -, -, -, -, -, hanswer, -⟩ := hdisk hframe hq hpop hserve hof
      simp at hanswer) ⟨Frame.refl node s, hq⟩ with
    ⟨hnone, hframe, -⟩ | ⟨s₁, e, events, e', ⟨hframe, hq₁⟩, hpop, hserve, hanswer⟩
  · refine Or.inl ⟨hframe, fun e he => ?_⟩
    rw [hnone] at he
    simp at he
  · by_cases hof : e.DiskOf node
    · right
      obtain ⟨event, state, operation, hpayload, hnode, hfind, halive, hop, he', hs'⟩ :=
        hdisk hframe hq₁ hpop hserve hof
      obtain ⟨hmem, hleast, rfl⟩ := EventQueue.popNext_eq_some hpop
      refine ⟨s₁, e, event, state, operation, hframe, hq₁, hmem, hleast, hpayload, hnode, hfind,
        halive, hop, hanswer.trans he', ?_, ?_, ?_⟩ <;> rw [hs']
      · exact setNode_find_self _ _
      · rfl
      · rfl
    · refine Or.inl ⟨hother hframe hpop hserve hof, fun d hd hdof => hof ?_⟩
      obtain rfl := Option.some.inj (hanswer.symm.trans hd)
      exact diskOf_of_serve hserve hdof

theorem Simulator.stableBytes_eq (s : Simulator) (node : NodeId) :
    s.stableBytes node = (s.device node).stable := by
  unfold stableBytes device
  cases s.nodes.find node <;> rfl

theorem Simulator.unstableBytes_eq (s : Simulator) (node : NodeId) :
    s.unstableBytes node = (s.device node).unstable := by
  unfold unstableBytes device
  cases s.nodes.find node <;> rfl

/-- What a call does: the ledger stays right, and unless the file is cut the stable part only
grows. -/
structure Advances (node : NodeId) (s : Simulator) (operation : Operation) (s' : Simulator)
    (ledger' : Ledger) : Prop where
  kept : Kept node s' ledger'
  grows : (∀ k, operation ≠ .truncateStableStorage node k) →
    s.stableBytes node <+: s'.stableBytes node

/-- A call that leaves the disk alone. -/
theorem Kept.advances (h : Kept node s ledger) (hframe : Frame node s s') (operation : Operation) :
    Advances node s operation s' ledger where
  kept := h.frame hframe
  grows _ := by
    rw [stableBytes_eq, stableBytes_eq, hframe.device.1]

/-- A world without nodes. -/
theorem kept_create (config : SimulatorConfig) (node : NodeId) :
    Kept node (Simulator.create config) {} := by
  refine ⟨rfl, rfl, fun id operation hop => ?_, fun id operation hop => ?_, List.nodup_nil,
    fun id hid => ?_, fun _ => rfl, Timeline.idle rfl fun e he => ?_⟩
  · simp [device, Simulator.create] at hop
  · simp [device, Simulator.create] at hop
  · simp at hid
  · simp [Simulator.create] at he

/-- The flush, in a world in which the ledger is right. -/
theorem Kept.flush (h : Kept node s ledger) (hq : s.events.Numbered) {e : ScheduledEvent}
    {event : StorageEvent} (hnext : s.next.1 = some e) (hpayload : e.payload = .storage event)
    (hnode : event.node = node) (hkind : event.kind = .flush) (hstatus : event.status = .success) :
    s.next.2.stableBytes node = ledger.image ++ ledger.written.flatten ∧
      s.next.2.unstableBytes node = [] := by
  rcases next_cases h hq with ⟨-, hnot⟩ | ⟨s₁, e₁, event₁, state, operation, hframe, -, he, -,
    hpayload₁, hnode₁, hfind, -, hop, hanswer, hnodes, -, -⟩
  · exact absurd ⟨event, hpayload, hnode⟩ (hnot e hnext)
  · obtain rfl := Option.some.inj (hanswer.symm.trans hnext)
    obtain rfl := EventPayload.storage.inj hpayload
    have hkept := h.frame hframe
    obtain ⟨operation', hop', -, -, hkind', -⟩ :=
      hkept.timeline.matched e₁ he event₁ hpayload₁ hnode₁
    rw [device_of_find hfind, hop] at hop'
    obtain rfl := Option.some.inj hop'
    rw [stableBytes_eq, unstableBytes_eq, device_of_find hnodes, ← hkept.image,
      device_of_find hfind]
    unfold Simulator.complete at hkind hstatus ⊢
    split_ifs at hkind hstatus ⊢ with hwrite
    · rw [← hkind', hkind] at hwrite
      simp at hwrite
    · exact ⟨rfl, rfl⟩

end Sim

end DetLog
