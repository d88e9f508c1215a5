import DetLog.Simulator.Queue

/-!
# The accounts of the simulator

The simulator counts bytes: on each link those that are under way, and for each disk those of the
writes that are pending. It counts by adding and subtracting where something is queued or taken
out, and it trusts the counts when it decides whether there is room.

`DetLog.Sim.Accounts` says that the counts are right and that no limit is exceeded. A delivery is
released after it has left the queue, and a crash takes many deliveries out before it releases the
first, so the invariant has a list of events that are out of the queue and still on the account.
With it no release subtracts more than there is (`DetLog.Sim.Accounts.covers`).
-/

namespace DetLog

namespace Sim

/-! ### What is counted -/

/-- The bytes of an event on a link. -/
def EventPayload.bytesOn (payload : EventPayload) (sender target : NodeId) : ℕ :=
  match payload with
  | .network delivery =>
    if delivery.sender = sender ∧ delivery.target = target then delivery.bytes.length else 0
  | _ => 0

/-- The bytes under way on a link. -/
def bytesInFlight (l : List ScheduledEvent) (sender target : NodeId) : ℕ :=
  (l.map fun e => e.payload.bytesOn sender target).sum

/-- The bytes of all links. -/
def Simulator.linkBytes (s : Simulator) : ℕ := (s.links.entries.map fun l => l.2.queuedBytes).sum

/-- What an operation adds to the bytes of the pending writes. -/
def PendingStorageOperation.writeBytes (operation : PendingStorageOperation) : ℕ :=
  if operation.kind = .write then operation.bytes.length else 0

/-- The bytes of the pending writes. -/
def StorageDevice.pendingWriteBytes (device : StorageDevice) : ℕ :=
  (device.pending.entries.map fun p => p.2.writeBytes).sum

/-- The limits on a single event. -/
def EventPayload.Fits (limits : TransportLimits) : EventPayload → Prop
  | .network delivery => delivery.bytes.length ≤ limits.maxFrameBytes ∧
      delivery.copyIndex ≤ limits.maxExtraDuplicatesPerSend
  | .user event => event.bytes.length ≤ limits.maxFrameBytes
  | _ => True

/-- The account of a disk, before the operation `nextId`. -/
structure DiskAccount (limits : StorageLimits) (nextId : ℕ) (device : StorageDevice) : Prop where
  pending : device.pendingBytes = device.pendingWriteBytes
  file : device.stable.length + device.unstable.length + device.pendingBytes ≤ limits.maxFileBytes
  bytes : device.pendingBytes ≤ limits.maxPendingBytes
  operations : device.pending.size ≤ limits.maxPendingOperations
  writes : ∀ id operation, device.pending.find id = some operation →
    operation.bytes.length ≤ limits.maxWriteBytes ∧ (nextId = 0 ∨ id < nextId)

/-- The limits of the queue and its numbers. -/
structure QueueAccount (config : SimulatorConfig) (q : EventQueue) : Prop where
  limits : q.limits = config.events
  pending : q.heap.length ≤ config.events.maxPendingEvents
  scheduled : q.totalScheduled ≤ config.events.maxTotalEvents
  sequence : q.nextSequence ≤ maxU64
  numbered : q.Numbered
  fits : ∀ e ∈ q.heap, e.payload.Fits config.transport

/-- **The accounts are right**, with some events that have left the queue still to be released. -/
structure Accounts (s : Simulator) (owed : List ScheduledEvent) : Prop where
  link : ∀ sender target, (s.link sender target).queuedBytes =
    bytesInFlight (s.events.heap ++ owed) sender target
  total : s.totalNetworkBytes = s.linkBytes
  linkLimit : ∀ sender target,
    (s.link sender target).queuedBytes ≤ s.config.transport.maxQueuedBytesPerLink
  totalLimit : s.totalNetworkBytes ≤ s.config.transport.maxTotalQueuedBytes
  queue : QueueAccount s.config s.events
  disks : ∀ node state, s.nodes.find node = some state →
    DiskAccount s.config.storage s.nextStorageId state.storage

/-- A release that does not subtract more than there is. -/
def Simulator.Covers (s : Simulator) (delivery : NetworkEvent) : Prop :=
  delivery.bytes.length ≤ (s.link delivery.sender delivery.target).queuedBytes ∧
    delivery.bytes.length ≤ s.totalNetworkBytes

theorem EventPayload.bytesOn_of_ne_network {payload : EventPayload}
    (h : ∀ delivery, payload ≠ .network delivery) (sender target : NodeId) :
    payload.bytesOn sender target = 0 := by
  unfold bytesOn
  split
  · next delivery => exact absurd rfl (h delivery)
  · rfl

/-! ### Links -/

section Links

variable {l l' : List ScheduledEvent} {sender target : NodeId}

@[simp] theorem bytesInFlight_append :
    bytesInFlight (l ++ l') sender target =
      bytesInFlight l sender target + bytesInFlight l' sender target := by
  simp [bytesInFlight]

@[simp] theorem bytesInFlight_cons {e : ScheduledEvent} :
    bytesInFlight (e :: l) sender target =
      e.payload.bytesOn sender target + bytesInFlight l sender target := by
  simp [bytesInFlight]

theorem bytesInFlight_perm (h : l.Perm l') :
    bytesInFlight l sender target = bytesInFlight l' sender target :=
  (h.map _).sum_eq

namespace Simulator

variable {s : Simulator} {delivery : NetworkEvent}

theorem link_setLink (link : LinkState) (a b : NodeId) : (s.setLink sender target link).link a b =
    if a = sender ∧ b = target then link else s.link a b := by
  simp only [Simulator.link, setLink, OrdMap.find_insert, EmbeddingLike.apply_eq_iff_eq,
    Prod.mk.injEq]
  split_ifs <;> rfl

theorem linkBytes_setLink (s : Simulator) (sender target : NodeId) (link : LinkState) :
    (s.setLink sender target link).linkBytes +
    (s.link sender target).queuedBytes = s.linkBytes + link.queuedBytes := by
  have hsum := s.links.sum_insert (toLex (sender, target)) link LinkState.queuedBytes
  unfold linkBytes Simulator.link
  rw [← hsum]
  cases s.links.find (toLex (sender, target)) <;> rfl

theorem queuedBytes_le_linkBytes : (s.link sender target).queuedBytes ≤ s.linkBytes := by
  have hsum := s.links.sum_erase (toLex (sender, target)) LinkState.queuedBytes
  unfold linkBytes Simulator.link
  rw [← hsum]
  cases s.links.find (toLex (sender, target)) <;> simp

theorem releaseNetworkBytes_eq (s : Simulator) (delivery : NetworkEvent) : ∃ links total,
    s.releaseNetworkBytes delivery = { s with links := links, totalNetworkBytes := total } := by
  unfold releaseNetworkBytes
  split <;> exact ⟨_, _, rfl⟩

/-- **A release that is covered subtracts exactly**, from its link and from the total. -/
theorem releaseNetworkBytes_spec (h : s.Covers delivery) :
    (∀ a b, ((s.releaseNetworkBytes delivery).link a b).queuedBytes +
      (if delivery.sender = a ∧ delivery.target = b then delivery.bytes.length else 0) =
        (s.link a b).queuedBytes) ∧
      (s.releaseNetworkBytes delivery).linkBytes + delivery.bytes.length = s.linkBytes ∧
      (s.releaseNetworkBytes delivery).totalNetworkBytes + delivery.bytes.length =
        s.totalNetworkBytes := by
  obtain ⟨hlink, htotal⟩ := h
  unfold releaseNetworkBytes
  cases hfind : s.links.find (toLex (delivery.sender, delivery.target)) with
  | none =>
    have hzero : delivery.bytes.length = 0 := by
      rw [Simulator.link, hfind] at hlink
      exact Nat.le_zero.mp hlink
    refine ⟨fun a b => ?_, ?_, ?_⟩
    · dsimp only
      rw [hzero, ite_self]
      rfl
    · dsimp only
      rw [hzero]
      rfl
    · dsimp only
      split_ifs <;> omega
  | some link =>
    have heq : s.link delivery.sender delivery.target = link := by
      rw [Simulator.link, hfind]
      rfl
    rw [heq] at hlink
    dsimp only
    rw [if_neg (not_lt.mpr hlink)]
    have hsum := s.linkBytes_setLink delivery.sender delivery.target
      { link with queuedBytes := link.queuedBytes - delivery.bytes.length }
    rw [heq] at hsum
    dsimp only at hsum
    refine ⟨fun a b => ?_, ?_, ?_⟩
    · change ((s.setLink _ _ _).link a b).queuedBytes + _ = _
      rw [link_setLink]
      by_cases hab : a = delivery.sender ∧ b = delivery.target
      · obtain ⟨rfl, rfl⟩ := hab
        rw [if_pos ⟨rfl, rfl⟩, if_pos ⟨rfl, rfl⟩, heq]
        exact Nat.sub_add_cancel hlink
      · rw [if_neg hab, if_neg fun h => hab ⟨h.1.symm, h.2.symm⟩, Nat.add_zero]
    · change (s.setLink _ _ _).linkBytes + _ = _
      omega
    · change (if s.totalNetworkBytes < _ then 0 else s.totalNetworkBytes - _) + _ = _
      rw [if_neg (not_lt.mpr htotal)]
      exact Nat.sub_add_cancel htotal

end Simulator

end Links

/-! ### The queue -/

section Queue

variable {config : SimulatorConfig} {q q' : EventQueue} {payload : EventPayload} {time number : ℕ}

theorem QueueAccount.scheduleAt (h : QueueAccount config q)
    (hq : q.scheduleAt time payload = .ok (number, q')) (hfits : payload.Fits config.transport) :
    QueueAccount config q' := by
  obtain ⟨hpending, hscheduled⟩ := EventQueue.scheduleAt_limits hq
  have hnumbered := h.numbered.scheduleAt hq
  rw [h.limits] at hpending hscheduled
  obtain ⟨-, -, -, rfl⟩ := EventQueue.scheduleAt_eq_ok hq
  refine ⟨h.limits, by simpa using hpending, hscheduled, EventQueue.following_le h.sequence,
    hnumbered, ?_⟩
  intro e he
  rcases List.mem_append.mp he with he | he
  · exact h.fits e he
  · obtain rfl := List.mem_singleton.mp he
    exact hfits

/-- Events are taken out. -/
theorem QueueAccount.sublist (h : QueueAccount config q) {heap : List ScheduledEvent}
    (hheap : heap.Sublist q.heap) (now : ℕ) :
    QueueAccount config { q with now := now, heap := heap } :=
  ⟨h.limits, hheap.length_le.trans h.pending, h.scheduled, h.sequence, h.numbered.sublist hheap rfl,
    fun e he => h.fits e (hheap.subset he)⟩

/-- **With room for all of them, every copy is scheduled**, although the answers of the queue are
ignored. -/
theorem QueueAccount.scheduleCopies (h : QueueAccount config q) (payload : ℕ → EventPayload)
    (copies : List ℕ) (hroom : copies ≠ [] → q.canSchedule copies.length = true)
    (htime : q.now ≤ time) (hfits : ∀ copy ∈ copies, (payload copy).Fits config.transport) :
    QueueAccount config (copies.foldl (EventQueue.scheduleCopy time payload) q) ∧
      ∃ scheduled, (copies.foldl (EventQueue.scheduleCopy time payload) q).heap =
          q.heap ++ scheduled ∧
        scheduled.map ScheduledEvent.payload = copies.map payload ∧
        ∀ e ∈ scheduled, e.time = time := by
  induction copies generalizing q with
  | nil => exact ⟨h, [], by simp, rfl, by simp⟩
  | cons copy copies ih =>
    obtain ⟨q', hq', hmore⟩ := EventQueue.scheduleAt_of_room h.sequence
      (hroom (List.cons_ne_nil _ _)) htime (payload copy)
    have hcopy : EventQueue.scheduleCopy time payload q copy = q' := by
      rw [EventQueue.scheduleCopy, hq']
    obtain ⟨-, -, -, heq⟩ := EventQueue.scheduleAt_eq_ok hq'
    rw [List.foldl_cons, hcopy]
    obtain ⟨hbooks, scheduled, hheap, hpayloads, htimes⟩ := ih
      (h.scheduleAt hq' (hfits copy List.mem_cons_self))
      (fun hne => hmore (mt List.length_eq_zero_iff.mp hne)) (by rw [heq]; exact htime)
      fun x hx => hfits x (List.mem_cons_of_mem _ hx)
    refine ⟨hbooks, ⟨time, q.nextSequence, payload copy⟩ :: scheduled, ?_, ?_, ?_⟩
    · rw [hheap, heq, List.append_assoc]
      rfl
    · rw [List.map_cons, List.map_cons, hpayloads]
    · rintro e (_ | ⟨_, he⟩)
      · rfl
      · exact htimes e he

end Queue

/-! ### Disks -/

namespace DiskAccount

variable {limits : StorageLimits} {nextId id : ℕ} {device device' : StorageDevice}
  {operation : PendingStorageOperation}

theorem fresh (limits : StorageLimits) (nextId : ℕ) {stable : Bytes}
    (h : stable.length ≤ limits.maxFileBytes) (now : ℕ) :
    DiskAccount limits nextId { stable, availableAt := now } :=
  ⟨rfl, h, Nat.zero_le _, Nat.zero_le _, fun _ _ h => by simp at h⟩

variable (h : DiskAccount limits nextId device)
include h

/-- The bytes may become fewer while nothing is pending that was not. -/
theorem same (hpending : device'.pending = device.pending)
    (hbytes : device'.pendingBytes = device.pendingBytes)
    (hfile : device'.stable.length + device'.unstable.length ≤
      device.stable.length + device.unstable.length) :
    DiskAccount limits nextId device' := by
  have := h.file
  refine ⟨?_, by omega, hbytes.trans_le h.bytes, ?_, ?_⟩
  · rw [hbytes, h.pending, StorageDevice.pendingWriteBytes, StorageDevice.pendingWriteBytes,
      hpending]
  · rw [hpending]
    exact h.operations
  · rw [hpending]
    exact h.writes

theorem mono (hnext : nextId ≠ 0) : DiskAccount limits (following nextId) device :=
  { h with
    writes := fun id operation hid => ⟨(h.writes id operation hid).1,
      EventQueue.below_following ((h.writes id operation hid).2.resolve_left hnext).le⟩ }

/-- An operation becomes pending. -/
theorem submit (hnext : nextId ≠ 0) (hwrite : operation.bytes.length ≤ limits.maxWriteBytes)
    (hflush : operation.kind ≠ .write → operation.bytes = [])
    (hroom : device.pending.size < limits.maxPendingOperations)
    (hbytes : device.pendingBytes + operation.bytes.length ≤ limits.maxPendingBytes)
    (hfile : device.stable.length + device.unstable.length + device.pendingBytes +
      operation.bytes.length ≤ limits.maxFileBytes)
    (hpending' : device'.pending = device.pending.insert nextId operation)
    (hbytes' : device'.pendingBytes = device.pendingBytes + operation.bytes.length)
    (hstable : device'.stable = device.stable) (hunstable : device'.unstable = device.unstable) :
    DiskAccount limits (following nextId) device' := by
  have hnew : device.pending.find nextId = none := by
    cases hfind : device.pending.find nextId with
    | none => rfl
    | some old => exact absurd ((h.writes nextId old hfind).2.resolve_left hnext) (lt_irrefl _)
  have hsize : operation.writeBytes = operation.bytes.length := by
    unfold PendingStorageOperation.writeBytes
    split_ifs with hkind
    · rfl
    · rw [hflush hkind]
      rfl
  refine ⟨?_, by rw [hstable, hunstable, hbytes']; omega, by omega, ?_, fun id op hid => ?_⟩
  · have hsum := device.pending.sum_insert nextId operation PendingStorageOperation.writeBytes
    rw [hnew, hsize] at hsum
    rw [hbytes', h.pending, StorageDevice.pendingWriteBytes, StorageDevice.pendingWriteBytes,
      hpending', ← hsum]
    rfl
  · have hlength := (device.pending.entries_insert_perm nextId operation).length_eq
    have herase := List.length_filter_le (fun e => decide (e.1 ≠ nextId)) device.pending.entries
    rw [hpending', OrdMap.size, hlength, List.length_cons]
    exact (Nat.succ_le_succ herase).trans hroom
  · rw [hpending', OrdMap.find_insert] at hid
    split_ifs at hid with heq
    · obtain rfl := Option.some.inj hid
      exact ⟨hwrite, EventQueue.below_following heq.le⟩
    · exact (h.mono hnext).writes id op hid

/-- The bytes of a pending operation are on the account. -/
theorem writeBytes_le (hfind : device.pending.find id = some operation) :
    operation.writeBytes ≤ device.pendingBytes := by
  have hsum := device.pending.sum_erase id PendingStorageOperation.writeBytes
  rw [hfind] at hsum
  rw [h.pending, StorageDevice.pendingWriteBytes, ← hsum]
  exact Nat.le_add_left _ _

/-- An operation is no longer pending. -/
theorem settle (hfind : device.pending.find id = some operation)
    (hpending' : device'.pending = device.pending.erase id)
    (hbytes' : device'.pendingBytes = device.pendingBytes - operation.writeBytes)
    (hfile : device'.stable.length + device'.unstable.length + device'.pendingBytes ≤
      device.stable.length + device.unstable.length + device.pendingBytes) :
    DiskAccount limits nextId device' := by
  refine ⟨?_, hfile.trans h.file, ?_, ?_, fun id' op hid => ?_⟩
  · have hsum := device.pending.sum_erase id PendingStorageOperation.writeBytes
    rw [hfind] at hsum
    rw [hbytes', h.pending, StorageDevice.pendingWriteBytes, StorageDevice.pendingWriteBytes,
      hpending', ← hsum]
    exact Nat.add_sub_cancel _ _
  · rw [hbytes']
    exact (Nat.sub_le _ _).trans h.bytes
  · rw [hpending']
    exact (List.length_filter_le _ _).trans h.operations
  · rw [hpending'] at hid
    exact h.writes id' op (OrdMap.find_filter.mp hid).1

theorem complete {event : StorageEvent}
    (hfind : device.pending.find event.operationId = some operation) (now : ℕ) :
    DiskAccount limits nextId (Simulator.complete device event operation now).2 := by
  have hle := h.writeBytes_le hfind
  unfold Simulator.complete
  split_ifs with hkind hsuccess
  · have hbytes : operation.writeBytes = operation.bytes.length := if_pos hkind
    refine h.settle hfind rfl (by rw [hbytes]) ?_
    have htake : (operation.bytes.take operation.actualWriteBytes).length ≤ _ :=
      List.length_take_le' _ _
    simp only [List.length_append]
    omega
  · refine h.settle hfind rfl (by rw [PendingStorageOperation.writeBytes, if_neg hkind]; rfl) ?_
    simp
  · exact h.settle hfind rfl (by rw [PendingStorageOperation.writeBytes, if_neg hkind]; rfl) le_rfl

/-- What survives a crash was unstable or was being written. -/
theorem crash (spec : StorageCrashSpec) (now : ℕ) :
    DiskAccount limits nextId (device.crash spec now) := by
  have hactive : device.activeWrite.length ≤ device.pendingBytes := by
    rw [h.pending, StorageDevice.pendingWriteBytes, StorageDevice.activeWrite]
    cases device.pending.entries with
    | nil => exact Nat.zero_le _
    | cons p rest =>
      rw [List.map_cons, List.sum_cons, PendingStorageOperation.writeBytes]
      dsimp only
      split_ifs
      · exact Nat.le_add_right _ _
      · exact Nat.zero_le _
  have hsurvivors : (device.survivors spec).length ≤
      device.unstable.length + device.pendingBytes := by
    have hunstable := List.length_take_le (min spec.survivingUnstableBytes device.unstable.length)
      device.unstable
    have htorn := List.length_take_le
      (min spec.tornPendingWriteBytes device.activeWrite.length) device.activeWrite
    unfold StorageDevice.survivors
    dsimp only
    rw [List.length_append]
    split_ifs
    · omega
    · simp only [List.length_nil]
      omega
  have hfile := h.file
  refine fresh limits nextId ?_ now
  rw [List.length_append]
  omega

end DiskAccount

/-- A crash before it releases anything: the events that it cancels, and the world without
them. -/
def Simulator.cancel (s : Simulator) (node : NodeId) (state : NodeState) (spec : StorageCrashSpec) :
    List ScheduledEvent × Simulator :=
  let s := s.setNode node
    { state with alive := false, storage := state.storage.crash spec s.events.now }
  let (cancelled, events) := s.events.extractIf fun e =>
    e.payload.concerns node s.config.transport.dropInFlightOnEndpointCrash
  (cancelled, { s with events := events })

theorem Simulator.crashNode_eq_cancel {s : Simulator} {node : NodeId} {state : NodeState}
    (hfind : s.nodes.find node = some state) (halive : state.alive = true)
    (spec : StorageCrashSpec) :
    s.crashNode node spec = (true, (s.cancel node state spec).1.foldl Simulator.forget
      (s.cancel node state spec).2) := by
  unfold crashNode
  rw [hfind]
  dsimp only
  rw [if_pos halive]
  rfl

/-! ### Elementary changes -/

namespace Accounts

variable {s : Simulator} {owed : List ScheduledEvent} {e : ScheduledEvent} {q : EventQueue}
  {bytes : Bytes}

/-- **No release subtracts more than there is.** -/
theorem covers {delivery : NetworkEvent} (h : Accounts s owed)
    (he : e ∈ s.events.heap ++ owed) (hpayload : e.payload = .network delivery) :
    s.Covers delivery := by
  have hlink : delivery.bytes.length ≤ (s.link delivery.sender delivery.target).queuedBytes := by
    rw [h.link]
    refine le_of_eq_of_le ?_ (List.single_le_sum (by simp) _ (List.mem_map_of_mem he))
    simp [EventPayload.bytesOn, hpayload]
  exact ⟨hlink, h.total ▸ hlink.trans Simulator.queuedBytes_le_linkBytes⟩

theorem release {delivery : NetworkEvent} (h : Accounts s (e :: owed))
    (hpayload : e.payload = .network delivery) :
    Accounts (s.releaseNetworkBytes delivery) owed := by
  have hcovers := h.covers (by simp) hpayload
  obtain ⟨hlink, hlinks, htotal⟩ := Simulator.releaseNetworkBytes_spec hcovers
  obtain ⟨links, total, heq⟩ := s.releaseNetworkBytes_eq delivery
  rw [heq] at hlink hlinks htotal ⊢
  refine ⟨fun a b => ?_, ?_, fun a b => ?_, ?_, h.queue, h.disks⟩
  · have hbefore := h.link a b
    have hafter := hlink a b
    simp only [bytesInFlight_append, bytesInFlight_cons, EventPayload.bytesOn, hpayload]
      at hbefore ⊢
    omega
  · have hbefore := h.total
    dsimp only at htotal ⊢
    omega
  · exact ((Nat.le_add_right _ _).trans_eq (hlink a b)).trans (h.linkLimit a b)
  · exact ((Nat.le_add_right _ _).trans_eq htotal).trans h.totalLimit

/-- An event without bytes is not on the account. -/
theorem drop (h : Accounts s (e :: owed)) (hother : ∀ delivery, e.payload ≠ .network delivery) :
    Accounts s owed := by
  refine { h with link := fun a b => (h.link a b).trans ?_ }
  rw [bytesInFlight_append, bytesInFlight_append, bytesInFlight_cons,
    EventPayload.bytesOn_of_ne_network hother, Nat.zero_add]

theorem forget (h : Accounts s (e :: owed)) : Accounts (s.forget e) owed := by
  unfold Simulator.forget
  split
  · next delivery hpayload => exact h.release hpayload
  · next hother => exact h.drop hother

theorem foldl_forget {before : List ScheduledEvent} (h : Accounts s (before ++ owed)) :
    Accounts (before.foldl Simulator.forget s) owed := by
  induction before generalizing s with
  | nil => exact h
  | cons e before ih => exact ih h.forget

/-- Events leave the queue. -/
theorem owe (h : Accounts s []) {removed : List ScheduledEvent} (hq : QueueAccount s.config q)
    (hperm : s.events.heap.Perm (q.heap ++ removed)) :
    Accounts { s with events := q } removed :=
  { h with
    link := fun a b => by
      rw [← bytesInFlight_perm hperm]
      exact (h.link a b).trans (by rw [List.append_nil])
    queue := hq }

theorem setNode (h : Accounts s owed) (node : NodeId)
    (hstate : DiskAccount s.config.storage s.nextStorageId state.storage) :
    Accounts (s.setNode node state) owed := by
  refine { h with disks := fun n state' hn => ?_ }
  rw [Simulator.setNode, OrdMap.find_insert] at hn
  split_ifs at hn
  · obtain rfl := Option.some.inj hn
    exact hstate
  · exact h.disks n state' hn

/-- A link changes, but not what is under way on it. -/
theorem setLink (h : Accounts s owed) (sender target : NodeId) (link : LinkState)
    (hlink : link.queuedBytes = (s.link sender target).queuedBytes) :
    Accounts (s.setLink sender target link) owed := by
  have hsame : ∀ a b, ((s.setLink sender target link).link a b).queuedBytes =
      (s.link a b).queuedBytes := fun a b => by
    rw [Simulator.link_setLink]
    split_ifs with hab
    · rw [hlink, hab.1, hab.2]
    · rfl
  have hsum := s.linkBytes_setLink sender target link
  refine { h with
    link := fun a b => (hsame a b).trans (h.link a b)
    total := h.total.trans (by omega)
    linkLimit := fun a b => (hsame a b).trans_le (h.linkLimit a b) }

/-- An event without bytes on the account is scheduled. -/
theorem schedule (h : Accounts s []) {time number : ℕ} {payload : EventPayload}
    (hq : s.events.scheduleAt time payload = .ok (number, q))
    (hfits : payload.Fits s.config.transport) (hother : ∀ d, payload ≠ .network d) :
    Accounts { s with events := q } [] := by
  have hqueue := h.queue.scheduleAt hq hfits
  obtain ⟨-, -, -, rfl⟩ := EventQueue.scheduleAt_eq_ok hq
  refine { h with link := fun a b => (h.link a b).trans ?_, queue := hqueue }
  simp [bytesInFlight, EventPayload.bytesOn_of_ne_network hother]

/-! ### Calls -/

variable {node sender target : NodeId} {state : NodeState}

section

variable (h : Accounts s [])
include h

theorem onLive (change : NodeState → NodeState)
    (hchange : ∀ state, s.nodes.find node = some state →
      DiskAccount s.config.storage s.nextStorageId (change state).storage) :
    Accounts (s.onLive node change).2 [] := by
  unfold Simulator.onLive
  split
  · exact h
  · next state hfind =>
    split_ifs
    · exact h.setNode node (hchange state hfind)
    · exact h

theorem onLink (change : LinkFaultState → LinkFaultState) :
    Accounts (s.onLink sender target change).2 [] := by
  unfold Simulator.onLink
  split_ifs
  · exact h
  · exact h.setLink sender target _ rfl

theorem armTimer (kind : TimerKind) (delay : ℕ) : Accounts (s.armTimer node kind delay).2 [] := by
  unfold Simulator.armTimer
  split
  · exact h
  · next state hfind =>
    dsimp only
    split_ifs
    · split
      · exact h
      · next hq =>
        refine (h.schedule (EventQueue.scheduleAfter_eq_ok hq) trivial (by simp)).setNode node ?_
        cases kind <;> exact h.disks node state hfind
    · exact h

theorem scheduleUser (tag : ℕ) (bytes : Bytes) (delay : ℕ) :
    Accounts (s.scheduleUser node tag bytes delay).2 [] := by
  unfold Simulator.scheduleUser
  split
  · exact h
  · split_ifs with _ hframe
    · exact h
    · exact h
    · split
      · exact h
      · next hq =>
        exact h.schedule (EventQueue.scheduleAfter_eq_ok hq) (not_lt.mp hframe) (by simp)

/-- The events of a message that is queued. -/
def Copies (s : Simulator) (sender target : NodeId) (source destination : NodeState)
    (bytes : Bytes) (copies time : ℕ) (s' : Simulator) : Prop :=
  ∃ scheduled, s'.events.heap = s.events.heap ++ scheduled ∧
    (scheduled.map ScheduledEvent.payload = (List.range copies).map fun copy =>
      .network ⟨s.nextDeliveryId, sender, target, source.incarnation, destination.incarnation,
        copy, bytes⟩) ∧
    ∀ e ∈ scheduled, e.time = time

theorem queueCopies (source destination : NodeState) {copies time : ℕ}
    (hframe : bytes.length ≤ s.config.transport.maxFrameBytes)
    (hcopies : ∀ copy < copies, copy ≤ s.config.transport.maxExtraDuplicatesPerSend)
    (hlink : (s.link sender target).queuedBytes + bytes.length * copies ≤
      s.config.transport.maxQueuedBytesPerLink)
    (htotal : s.totalNetworkBytes + bytes.length * copies ≤ s.config.transport.maxTotalQueuedBytes)
    (hroom : s.events.canSchedule copies = true) (htime : s.events.now ≤ time) :
    Accounts (s.queueCopies sender target source destination bytes copies time) [] ∧
      Copies s sender target source destination bytes copies time
        (s.queueCopies sender target source destination bytes copies time) := by
  obtain ⟨hqueue, scheduled, hheap, hpayloads, htimes⟩ := h.queue.scheduleCopies
    (fun copy => .network ⟨s.nextDeliveryId, sender, target, source.incarnation,
      destination.incarnation, copy, bytes⟩) (List.range copies)
    (fun _ => by rwa [List.length_range]) htime
    fun copy hcopy => ⟨hframe, hcopies copy (List.mem_range.mp hcopy)⟩
  have hbytes : ∀ a b, bytesInFlight scheduled a b =
      if sender = a ∧ target = b then bytes.length * copies else 0 := by
    intro a b
    have hsum : bytesInFlight scheduled a b =
        ((scheduled.map ScheduledEvent.payload).map fun p => p.bytesOn a b).sum := by
      rw [List.map_map]
      rfl
    rw [hsum, hpayloads, List.map_map]
    simp [Function.comp_def, EventPayload.bytesOn, Nat.mul_comm]
  refine ⟨⟨fun a b => ?_, ?_, fun a b => ?_, htotal, hqueue, h.disks⟩, scheduled, hheap, hpayloads,
    htimes⟩
  · change ((s.setLink sender target _).link a b).queuedBytes = bytesInFlight (_ ++ []) a b
    rw [List.append_nil]
    change _ = bytesInFlight (List.foldl _ s.events _).heap a b
    rw [hheap, bytesInFlight_append, hbytes, Simulator.link_setLink]
    have hbefore := h.link a b
    rw [List.append_nil] at hbefore
    split_ifs with h₁ h₂ h₂
    · obtain ⟨rfl, rfl⟩ := h₂
      rw [← hbefore]
    · exact absurd ⟨h₁.1.symm, h₁.2.symm⟩ h₂
    · exact absurd ⟨h₂.1.symm, h₂.2.symm⟩ h₁
    · exact hbefore
  · change s.totalNetworkBytes + bytes.length * copies = (s.setLink sender target _).linkBytes
    refine Nat.add_right_cancel (Eq.trans ?_ (s.linkBytes_setLink sender target _).symm)
    rw [h.total]
    dsimp only
    omega
  · change ((s.setLink sender target _).link a b).queuedBytes ≤ _
    rw [Simulator.link_setLink]
    split_ifs
    · exact hlink
    · exact h.linkLimit a b

/-- **A message that is queued is queued with all its copies.** -/
theorem sendOver (source destination : NodeState) {link : LinkState}
    (hlink : s.link sender target = link) (hframe : bytes.length ≤ s.config.transport.maxFrameBytes)
    (baseDelay : ℕ) :
    Accounts (s.sendOver sender target source destination link bytes baseDelay).2 [] ∧
      ((s.sendOver sender target source destination link bytes baseDelay).1 = .queued →
        Copies s sender target source destination bytes (link.fault.extraCopiesNext + 1)
          (s.events.now + baseDelay + link.fault.additionalDelay)
          (s.sendOver sender target source destination link bytes baseDelay).2) := by
  unfold Simulator.sendOver
  dsimp only
  split_ifs with hpartitioned hdropped hduplicates hoverflow htime hbytes hroom
  · exact ⟨h, by simp⟩
  · exact ⟨h.setLink sender target _ (by rw [hlink]), by simp⟩
  · exact ⟨h, by simp⟩
  · exact ⟨h, by simp⟩
  · exact ⟨h, by simp⟩
  · exact ⟨h, by simp⟩
  · exact ⟨h, by simp⟩
  · simp only [not_or, Bool.not_eq_false] at hroom
    have hqueued := h.queueCopies source destination hframe (fun copy hcopy => by omega)
      (by rw [hlink]; omega) (by omega) hroom.1
      ((Nat.le_add_right _ _).trans
        (Nat.le_add_right (s.events.now + baseDelay) link.fault.additionalDelay))
    exact ⟨hqueued.1, fun _ => hqueued.2⟩

theorem send (bytes : Bytes) (baseDelay : ℕ) :
    Accounts (s.send sender target bytes baseDelay).2 [] ∧
      ((s.send sender target bytes baseDelay).1 = .queued → ∃ source destination,
        s.nodes.find sender = some source ∧ s.nodes.find target = some destination ∧
        Copies s sender target source destination bytes
          ((s.link sender target).fault.extraCopiesNext + 1)
          (s.events.now + baseDelay + (s.link sender target).fault.additionalDelay)
          (s.send sender target bytes baseDelay).2) := by
  unfold Simulator.send
  split
  · next source destination hsource hdestination =>
    split_ifs with hdown hframe
    · exact ⟨h, by simp⟩
    · exact ⟨h, by simp⟩
    · have hset := h.setLink sender target (s.link sender target) rfl
      obtain ⟨haccounts, hcopies⟩ := hset.sendOver source destination
        ((Simulator.link_setLink _ _ _).trans (if_pos ⟨rfl, rfl⟩)) (not_lt.mp hframe) baseDelay
      exact ⟨haccounts, fun hqueued => ⟨source, destination, hsource, hdestination,
        hcopies hqueued⟩⟩
  · exact ⟨h, by simp⟩

end

section

variable (h : Accounts s [])
include h

/-- An operation is given to a disk that has room for it. -/
theorem submit (hfind : s.nodes.find node = some state) {latency : ℕ} {kind : StorageOperationKind}
    {status : StorageCompletionStatus} {actual : ℕ} {after : StorageDevice → StorageDevice}
    (hafter : ∀ device, (after device).stable = device.stable ∧
      (after device).unstable = device.unstable ∧ (after device).pending = device.pending ∧
        (after device).pendingBytes = device.pendingBytes)
    (hwrite : bytes.length ≤ s.config.storage.maxWriteBytes) (hflush : kind ≠ .write → bytes = [])
    (hroom : state.storage.pending.size < s.config.storage.maxPendingOperations)
    (hbytes : state.storage.pendingBytes + bytes.length ≤ s.config.storage.maxPendingBytes)
    (hfile : state.storage.stable.length + state.storage.unstable.length +
      state.storage.pendingBytes + bytes.length ≤ s.config.storage.maxFileBytes) :
    Accounts (s.submit node state latency kind bytes status actual after).2 [] := by
  unfold Simulator.submit
  dsimp only
  split_ifs with hover hevents hid
  · exact h
  · exact h
  · exact h
  · obtain ⟨q, hq⟩ := EventQueue.scheduleAt_of_canSchedule (Bool.not_eq_false _ ▸ hevents)
      ((le_max_left _ _).trans (Nat.le_add_right (s.storageStart state.storage) latency))
      (.storage ⟨node, s.nextStorageId, kind, state.incarnation, actual, status⟩)
    rw [hq]
    have hscheduled := h.schedule hq trivial (by simp)
    -- The identifier is given out together with the event.
    have hnumbered :
        Accounts { s with events := q, nextStorageId := following s.nextStorageId } [] :=
      { hscheduled with disks := fun n state hn => (h.disks n state hn).mono hid }
    refine hnumbered.setNode node ?_
    obtain ⟨hstable, hunstable, hpending, hpendingBytes⟩ := hafter { state.storage with
      pending := state.storage.pending.insert s.nextStorageId
        ⟨kind, bytes, status, actual, s.storageStart state.storage + latency, s.events.nextSequence⟩
      pendingBytes := state.storage.pendingBytes + bytes.length
      availableAt := s.storageStart state.storage + latency }
    exact (h.disks node state hfind).submit hid hwrite hflush hroom hbytes hfile hpending
      hpendingBytes hstable hunstable

theorem submitWrite (bytes : Bytes) (latency : ℕ) :
    Accounts (s.submitWrite node bytes latency).2 [] := by
  unfold Simulator.submitWrite
  split
  · exact h
  · next state hfind =>
    dsimp only
    split_ifs with halive hwrite hpending hfile
    · exact h
    · exact h
    · exact h
    · exact h
    · exact h.submit hfind (fun _ => ⟨rfl, rfl, rfl, rfl⟩) (not_lt.mp hwrite) (by simp)
        (by omega) (by omega) (by omega)

theorem submitFlush (latency : ℕ) : Accounts (s.submitFlush node latency).2 [] := by
  unfold Simulator.submitFlush
  split
  · exact h
  · next state hfind =>
    have hdisk := h.disks node state hfind
    by_cases halive : state.alive = false
    · rw [if_pos halive]
      exact h
    rw [if_neg halive]
    by_cases hfull : s.config.storage.maxPendingOperations ≤ state.storage.pending.size
    · rw [if_pos hfull]
      exact h
    rw [if_neg hfull]
    exact h.submit hfind (fun _ => ⟨rfl, rfl, rfl, rfl⟩) (Nat.zero_le _) (fun _ => rfl)
      (not_le.mp hfull) hdisk.bytes hdisk.file

/-- A crash has taken the events of its node out of the queue. -/
theorem cancel (hfind : s.nodes.find node = some state) (spec : StorageCrashSpec) :
    Accounts (s.cancel node state spec).2 (s.cancel node state spec).1 := by
  have hstopped : Accounts (s.setNode node { state with
      alive := false, storage := state.storage.crash spec s.events.now }) [] :=
    h.setNode node ((h.disks node state hfind).crash spec _)
  exact hstopped.owe (h.queue.sublist List.filter_sublist _)
    ((List.filter_append_perm _ s.events.heap).symm.trans List.perm_append_comm)

theorem crashNode (spec : StorageCrashSpec) : Accounts (s.crashNode node spec).2 [] := by
  cases hfind : s.nodes.find node with
  | none => rwa [Simulator.crashNode, hfind]
  | some state =>
    by_cases halive : state.alive = true
    · rw [Simulator.crashNode_eq_cancel hfind halive]
      have hcancel := h.cancel hfind spec
      rw [← List.append_nil (s.cancel node state spec).1] at hcancel
      exact hcancel.foldl_forget
    · rw [Simulator.crashNode, hfind]
      dsimp only
      rwa [if_neg halive]

/-- The event that is next has left the queue. -/
theorem popNext (hq : s.events.popNext = some (e, q)) : Accounts { s with events := q } [e] := by
  obtain ⟨he, -, rfl⟩ := EventQueue.popNext_eq_some hq
  exact h.owe (h.queue.sublist List.erase_sublist _)
    ((List.perm_cons_erase he).trans (List.perm_append_singleton e _).symm)

end

theorem serve (h : Accounts s [e]) : Accounts (s.serve e).2 [] := by
  rcases Simulator.serve_cases (Prod.mk.eta (p := s.serve e)).symm with
    ⟨-, ⟨hs, hpayload⟩ | ⟨delivery, hpayload, hs⟩⟩ |
      ⟨event, state, operation, hpayload, hfind, hoperation, -, hs⟩ <;> rw [hs]
  · exact h.drop hpayload
  · exact h.release hpayload
  · have h := h.drop (by simp [hpayload])
    exact h.setNode _ ((h.disks _ state hfind).complete hoperation _)

theorem nextWithin (h : Accounts s []) (fuel : ℕ) : Accounts (s.nextWithin fuel).2 [] := by
  induction fuel generalizing s with
  | zero => exact h
  | succ fuel ih =>
    rw [Simulator.nextWithin]
    cases hpop : s.events.popNext with
    | none => exact h
    | some popped =>
      obtain ⟨e, q⟩ := popped
      have hserved := (h.popNext hpop).serve
      dsimp only
      generalize Simulator.serve _ e = served at hserved
      obtain ⟨_ | e', s'⟩ := served
      · exact ih hserved
      · exact hserved

/-- **Every call keeps the accounts.** -/
theorem perform (h : Accounts s []) (operation : Operation) :
    Accounts (s.perform operation).2 [] := by
  cases operation with
  | registerNode n =>
    change Accounts (s.registerNode n).2 []
    unfold Simulator.registerNode
    split
    · exact h
    · exact h.setNode n (DiskAccount.fresh _ _ (Nat.zero_le _) _)
  | crashNode n spec => exact h.crashNode spec
  | restartNode n =>
    change Accounts (s.restartNode n).2 []
    unfold Simulator.restartNode
    split
    · exact h
    · next state hfind =>
      split_ifs
      · exact h
      · exact h.setNode n ((h.disks n state hfind).same rfl rfl le_rfl)
  | armTimer n kind delay => exact h.armTimer kind delay
  | cancelTimer n kind =>
    exact h.onLive _ fun state hn => by cases kind <;> exact h.disks n state hn
  | setPartition sender target partitioned =>
    exact h.onLink fun fault => { fault with partitioned := partitioned }
  | setLinkDelay sender target delay =>
    exact h.onLink fun fault => { fault with additionalDelay := delay }
  | dropNext sender target count => exact h.onLink fun fault => { fault with dropNext := count }
  | duplicateNext sender target extraCopies =>
    change Accounts (s.duplicateNext sender target extraCopies).2 []
    unfold Simulator.duplicateNext
    split_ifs
    · exact h
    · exact h.onLink _
  | send sender target bytes baseDelay => exact (h.send bytes baseDelay).1
  | submitWrite n bytes latency => exact h.submitWrite bytes latency
  | submitFlush n latency => exact h.submitFlush latency
  | failNextWrite n | shortWriteNext n prefixBytes | failNextFlush n =>
    exact h.onLive _ fun state hn => (h.disks n state hn).same rfl rfl le_rfl
  | initializeStorage n stableBytes =>
    change Accounts (s.initializeStorage n stableBytes).2 []
    unfold Simulator.initializeStorage
    split
    · exact h
    · next state hfind =>
      dsimp only
      split_ifs with hbad
      · exact h
      · have hdisk := h.disks n state hfind
        simp only [not_or, not_lt, ne_eq, not_not] at hbad
        refine h.setNode n { hdisk with file := ?_ }
        have hzero : state.storage.pendingBytes = 0 := by
          rw [hdisk.pending, StorageDevice.pendingWriteBytes, hbad.2.2.2.2]
          rfl
        simp only [hzero, hbad.2.2.2.1, List.length_nil]
        exact hbad.2.1
  | truncateStableStorage n validBytes =>
    change Accounts (s.truncateStableStorage n validBytes).2 []
    unfold Simulator.truncateStableStorage
    split
    · exact h
    · next state hfind =>
      dsimp only
      split_ifs
      · exact h
      · refine h.setNode n ((h.disks n state hfind).same rfl rfl ?_)
        exact Nat.add_le_add_right (List.length_take_le' _ _) _
  | scheduleUser n tag bytes delay => exact h.scheduleUser tag bytes delay
  | next => exact h.nextWithin _

end Accounts

/-! ### Whole runs -/

/-- The world after some calls. -/
def Simulator.run (config : SimulatorConfig) (operations : List Operation) : Simulator :=
  operations.foldl (fun s operation => (s.perform operation).2) (Simulator.create config)

theorem accounts_create (config : SimulatorConfig) : Accounts (Simulator.create config) [] := by
  have hevents : (Simulator.create config).config.events = config.events := by
    unfold Simulator.create
    dsimp only
    split_ifs <;> rfl
  have hfirst : (Simulator.create config).events.nextSequence ≤ maxU64 := by
    change 1 ≤ maxU64
    decide
  exact ⟨fun _ _ => rfl, rfl, fun _ _ => Nat.zero_le _, Nat.zero_le _,
    ⟨hevents.symm, Nat.zero_le _, Nat.zero_le _, hfirst, ⟨List.nodup_nil, fun e he => nomatch he⟩,
      fun e he => nomatch he⟩, fun _ _ h => nomatch h⟩

theorem accounts_run (config : SimulatorConfig) (operations : List Operation) :
    Accounts (Simulator.run config operations) [] := by
  have hall : ∀ s : Simulator, Accounts s [] →
      Accounts (operations.foldl (fun s operation => (s.perform operation).2) s) [] := by
    induction operations with
    | nil => exact fun s h => h
    | cons operation operations ih => exact fun s h => ih _ (h.perform operation)
  exact hall _ (accounts_create config)

/-- **The accounts of the simulator are exact** after any calls, and after any number of events that
`next` takes out: the counts are those of the queue and of the disks, and no limit is exceeded. So
no release subtracts more than there is, in `next` or in a crash, and every copy of a message that
is reported as queued is scheduled. -/
theorem accounts_exact (config : SimulatorConfig) (operations : List Operation) :
    let s := Simulator.run config operations
    (∀ fuel, Accounts (s.nextWithin fuel).2 [] ∧
      ∀ e delivery, e ∈ (s.nextWithin fuel).2.events.heap → e.payload = .network delivery →
        (s.nextWithin fuel).2.Covers delivery) ∧
    (∀ node state spec, s.nodes.find node = some state → state.alive = true →
      ∀ before e after delivery, (s.cancel node state spec).1 = before ++ e :: after →
        e.payload = .network delivery →
        (before.foldl Simulator.forget (s.cancel node state spec).2).Covers delivery) ∧
    ∀ sender target bytes baseDelay, (s.send sender target bytes baseDelay).1 = .queued →
      ∃ source destination,
        s.nodes.find sender = some source ∧ s.nodes.find target = some destination ∧
        Accounts.Copies s sender target source destination bytes
          ((s.link sender target).fault.extraCopiesNext + 1)
          (s.events.now + baseDelay + (s.link sender target).fault.additionalDelay)
          (s.send sender target bytes baseDelay).2 := by
  intro s
  have h : Accounts s [] := accounts_run config operations
  refine ⟨fun fuel => ⟨h.nextWithin fuel, fun e delivery he hpayload => ?_⟩, ?_,
    fun sender target bytes baseDelay => (h.send bytes baseDelay).2⟩
  · exact (h.nextWithin fuel).covers (by simpa using he) hpayload
  · intro node state spec hfind halive before e after delivery hsplit hpayload
    have hcancel := h.cancel hfind spec
    rw [hsplit] at hcancel
    exact hcancel.foldl_forget.covers (by simp) hpayload

end Sim

end DetLog
