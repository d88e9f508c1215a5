import DetLog.Simulator

/-!
# The event queue

What the operations of the queue do, stated once: which event is taken out, what an accepted event
adds, and that no two pending events have the same number (`DetLog.Sim.EventQueue.Numbered`).

At the end, the loop of `DetLog.Sim.Simulator.next` without its bound: it goes on until an event is
handed out or the queue is empty (`DetLog.Sim.Simulator.next_of_serve_none`), which gives a rule of
induction for it (`DetLog.Sim.Simulator.next_induction`).
-/

namespace DetLog

namespace Sim

/-! ### The least event -/

theorem least_eq_none {l : List ScheduledEvent} : least l = none ↔ l = [] := by
  cases l with
  | nil => simp [least]
  | cons e l =>
    simp only [least, reduceCtorEq, iff_false]
    split
    · simp
    · split_ifs <;> simp

/-- **The least event is one of the list, and none of the list is earlier.** -/
theorem least_spec {l : List ScheduledEvent} {e : ScheduledEvent} (h : least l = some e) :
    e ∈ l ∧ ∀ e' ∈ l, ¬e'.Earlier e := by
  induction l generalizing e with
  | nil => simp [least] at h
  | cons d l ih =>
    rw [least] at h
    split at h
    · next hnone =>
      obtain rfl := Option.some.inj h
      rw [least_eq_none.mp hnone]
      simp [ScheduledEvent.Earlier]
    · next m hm =>
      obtain ⟨hmem, hleast⟩ := ih hm
      split_ifs at h with hearlier
      · obtain rfl := Option.some.inj h
        refine ⟨List.mem_cons_of_mem d hmem, List.forall_mem_cons.mpr ⟨?_, hleast⟩⟩
        unfold ScheduledEvent.Earlier at *
        omega
      · obtain rfl := Option.some.inj h
        refine ⟨List.mem_cons_self, List.forall_mem_cons.mpr ⟨?_, fun e' he' => ?_⟩⟩
        · unfold ScheduledEvent.Earlier
          omega
        · have hm' := hleast e' he'
          unfold ScheduledEvent.Earlier at *
          omega

namespace EventQueue

variable {q q' : EventQueue} {e : ScheduledEvent} {payload : EventPayload} {time number : ℕ}

/-! ### The operations -/

theorem popNext_eq_none : q.popNext = none ↔ q.heap = [] := by
  rw [popNext, Option.map_eq_none_iff, least_eq_none]

theorem popNext_eq_some (h : q.popNext = some (e, q')) :
    e ∈ q.heap ∧ (∀ e' ∈ q.heap, ¬e'.Earlier e) ∧
      q' = { q with now := e.time, heap := q.heap.erase e } := by
  obtain ⟨d, hd, heq⟩ := Option.map_eq_some_iff.mp h
  obtain ⟨rfl, rfl⟩ := Prod.mk.inj heq
  exact ⟨(least_spec hd).1, (least_spec hd).2, rfl⟩

theorem scheduleAt_eq_ok (h : q.scheduleAt time payload = .ok (number, q')) :
    q.now ≤ time ∧ q.nextSequence ≠ 0 ∧ number = q.nextSequence ∧
      q' = { q with
        nextSequence := following q.nextSequence
        totalScheduled := q.totalScheduled + 1
        heap := q.heap ++ [⟨time, q.nextSequence, payload⟩] } := by
  unfold scheduleAt at h
  split_ifs at h with htime _ _ hnumber
  obtain ⟨rfl, rfl⟩ := Prod.mk.inj (Except.ok.inj h)
  exact ⟨not_lt.mp htime, hnumber, rfl, rfl⟩

theorem scheduleAfter_eq_ok {delay : ℕ} (h : q.scheduleAfter delay payload = .ok (number, q')) :
    q.scheduleAt (q.now + delay) payload = .ok (number, q') := by
  unfold scheduleAfter at h
  split_ifs at h
  exact h

/-- A queue that has room takes an event. -/
theorem scheduleAt_of_canSchedule (h : q.canSchedule = true) (htime : q.now ≤ time)
    (payload : EventPayload) : ∃ q', q.scheduleAt time payload = .ok (q.nextSequence, q') := by
  unfold canSchedule at h
  split_ifs at h with hpending htotal hnumber
  unfold scheduleAt
  rw [if_neg (by omega), if_neg (by omega), if_neg (by omega), if_neg hnumber]
  exact ⟨_, rfl⟩

theorem scheduleAt_limits (h : q.scheduleAt time payload = .ok (number, q')) :
    q.heap.length < q.limits.maxPendingEvents ∧ q.totalScheduled < q.limits.maxTotalEvents := by
  unfold scheduleAt at h
  split_ifs at h with _ hpending htotal
  exact ⟨not_le.mp hpending, not_le.mp htotal⟩

theorem following_le {n : ℕ} (h : n ≤ maxU64) : following n ≤ maxU64 := by
  unfold following
  split_ifs <;> omega

/-- **Room for several events is room for one, and then for the others.** -/
theorem scheduleAt_of_room {count : ℕ} (hbound : q.nextSequence ≤ maxU64)
    (h : q.canSchedule (count + 1) = true) (htime : q.now ≤ time) (payload : EventPayload) :
    ∃ q', q.scheduleAt time payload = .ok (q.nextSequence, q') ∧
      (count ≠ 0 → q'.canSchedule count = true) := by
  unfold canSchedule at h
  split_ifs at h with hpending htotal hnumber
  have hcount := of_decide_eq_true h
  unfold scheduleAt
  rw [if_neg (by omega), if_neg (by omega), if_neg (by omega), if_neg hnumber]
  refine ⟨_, rfl, fun hmore => ?_⟩
  -- The last number is given out last.
  have hlast : q.nextSequence ≠ maxU64 := by omega
  unfold canSchedule
  simp only [following, if_neg hlast, List.length_append, List.length_singleton]
  rw [if_neg (by omega), if_neg (by omega), if_neg (by omega)]
  exact decide_eq_true (by omega)

/-! ### Numbers -/

/-- **No two pending events have the same number, and none has one that is still to be given
out.** -/
structure Numbered (q : EventQueue) : Prop where
  distinct : (q.heap.map ScheduledEvent.sequence).Nodup
  below : ∀ e ∈ q.heap, q.nextSequence = 0 ∨ e.sequence < q.nextSequence

/-- Where a number that was below the next one stands after one has been given out. -/
theorem below_following {next n : ℕ} (h : n ≤ next) :
    following next = 0 ∨ n < following next := by
  unfold following
  split_ifs
  · exact Or.inl rfl
  · exact Or.inr (by omega)

theorem Numbered.scheduleAt (h : q.Numbered) (hq : q.scheduleAt time payload = .ok (number, q')) :
    q'.Numbered := by
  obtain ⟨-, hnext, -, rfl⟩ := scheduleAt_eq_ok hq
  have hbelow : ∀ e ∈ q.heap, e.sequence < q.nextSequence := fun e he =>
    (h.below e he).resolve_left hnext
  refine ⟨?_, fun e he => ?_⟩
  · rw [List.map_append, List.nodup_append]
    refine ⟨h.distinct, List.nodup_singleton _, ?_⟩
    rintro n hn m hm rfl
    obtain ⟨e, he, rfl⟩ := List.mem_map.mp hn
    simp only [List.map_cons, List.map_nil, List.mem_singleton] at hm
    exact (hbelow e he).ne hm
  · rcases List.mem_append.mp he with he | he
    · exact below_following (hbelow e he).le
    · obtain rfl := List.mem_singleton.mp he
      exact below_following le_rfl

/-- Events that are taken out leave the numbers of the others. -/
theorem Numbered.sublist (h : q.Numbered) (hheap : q'.heap.Sublist q.heap)
    (hnext : q'.nextSequence = q.nextSequence) : q'.Numbered where
  distinct := h.distinct.sublist (hheap.map _)
  below e he := by
    rw [hnext]
    exact h.below e (hheap.subset he)

theorem Numbered.popNext (h : q.Numbered) (hq : q.popNext = some (e, q')) : q'.Numbered := by
  obtain ⟨-, -, rfl⟩ := popNext_eq_some hq
  exact h.sublist List.erase_sublist rfl

/-- Two pending events with the same number are one. -/
theorem Numbered.eq_of_sequence (h : q.Numbered) {a b : ScheduledEvent} (ha : a ∈ q.heap)
    (hb : b ∈ q.heap) (hseq : a.sequence = b.sequence) : a = b :=
  List.inj_on_of_nodup_map h.distinct ha hb hseq

/-- What is left after an event has been taken out. -/
theorem Numbered.mem_erase (h : q.Numbered) (he : e ∈ q.heap) {d : ScheduledEvent} :
    d ∈ q.heap.erase e ↔ d ∈ q.heap ∧ d.sequence ≠ e.sequence := by
  rw [h.distinct.of_map.mem_erase_iff]
  refine ⟨fun ⟨hne, hd⟩ => ⟨hd, fun hseq => hne (h.eq_of_sequence hd he hseq)⟩,
    fun ⟨hd, hne⟩ => ⟨fun heq => hne (heq ▸ rfl), hd⟩⟩

end EventQueue

/-! ### The loop of `next` -/

namespace Simulator

variable {s : Simulator}

@[simp] theorem setNode_events (node : NodeId) (state : NodeState) :
    (s.setNode node state).events = s.events := rfl

@[simp] theorem setLink_events (sender target : NodeId) (link : LinkState) :
    (s.setLink sender target link).events = s.events := rfl

@[simp] theorem releaseNetworkBytes_events (delivery : NetworkEvent) :
    (s.releaseNetworkBytes delivery).events = s.events := by
  unfold releaseNetworkBytes
  split <;> rfl

theorem node_complete (device : StorageDevice) (event : StorageEvent)
    (operation : PendingStorageOperation) (now : ℕ) :
    (complete device event operation now).1.node = event.node := by
  unfold complete
  split_ifs <;> rfl

/-- **What serving an event does**: nothing, the bytes of a message are released, or an operation of
a disk is completed. -/
theorem serve_cases {e : ScheduledEvent} {answer : Option ScheduledEvent}
    (h : s.serve e = (answer, s')) :
    ((answer = none ∨ answer = some e) ∧ ((s' = s ∧ ∀ delivery, e.payload ≠ .network delivery) ∨
      ∃ delivery, e.payload = .network delivery ∧ s' = s.releaseNetworkBytes delivery)) ∨
    ∃ event state operation, e.payload = .storage event ∧ s.nodes.find event.node = some state ∧
      state.storage.pending.find event.operationId = some operation ∧
      answer = some { e with
        payload := .storage (complete state.storage event operation s.events.now).1 } ∧
      s' = s.setNode event.node { state with
        storage := (complete state.storage event operation s.events.now).2 } := by
  have hsame : ∀ {x : Option ScheduledEvent}, (x, s) = (answer, s') → x = none ∨ x = some e →
      (∀ delivery, e.payload ≠ .network delivery) → (answer = none ∨ answer = some e) ∧
        ((s' = s ∧ ∀ delivery, e.payload ≠ .network delivery) ∨
          ∃ delivery, e.payload = .network delivery ∧ s' = s.releaseNetworkBytes delivery) := by
    rintro x heq hx hother
    obtain ⟨rfl, rfl⟩ := Prod.mk.inj heq
    exact ⟨hx, Or.inl ⟨rfl, hother⟩⟩
  unfold serve at h
  split at h
  · next hpayload =>
    split at h
    · exact Or.inl (hsame h (Or.inl rfl) (by simp [hpayload]))
    · split_ifs at h
      · exact Or.inl (hsame h (Or.inr rfl) (by simp [hpayload]))
      · exact Or.inl (hsame h (Or.inl rfl) (by simp [hpayload]))
  · next delivery hpayload =>
    dsimp only at h
    split_ifs at h <;> obtain ⟨rfl, rfl⟩ := Prod.mk.inj h
    · exact Or.inl ⟨Or.inl rfl, Or.inr ⟨delivery, hpayload, rfl⟩⟩
    · exact Or.inl ⟨Or.inl rfl, Or.inr ⟨delivery, hpayload, rfl⟩⟩
    · exact Or.inl ⟨Or.inr rfl, Or.inr ⟨delivery, hpayload, rfl⟩⟩
  · next event hpayload =>
    split at h
    · exact Or.inl (hsame h (Or.inl rfl) (by simp [hpayload]))
    · next state hfind =>
      split_ifs at h
      · exact Or.inl (hsame h (Or.inl rfl) (by simp [hpayload]))
      · split at h
        · exact Or.inl (hsame h (Or.inl rfl) (by simp [hpayload]))
        · next operation hop =>
          obtain ⟨hanswer, hs⟩ := Prod.mk.inj h
          exact Or.inr ⟨event, state, operation, hpayload, hfind, hop, hanswer.symm, hs.symm⟩
  · next hpayload =>
    split at h
    · exact Or.inl (hsame h (Or.inl rfl) (by simp [hpayload]))
    · split_ifs at h
      · exact Or.inl (hsame h (Or.inl rfl) (by simp [hpayload]))
      · exact Or.inl (hsame h (Or.inr rfl) (by simp [hpayload]))

/-- Serving an event does not change the queue. -/
theorem serve_events (e : ScheduledEvent) : (s.serve e).2.events = s.events := by
  rcases serve_cases (Prod.mk.eta (p := s.serve e)).symm with
    ⟨-, ⟨hs, -⟩ | ⟨delivery, -, hs⟩⟩ | ⟨event, state, operation, -, -, -, -, hs⟩ <;> rw [hs]
  · exact releaseNetworkBytes_events delivery
  · rfl

/-- The bound is enough for the whole queue. -/
theorem nextWithin_eq {fuel : ℕ} (h : s.events.heap.length ≤ fuel) :
    s.nextWithin fuel = s.next := by
  induction fuel generalizing s with
  | zero => rw [next, Nat.le_zero.mp h]
  | succ fuel ih =>
    rw [next]
    cases hlen : s.events.heap.length with
    | zero =>
      have hnone : s.events.popNext = none :=
        EventQueue.popNext_eq_none.mpr (List.length_eq_zero_iff.mp hlen)
      simp only [nextWithin, hnone]
    | succ n =>
      rw [nextWithin, nextWithin]
      cases hpop : s.events.popNext with
      | none => rfl
      | some popped =>
        obtain ⟨e, events⟩ := popped
        obtain ⟨hmem, -, rfl⟩ := EventQueue.popNext_eq_some hpop
        have hevents := serve_events (s := { s with
          events := { s.events with now := e.time, heap := s.events.heap.erase e } }) e
        dsimp only
        generalize serve _ e = served at hevents
        obtain ⟨_ | _, s'⟩ := served
        · have hshort : s'.events.heap.length = n := by
            rw [hevents]
            simpa [hlen] using List.length_erase_of_mem hmem
          dsimp only
          rw [ih (by omega), next, hshort]
        · rfl

/-- Nothing is left. -/
theorem next_of_popNext_none (h : s.events.popNext = none) : s.next = (none, s) := by
  rw [← nextWithin_eq (Nat.le_succ _), nextWithin, h]

/-- An event is handed out. -/
theorem next_of_serve_some {e e' : ScheduledEvent} {events : EventQueue}
    (h : s.events.popNext = some (e, events))
    (hserve : { s with events := events }.serve e = (some e', s')) : s.next = (some e', s') := by
  rw [← nextWithin_eq (Nat.le_succ _), nextWithin, h]
  dsimp only
  rw [hserve]

/-- **The loop goes on** after a stale event. -/
theorem next_of_serve_none {e : ScheduledEvent} {events : EventQueue}
    (h : s.events.popNext = some (e, events))
    (hserve : { s with events := events }.serve e = (none, s')) : s.next = s'.next := by
  have hevents := serve_events (s := { s with events := events }) e
  rw [hserve] at hevents
  rw [← nextWithin_eq (Nat.le_succ _), nextWithin, h]
  dsimp only
  rw [hserve]
  refine nextWithin_eq ?_
  obtain ⟨-, -, rfl⟩ := EventQueue.popNext_eq_some h
  rw [hevents]
  exact List.length_erase_le

/-- **Induction along the loop**: a property of worlds that is kept when a stale event is dropped
holds of the world in which the loop ends. -/
theorem next_induction {motive : Simulator → Prop}
    (hstale : ∀ s e events s', motive s → s.events.popNext = some (e, events) →
      { s with events := events }.serve e = (none, s') → motive s') (h : motive s) :
    (s.next = (none, s.next.2) ∧ motive s.next.2) ∨
      ∃ s₁ e events e', motive s₁ ∧ s₁.events.popNext = some (e, events) ∧
        { s₁ with events := events }.serve e = (some e', s.next.2) ∧ s.next.1 = some e' := by
  induction hn : s.events.heap.length using Nat.strong_induction_on generalizing s with
  | _ n ih =>
    cases hpop : s.events.popNext with
    | none =>
      rw [next_of_popNext_none hpop]
      exact Or.inl ⟨rfl, h⟩
    | some popped =>
      obtain ⟨e, events⟩ := popped
      cases hserve : { s with events := events }.serve e with
      | mk answer s' =>
        cases answer with
        | some e' =>
          rw [next_of_serve_some hpop hserve]
          exact Or.inr ⟨s, e, events, e', h, hpop, hserve, rfl⟩
        | none =>
          rw [next_of_serve_none hpop hserve]
          have hevents := serve_events (s := { s with events := events }) e
          rw [hserve] at hevents
          obtain ⟨hmem, -, rfl⟩ := EventQueue.popNext_eq_some hpop
          refine ih _ ?_ (hstale s e _ s' h hpop hserve) rfl
          have hpos := List.length_pos_of_mem hmem
          rw [hevents, ← hn]
          simp only [List.length_erase_of_mem hmem]
          omega

/-! ### Submissions -/

/-- **An operation of a disk is accepted**: it gets the next number, its event is scheduled for a
time at which the disk is available, and it is pending. -/
def Submits (s : Simulator) (node : NodeId) (state : NodeState)
    (operation : PendingStorageOperation) (result : StorageSubmitResult) (s' : Simulator) : Prop :=
  ∃ (events : EventQueue) (device : StorageDevice), s.nextStorageId ≠ 0 ∧
    state.storage.availableAt ≤ operation.completionTime ∧
    s.events.scheduleAt operation.completionTime
      (.storage ⟨node, s.nextStorageId, operation.kind, state.incarnation,
        operation.actualWriteBytes, operation.completionStatus⟩) =
          .ok (operation.eventSequence, events) ∧
    result = ⟨.queued, s.nextStorageId, operation.completionTime⟩ ∧
    device.stable = state.storage.stable ∧ device.unstable = state.storage.unstable ∧
    device.pending = state.storage.pending.insert s.nextStorageId operation ∧
    device.availableAt = operation.completionTime ∧
    s' = { s with events := events, nextStorageId := following s.nextStorageId }.setNode node
      { state with storage := device }

variable {node : NodeId} {state : NodeState} {latency : ℕ} {bytes : Bytes}
  {result : StorageSubmitResult} {s' : Simulator}

end Simulator

end Sim

end DetLog
