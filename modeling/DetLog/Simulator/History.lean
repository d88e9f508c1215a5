import DetLog.Simulator.Queue

/-!
# What becomes of an event

The queue by itself, under any sequence of its operations. `DetLog.Sim.Record` puts beside it the
events that were reported as scheduled, and those that it has given back, popped or extracted.

`DetLog.Sim.Conserves` is the invariant. The events that were scheduled are those that are pending,
popped or extracted, each once; what was popped is not later than the present, and what is pending
is not earlier, so the pops go forward in time.
-/

namespace DetLog

namespace Sim

/-- The operations of a queue that change it. -/
inductive QueueOperation where
  | scheduleAt (time : ℕ) (payload : EventPayload)
  | scheduleAfter (delay : ℕ) (payload : EventPayload)
  | popNext
  | extractIf (test : ScheduledEvent → Bool)

/-- A queue with its history. -/
structure Record where
  queue : EventQueue
  scheduled : List ScheduledEvent := []
  popped : List ScheduledEvent := []
  extracted : List ScheduledEvent := []

namespace Record

/-- The answer to a call that schedules an event. -/
def note (r : Record) (time : ℕ) (payload : EventPayload) :
    Except ScheduleStatus (ℕ × EventQueue) → Record
  | .ok (sequence, queue) =>
    { r with queue, scheduled := r.scheduled ++ [⟨time, sequence, payload⟩] }
  | .error _ => r

/-- One call of the queue. -/
def perform (r : Record) : QueueOperation → Record
  | .scheduleAt time payload => r.note time payload (r.queue.scheduleAt time payload)
  | .scheduleAfter delay payload =>
    r.note (r.queue.now + delay) payload (r.queue.scheduleAfter delay payload)
  | .popNext =>
    match r.queue.popNext with
    | some (e, queue) => { r with queue, popped := r.popped ++ [e] }
    | none => r
  | .extractIf test =>
    let (removed, queue) := r.queue.extractIf test
    { r with queue, extracted := r.extracted ++ removed }

/-- The history of a queue from its construction on. -/
def run (limits : EventQueueLimits) (operations : List QueueOperation) : Record :=
  operations.foldl perform { queue := { limits } }

end Record

/-! ### The invariant -/

/-- **No event is lost, duplicated or out of order.** -/
structure Conserves (r : Record) : Prop where
  conserved : r.scheduled.Perm (r.queue.heap ++ r.popped ++ r.extracted)
  distinct : (r.scheduled.map ScheduledEvent.sequence).Nodup
  below : ∀ e ∈ r.scheduled, r.queue.nextSequence = 0 ∨ e.sequence < r.queue.nextSequence
  bound : r.queue.nextSequence ≤ maxU64
  due : ∀ e ∈ r.queue.heap, r.queue.now ≤ e.time
  past : ∀ e ∈ r.popped, e.time ≤ r.queue.now
  ordered : r.popped.Pairwise fun a b => a.time ≤ b.time

namespace Conserves

variable {r : Record} {q : EventQueue} {e : ScheduledEvent} {payload : EventPayload} {time : ℕ}

/-- An accepted event has a number of its own and is not due before the present. -/
theorem scheduleAt (h : Conserves r) {sequence : ℕ}
    (hq : r.queue.scheduleAt time payload = .ok (sequence, q)) :
    Conserves { r with queue := q, scheduled := r.scheduled ++ [⟨time, sequence, payload⟩] } := by
  obtain ⟨htime, hnext, rfl, rfl⟩ := EventQueue.scheduleAt_eq_ok hq
  have hbelow : ∀ e ∈ r.scheduled, e.sequence < r.queue.nextSequence := fun e he =>
    (h.below e he).resolve_left hnext
  refine ⟨?_, ?_, fun e he => ?_, ?_, fun e he => ?_, h.past, h.ordered⟩
  · refine List.perm_iff_count.mpr fun e => ?_
    have hcount := h.conserved.count_eq e
    simp only [List.count_append] at hcount ⊢
    omega
  · rw [List.map_append, List.nodup_append]
    refine ⟨h.distinct, List.nodup_singleton _, ?_⟩
    rintro n hn m hm rfl
    obtain ⟨e, he, rfl⟩ := List.mem_map.mp hn
    exact (hbelow e he).ne (List.mem_singleton.mp hm)
  · rcases List.mem_append.mp he with he | he
    · exact EventQueue.below_following (hbelow e he).le
    · obtain rfl := List.mem_singleton.mp he
      exact EventQueue.below_following le_rfl
  · exact EventQueue.following_le h.bound
  · rcases List.mem_append.mp he with he | he
    · exact h.due e he
    · obtain rfl := List.mem_singleton.mp he
      exact htime

/-- The event with the least time is not earlier than the present, and no pending one is earlier
than it. -/
theorem popNext (h : Conserves r) (hq : r.queue.popNext = some (e, q)) :
    Conserves { r with queue := q, popped := r.popped ++ [e] } := by
  obtain ⟨he, hleast, rfl⟩ := EventQueue.popNext_eq_some hq
  have hnow := h.due e he
  refine ⟨?_, h.distinct, h.below, h.bound, fun d hd => ?_, fun d hd => ?_, ?_⟩
  · refine h.conserved.trans (List.Perm.append_right _ ?_)
    refine ((List.perm_cons_erase he).append_right _).trans ?_
    rw [← List.append_assoc]
    exact (List.perm_append_singleton e _).symm
  · have hearlier := hleast d (List.mem_of_mem_erase hd)
    unfold ScheduledEvent.Earlier at hearlier
    exact le_of_not_gt fun hlt => hearlier (Or.inl hlt)
  · rcases List.mem_append.mp hd with hd | hd
    · exact (h.past d hd).trans hnow
    · rw [List.mem_singleton.mp hd]
  · rw [List.pairwise_append]
    refine ⟨h.ordered, List.pairwise_singleton _ _, fun a ha b hb => ?_⟩
    rw [List.mem_singleton.mp hb]
    exact (h.past a ha).trans hnow

theorem extractIf (h : Conserves r) (test : ScheduledEvent → Bool) :
    Conserves { r with
      queue := (r.queue.extractIf test).2
      extracted := r.extracted ++ (r.queue.extractIf test).1 } := by
  refine ⟨?_, h.distinct, h.below, h.bound, fun e he => h.due e (List.mem_of_mem_filter he),
    h.past, h.ordered⟩
  refine List.perm_iff_count.mpr fun e => ?_
  have hcount := h.conserved.count_eq e
  have hparts := (List.filter_append_perm test r.queue.heap).count_eq e
  simp only [EventQueue.extractIf, List.count_append] at hcount hparts ⊢
  omega

theorem note (h : Conserves r) {answer : Except ScheduleStatus (ℕ × EventQueue)}
    (hanswer : ∀ x, answer = .ok x → r.queue.scheduleAt time payload = .ok x) :
    Conserves (r.note time payload answer) := by
  cases answer with
  | error status => exact h
  | ok x => exact h.scheduleAt (hanswer x rfl)

theorem perform (h : Conserves r) (operation : QueueOperation) :
    Conserves (r.perform operation) := by
  cases operation with
  | scheduleAt time payload => exact h.note fun _ h => h
  | scheduleAfter delay payload => exact h.note fun _ h => EventQueue.scheduleAfter_eq_ok h
  | popNext =>
    rw [Record.perform]
    split
    · next e q hq => exact h.popNext hq
    · exact h
  | extractIf test => exact h.extractIf test

theorem run (limits : EventQueueLimits) (operations : List QueueOperation) :
    Conserves (Record.run limits operations) := by
  have hall : ∀ r, Conserves r → Conserves (operations.foldl Record.perform r) := by
    induction operations with
    | nil => exact fun r h => h
    | cons operation operations ih => exact fun r h => ih _ (h.perform operation)
  exact hall _ ⟨by simp, by simp, by simp, by simp [maxU64], by simp, by simp, by simp⟩

/-- The present does not go back. -/
theorem now_le (h : Conserves r) (operation : QueueOperation) :
    r.queue.now ≤ (r.perform operation).queue.now := by
  have hnote : ∀ {time payload answer}, (∀ x, answer = .ok x →
      r.queue.scheduleAt time payload = .ok x) →
      r.queue.now ≤ (r.note time payload answer).queue.now := by
    intro time payload answer hanswer
    cases answer with
    | error status => exact le_rfl
    | ok x =>
      obtain ⟨-, -, -, hx⟩ := EventQueue.scheduleAt_eq_ok (hanswer x rfl)
      rw [Record.note, hx]
  cases operation with
  | scheduleAt time payload => exact hnote fun _ h => h
  | scheduleAfter delay payload => exact hnote fun _ h => EventQueue.scheduleAfter_eq_ok h
  | popNext =>
    rw [Record.perform]
    split
    · next e q hq =>
      obtain ⟨he, -, rfl⟩ := EventQueue.popNext_eq_some hq
      exact h.due e he
    · exact le_rfl
  | extractIf test => exact le_rfl

end Conserves

/-! ### Room -/

namespace EventQueue

variable {q : EventQueue}

/-- Events that are scheduled one after the other; `none` if one of them is refused. -/
def scheduleAll (q : EventQueue) : List (ℕ × EventPayload) → Option EventQueue
  | [] => some q
  | (time, payload) :: rest =>
    match q.scheduleAt time payload with
    | .ok (_, q) => q.scheduleAll rest
    | .error _ => none

/-- **Room for several events is room for each of them in turn.** -/
theorem scheduleAll_isSome (hbound : q.nextSequence ≤ maxU64) {requests : List (ℕ × EventPayload)}
    (hroom : requests ≠ [] → q.canSchedule requests.length = true)
    (htimes : ∀ request ∈ requests, q.now ≤ request.1) : (q.scheduleAll requests).isSome := by
  induction requests generalizing q with
  | nil => rfl
  | cons request rest ih =>
    obtain ⟨time, payload⟩ := request
    obtain ⟨q', hq', hmore⟩ := scheduleAt_of_room hbound (hroom (List.cons_ne_nil _ _))
      (htimes _ List.mem_cons_self) payload
    obtain ⟨-, -, -, heq⟩ := scheduleAt_eq_ok hq'
    rw [scheduleAll, hq']
    refine ih ?_ (fun hrest => hmore (mt List.length_eq_zero_iff.mp hrest)) fun request h => ?_
    · rw [heq]
      exact following_le hbound
    · rw [heq]
      exact htimes request (List.mem_cons_of_mem _ h)

end EventQueue

/-- **Order and conservation of the event queue**, after any operations. A queue with events has a
next one, and it is the earliest. -/
theorem queue_conserves (limits : EventQueueLimits) (operations : List QueueOperation) :
    let r := Record.run limits operations
    (r.queue.popNext = none ↔ r.queue.heap = []) ∧
    (∀ e q, r.queue.popNext = some (e, q) →
      e ∈ r.queue.heap ∧ (∀ d ∈ r.queue.heap, d ≠ e → e.Earlier d) ∧ q.now = e.time) ∧
    (∀ operation, r.queue.now ≤ (r.perform operation).queue.now) ∧
    (r.popped.Pairwise fun a b => a.time ≤ b.time) ∧
    r.scheduled.Perm (r.queue.heap ++ r.popped ++ r.extracted) ∧
    (r.scheduled.map ScheduledEvent.sequence).Nodup ∧
    ∀ requests : List (ℕ × EventPayload), r.queue.canSchedule requests.length = true →
      (∀ request ∈ requests, r.queue.now ≤ request.1) → (r.queue.scheduleAll requests).isSome := by
  intro r
  have h : Conserves r := Conserves.run limits operations
  refine ⟨EventQueue.popNext_eq_none, fun e q hq => ?_, h.now_le, h.ordered, h.conserved,
    h.distinct, fun requests hroom => EventQueue.scheduleAll_isSome h.bound fun _ => hroom⟩
  obtain ⟨he, hleast, rfl⟩ := EventQueue.popNext_eq_some hq
  refine ⟨he, fun d hd hne => ?_, rfl⟩
  -- Two pending events have different numbers, so one of them is earlier.
  have hsequence : d.sequence ≠ e.sequence := fun hsame => by
    have hscheduled : ∀ {x}, x ∈ r.queue.heap → x ∈ r.scheduled := fun hx =>
      h.conserved.mem_iff.mpr (by simp [hx])
    exact hne (List.inj_on_of_nodup_map h.distinct (hscheduled hd) (hscheduled he) hsame)
  have hnot := hleast d hd
  unfold ScheduledEvent.Earlier at hnot ⊢
  omega

end Sim

end DetLog
