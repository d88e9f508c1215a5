import DetLog.Raft.Driven
import DetLog.Raft.Turn

/-!
# The structure of a node

A node is fed by a network that it cannot trust beyond the checks of the codec: indexes and
terms of any size, answers to appends it never sent, completions of batches it never wrote.
`DetLog.RaftNode.Structured` says what its fields look like all the same, and
`DetLog.Driven.structured_run` that they do after every run.

Most of it is known from the gate and the books. What is added here are the parts that no
message rests on: the queue of deferred events, the progress of the peers, which stays below
what the leader has in storage because only answers to appends in flight count, and the
table of sessions, which is the inverse of the pending entries.
-/

namespace DetLog

/-! ### The invariants of the volatile state -/

/-- What a leader knows about a peer, when its own storage has a log of the given length. -/
structure PeerOk (durable : ℕ) (p : PeerProgress) : Prop where
  match_lt : p.matchIndex < p.nextIndex
  next_le : p.nextIndex ≤ durable + 1
  inflight : ∀ sent, p.inflight = some sent → sent.lastIndex ≤ durable

/-- The peers of a leader. -/
def PeersOk (n : RaftNode) : Prop :=
  n.role = .leader → ∀ s p, n.peers.find s = some p → PeerOk n.durableLastLogIndex p

/-- Every pending entry can be found by its session. -/
def Filable (clients : OrdMap ℕ PendingClientEntry) (sessions : OrdMap SessionId ℕ) : Prop :=
  ∀ k p, clients.find k = some p → sessions.find p.command.session = some k

/-- The queue of deferred events. -/
structure QueueOk (n : RaftNode) : Prop where
  length_le : n.deferredEvents.length ≤ n.config.maxDeferredEvents
  stopped : n.role = .unavailable → n.deferredEvents = []

section Peers

variable {n : RaftNode} {cause : Cause} {c c' : Ctx}

theorem PeersOk.of_ne (h : n.role ≠ .leader) : PeersOk n := fun hl => absurd hl h

theorem PeersOk.failStorage (c : Ctx) (detail : String) : PeersOk (c.failStorage detail).node := by
  refine PeersOk.of_ne ?_
  rw [Ctx.failStorage_node]
  simp

theorem PeersOk.startPersist (h : PeersOk c.node) (free : c.node.pendingStorage = none)
    (batch : PersistBatch) (k : Continuation) : PeersOk (c.startPersist batch k).node :=
  startPersist_rule free (fun _ => PeersOk.failStorage c _) fun _ => h

/-- An append ends within the leader's storage. -/
theorem PeersOk.sendAppendTo (h : PeersOk c.node) (leader : c.node.role = .leader) {s : NodeId}
    {p : PeerProgress} (found : c.node.peers.find s = some p) (id : c.node.nextRpcId ≠ 0) :
    PeersOk (c.sendAppendTo s p).node := by
  obtain ⟨hlt, hle, -⟩ := h leader s p found
  -- The clamp of the source changes nothing, because the index is within bounds.
  have hnext : (if p.nextIndex < 1 then 1
      else if c.node.durableLastLogIndex + 1 < p.nextIndex then c.node.durableLastLogIndex + 1
      else p.nextIndex) = p.nextIndex := by
    rw [if_neg (by omega), if_neg (by omega)]
  unfold Ctx.sendAppendTo
  simp only [hnext]
  rw [if_neg id]
  intro _ s' q hq
  simp only [Ctx.sendMessage_node] at hq ⊢
  rw [OrdMap.find_insert] at hq
  split_ifs at hq with hs
  · obtain rfl := Option.some.inj hq
    refine ⟨hlt, hle, ?_⟩
    rintro sent ⟨⟩
    have hpack := (packEntries_isPrefix c.node.config.maxAppendBytesPerRpc
      ((c.node.log.drop (p.nextIndex - 1)).take (min
        (c.node.durableLastLogIndex - (p.nextIndex - 1)) c.node.config.maxAppendEntriesPerRpc))
      kAppendRpcOverhead).length_le
    have htake := hpack.trans (List.length_take_le _ _)
    simp only
    omega
  · exact h leader s' q hq

/-- **Every move keeps the peers in order.** -/
theorem PeersOk.micro (m : Micro n cause c c') (h : PeersOk c.node) : PeersOk c'.node := by
  cases m with
  | exhausted detail => exact PeersOk.failStorage c detail
  | overwrite => exact PeersOk.failStorage c _
  | persist batch k free => exact h.startPersist free batch k
  | commit target batch k free =>
    refine PeersOk.startPersist (c := { c with node := { c.node with commitIndex := target } })
      ?_ ?_ batch k
    · exact h
    · exact free
  | append peer progress leader free found idle id => exact h.sendAppendTo leader found id
  | apply e idle =>
    obtain ⟨machine, clients, sessions, hnode⟩ := applyEntry_node _ _ _
    rw [hnode]
    exact h
  | retire hint | campaign | abort => exact PeersOk.of_ne (by simp)
  | lead candidate =>
    intro _ s p hp
    obtain ⟨rfl, -⟩ := Ctx.freshPeers_find.mp hp
    exact ⟨Nat.succ_pos _, le_rfl, by simp⟩
  | remove index p found =>
    simp only [Ctx.removePending, Ctx.emitReplies_node]
    exact h
  | note s progress progress' sent response heard leader term found inflight id noted =>
    intro _ s' p hp
    have hold := h leader s progress found
    have hsent := hold.inflight sent inflight
    rw [OrdMap.find_insert] at hp
    split_ifs at hp with hs
    · obtain rfl := Option.some.inj hp
      have hlt := hold.match_lt
      have hle := hold.next_le
      cases noted with
      | short => exact ⟨hlt, hle, by simp⟩
      | matched => exact ⟨Nat.lt_succ_self _, by simp only; omega, by simp⟩
      | retried =>
        refine ⟨?_, ?_, by simp⟩
        all_goals simp only [Ctx.retryIndex]; omega
    · exact h leader s' p hp
  | age leader =>
    intro _ s p hp
    rw [OrdMap.find_mapValues] at hp
    obtain ⟨q, hq, rfl⟩ := Option.map_eq_some_iff.mp hp
    have hold := h leader s q hq
    unfold Ctx.ageInflight
    split_ifs
    · exact hold
    · exact ⟨hold.match_lt, hold.next_le, by simp⟩
    · exact { hold with }
  | _ => exact h

end Peers

section Books

variable {n : RaftNode} {cause : Cause} {c c' : Ctx} {token : ClientToken}
  {command : ClientCommand}

theorem filable_failStorage (c : Ctx) (detail : String) :
    Filable (c.failStorage detail).node.pendingClients
      (c.failStorage detail).node.pendingSessions := by
  rw [Ctx.failStorage_node]
  intro k p hp
  simp at hp

theorem filable_startPersist (h : Filable c.node.pendingClients c.node.pendingSessions)
    (free : c.node.pendingStorage = none) (batch : PersistBatch) (k : Continuation) :
    Filable (c.startPersist batch k).node.pendingClients
      (c.startPersist batch k).node.pendingSessions :=
  startPersist_rule (I := fun n => Filable n.pendingClients n.pendingSessions) free
    (fun _ => filable_failStorage c _) fun _ => h

/-- An entry leaves with its own session only. -/
theorem Filable.drop {clients : OrdMap ℕ PendingClientEntry} {sessions : OrdMap SessionId ℕ}
    (h : Filable clients sessions) (index : ℕ) (session : SessionId) :
    Filable (clients.erase index)
      (if sessions.find session = some index then sessions.erase session else sessions) := by
  intro k p hp
  rw [OrdMap.find_erase] at hp
  split_ifs at hp with hk
  have hold := h k p hp
  split_ifs with hs
  · rw [OrdMap.find_erase, if_neg]
    · exact hold
    · intro heq
      rw [heq] at hold
      exact hk (Option.some.inj (hold.symm.trans hs))
  · exact hold

/-- **Every move keeps the sessions in order.** -/
theorem filable_micro (m : Micro n cause c c')
    (h : Filable c.node.pendingClients c.node.pendingSessions) :
    Filable c'.node.pendingClients c'.node.pendingSessions := by
  cases m with
  | exhausted detail => exact filable_failStorage c detail
  | overwrite => exact filable_failStorage c _
  | persist batch k free => exact filable_startPersist h free batch k
  | commit target batch k free =>
    refine filable_startPersist
      (c := { c with node := { c.node with commitIndex := target } }) ?_ ?_ batch k
    · exact h
    · exact free
  | append peer progress leader free found idle id =>
    unfold Ctx.sendAppendTo
    simp only
    rw [if_neg id]
    exact h
  | apply e idle =>
    have hretires := retires_applyEntry c e
    intro k p hp
    rw [hretires.clients] at hp
    split_ifs at hp with hk
    exact hretires.sessions _ _ hk (h k p hp)
  | remove index p found =>
    simp only [Ctx.removePending, Ctx.emitReplies_node]
    exact h.drop index p.command.session
  | forget session index found absent =>
    intro k p hp
    have hold := h k p hp
    rw [OrdMap.find_erase, if_neg]
    · exact hold
    · intro heq
      rw [heq] at hold
      obtain rfl : k = index := Option.some.inj (hold.symm.trans found)
      exact absurd (absent.symm.trans hp) (by simp)
  | _ => exact h

theorem filable_intake (hin : Intake token command c c')
    (h : Filable c.node.pendingClients c.node.pendingSessions) :
    Filable c'.node.pendingClients c'.node.pendingSessions := by
  cases hin with
  | refuse => exact h
  | join index p session found =>
    intro k q hq
    rw [OrdMap.find_insert] at hq
    split_ifs at hq with hk
    · obtain rfl := Option.some.inj hq
      exact hk ▸ h index p found
    · exact h k q hq
  | enroll leader ready session =>
    intro k q hq
    rw [OrdMap.find_insert] at hq
    rw [OrdMap.find_insert]
    split_ifs at hq with hk
    · obtain rfl := Option.some.inj hq
      rw [if_pos rfl, hk]
    · -- No other entry is of this session.
      have hold := h k q hq
      rw [if_neg]
      · exact hold
      · intro heq
        rw [heq, session] at hold
        cases hold

end Books

section Queue

variable {n : RaftNode} {cause : Cause} {c c' : Ctx} {token : ClientToken}
  {command : ClientCommand}

theorem queueOk_failStorage (c : Ctx) (detail : String) : QueueOk (c.failStorage detail).node := by
  rw [Ctx.failStorage_node]
  exact ⟨Nat.zero_le _, fun _ => rfl⟩

theorem QueueOk.startPersist (h : QueueOk c.node) (free : c.node.pendingStorage = none)
    (batch : PersistBatch) (k : Continuation) : QueueOk (c.startPersist batch k).node :=
  startPersist_rule free (fun _ => queueOk_failStorage c _) fun _ => ⟨h.length_le, h.stopped⟩

/-- **No move defers an event.** -/
theorem QueueOk.micro (m : Micro n cause c c') (h : QueueOk c.node) : QueueOk c'.node := by
  cases m with
  | exhausted detail => exact queueOk_failStorage c detail
  | overwrite => exact queueOk_failStorage c _
  | persist batch k free => exact h.startPersist free batch k
  | commit target batch k free =>
    refine QueueOk.startPersist (c := { c with node := { c.node with commitIndex := target } })
      ?_ ?_ batch k
    · exact ⟨h.length_le, h.stopped⟩
    · exact free
  | append peer progress leader free found idle id =>
    unfold Ctx.sendAppendTo
    simp only
    rw [if_neg id]
    exact ⟨h.length_le, h.stopped⟩
  | apply e idle =>
    obtain ⟨machine, clients, sessions, hnode⟩ := applyEntry_node _ _ _
    rw [hnode]
    exact ⟨h.length_le, h.stopped⟩
  | retire hint | campaign | lead | abort => exact ⟨h.length_le, by simp⟩
  | remove index p found =>
    simp only [Ctx.removePending, Ctx.emitReplies_node]
    exact ⟨h.length_le, h.stopped⟩
  | _ => exact ⟨h.length_le, h.stopped⟩

theorem QueueOk.intake (hin : Intake token command c c') (h : QueueOk c.node) :
    QueueOk c'.node := by
  cases hin <;> exact ⟨h.length_le, h.stopped⟩

end Queue

/-! ### One step -/

/-- **The volatile state of a node.** A leader's log is at least as long as what its storage
has; a follower's may be shorter while it waits for a truncation. -/
structure Tidy (n : RaftNode) : Prop where
  peers : PeersOk n
  durable_le : n.role = .leader → n.durableLastLogIndex ≤ n.log.length
  filable : Filable n.pendingClients n.pendingSessions
  queue : QueueOk n

section Step

variable {n : RaftNode} {e : RaftEvent} {cause : Cause} {c c' : Ctx} {d : RecoveredState}
  {got : Set RaftEvent}

theorem Coherent.pending_of_down (h : Coherent d got n) (hr : n.role = .unavailable) :
    n.pendingStorage = none := by
  cases h.phase with
  | ready available | waiting p available => exact absurd hr available
  | down stopped pending => exact pending

theorem tidy_failStorage (c : Ctx) (detail : String) : Tidy (c.failStorage detail).node := by
  refine ⟨PeersOk.failStorage c detail, ?_, filable_failStorage c detail,
    queueOk_failStorage c detail⟩
  rw [Ctx.failStorage_node]
  simp

theorem Aside.tidy (ha : Aside n e c) (h : Tidy n) (hco : Coherent d got n) : Tidy c.node := by
  cases ha with
  | failed p error pending => exact tidy_failStorage _ _
  | deferred e event waits room =>
    refine ⟨h.peers, h.durable_le, h.filable, ?_, fun hr => ?_⟩
    · simpa using room
    · rw [hco.pending_of_down hr] at waits
      cases waits
  | _ => exact h

/-- The completed batch brings the storage of a leader up to its log. -/
theorem Tidy.marked (h : Tidy n) (p : PendingStorage) : Tidy (n.marked p).node := by
  have hle : n.role = .leader → n.durableLastLogIndex ≤ (n.marked p).node.durableLastLogIndex ∧
      (n.marked p).node.durableLastLogIndex ≤ n.log.length := by
    intro hl
    have hold := h.durable_le hl
    simp only [RaftNode.marked, Ctx.trace_node, Ctx.markDurable, RaftNode.lastLogIndex]
    split_ifs
    · exact ⟨hold, le_rfl⟩
    · exact ⟨le_rfl, hold⟩
  refine ⟨fun hl s q hq => ?_, fun hl => (hle hl).2, h.filable,
    ⟨h.queue.length_le, h.queue.stopped⟩⟩
  obtain ⟨hlt, hnext, hinflight⟩ := h.peers hl s q hq
  have hgrow := (hle hl).1
  exact ⟨hlt, by omega, fun sent hs => (hinflight sent hs).trans hgrow⟩

/-- **A leader comes out of a reaction with a log that its storage does not exceed.** -/
theorem Outcome.durable_le (o : Outcome n cause c c') (h : n.durableLastLogIndex ≤ n.log.length)
    (hl : c'.node.role = .leader) : c'.node.durableLastLogIndex ≤ c'.node.log.length := by
  cases o with
  | held hh => rwa [hh.core.log, hh.core.durableLastLogIndex]
  | waits batch k opId plan =>
    have happend : ∀ x, (n.log ++ [x]).length = n.log.length + 1 := by simp
    cases plan with
    | campaign hs new core | adopt term k higher core | commit target old core =>
      rwa [core.log, core.durableLastLogIndex]
    | grant candidate request w heard pos named term_le free fresh core =>
      rwa [core.log, core.durableLastLogIndex]
    | lead wins bound core
    | propose token command asked old ready acceptable admits bound room core =>
      rw [core.log, core.durableLastLogIndex, happend]
      omega
    | accept s request heard named fits keeps core role => simp [role] at hl
  | fails m batch k plan emits core pending role => simp [role] at hl

theorem Tidy.react (r : Reaction n e cause c c') (h : Tidy c.node) : Tidy c'.node := by
  have hdurable : c.node.durableLastLogIndex ≤ c.node.log.length := by
    have hlog : c.node.log = n.log := congrArg RecoveredState.log r.steady.memory
    rw [hlog]
    exact r.steady.durable
  refine ⟨?_, r.outcome.durable_le hdurable, ?_, ?_⟩
  · refine r.keeps (I := fun c => PeersOk c.node) (fun _ _ m h => h.micro m) ?_ (fun _ h => h)
      h.peers
    intro token command c₁ c₂ hin hc
    cases hin <;> exact hc
  · exact r.keeps (I := fun c => Filable c.node.pendingClients c.node.pendingSessions)
      (fun _ _ m h => filable_micro m h) (fun _ _ _ _ hin h => filable_intake hin h) (fun _ h => h)
      h.filable
  · exact r.keeps (I := fun c => QueueOk c.node) (fun _ _ m h => h.micro m)
      (fun _ _ _ _ hin h => h.intake hin) (fun _ h => h) h.queue

/-- **Every step keeps the volatile state tidy.** -/
theorem Tidy.step (h : Tidy n) (hco : Coherent d got n) (e : RaftEvent) : Tidy (n.step e).node := by
  refine TurnRule.step (I := fun c => Tidy c.node) ?_ hco
  refine ⟨fun c ha => ha.tidy h hco, fun _ => h, fun p _ => h.marked p, ?_, fun r hc => hc.react r⟩
  intro c x rest hq idle hc
  refine ⟨hc.peers, hc.durable_le, hc.filable, ?_, fun hr => absurd hr idle.available⟩
  have hle := hc.queue.length_le
  rw [hq, List.length_cons] at hle
  exact Nat.le_of_succ_le hle

/-- The loop over the queue ends when the queue is empty or the node waits again. -/
theorem drain_deferredEvents (fuel : ℕ) (c : Ctx) (hlen : c.node.deferredEvents.length ≤ fuel)
    (idle : (c.drain fuel).node.Idle) : (c.drain fuel).node.deferredEvents = [] := by
  induction fuel generalizing c with
  | zero => exact List.eq_nil_of_length_eq_zero (Nat.le_zero.mp hlen)
  | succ fuel ih =>
    by_cases hb : c.node.Busy
    · rw [drain_of_busy hb] at idle
      exact absurd hb idle.not_busy
    have hidle := RaftNode.idle_of_not_busy hb
    cases hq : c.node.deferredEvents with
    | nil =>
      rw [Ctx.drain, hq]
      simp only [ite_self]
      exact hq
    | cons x rest =>
      rw [drain_succ_of_idle hidle hq] at idle ⊢
      have hbusy : ((c.pop rest).dispatch x).node.Busy →
          (((c.pop rest).dispatch x).drain fuel).node.deferredEvents = [] := by
        intro hb'
        rw [drain_of_busy hb'] at idle
        exact absurd hb' idle.not_busy
      cases outcome_dispatch (c.pop rest) hidle.free x with
      | waits batch k opId plan pending => exact hbusy (Or.inl (by simp [pending]))
      | fails m batch k plan emits core pending role => exact hbusy (Or.inr role)
      | held hh =>
        refine ih _ ?_ idle
        rw [hq, List.length_cons] at hlen
        rcases hh.core.deferred with hd | hd
        · rw [hd]
          exact Nat.le_of_succ_le_succ hlen
        · simp [hd]

/-- **Nothing is left in the queue of a node that waits for nothing.** -/
theorem Tidy.drained (h : Tidy (n.step e).node) (hp : (n.step e).node.pendingStorage = none) :
    (n.step e).node.deferredEvents = [] := by
  by_cases hr : (n.step e).node.role = .unavailable
  · exact h.queue.stopped hr
  · obtain ⟨c, -, hstep⟩ := n.step_eq_drain e
    rw [hstep] at hp hr ⊢
    exact drain_deferredEvents _ c le_rfl ⟨hp, hr⟩

end Step

/-! ### Whole runs -/

/-- **The structure of a node.** -/
structure RaftNode.Structured (n : RaftNode) : Prop where
  log : ∀ k e, n.log[k]? = some e → e.index = k + 1 ∧ 1 ≤ e.term ∧ e.term ≤ n.currentTerm
  applied_le : n.lastApplied ≤ n.commitIndex
  commit_le : n.commitIndex ≤ n.log.length
  durable : n.pendingStorage = none → n.role ≠ .unavailable → n.durableLastLogIndex = n.log.length
  deferred_le : n.deferredEvents.length ≤ n.config.maxDeferredEvents
  deferred_nil : n.pendingStorage = none → n.deferredEvents = []
  peers : n.role = .leader → ∀ s p, n.peers.find s = some p →
    p.matchIndex < p.nextIndex ∧ p.nextIndex ≤ n.durableLastLogIndex + 1
  pending : ∀ k p, n.pendingClients.find k = some p → n.lastApplied < k ∧ k ≤ n.log.length ∧
    ∃ e, entryAt n.log k = some e ∧ e.command = some p.command
  sessions : ∀ s k, n.pendingSessions.find s = some k ↔
    ∃ p, n.pendingClients.find k = some p ∧ p.command.session = s

namespace Driven

/-- Everything that is kept along a run. -/
structure Kept (s : Driven) : Prop where
  coherent : Coherent s.durable s.got s.node
  ledger : Ledger s.got { node := s.node }
  tidy : Tidy s.node
  drained : s.node.pendingStorage = none → s.node.deferredEvents = []

variable {s : Driven}

theorem Kept.step (h : s.Kept) (i : Input) : (s.step i).Kept := by
  have hco := (s.gated_step h.coherent i).coherent
  cases i with
  | start =>
    refine ⟨hco, ?_, ?_, ?_⟩ <;> simp only [Driven.step, Driven.ctx] <;>
      rcases start_cases s.node with heq | heq <;> rw [heq]
    · exact h.ledger
    · exact h.ledger.setNode ⟨rfl, le_rfl, fun hl => ⟨hl, rfl, rfl⟩⟩
    · exact h.tidy
    · exact { h.tidy with queue := ⟨h.tidy.queue.length_le, h.tidy.queue.stopped⟩ }
    · exact h.drained
    · exact h.drained
  | event e =>
    have hsub : ∀ x ∈ s.got, x ∈ (s.step (.event e)).got := fun x hx => List.mem_append_left _ hx
    have he : e ∈ (s.step (.event e)).got := List.mem_append_right _ (List.mem_singleton.mpr rfl)
    have htidy := h.tidy.step h.coherent e
    have hbook := ((h.coherent.mono hsub).bookRule (h.ledger.mono hsub) he).step
    exact ⟨hco, hbook.2.forget, htidy, htidy.drained⟩

theorem Kept.run (h : s.Kept) (inputs : List Input) : (s.run inputs).Kept := by
  induction inputs generalizing s with
  | nil => exact h
  | cons i rest ih => exact ih (h.step i)

theorem kept_create {config : RaftConfig} {recovered : RecoveredState} {n : RaftNode}
    (hn : RaftNode.create config recovered = .ok n) :
    Kept { node := n, durable := recovered } := by
  refine ⟨coherent_create hn _, ledger_create hn, ?_, ?_⟩ <;>
    obtain ⟨-, rfl⟩ := RaftNode.create_eq_ok.mp hn
  · refine ⟨PeersOk.of_ne (by simp [RaftNode.ofRecovered]), by simp [RaftNode.ofRecovered], ?_,
      Nat.zero_le _, fun _ => rfl⟩
    intro k p hp
    simp [RaftNode.ofRecovered] at hp
  · exact fun _ => rfl

theorem Kept.structured (h : s.Kept) : s.node.Structured where
  log k e he := by
    obtain ⟨hpos, hle, -⟩ := h.coherent.formed.entries e (List.mem_of_getElem? he)
    have hidx := h.coherent.formed.indexed k e he
    exact ⟨by omega, Nat.one_le_iff_ne_zero.mpr hpos, hle⟩
  applied_le := h.ledger.filed.applied_le.trans h.ledger.filed.durable_le
  commit_le := h.coherent.formed.commit_le
  durable hp hr := by
    rw [h.coherent.lastIndex, ← h.coherent.ready hr hp]
    rfl
  deferred_le := h.tidy.queue.length_le
  deferred_nil := h.drained
  peers hl s p hp := ⟨(h.tidy.peers hl s p hp).match_lt, (h.tidy.peers hl s p hp).next_le⟩
  pending k p hp := by
    have hok := h.ledger.filed.pending k p hp
    exact ⟨hok.unapplied, hok.index_le, hok.entry⟩
  sessions session k := by
    refine ⟨h.ledger.filed.sessions session k, ?_⟩
    rintro ⟨p, hp, rfl⟩
    exact h.tidy.filable k p hp

/-- **The structural invariant under arbitrary input.** Whatever sequence of inputs a node
that the constructor accepts is given, no input raises an exception and every state is
structured. -/
theorem structured_run {config : RaftConfig} {recovered : RecoveredState} {n : RaftNode}
    (hn : RaftNode.create config recovered = .ok n) (inputs : List Input) :
    (run { node := n, durable := recovered } inputs).node.Structured ∧
      ∀ i, ((run { node := n, durable := recovered } inputs).ctx i).thrown = none := by
  have h := (kept_create hn).run inputs
  exact ⟨h.structured, fun i => (Driven.gated_step _ h.coherent i).thrown⟩

/-! A node of three is elected, commits its readiness entry and takes a command of a client.
An answer to an append that it has not sent comes in between. -/

/-- A node of three. -/
def sampleConfig : RaftConfig := { nodeId := 1, members := [1, 2, 3] }

/-- Its run. -/
def sampleInputs : List Input :=
  [.start, .event (.timerFired .election 1), .event (.storageComplete 1 true ""),
   .event (.messageReceived ⟨2, 1, .requestVoteResponse ⟨1, true⟩⟩),
   .event (.storageComplete 2 true ""),
   .event (.messageReceived ⟨3, 1, .appendEntriesResponse ⟨1, 99, true, 1000, 0, 0⟩⟩),
   .event (.messageReceived ⟨2, 1, .appendEntriesResponse ⟨1, 1, true, 1, 0, 0⟩⟩),
   .event (.storageComplete 3 true ""),
   .event (.clientRequest 7 { session := ⟨0, 5⟩, sequence := 1, kind := .put
                              key := [107], value := [] })]

theorem structured_run_sample :
    let s := run { node := RaftNode.ofRecovered sampleConfig {}, durable := {} } sampleInputs
    (s.node.role = .leader ∧ s.node.lastApplied = 1 ∧ s.node.pendingClients.keys = [2]) ∧
      s.node.Structured ∧ ∀ i, (s.ctx i).thrown = none := by
  have hcreate : RaftNode.create sampleConfig {} =
      .ok (RaftNode.ofRecovered sampleConfig {}) := by decide +kernel
  exact ⟨by decide +kernel, structured_run hcreate sampleInputs⟩

end Driven

end DetLog
