import DetLog.InFlight

/-!
# Log repair

A leader and a follower of its term, left to themselves: the leader has an append in flight,
the follower answers it, the leader notes the answer and sends the next one, and storage
completes what it is given. Nothing is lost and nobody else acts
(`DetLog.Cluster.exchange` is one such round). Then the follower's log comes to agree with
the leader's, and the leader knows it (`DetLog.Cluster.repair_converges`).

* **A refusal lowers the next index.** The follower's hint lies before the append, because
  two logs that hold an entry of the same term at some index hold the same entries below it;
  so the leader's last entry of the conflicting term, if it has one, comes before the place
  where the logs differ.
* **The next index stays above the match index.** What a peer has acknowledged in this term
  it still holds (`Consensus.History.Holding`), so an append right behind it is not refused.
* **A confirmation raises the match index**, unless the append was empty. An empty append
  that was in flight from before is the only round without progress, and it happens once.

The exchange ends early only if a counter has run out and a node has stopped
(`DetLog.Cluster.Stopped`). It has to be undisturbed, too: a node that waits for storage may
have deferred something else meanwhile, and acts on it as soon as the storage answers
(`DetLog.Cluster.repair_disturbed`).
-/

namespace DetLog

variable {l f : NodeId} {S : Cluster}

open Consensus Consensus.History

/-! ### The exchange -/

/-- The append in flight to a peer, if this message is it. -/
def InflightAppend.carried (a : InflightAppend) (l f T : ℕ) (m : MessageEnvelope) :
    Option AppendEntries :=
  match m.message with
  | .appendEntries r =>
    if m.sender = l ∧ m.target = f ∧ r.leaderId = l ∧ r.term = T ∧ r.rpcId = a.rpcId ∧
        r.prevLogIndex = a.prevIndex ∧ r.prevLogIndex + r.entries.length = a.lastIndex then some r
    else none
  | _ => none

/-- The answer of a follower to an append, if this message is one. -/
def AppendEntries.answeredBy (r : AppendEntries) (l f : NodeId) (m : MessageEnvelope) :
    Option AppendEntriesResponse :=
  match m.message with
  | .appendEntriesResponse x =>
    if m.sender = f ∧ m.target = l ∧ x.rpcId = r.rpcId then some x else none
  | _ => none

namespace Cluster

variable (config : RaftConfig) (l f : NodeId) (S : Cluster)

/-- An action, if the environment can take it. -/
def perform (a : Action) : Cluster := ((S.step config a).map Prod.fst).getD S

/-- The storage of a host completes what it is given; a leader that has committed writes
once more. -/
def settle (i : NodeId) : Cluster := (S.perform config (.complete i)).perform config (.complete i)

/-- What the leader knows of the follower. -/
def progress : Option PeerProgress := (S.node l).bind fun n => n.peers.find f

/-- The heartbeat of the leader, unless an append to the follower is in flight. -/
def prompt : Cluster :=
  match S.node l, S.progress l f with
  | some n, some p =>
    if p.inflight = none then S.perform config (.timer l .heartbeat n.heartbeatGeneration) else S
  | _, _ => S

/-- The leader has nothing left to do but to wait for the answer to an append. -/
def posed : Cluster := ((S.settle config f).settle config l).prompt config l f

/-- The append in flight. -/
def request : Option AppendEntries :=
  match S.node l, S.progress l f with
  | some n, some p => p.inflight.bind fun a => S.sent.findSome? (a.carried l f n.currentTerm)
  | _, _ => none

/-- The follower has received the append, and its storage has completed. -/
def asked : Cluster :=
  match (S.posed config l f).request l f with
  | some r =>
    ((S.posed config l f).perform config (.deliver ⟨l, f, .appendEntries r⟩)).settle config f
  | none => S.posed config l f

/-- The answer of the follower. -/
def reply : Option AppendEntriesResponse :=
  ((S.posed config l f).request l f).bind fun r =>
    ((S.asked config l f).sent.drop (S.posed config l f).sent.length).findSome? (r.answeredBy l f)

/-- **One round of the exchange.** -/
def exchange : Cluster :=
  match S.reply config l f with
  | some x =>
    ((S.asked config l f).perform config
      (.deliver ⟨f, l, .appendEntriesResponse x⟩)).settle config l
  | none => S.asked config l f

variable {config l f S}

theorem asked_of_some {r : AppendEntries} (h : (S.posed config l f).request l f = some r) :
    S.asked config l f = ((S.posed config l f).perform config
      (.deliver ⟨l, f, .appendEntries r⟩)).settle config f := by
  unfold asked
  rw [h]

theorem asked_of_none (h : (S.posed config l f).request l f = none) :
    S.asked config l f = S.posed config l f := by
  unfold asked
  rw [h]

theorem exchange_of_some {x : AppendEntriesResponse} (h : S.reply config l f = some x) :
    S.exchange config l f = ((S.asked config l f).perform config
      (.deliver ⟨f, l, .appendEntriesResponse x⟩)).settle config l := by
  unfold exchange
  rw [h]

theorem exchange_of_none (h : S.reply config l f = none) :
    S.exchange config l f = S.asked config l f := by
  unfold exchange
  rw [h]

variable (l f S)

/-- The leader knows that the follower holds its durable log. -/
def Repaired : Prop :=
  ∃ n m p, S.node l = some n ∧ S.node f = some m ∧ n.role = .leader ∧
    n.peers.find f = some p ∧ p.matchIndex = n.durableLastLogIndex ∧
    m.log.take n.durableLastLogIndex = n.log.take n.durableLastLogIndex

/-- One of the two has stopped because a counter ran out. -/
def Stopped : Prop := ∃ i n, (i = l ∨ i = f) ∧ S.node i = some n ∧ n.Spent

end Cluster

/-! ### Single actions -/

section Actions

variable {config : RaftConfig} {l f i : NodeId} {S S' : Cluster} {n m : RaftNode} {c : Ctx}

namespace Cluster

/-- The node of one host has made a transition, and nothing else has happened. -/
structure Reacted (S S' : Cluster) (i : NodeId) (c : Ctx) : Prop where
  node : S'.node i = some c.node
  others : ∀ j ≠ i, S'.node j = S.node j
  sent : S'.sent = S.sent ++ c.sends

section

variable (hS : Reachable config S)
include hS

theorem reachable_perform (a : Action) : Reachable config (S.perform config a) := by
  unfold perform
  cases hstep : S.step config a with
  | none => exact hS
  | some next => exact hS.tail ⟨a, next.2, hstep⟩

theorem reachable_settle (i : NodeId) :
    Reachable config (S.settle config i) := reachable_perform (reachable_perform hS _) _

theorem reachable_prompt (l f : NodeId) : Reachable config (S.prompt config l f) := by
  unfold prompt
  split
  · split_ifs
    · exact reachable_perform hS _
    · exact hS
  · exact hS

theorem reachable_posed (l f : NodeId) : Reachable config (S.posed config l f) :=
  reachable_prompt (reachable_settle (reachable_settle hS f) l) l f

theorem reachable_asked (l f : NodeId) : Reachable config (S.asked config l f) := by
  unfold asked
  split
  · exact reachable_settle (reachable_perform (reachable_posed hS l f) _) f
  · exact reachable_posed hS l f

theorem reachable_exchange (l f : NodeId) : Reachable config (S.exchange config l f) := by
  unfold exchange
  split
  · exact reachable_settle (reachable_perform (reachable_asked hS l f) _) l
  · exact reachable_asked hS l f

end

theorem reacted_absorb (S : Cluster) (i : NodeId) (host : Host) (c : Ctx) :
    Reacted S (S.absorb i host c) i c where
  node := by rw [Cluster.node, hosts_absorb_self]
  others j hj := by rw [Cluster.node, hosts_absorb_of_ne _ _ _ _ hj, Cluster.node]
  sent := rfl

theorem reacted_timer (hn : S.node i = some n) (kind : TimerKind) (generation : ℕ) :
    Reacted S (S.perform config (.timer i kind generation)) i
      (n.step (.timerFired kind generation)) := by
  have hstep : S.perform config (.timer i kind generation) =
      S.absorb i (S.hosts i) (n.step (.timerFired kind generation)) := by
    simp only [perform, step, react]
    rw [show (S.hosts i).node = some n from hn]
    rfl
  rw [hstep]
  exact reacted_absorb _ _ _ _

theorem reacted_deliver {envelope : MessageEnvelope} (hsent : envelope ∈ S.sent)
    (hn : S.node envelope.target = some n) :
    Reacted S (S.perform config (.deliver envelope)) envelope.target
      (n.step (.messageReceived envelope)) := by
  have hstep : S.perform config (.deliver envelope) = S.absorb envelope.target
      (S.hosts envelope.target) (n.step (.messageReceived envelope)) := by
    simp only [perform, step, if_pos hsent, react]
    rw [show (S.hosts envelope.target).node = some n from hn]
    rfl
  rw [hstep]
  exact reacted_absorb _ _ _ _

/-- A completion reaches a node that waits, and changes nothing otherwise. -/
theorem complete_cases (hS : Reachable config S) (hn : S.node i = some n) :
    (n.pendingStorage = none ∧ S.perform config (.complete i) = S) ∨
      ∃ p, n.pendingStorage = some p ∧ Reacted S (S.perform config (.complete i)) i
        (n.step (.storageComplete p.opId true "")) := by
  obtain ⟨h, hr⟩ := exists_related hS
  have hnode : (S.hosts i).node = some n := hn
  -- A node that waits has its batch on the device.
  have hidle : (∀ p, (S.hosts i).disk ≠ .writing p) → S.perform config (.complete i) = S := by
    intro hdisk
    simp only [perform, step]
    cases hd : (S.hosts i).disk with
    | writing p => exact absurd hd (hdisk p)
    | idle | failed p => rfl
  cases (hr.on hn).stage with
  | ready available pending device =>
    exact Or.inl ⟨pending, hidle (by simp [device])⟩
  | down stopped pending device =>
    refine Or.inl ⟨pending, hidle ?_⟩
    rcases device with device | ⟨p, op, device, -⟩ <;> simp [device]
  | waiting p op available pending device =>
    refine Or.inr ⟨p, pending, ?_⟩
    have hstep : S.perform config (.complete i) = S.absorb i
        { S.hosts i with completed := (S.hosts i).completed ++ [p.batch], disk := .idle }
        (n.step (.storageComplete p.opId true "")) := by
      simp only [perform, step, device, answer, react, hnode]
      rfl
    rw [hstep]
    exact reacted_absorb _ _ _ _

end Cluster

end Actions

/-! ### The two sides between the actions -/

/-- A leader with its log, and what it knows of one peer. -/
structure Leads (S : Cluster) (l f : NodeId) (T : ℕ) (L : List LogEntry) (n : RaftNode)
    (p : PeerProgress) : Prop where
  on : S.node l = some n
  role : n.role = .leader
  term : n.currentTerm = T
  log : n.log = L
  queue : n.deferredEvents = []
  peer : n.peers.find f = some p

/-- A follower of a term. -/
structure Heeds (S : Cluster) (f : NodeId) (T : ℕ) (m : RaftNode) : Prop where
  on : S.node f = some m
  role : m.role = .follower
  term : m.currentTerm = T
  queue : m.deferredEvents = []

section Sides

variable {config : RaftConfig} {l f i : NodeId} {S S' : Cluster} {n n' m : RaftNode} {T : ℕ}
  {L : List LogEntry} {p p' : PeerProgress}

theorem Leads.of_node (h : Leads S l f T L n p) (hnode : S'.node l = S.node l) :
    Leads S' l f T L n p := { h with on := hnode.trans h.on }

theorem Leads.progress (h : Leads S l f T L n p) : S.progress l f = some p := by
  rw [Cluster.progress, h.on, Option.bind_some, h.peer]

theorem Heeds.of_node (h : Heeds S f T m) (hnode : S'.node f = S.node f) : Heeds S' f T m :=
  ⟨hnode.trans h.on, h.role, h.term, h.queue⟩

theorem Leads.goesOn (h : Leads S l f T L n p) (hgo : GoesOn n n') (on : S'.node l = some n')
    (peer : n'.peers.find f = some p') : Leads S' l f T L n' p' :=
  ⟨on, hgo.role.trans h.role, (congrArg HardState.currentTerm hgo.hardState).trans h.term,
    hgo.log.trans h.log, hgo.deferred.trans h.queue, peer⟩

theorem Heeds.remains {m' : RaftNode} (h : Heeds S f T m) (hgo : Remains m m')
    (on : S'.node f = some m') : Heeds S' f T m' :=
  ⟨on, hgo.role.trans h.role, (congrArg HardState.currentTerm hgo.hardState).trans h.term,
    hgo.deferred.trans h.queue⟩

section

variable (hS : Cluster.Reachable config S) (hn : S.node i = some n)
include hS hn

/-- A node that has stopped is not written to. -/
theorem complete_of_down (hr : n.role = .unavailable) : S.perform config (.complete i) = S := by
  obtain ⟨h, hrel⟩ := exists_related hS
  have hfree := (hrel.on hn).coherent.pending_of_down hr
  rcases Cluster.complete_cases hS hn with ⟨-, heq⟩ | ⟨q, hq, -⟩
  · exact heq
  · simp [hfree] at hq

theorem complete_of_free (hfree : n.pendingStorage = none) :
    S.perform config (.complete i) = S := by
  rcases Cluster.complete_cases hS hn with ⟨-, heq⟩ | ⟨q, hq, -⟩
  · exact heq
  · simp [hfree] at hq

theorem settle_of_free (hfree : n.pendingStorage = none) : S.settle config i = S := by
  unfold Cluster.settle
  rw [complete_of_free hS hn hfree, complete_of_free hS hn hfree]

end

theorem Coherent.durable_eq {d : RecoveredState} {got : Set RaftEvent} (h : Coherent d got n)
    (idle : n.Idle) : n.durableLastLogIndex = n.log.length := by
  rw [h.lastIndex, ← h.ready idle.available idle.free]
  rfl

theorem Coherent.durable_marked_eq {d : RecoveredState} {got : Set RaftEvent}
    (h : Coherent d got n) {q : PendingStorage} (hq : n.pendingStorage = some q) :
    (n.marked q).node.durableLastLogIndex = n.log.length := by
  obtain ⟨hco, hr, -⟩ := h.complete hq
  exact hco.durable_eq ⟨rfl, hr⟩

/-- **The storage of a follower completes**: it waits for nothing any more. -/
theorem Heeds.settle (h : Heeds S f T m) (hS : Cluster.Reachable config S) :
    ∃ m', Heeds (S.settle config f) f T m' ∧ m'.pendingStorage = none ∧ m'.log = m.log ∧
      (∀ j ≠ f, (S.settle config f).node j = S.node j) ∧
      ((m.pendingStorage = none ∧ S.settle config f = S) ∨ ∃ q, m.pendingStorage = some q ∧
        (S.settle config f).sent = S.sent ++ ((m.marked q).resume q.afterSuccess).sends) := by
  unfold Cluster.settle
  rcases Cluster.complete_cases hS h.on with ⟨hfree, heq⟩ | ⟨q, hq, hreact⟩
  · rw [heq, heq]
    exact ⟨m, h, hfree, rfl, fun _ _ => rfl, Or.inl ⟨hfree, rfl⟩⟩
  · obtain ⟨hist, hrel⟩ := exists_related hS
    have hlen : (m.marked q).node.commitIndex ≤ (m.marked q).node.log.length :=
      (hrel.on h.on).coherent.formed.commit_le
    have hmarked : Remains m (m.marked q).node := ⟨rfl, rfl, rfl, rfl⟩
    have hrole : (m.marked q).node.role = .follower := h.role
    obtain ⟨hgo, -, hpending⟩ := resume_goesOn (by simp [hrole]) hlen q.afterSuccess
      fun hl => by simp [hrole] at hl
    have hstep := step_eq_resume hq (Or.inl (hgo.deferred.trans h.queue)) ""
    rw [hstep] at hreact
    have hfree : ((m.marked q).resume q.afterSuccess).node.pendingStorage = none := hpending
    rw [complete_of_free (Cluster.reachable_perform hS _) hreact.node hfree]
    exact ⟨_, h.remains (hmarked.trans hgo.toRemains) hreact.node, hfree, hgo.log, hreact.others,
      Or.inr ⟨q, hq, hreact.sent⟩⟩

/-- Every entry of the leader fits in one append. -/
def RaftConfig.Carriable (config : RaftConfig) (L : List LogEntry) : Prop :=
  ∀ e ∈ L, entryBytes e ≤ config.maxAppendBytesPerRpc - kAppendRpcOverhead

theorem prepared_of_tidy (ht : Tidy n) (hr : n.role = .leader) (hb : n.config.boundsValid = true)
    (hconfig : n.config = (config.forNode i).sorted) (fits : config.Carriable n.log) :
    Prepared n := by
  refine ⟨hr, fun s q hq => ⟨(ht.peers hr s q hq).match_lt, (ht.peers hr s q hq).next_le⟩,
    ht.durable_le hr, ?_, ?_⟩
  · simp only [RaftConfig.boundsValid, decide_eq_true_eq] at hb
    exact hb.2.2.2.2.2.2.2.1
  · rw [hconfig]
    exact fits

variable (h : Leads S l f T L n p) (hS : Cluster.Reachable config S) (fits : config.Carriable L)
include h hS fits

/-- **The storage of a leader completes**: it goes on, and waits at most for its commit
index. -/
theorem Leads.complete : (∀ j ≠ l, (S.perform config (.complete l)).node j = S.node j) ∧
    ((∃ n', (S.perform config (.complete l)).node l = some n' ∧ n'.Spent) ∨
      ∃ n' p', Leads (S.perform config (.complete l)) l f T L n' p' ∧ PeerKept L.length p p' ∧
        (n'.pendingStorage = none ∨
          (∀ q, n.pendingStorage = some q → q.afterSuccess ≠ .commitAdvanced) ∧
            ∃ q, n'.pendingStorage = some q ∧ q.afterSuccess = .commitAdvanced)) := by
  rcases Cluster.complete_cases hS h.on with ⟨hfree, heq⟩ | ⟨q, hq, hreact⟩
  · rw [heq]
    exact ⟨fun _ _ => rfl, Or.inr ⟨n, p, h, .refl _ p, Or.inl hfree⟩⟩
  · obtain ⟨hist, hrel⟩ := exists_related hS
    have hn := hrel.on h.on
    have hpoised := Cluster.poised hS h.on
    have hprep : Prepared (n.marked q).node := prepared_of_tidy (hpoised.tidy.marked q) h.role
      hpoised.bounds hn.config_eq (h.log ▸ fits)
    have hdurable := hn.coherent.durable_marked_eq hq
    have hlen : (n.marked q).node.commitIndex ≤ (n.marked q).node.log.length :=
      hn.coherent.formed.commit_le
    rcases hprep.resume rfl hlen q.afterSuccess with ⟨hup, hwaits⟩ | hspent
    · have hqueue : ((n.marked q).resume q.afterSuccess).node.deferredEvents = [] :=
        hup.deferred.trans h.queue
      rw [step_eq_resume hq (Or.inl hqueue) ""] at hreact
      obtain ⟨p', hp', kept⟩ := hup.find h.peer
      rw [hdurable, h.log] at kept
      refine ⟨hreact.others, Or.inr ⟨_, p', ?_, kept, hwaits.imp_right fun hw => ⟨?_, hw.2⟩⟩⟩
      · exact ⟨hreact.node, hup.role.trans h.role,
          (congrArg HardState.currentTerm hup.hardState).trans h.term, hup.log.trans h.log,
          hqueue, hp'⟩
      · intro q' hq'
        obtain rfl : q = q' := Option.some.inj (hq.symm.trans hq')
        exact hw.1
    · rw [step_eq_resume hq (Or.inr hspent.1) ""] at hreact
      exact ⟨hreact.others, Or.inl ⟨_, hreact.node, hspent⟩⟩

theorem Leads.settle : (∀ j ≠ l, (S.settle config l).node j = S.node j) ∧
    ((∃ n', (S.settle config l).node l = some n' ∧ n'.Spent) ∨
      ∃ n' p', Leads (S.settle config l) l f T L n' p' ∧ PeerKept L.length p p' ∧
        n'.pendingStorage = none) := by
  unfold Cluster.settle
  have hS₁ := Cluster.reachable_perform hS (.complete l)
  obtain ⟨hothers, ⟨n₁, hn₁, hspent⟩ | ⟨n₁, p₁, h₁, kept₁, hwaits₁⟩⟩ := h.complete hS fits
  · rw [complete_of_down hS₁ hn₁ hspent.1]
    exact ⟨hothers, Or.inl ⟨n₁, hn₁, hspent⟩⟩
  · obtain ⟨hothers₂, hcases⟩ := h₁.complete hS₁ fits
    refine ⟨fun j hj => (hothers₂ j hj).trans (hothers j hj), hcases.imp_right ?_⟩
    rintro ⟨n₂, p₂, h₂, kept₂, hwaits₂⟩
    refine ⟨n₂, p₂, h₂, kept₁.trans kept₂, ?_⟩
    -- Only the batch of its commit index is still to come, and nothing comes after that.
    rcases hwaits₂ with hfree | ⟨hne, q', hq', -⟩
    · exact hfree
    · rcases hwaits₁ with hfree | ⟨-, q, hq, hk⟩
      · obtain rfl : n₂ = n₁ := by
          have hsame := h₂.on
          rw [complete_of_free hS₁ h₁.on hfree] at hsame
          exact Option.some.inj (hsame.symm.trans h₁.on)
        exact hfree
      · exact absurd hk (hne q hq)

/-- **The heartbeat** makes sure that an append is in flight. -/
theorem Leads.prompt (free : n.pendingStorage = none) :
    (∀ j ≠ l, (S.prompt config l f).node j = S.node j) ∧
    ((∃ n', (S.prompt config l f).node l = some n' ∧ n'.Spent) ∨
      ∃ n' p' a, Leads (S.prompt config l f) l f T L n' p' ∧ PeerKept L.length p p' ∧
        n'.pendingStorage = none ∧ p'.inflight = some a) := by
  have hprogress := h.progress
  unfold Cluster.prompt
  rw [h.on, hprogress]
  simp only
  by_cases hidle : p.inflight = none
  · rw [if_pos hidle]
    obtain ⟨hist, hrel⟩ := exists_related hS
    have hn := hrel.on h.on
    have hpoised := Cluster.poised hS h.on
    have idle : n.Idle := ⟨free, by simp [h.role]⟩
    have hprep : Prepared n := prepared_of_tidy hpoised.tidy h.role hpoised.bounds hn.config_eq
      (h.log ▸ fits)
    have hreact : Cluster.Reacted S
        (S.perform config (.timer l .heartbeat n.heartbeatGeneration)) l _ :=
      Cluster.reacted_timer h.on .heartbeat n.heartbeatGeneration
    have hstep := step_eq_dispatch (e := .timerFired .heartbeat n.heartbeatGeneration) idle id
    rcases Prepared.heartbeat (c := { node := n }) hprep free h.peer hidle with
      ⟨hgo, hfree, p', hp', kept, hsent⟩ | hspent
    · rw [hstep (Or.inl (hgo.deferred.trans h.queue))] at hreact
      obtain ⟨a, ha⟩ := Option.ne_none_iff_exists'.mp hsent
      have hdurable : n.durableLastLogIndex = L.length := h.log ▸ hn.coherent.durable_eq idle
      simp only [hdurable] at kept
      exact ⟨hreact.others, Or.inr ⟨_, p', a, h.goesOn hgo hreact.node hp', kept, hfree, ha⟩⟩
    · rw [hstep (Or.inr hspent.1)] at hreact
      exact ⟨hreact.others, Or.inl ⟨_, hreact.node, hspent⟩⟩
  · rw [if_neg hidle]
    obtain ⟨a, ha⟩ := Option.ne_none_iff_exists'.mp hidle
    exact ⟨fun _ _ => rfl, Or.inr ⟨n, p, a, h, .refl _ p, free, ha⟩⟩

end Sides

/-! ### A node that has stopped -/

/-- The actions of the exchange. -/
def Action.IsExchange : Action → Prop
  | .complete _ | .timer _ _ _ | .deliver _ => True
  | _ => False

namespace Cluster

variable {config : RaftConfig} {l f i : NodeId} {S : Cluster} {n : RaftNode}

theorem node_perform_of_ne (a : Action) (hi : i ≠ a.actor) :
    (S.perform config a).node i = S.node i := by
  unfold perform
  cases hstep : S.step config a with
  | none => rfl
  | some next => exact congrArg Host.node ((move_of_step hstep).hosts_of_ne hi)

section

variable (hS : Reachable config S) (hn : S.node i = some n) (hr : n.role = .unavailable)
include hS hn hr

/-- **A node that has stopped stays as it is** and says nothing. -/
theorem perform_of_down {a : Action} (ha : a.IsExchange) : (S.perform config a).node i = some n ∧
      (a.actor = i → (S.perform config a).sent = S.sent) := by
  obtain ⟨h, hrel⟩ := exists_related hS
  have hfree := (hrel.on hn).coherent.pending_of_down hr
  have hreact : ∀ {S'}, Reacted S S' i { node := n } → S'.node i = some n ∧ S'.sent = S.sent :=
    fun h => ⟨h.node, by rw [h.sent]; exact List.append_nil _⟩
  by_cases hi : i = a.actor
  swap
  · exact ⟨(node_perform_of_ne a hi).trans hn, fun h => absurd h.symm hi⟩
  suffices hboth : (S.perform config a).node i = some n ∧ (S.perform config a).sent = S.sent from
    ⟨hboth.1, fun _ => hboth.2⟩
  cases a with
  | complete j =>
    obtain rfl : i = j := hi
    rw [complete_of_down hS hn hr]
    exact ⟨hn, rfl⟩
  | timer j kind generation =>
    obtain rfl : i = j := hi
    have htimer : Reacted S (S.perform config (.timer i kind generation)) i _ :=
      reacted_timer hn kind generation
    rw [step_of_down (e := .timerFired kind generation) hfree hr trivial] at htimer
    exact hreact htimer
  | deliver envelope =>
    obtain rfl : i = envelope.target := hi
    by_cases hsent : envelope ∈ S.sent
    · have hdeliver : Reacted S (S.perform config (.deliver envelope)) envelope.target _ :=
        reacted_deliver hsent hn
      rw [step_of_down (e := .messageReceived envelope) hfree hr trivial] at hdeliver
      exact hreact hdeliver
    · have hsame : S.perform config (.deliver envelope) = S := by
        simp [perform, step, hsent]
      rw [hsame]
      exact ⟨hn, rfl⟩
  | _ => exact ha.elim

theorem settle_of_down (j : NodeId) :
    (S.settle config j).node i = some n ∧ (j = i → (S.settle config j).sent = S.sent) := by
  have h₁ := perform_of_down hS hn hr (a := .complete j) trivial
  have h₂ := perform_of_down (reachable_perform hS (.complete j)) h₁.1 hr (a := .complete j) trivial
  exact ⟨h₂.1, fun hj => (h₂.2 hj).trans (h₁.2 hj)⟩

theorem posed_of_down (l f : NodeId) : (S.posed config l f).node i = some n := by
  have h₁ := (settle_of_down hS hn hr f).1
  have h₂ := (settle_of_down (reachable_settle hS f) h₁ hr l).1
  unfold posed prompt
  split
  · next n' _ _ _ =>
    split_ifs
    · exact (perform_of_down (a := .timer l .heartbeat n'.heartbeatGeneration)
        (reachable_settle (reachable_settle hS f) l) h₂ hr trivial).1
    · exact h₂
  · exact h₂

theorem asked_of_down (l f : NodeId) : (S.asked config l f).node i = some n := by
  have hposed := posed_of_down hS hn hr l f
  have hS' := reachable_posed hS l f
  unfold asked
  split
  · next r hr' =>
    have h₁ := perform_of_down hS' hposed hr (a := .deliver ⟨l, f, .appendEntries r⟩) trivial
    exact (settle_of_down (reachable_perform hS' _) h₁.1 hr f).1
  · exact hposed

theorem exchange_of_down (l f : NodeId) : (S.exchange config l f).node i = some n := by
  have hasked := asked_of_down hS hn hr l f
  have hS' := reachable_asked hS l f
  unfold exchange
  split
  · next x hx =>
    have h₁ := perform_of_down hS' hasked hr
      (a := .deliver ⟨f, l, .appendEntriesResponse x⟩) trivial
    exact (settle_of_down (reachable_perform hS' _) h₁.1 hr l).1
  · exact hasked

end

/-- A follower that has stopped does not answer. -/
theorem reply_of_down (hS : Reachable config S) (hn : S.node f = some n)
    (hr : n.role = .unavailable) (l : NodeId) : S.reply config l f = none := by
  have hposed := posed_of_down hS hn hr l f
  have hS' := reachable_posed hS l f
  unfold reply asked
  cases (S.posed config l f).request l f with
  | none => rfl
  | some r =>
    have h₁ := perform_of_down hS' hposed hr (a := .deliver ⟨l, f, .appendEntries r⟩) trivial
    have h₂ := settle_of_down (reachable_perform hS' _) h₁.1 hr f
    simp [h₂.2 rfl, h₁.2 rfl]

end Cluster

/-! ### The append and its answer -/

section Round

variable {config : RaftConfig} {l f : NodeId} {S : Cluster} {n m : RaftNode} {T : ℕ}
  {L : List LogEntry} {p : PeerProgress} {a : InflightAppend} {r : AppendEntries}

theorem Leads.ne (hl : Leads S l f T L n p) (hf : Heeds S f T m) : l ≠ f := by
  rintro rfl
  obtain rfl : n = m := Option.some.inj (hl.on.symm.trans hf.on)
  exact absurd (hl.role.symm.trans hf.role) (by simp)

/-- **Before the append is delivered** both sides wait for nothing but each other. -/
theorem posed_cases (hS : Cluster.Reachable config S) (hl : Leads S l f T L n p)
    (hf : Heeds S f T m) (fits : config.Carriable L) :
    (∃ n', (S.posed config l f).node l = some n' ∧ n'.Spent) ∨
      ∃ n' p' a m', Leads (S.posed config l f) l f T L n' p' ∧ PeerKept L.length p p' ∧
        n'.pendingStorage = none ∧ p'.inflight = some a ∧
        Heeds (S.posed config l f) f T m' ∧ m'.pendingStorage = none := by
  have hne := hl.ne hf
  have hS₁ := Cluster.reachable_settle hS f
  have hS₂ := Cluster.reachable_settle hS₁ l
  obtain ⟨m', hf₁, hfree, -, hothers, -⟩ := hf.settle hS
  have hl₁ := hl.of_node (hothers l hne)
  obtain ⟨hothers₂, hcases⟩ := hl₁.settle hS₁ fits
  have hf₂ := hf₁.of_node (hothers₂ f hne.symm)
  unfold Cluster.posed
  rcases hcases with ⟨n', hn', hspent⟩ | ⟨n₂, p₂, hl₂, kept₂, hfree₂⟩
  · refine Or.inl ⟨n', ?_, hspent⟩
    -- A leader that has stopped knows no peers.
    have hnone : ((S.settle config f).settle config l).progress l f = none := by
      rw [Cluster.progress, hn', Option.bind_some, hspent.2.1, OrdMap.find_empty]
    unfold Cluster.prompt
    rw [hn', hnone]
    exact hn'
  · obtain ⟨hothers₃, hcases₃⟩ := hl₂.prompt hS₂ fits hfree₂
    refine hcases₃.imp_right ?_
    rintro ⟨n₃, p₃, a, hl₃, kept₃, hfree₃, ha⟩
    exact ⟨n₃, p₃, a, m', hl₃, kept₂.trans kept₃, hfree₃, ha, hf₂.of_node (hothers₃ f hne.symm),
      hfree⟩

theorem InflightAppend.carried_eq_some {e : MessageEnvelope} :
    a.carried l f T e = some r ↔ e = ⟨l, f, .appendEntries r⟩ ∧ r.leaderId = l ∧ r.term = T ∧
      r.rpcId = a.rpcId ∧ r.prevLogIndex = a.prevIndex ∧
      r.prevLogIndex + r.entries.length = a.lastIndex := by
  obtain ⟨sender, target, message⟩ := e
  unfold InflightAppend.carried
  cases message with
  | appendEntries x =>
    simp only [MessageEnvelope.mk.injEq, Message.appendEntries.injEq]
    split_ifs with hx
    · simp only [Option.some.injEq]
      constructor
      · rintro rfl
        exact ⟨⟨hx.1, hx.2.1, rfl⟩, hx.2.2⟩
      · exact fun h => h.1.2.2
    · refine iff_of_false (by simp) ?_
      rintro ⟨⟨rfl, rfl, rfl⟩, hrest⟩
      exact hx ⟨rfl, rfl, hrest⟩
  | _ => simp

/-- **The append in flight is on the network.** -/
theorem Leads.request (h : Leads S l f T L n p) (hS : Cluster.Reachable config S)
    (ha : p.inflight = some a) : ∃ r, S.request l f = some r ∧
      ({ sender := l, target := f, message := .appendEntries r } : MessageEnvelope) ∈ S.sent ∧
      IsLaunch n.config T p a r := by
  obtain ⟨hist, hrel⟩ := exists_related hS
  have hn := hrel.on h.on
  obtain ⟨r₀, launch, hsent⟩ :=
    (Cluster.poised hS h.on).inFlight.launched h.role rfl f p a h.peer ha
  rw [hn.nodeId] at hsent
  have hsent₀ := hsent.resolve_right (by simp)
  have hreq : S.request l f = S.sent.findSome? (a.carried l f T) := by
    unfold Cluster.request
    rw [h.on, h.progress]
    simp only [ha, Option.bind_some, h.term]
  have hcarried : a.carried l f T ⟨l, f, .appendEntries r₀⟩ = some r₀ :=
    InflightAppend.carried_eq_some.mpr ⟨rfl, launch.leader.trans hn.nodeId,
      launch.term.trans h.term, launch.id, launch.prev, launch.last⟩
  have hfound : (S.sent.findSome? (a.carried l f T)).isSome := by
    rw [List.findSome?_isSome_iff]
    exact ⟨_, hsent₀, by rw [hcarried]; rfl⟩
  obtain ⟨r, hr⟩ := Option.isSome_iff_exists.mp hfound
  obtain ⟨e, he, hre⟩ := List.exists_of_findSome?_eq_some hr
  obtain ⟨rfl, hleader, hterm, hid, hprev, hlast⟩ := InflightAppend.carried_eq_some.mp hre
  refine ⟨r, hreq.trans hr, he, ?_⟩
  -- Two appends of a term with the same bounds carry the same part of the leader's log.
  have hsame : r.entries = r₀.entries := by
    obtain ⟨-, -, -, hentries, -, -⟩ := hrel.truthful _ he
    obtain ⟨-, -, -, hentries₀, -, -⟩ := hrel.truthful _ hsent₀
    have hlen : r.entries.length = r₀.entries.length := by
      have := launch.last
      have := launch.prev
      omega
    rw [hentries, hentries₀, hlen, hterm, launch.term, h.term, hprev, launch.prev]
  exact ⟨hterm, hleader.trans hn.nodeId.symm, hid, hprev, hlast, launch.next, hsame ▸ launch.count,
    hsame ▸ launch.packed⟩

/-- **The follower answers the append.** -/
theorem Leads.answers (hl : Leads S l f T L n p) (hS : Cluster.Reachable config S)
    (hf : Heeds S f T m) (free : m.pendingStorage = none) (launch : IsLaunch n.config T p a r)
    (hsent : ({ sender := l, target := f, message := .appendEntries r } : MessageEnvelope) ∈
      S.sent) :
    Answers m l r (m.step (.messageReceived ⟨l, f, .appendEntries r⟩)) ∧
      Ctx.appendMatchIndex r = a.lastIndex := by
  obtain ⟨h, hrel, hC⟩ := (carries_settled config).reachable hS
  have hn := hrel.on hl.on
  have hm := hrel.on hf.on
  obtain ⟨hled, hlen, hprev, hentries, -, -⟩ := hrel.truthful _ hsent
  obtain ⟨-, hleader⟩ := hn.leads hl.role
  have hlog : h.leaderLog r.term = n.log := by rw [launch.term, ← hl.term, hleader]
  simp only [hlog] at hlen hentries
  have hformed := hn.coherent.formed
  have hmembers : m.config.members = n.config.members := by rw [hn.config_eq, hm.config_eq]; rfl
  have hindexed : IndexedFrom r.prevLogIndex r.entries := by
    have hdrop := hformed.indexed.drop r.prevLogIndex
    rw [Nat.zero_add] at hdrop
    rw [hentries]
    exact hdrop.of_isPrefix <| List.take_prefix _ _
  have hok : ∀ e ∈ r.entries, e.term ≠ 0 ∧ e.term ≤ r.term ∧
      entryAcceptable m.config e = true := by
    intro e he
    rw [hentries] at he
    obtain ⟨hpos, hle, hacc⟩ :=
      hformed.entries e (List.mem_of_mem_drop (List.mem_of_mem_take he))
    refine ⟨hpos, hle.trans (le_of_eq (hl.term.trans launch.term.symm)), ?_⟩
    rw [hm.config_eq]
    rwa [hn.config_eq] at hacc
  have hpacked : packEntries m.config.maxAppendBytesPerRpc r.entries kAppendRpcOverhead =
      r.entries := by
    have hp := launch.packed
    rw [hn.config_eq] at hp
    rw [hm.config_eq]
    exact hp
  have hvalid := entriesValidFrom_of_packed hindexed hok (hlen.trans hformed.length_le) hpacked
  have hcount : r.entries.length ≤ m.config.maxAppendEntriesPerRpc := by
    have hc := launch.count
    rw [hn.config_eq] at hc
    rwa [hm.config_eq]
  have hterm : r.term = m.currentTerm := launch.term.trans hf.term.symm
  have hpos : r.term ≠ 0 := by
    have hvote := hn.coherent.vote (Or.inr hl.role)
    rw [launch.term, ← hl.term]
    exact (hformed.vote _ hvote).1
  refine ⟨?_, (appendMatchIndex_eq hindexed).trans launch.last⟩
  have hanswers := answers_step (s := l) (r := r) ⟨free, by simp [hf.role]⟩ hf.role hf.queue
    (by rw [hm.nodeId]; exact hl.ne hf)
    (by rw [hmembers, ← hn.nodeId]; exact hn.coherent.self)
    (launch.leader.trans hn.nodeId) hpos hterm hcount hvalid
    fun hle hprevTerm e he => keeps_of_settled hrel.chronicled.inv (hC.memory f m hf.on)
      hm.coherent.formed.commit_le ⟨hpos, hterm.symm.le, hcount, hvalid, hle, hprevTerm⟩
      (hrel.truthful _ hsent) he
  rwa [hm.nodeId] at hanswers

/-! ### The hint of a refusal -/

/-- What a refusal says: the log of the follower ends before the append, or has another term
there. -/
inductive Refuses (m : RaftNode) (r : AppendEntries) (x : AppendEntriesResponse) : Prop
  | short (behind : m.log.length < r.prevLogIndex) (index : x.conflictIndex = m.log.length + 1)
      (term : x.conflictTerm = 0)
  | conflict (held : r.prevLogIndex ≤ m.log.length)
      (differs : termAt m.log r.prevLogIndex ≠ r.prevLogTerm)
      (index : x.conflictIndex = firstIndexOfTerm m.log r.prevLogIndex)
      (term : x.conflictTerm = termAt m.log r.prevLogIndex)

theorem firstIndexFrom_bounds (log : List LogEntry) (t : ℕ) {k : ℕ} (hk : 0 < k) :
    0 < firstIndexFrom log t k ∧ firstIndexFrom log t k ≤ k := by
  induction k with
  | zero => exact absurd hk (lt_irrefl 0)
  | succ k ih =>
    cases k with
    | zero => exact ⟨Nat.one_pos, le_rfl⟩
    | succ k =>
      rw [firstIndexFrom]
      split_ifs
      · obtain ⟨hpos, hle⟩ := ih (Nat.succ_pos k)
        exact ⟨hpos, hle.trans (Nat.le_succ _)⟩
      · exact ⟨Nat.succ_pos _, le_rfl⟩

theorem lastIndexOfTerm_eq_some {log : List LogEntry} {t j : ℕ}
    (h : lastIndexOfTerm log t = some j) : ∃ e ∈ log, e.index = j ∧ e.term = t := by
  obtain ⟨e, he, rfl⟩ := Option.map_eq_some_iff.mp h
  have hterm := List.find?_some he
  exact ⟨e, List.mem_reverse.mp (List.mem_of_find?_eq_some he), rfl, by simpa using hterm⟩

/-- **The leader's last entry of the conflicting term comes before the conflict**: otherwise
the two logs would be the same up to there. -/
theorem lastIndexOfTerm_lt {h : Chronicle} {log log' : List LogEntry} {k j : ℕ}
    (ht : Traces h log) (ht' : Traces h log') (indexed : IndexedFrom 0 log') (hk : 0 < k)
    (hle : k ≤ log.length) (differs : termAt log k ≠ lastStamp (log'.take k))
    (hj : lastIndexOfTerm log' (termAt log k) = some j) : j < k := by
  obtain ⟨e, he, hidx, hterm⟩ := lastIndexOfTerm_eq_some hj
  obtain ⟨i, hi⟩ := List.mem_iff_getElem?.mp he
  have hij : j = i + 1 := by
    have := indexed i e hi
    omega
  subst hij
  by_contra hlt
  obtain ⟨hlen, -⟩ := List.getElem?_eq_some_iff.mp hi
  have hstamp : lastStamp (log'.take (i + 1)) = termAt log k := by
    rw [List.take_add_one, hi, Option.toList_some, lastStamp_concat]
    exact hterm
  rw [termAt_eq_lastStamp hle] at hstamp differs
  have hne : log.take k ≠ [] := by
    intro hnil
    have := congrArg List.length hnil
    rw [List.length_take, List.length_nil] at this
    omega
  have hpre :=
    ht.prefix_of_lastStamp_eq ht' ⟨_, List.take_append_drop k log⟩
      ⟨_, List.take_append_drop (i + 1) log'⟩
    hne hstamp.symm (by rw [List.length_take, List.length_take]; omega)
  have heq : log.take k = log'.take k := by
    have hpre' := hpre.trans <| List.take_prefix (i + 1) log'
    have hlen' : (log.take k).length = k := List.length_take_of_le hle
    rw [List.prefix_iff_eq_take.mp hpre', hlen']
  exact differs (by rw [heq])

section

variable (hl : Leads S l f T L n p) (hS : Cluster.Reachable config S) (hf : Heeds S f T m)
    (hn : n.pendingStorage = none) (hm : m.pendingStorage = none)
include hl hS hf hn hm

/-- **What a peer has acknowledged it holds.** -/
theorem Leads.match_prefix : L.take p.matchIndex <+: m.log := by
  obtain ⟨h, hrel, hold⟩ := exists_related_holding hS
  have hagrees : ∀ {i k}, S.node i = some k → k.pendingStorage = none → k.role ≠ .unavailable →
      Agrees h k := by
    intro i k hk hfree hr
    cases (hrel.on hk).stage with
    | ready _ _ _ agrees => exact agrees
    | waiting q op _ pending => simp [hfree] at pending
    | down stopped => exact absurd stopped hr
  have hlead := (hagrees hl.on hn (by simp [hl.role])).leader hl.role
  have hstores := (hagrees hf.on hm (by simp [hf.role])).stores
  have hfid := (hrel.on hf.on).nodeId
  rw [hfid] at hstores
  have hterm : h.term f = T := hstores.term.trans hf.term
  have hlogf : h.log f = m.log := hstores.log
  have hack := (hlead.peers f p hl.peer).2.2
  have hlog := hlead.log
  rw [hl.term] at hack hlog
  have hholds := hold f
  rw [hterm, hlogf, hlog, hl.log] at hholds
  exact (List.take_isPrefix_take.mpr (Or.inl hack)).trans hholds

/-- **A refusal lowers the next index.** -/
theorem Leads.retryIndex_lt (launch : IsLaunch n.config T p a r)
    (hsent : ({ sender := l, target := f, message := .appendEntries r } : MessageEnvelope) ∈ S.sent)
    {x : AppendEntriesResponse} (hx : Refuses m r x) : Ctx.retryIndex n p x < p.nextIndex := by
  have hmatch := hl.match_prefix hS hf hn hm
  obtain ⟨h, hrel⟩ := exists_related hS
  have hrl := hrel.on hl.on
  have hrf := hrel.on hf.on
  obtain ⟨-, hlen, hprev, -, -, -⟩ := hrel.truthful _ hsent
  obtain ⟨-, hleader⟩ := hrl.leads hl.role
  have hlog : h.leaderLog r.term = L := by rw [launch.term, ← hl.term, hleader, hl.log]
  simp only [hlog] at hlen hprev
  have hnext : p.nextIndex = r.prevLogIndex + 1 := by rw [launch.next, launch.prev]
  obtain ⟨hlt, -⟩ := (Cluster.poised hS hl.on).tidy.peers hl.role f p hl.peer
  -- An append right behind what the peer holds is not refused.
  have hbelow : p.matchIndex < r.prevLogIndex := by
    refine lt_of_le_of_ne (by omega) fun heq => ?_
    rw [heq] at hmatch
    have hheld := hmatch.length_le
    rw [List.length_take_of_le (by omega)] at hheld
    have hterm : termAt m.log r.prevLogIndex = r.prevLogTerm := by
      have htake := List.prefix_iff_eq_take.mp hmatch
      rw [List.length_take_of_le (by omega)] at htake
      rw [termAt_eq_lastStamp hheld, ← htake, hprev]
    cases hx with
    | short behind => omega
    | conflict held differs => exact differs hterm
  suffices hhint : ∀ k, 0 < k → k ≤ r.prevLogIndex → max (min (if k = 0 then
      (if 1 < p.nextIndex then p.nextIndex - 1 else 1) else k) (n.durableLastLogIndex + 1))
        (p.matchIndex + 1) < p.nextIndex by
    unfold Ctx.retryIndex
    cases hx with
    | short behind index term =>
      simp only [term, ne_eq, not_true_eq_false, if_false]
      exact hhint _ (by omega) (by omega)
    | conflict held differs index term =>
      have hpos : 0 < r.prevLogIndex := by omega
      have hstamp : termAt m.log r.prevLogIndex ≠ 0 := by
        have hget : m.log[r.prevLogIndex - 1]? =
            some (m.log.get ⟨r.prevLogIndex - 1, by omega⟩) := by
          simp
        have hentry : entryAt m.log r.prevLogIndex = some _ := entryAt_eq_some.mpr ⟨hpos, hget⟩
        simp only [termAt, hentry]
        exact (hrf.coherent.formed.entries _ (List.get_mem _ _)).1
      simp only [term, ne_eq, hstamp, not_false_eq_true, if_true]
      cases hj : lastIndexOfTerm n.log (termAt m.log r.prevLogIndex) with
      | none =>
        have hwalk : firstIndexOfTerm m.log r.prevLogIndex =
            firstIndexFrom m.log (termAt m.log r.prevLogIndex) r.prevLogIndex :=
          if_neg (by omega)
        simp only [index, hwalk]
        obtain ⟨hfirst, hle⟩ := firstIndexFrom_bounds m.log (termAt m.log r.prevLogIndex) hpos
        exact hhint _ hfirst hle
      | some j =>
        have hlt' := lastIndexOfTerm_lt hrf.grounded.traces hrl.grounded.traces
          hrl.coherent.formed.indexed hpos held (by rw [hl.log, ← hprev]; exact differs) hj
        exact hhint _ (Nat.succ_pos j) hlt'
  intro k hk hle
  rw [if_neg (by omega)]
  omega

end

/-! ### One round -/

/-- **The follower has been asked**: it has stopped, or its answer is the one new message. -/
inductive Asked (S A : Cluster) (l f : NodeId) (T : ℕ) (m : RaftNode) (a : InflightAppend)
    (r : AppendEntries) : Prop
  | stopped (m' : RaftNode) (on : A.node f = some m') (spent : m'.Spent) (sent : A.sent = S.sent)
  | replied (m' : RaftNode) (x : AppendEntriesResponse) (heeds : Heeds A f T m')
      (free : m'.pendingStorage = none)
      (sent : A.sent = S.sent ++ [⟨f, l, .appendEntriesResponse x⟩]) (id : x.rpcId = r.rpcId)
      (term : x.term = T) (verdict : x.success = false ∧ Refuses m r x ∨
        x.success = true ∧ x.matchIndex = a.lastIndex)

theorem Leads.asked (hl : Leads S l f T L n p) (hS : Cluster.Reachable config S)
    (hf : Heeds S f T m) (hm : m.pendingStorage = none) (launch : IsLaunch n.config T p a r)
    (hsent : ({ sender := l, target := f, message := .appendEntries r } : MessageEnvelope) ∈ S.sent)
    {A : Cluster} (hA : A = (S.perform config
      (.deliver ⟨l, f, .appendEntries r⟩)).settle config f) :
    A.node l = some n ∧ Asked S A l f T m a r := by
  subst hA
  have hne := hl.ne hf
  obtain ⟨hanswers, hreaches⟩ := hl.answers hS hf hm launch hsent
  have hreact : Cluster.Reacted S (S.perform config (.deliver ⟨l, f, .appendEntries r⟩)) f _ :=
    Cluster.reacted_deliver hsent hf.on
  have hS₁ := Cluster.reachable_perform hS (.deliver ⟨l, f, .appendEntries r⟩)
  obtain ⟨h, hrel⟩ := exists_related hS
  have hid := (hrel.on hf.on).nodeId
  generalize S.perform config (.deliver ⟨l, f, .appendEntries r⟩) = S₁ at *
  generalize m.step (.messageReceived ⟨l, f, .appendEntries r⟩) = c at *
  have hnode : S₁.node l = some n := (hreact.others l hne).trans hl.on
  -- A refusal is sent at once.
  have hrefused : ∀ ci ct, GoesOn m c.node → c.node.pendingStorage = none →
      c.sends = [m.refusal l r ci ct] → (∀ x : AppendEntriesResponse, x.conflictIndex = ci →
        x.conflictTerm = ct → Refuses m r x) →
      (S₁.settle config f).node l = some n ∧ Asked S (S₁.settle config f) l f T m a r := by
    intro ci ct goes free sends hx
    rw [settle_of_free hS₁ hreact.node free]
    refine ⟨hnode, .replied c.node ⟨m.currentTerm, r.rpcId, false, 0, ci, ct⟩
      (hf.remains goes.toRemains hreact.node) free ?_ rfl hf.term
      (Or.inl ⟨rfl, hx _ rfl rfl⟩)⟩
    rw [hreact.sent, sends, RaftNode.refusal, hid]
  cases hanswers with
  | short behind goes free sends =>
    exact hrefused _ _ goes free sends fun x => .short behind
  | conflict held differs goes free sends =>
    exact hrefused _ _ goes free sends fun x => .conflict held differs
  | confirmed remains free sends =>
    rw [settle_of_free hS₁ hreact.node free]
    refine ⟨hnode, .replied c.node ⟨m.currentTerm, r.rpcId, true, Ctx.appendMatchIndex r, 0, 0⟩
      (hf.remains remains hreact.node) free ?_ rfl hf.term
      (Or.inr ⟨rfl, hreaches⟩)⟩
    rw [hreact.sent, sends, RaftNode.confirmation, hid]
  | waits q apply remains pending resumes sends =>
    have hf₁ := hf.remains remains hreact.node
    obtain ⟨m', hf', hfree, -, hothers, ⟨hnone, -⟩ | ⟨q', hq', hsent'⟩⟩ := hf₁.settle hS₁
    · simp [pending] at hnone
    obtain rfl : q = q' := Option.some.inj (pending.symm.trans hq')
    obtain ⟨h₁, hrel₁⟩ := exists_related hS₁
    have hmarked : Remains m (c.node.marked q).node :=
      { remains with }
    have hconfirm := sends_resume_appendAccept hmarked
      (hrel₁.on hreact.node).coherent.formed.commit_le l r apply
    refine ⟨(hothers l hne).trans hnode, .replied m'
      ⟨m.currentTerm, r.rpcId, true, Ctx.appendMatchIndex r, 0, 0⟩ hf' hfree ?_ rfl hf.term
      (Or.inr ⟨rfl, hreaches⟩)⟩
    rw [hsent', resumes, hconfirm, hreact.sent, sends, RaftNode.confirmation, hid]
    simp [RaftNode.marked, Ctx.markDurable, Ctx.sends, Ctx.trace, Ctx.emit]
  | spent spent sends =>
    obtain ⟨hnode', hsame⟩ := Cluster.settle_of_down hS₁ hreact.node spent.1 f
    refine ⟨?_, .stopped c.node hnode' spent ?_⟩
    · unfold Cluster.settle
      rw [Cluster.node_perform_of_ne _ hne, Cluster.node_perform_of_ne _ hne]
      exact hnode
    · rw [hsame rfl, hreact.sent, sends, List.append_nil]

/-- **The leader hears the answer**, notes it and goes on. -/
theorem Leads.heard (hl : Leads S l f T L n p) (hS : Cluster.Reachable config S)
    (fits : config.Carriable L) (hf : Heeds S f T m) (free : n.pendingStorage = none)
    (ha : p.inflight = some a) {x : AppendEntriesResponse} (term : x.term = T)
    (id : a.rpcId = x.rpcId)
    (hsent : ({ sender := f, target := l, message := .appendEntriesResponse x } :
      MessageEnvelope) ∈ S.sent) {E : Cluster} (hE : E = (S.perform config
      (.deliver ⟨f, l, .appendEntriesResponse x⟩)).settle config l) :
    E.node f = some m ∧ ((∃ n', E.node l = some n' ∧ n'.Spent) ∨
      ∃ q n' p', Noted n p a x q ∧ Leads E l f T L n' p' ∧ n'.pendingStorage = none ∧
        PeerKept L.length q p') := by
  subst hE
  have hne := hl.ne hf
  have hS₁ := Cluster.reachable_perform hS (.deliver ⟨f, l, .appendEntriesResponse x⟩)
  have hreact : Cluster.Reacted S
      (S.perform config (.deliver ⟨f, l, .appendEntriesResponse x⟩)) l _ :=
    Cluster.reacted_deliver hsent hl.on
  obtain ⟨h, hrel⟩ := exists_related hS
  have hn := hrel.on hl.on
  have hm := hrel.on hf.on
  have hpoised := Cluster.poised hS hl.on
  have idle : n.Idle := ⟨free, by simp [hl.role]⟩
  have hdurable : n.durableLastLogIndex = L.length := hl.log ▸ hn.coherent.durable_eq idle
  have hprep : Prepared n := prepared_of_tidy hpoised.tidy hl.role hpoised.bounds hn.config_eq
    (hl.log ▸ fits)
  have hmember : f ∈ n.config.members := by
    have hself := hm.coherent.self
    rw [hm.nodeId, hm.config_eq] at hself
    rw [hn.config_eq]
    exact hself
  have hdispatch : Ctx.dispatch { node := n }
      (.messageReceived ⟨f, l, .appendEntriesResponse x⟩) =
      (Ctx.trace { node := n } .receive "protocol message received" 0).onAppendEntriesResponse f
        x := by
    simp only [Ctx.dispatch, Ctx.onMessage]
    rw [if_neg (by simp [hn.nodeId, hne.symm, hmember, RaftNode.isMember])]
  have hstep := step_eq_dispatch (e := .messageReceived ⟨f, l, .appendEntriesResponse x⟩) idle
    fun h => h
  rw [hdispatch] at hstep
  have hlast := (hpoised.tidy.peers hl.role f p hl.peer).inflight a ha
  have hf₁ : Cluster.node (S.perform config (.deliver ⟨f, l, .appendEntriesResponse x⟩)) f =
      some m := (hreact.others f hne.symm).trans hf.on
  obtain ⟨q, noted, hgo⟩ := Prepared.answered
    (c := Ctx.trace { node := n } .receive "protocol message received" 0) hprep free hl.peer ha
    hlast (term.trans hl.term.symm) id
  rcases hgo with ⟨hgo, -, p₁, hp₁, kept₁⟩ | hspent
  · rw [hstep (Or.inl (hgo.deferred.trans hl.queue))] at hreact
    have hl₁ := hl.goesOn hgo hreact.node hp₁
    obtain ⟨hothers, hcases⟩ := hl₁.settle hS₁ fits
    refine ⟨(hothers f hne.symm).trans hf₁, hcases.imp_right ?_⟩
    rintro ⟨n', p', hl', kept', hfree'⟩
    have kept₁' : PeerKept L.length q p₁ := hdurable ▸ kept₁
    exact ⟨q, n', p', noted, hl', hfree', kept₁'.trans kept'⟩
  · rw [hstep (Or.inr hspent.1)] at hreact
    obtain ⟨hnode, -⟩ := Cluster.settle_of_down hS₁ hreact.node hspent.1 l
    refine ⟨?_, Or.inl ⟨_, hnode, hspent⟩⟩
    unfold Cluster.settle
    rw [Cluster.node_perform_of_ne _ hne.symm, Cluster.node_perform_of_ne _ hne.symm]
    exact hf₁

/-- What an answer does to the progress of the follower. -/
inductive Advances (p p' : PeerProgress) (r : AppendEntries) (x : AppendEntriesResponse) : Prop
  | refused (failure : x.success = false) (held : p'.matchIndex = p.matchIndex)
      (lower : p'.nextIndex < p.nextIndex)
  | confirmed (success : x.success = true)
      (reached : p'.matchIndex = max p.matchIndex (r.prevLogIndex + r.entries.length))
      (next : p'.nextIndex = p'.matchIndex + 1)

/-- **What one round can do.** -/
inductive Round (config : RaftConfig) (S : Cluster) (l f : NodeId) (T : ℕ) (L : List LogEntry)
    (p : PeerProgress) : Prop
  | stopped (n' : RaftNode) (on : (S.exchange config l f).node l = some n') (spent : n'.Spent)
  | silent (m' : RaftNode) (on : (S.exchange config l f).node f = some m') (spent : m'.Spent)
      (quiet : S.reply config l f = none)
  | answered (n' m' : RaftNode) (p' : PeerProgress) (r : AppendEntries)
      (x : AppendEntriesResponse) (leads : Leads (S.exchange config l f) l f T L n' p')
      (heeds : Heeds (S.exchange config l f) f T m') (free : n'.pendingStorage = none)
      (free' : m'.pendingStorage = none)
      (asks : (S.posed config l f).request l f = some r) (replies : S.reply config l f = some x)
      (prev : p.nextIndex = r.prevLogIndex + 1) (advances : Advances p p' r x)
      (fresh : ∀ a, p'.inflight = some a → a.Fresh L.length)
      (stale : r.entries = [] → r.prevLogIndex ≠ L.length →
        ∃ a, p.inflight = some a ∧ ¬a.Fresh L.length)

/-- **One round of the exchange.** -/
theorem round (hS : Cluster.Reachable config S) (hl : Leads S l f T L n p) (hf : Heeds S f T m)
    (fits : config.Carriable L) : Round config S l f T L p := by
  have hP := Cluster.reachable_posed hS l f
  rcases posed_cases hS hl hf fits with
    ⟨n', hn', hspent⟩ | ⟨n₁, p₁, a, m₁, hl₁, kept₁, hfree₁, ha, hf₁, hfree'⟩
  · -- A leader that stops before it asks knows no follower any more.
    refine .stopped n' ?_ hspent
    have hreq : (S.posed config l f).request l f = none := by
      unfold Cluster.request
      rw [hn', Cluster.progress, hn', Option.bind_some, hspent.2.1, OrdMap.find_empty]
    have hreply : S.reply config l f = none := by rw [Cluster.reply, hreq]; rfl
    rw [Cluster.exchange_of_none hreply, Cluster.asked_of_none hreq]
    exact hn'
  obtain ⟨r, hreq, hsent, launch⟩ := hl₁.request hP ha
  have hA := Cluster.asked_of_some hreq
  have hSA := Cluster.reachable_asked hS l f
  obtain ⟨hnode, hasked⟩ := hl₁.asked hP hf₁ hfree' launch hsent hA
  have hreplyeq : S.reply config l f = ((S.asked config l f).sent.drop
      (S.posed config l f).sent.length).findSome? (r.answeredBy l f) := by
    rw [Cluster.reply, hreq]
    rfl
  cases hasked with
  | stopped m' on spent sent =>
    have hreply : S.reply config l f = none := by simp [hreplyeq, sent]
    refine .silent m' ?_ spent hreply
    rw [Cluster.exchange_of_none hreply]
    exact on
  | replied m₂ x hf₂ hfree₂ sent id term verdict =>
    have hreply : S.reply config l f = some x := by
      rw [hreplyeq, sent, List.drop_left]
      simp [AppendEntries.answeredBy, id]
    have hl₂ := hl₁.of_node (hnode.trans hl₁.on.symm)
    have hmem : ({ sender := f, target := l, message := .appendEntriesResponse x } :
        MessageEnvelope) ∈ (S.asked config l f).sent := by
      rw [sent]
      exact List.mem_append_right _ (List.mem_singleton.mpr rfl)
    have hE := Cluster.exchange_of_some hreply
    obtain ⟨hfE, ⟨n', hn', hspent⟩ | ⟨q, n', p', noted, hl', hfreeE, kept⟩⟩ :=
      hl₂.heard hSA fits hf₂ hfree₁ ha term (launch.id.symm.trans id.symm) hmem hE
    · exact .stopped n' hn' hspent
    have hnext : p.nextIndex = r.prevLogIndex + 1 := by
      rw [← kept₁.nextIndex, launch.next, launch.prev]
    refine .answered n' m₂ p' r x hl' ⟨hfE, hf₂.role, hf₂.term, hf₂.queue⟩ hfreeE hfree₂ hreq
      hreply hnext ?_ (fun b hb => ?_) fun hnil hend => ?_
    · cases noted with
      | short success below =>
        rcases verdict with ⟨hfail, -⟩ | ⟨-, hreach⟩
        · simp [hfail] at success
        · omega
      | matched success reached =>
        refine .confirmed success ?_ ?_
        · rw [kept.matchIndex, launch.last, ← kept₁.matchIndex]
        · rw [kept.nextIndex, kept.matchIndex]
      | retried failure =>
        rcases verdict with ⟨-, refuses⟩ | ⟨hok, -⟩
        · refine .refused failure ?_ ?_
          · rw [kept.matchIndex, ← kept₁.matchIndex]
          · have hlt := hl₁.retryIndex_lt hP hf₁ hfree₁ hfree' launch hsent refuses
            rw [kept.nextIndex, ← kept₁.nextIndex]
            exact hlt
        · simp [hok] at failure
    · -- What is in flight now was sent in this round.
      have hnone : q.inflight = none := by cases noted <;> rfl
      rcases kept.inflight with heq | ⟨-, b', hb', hfresh⟩
      · simp [heq, hnone] at hb
      · obtain rfl : b' = b := Option.some.inj (hb'.symm.trans hb)
        exact hfresh
    · have hlast := launch.last
      rw [hnil, List.length_nil, Nat.add_zero] at hlast
      rcases kept₁.inflight with heq | ⟨-, b, hb, hfresh⟩
      · refine ⟨a, heq ▸ ha, ?_⟩
        rintro (hlt | heq')
        · rw [← hlast, launch.prev] at hlt
          exact lt_irrefl _ hlt
        · exact hend (launch.prev.trans heq')
      · obtain rfl : b = a := Option.some.inj (hb.symm.trans ha)
        rcases hfresh with hlt | heq'
        · rw [← hlast, launch.prev] at hlt
          exact absurd hlt (lt_irrefl _)
        · exact absurd (launch.prev.trans heq') hend

end Round

/-! ### Convergence -/

/-- **Rounds that lower a measure** until something is done come to an end. -/
theorem exists_iterate_of_lt {σ β : Type*} [LT β] [WellFoundedLT β] (step : σ → σ)
    (done : σ → Prop) {I : σ → β → Prop}
    (h : ∀ s b, I s b → done (step s) ∨ ∃ b' < b, I (step s) b') {s : σ} {b : β} (hs : I s b) :
    ∃ k, done (step^[k] s) := by
  induction b using WellFoundedLT.induction generalizing s with
  | ind b ih =>
    rcases h s b hs with hdone | ⟨b', hlt, hs'⟩
    · exact ⟨1, hdone⟩
    · obtain ⟨k, hk⟩ := ih b' hlt hs'
      exact ⟨k + 1, hk⟩

/-- An empty append from before the leader's last entry is in flight. -/
def PeerProgress.stale (durable : ℕ) (p : PeerProgress) : ℕ :=
  match p.inflight with
  | some a => if a.prevIndex < a.lastIndex ∨ a.prevIndex = durable then 0 else 1
  | none => 0

theorem PeerProgress.stale_eq_zero {durable : ℕ} {p : PeerProgress}
    (h : ∀ a, p.inflight = some a → a.Fresh durable) : p.stale durable = 0 := by
  unfold PeerProgress.stale
  cases ha : p.inflight with
  | none => rfl
  | some a => exact if_pos (h a ha)

/-- What is missing, then where the leader tries next, then the stale append. -/
def PeerProgress.distance (durable : ℕ) (p : PeerProgress) : ℕ ×ₗ ℕ ×ₗ ℕ :=
  toLex (durable - p.matchIndex, toLex (p.nextIndex, p.stale durable))

section Convergence

variable {config : RaftConfig} {l f : NodeId} {S : Cluster} {n m : RaftNode} {T : ℕ}
  {L : List LogEntry} {p p' : PeerProgress}

/-- The two sides of the exchange, or one that has stopped. -/
inductive Exchanging (config : RaftConfig) (l f : NodeId) (T : ℕ) (L : List LogEntry)
    (S : Cluster) : Prop
  | live (n m : RaftNode) (p : PeerProgress) (leads : Leads S l f T L n p) (heeds : Heeds S f T m)
  | stopped (n : RaftNode) (on : S.node l = some n) (spent : n.Spent)
  | silent (m : RaftNode) (on : S.node f = some m) (spent : m.Spent)

theorem Leads.match_le (hl : Leads S l f T L n p) (hS : Cluster.Reachable config S) :
    p.matchIndex < p.nextIndex ∧ p.matchIndex ≤ L.length := by
  have htidy := (Cluster.poised hS hl.on).tidy
  obtain ⟨hlt, hle, -⟩ := htidy.peers hl.role f p hl.peer
  have hdurable := htidy.durable_le hl.role
  rw [hl.log] at hdurable
  omega

theorem Leads.repaired (hl : Leads S l f T L n p) (hS : Cluster.Reachable config S)
    (hf : Heeds S f T m) (hn : n.pendingStorage = none) (hm : m.pendingStorage = none)
    (hend : p.matchIndex = L.length) : S.Repaired l f := by
  obtain ⟨h, hrel⟩ := exists_related hS
  have hdurable : n.durableLastLogIndex = L.length :=
    hl.log ▸ (hrel.on hl.on).coherent.durable_eq ⟨hn, by simp [hl.role]⟩
  have hpre := hl.match_prefix hS hf hn hm
  rw [hend, List.take_length] at hpre
  refine ⟨n, m, p, hl.on, hf.on, hl.role, hl.peer, by rw [hend, hdurable], ?_⟩
  rw [hdurable, hl.log, List.take_length]
  exact (List.prefix_iff_eq_take.mp hpre).symm

/-- **A round that does not end the exchange lowers the distance.** -/
theorem Round.distance_lt (h : Round config S l f T L p) (hS : Cluster.Reachable config S)
    (hl : Leads S l f T L n p) :
    ((S.exchange config l f).Repaired l f ∨ (S.exchange config l f).Stopped l f) ∨
      ∃ n' m' p', Leads (S.exchange config l f) l f T L n' p' ∧
        Heeds (S.exchange config l f) f T m' ∧ p'.distance L.length < p.distance L.length := by
  obtain ⟨hlt, hle⟩ := hl.match_le hS
  cases h with
  | stopped n' on spent => exact Or.inl (Or.inr ⟨l, n', Or.inl rfl, on, spent⟩)
  | silent m' on spent => exact Or.inl (Or.inr ⟨f, m', Or.inr rfl, on, spent⟩)
  | answered n' m' p' r x leads heeds free free' asks replies prev advances fresh stale =>
    have hS' := Cluster.reachable_exchange hS l f
    obtain ⟨-, hle'⟩ := leads.match_le hS'
    have hfresh : p'.stale L.length = 0 := PeerProgress.stale_eq_zero fresh
    by_cases hend : p'.matchIndex = L.length
    · exact Or.inl (Or.inl (leads.repaired hS' heeds free free' hend))
    refine Or.inr ⟨n', m', p', leads, heeds, ?_⟩
    simp only [PeerProgress.distance, Prod.Lex.toLex_lt_toLex]
    cases advances with
    | refused failure held lower => exact Or.inr ⟨by rw [held], Or.inl lower⟩
    | confirmed success reached next =>
      by_cases hmore : p.matchIndex < p'.matchIndex
      · exact Or.inl (by omega)
      · -- Nothing new is confirmed by an empty append only.
        have hnil : r.entries = [] := List.eq_nil_of_length_eq_zero (by omega)
        have hprev : r.prevLogIndex ≠ L.length := by omega
        obtain ⟨a, ha, hstale⟩ := stale hnil hprev
        have hone : p.stale L.length = 1 := by
          unfold PeerProgress.stale
          rw [ha]
          exact if_neg hstale
        exact Or.inr ⟨by omega, Or.inr ⟨by omega, by omega⟩⟩

theorem Exchanging.exchange (h : Exchanging config l f T L S) (hS : Cluster.Reachable config S)
    (fits : config.Carriable L) : Exchanging config l f T L (S.exchange config l f) := by
  cases h with
  | live n m p leads heeds =>
    cases round hS leads heeds fits with
    | stopped n' on spent => exact .stopped n' on spent
    | silent m' on spent => exact .silent m' on spent
    | answered n' m' p' r x leads heeds => exact .live n' m' p' leads heeds
  | stopped n on spent => exact .stopped n (Cluster.exchange_of_down hS on spent.1 l f) spent
  | silent m on spent => exact .silent m (Cluster.exchange_of_down hS on spent.1 l f) spent

theorem progress_of_spent (on : S.node l = some n) (spent : n.Spent) : S.progress l f = none := by
  rw [Cluster.progress, on, Option.bind_some, spent.2.1, OrdMap.find_empty]

/-- **What a reply does**: a refusal lowers the next index and leaves it above the match index,
and the confirmation of an append with entries raises the match index. -/
theorem Exchanging.reply (h : Exchanging config l f T L S) (hS : Cluster.Reachable config S)
    (fits : config.Carriable L) {x : AppendEntriesResponse} (hp : S.progress l f = some p)
    (hp' : (S.exchange config l f).progress l f = some p') (hx : S.reply config l f = some x) :
    (x.success = false → p'.nextIndex < p.nextIndex ∧ p'.matchIndex < p'.nextIndex) ∧
      (x.success = true → ∀ r, (S.posed config l f).request l f = some r → r.entries ≠ [] →
        p.matchIndex < p'.matchIndex) := by
  cases h with
  | stopped n on spent => simp [progress_of_spent on spent] at hp
  | silent m on spent => simp [Cluster.reply_of_down hS on spent.1 l] at hx
  | live n m q leads heeds =>
    obtain rfl : q = p := Option.some.inj (leads.progress.symm.trans hp)
    cases round hS leads heeds fits with
    | stopped n' on spent => simp [progress_of_spent on spent] at hp'
    | silent m' on spent quiet => simp [quiet] at hx
    | answered n' m' q' r y leads' heeds' free free' asks replies prev advances =>
      obtain rfl : q' = p' := Option.some.inj (leads'.progress.symm.trans hp')
      obtain rfl : y = x := Option.some.inj (replies.symm.trans hx)
      obtain ⟨hlt, -⟩ := leads.match_le hS
      obtain ⟨hlt', -⟩ := leads'.match_le (Cluster.reachable_exchange hS l f)
      cases advances with
      | refused failure held lower => exact ⟨fun _ => ⟨lower, hlt'⟩, by simp [failure]⟩
      | confirmed success reached next =>
        refine ⟨by simp [success], fun _ r' hr' hne => ?_⟩
        obtain rfl : r = r' := Option.some.inj (asks.symm.trans hr')
        have hpos := List.length_pos_of_ne_nil hne
        omega

/-- **Log repair converges.** From any state of the cluster with a leader and a follower of its
term, with nothing deferred at either and entries that fit in one append, the exchange between
the two makes progress with every reply, and after finitely many rounds the leader knows that
the follower holds its durable log, or one of the two has stopped because a counter ran out. -/
theorem Cluster.repair_converges (hS : Reachable config S) (hn : S.node l = some n)
    (hm : S.node f = some m) (leader : n.role = .leader) (follower : m.role = .follower)
    (term : m.currentTerm = n.currentTerm) (fits : config.Carriable n.log)
    (queue : n.deferredEvents = []) (queue' : m.deferredEvents = []) :
    (∀ k p p' x, ((exchange config l f)^[k] S).progress l f = some p →
      ((exchange config l f)^[k + 1] S).progress l f = some p' →
      ((exchange config l f)^[k] S).reply config l f = some x →
      (x.success = false → p'.nextIndex < p.nextIndex ∧ p'.matchIndex < p'.nextIndex) ∧
        (x.success = true → ∀ r, (((exchange config l f)^[k] S).posed config l f).request l f =
          some r → r.entries ≠ [] → p.matchIndex < p'.matchIndex)) ∧
    ∃ k, ((exchange config l f)^[k] S).Repaired l f ∨
      ((exchange config l f)^[k] S).Stopped l f := by
  obtain ⟨h, hrel⟩ := exists_related hS
  have hlf : f ≠ l := by
    rintro rfl
    obtain rfl : m = n := Option.some.inj (hm.symm.trans hn)
    simp [leader] at follower
  have hmember : f ∈ n.config.members := by
    have hself := (hrel.on hm).coherent.self
    rw [(hrel.on hm).nodeId, (hrel.on hm).config_eq] at hself
    rw [(hrel.on hn).config_eq]
    exact hself
  obtain ⟨p, hp⟩ := Option.isSome_iff_exists.mp ((poised hS hn).inFlight.peered leader f hmember
    (by rw [(hrel.on hn).nodeId]; exact hlf))
  have hl : Leads S l f n.currentTerm n.log n p := ⟨hn, leader, rfl, rfl, queue, hp⟩
  have hf : Heeds S f n.currentTerm m := ⟨hm, follower, term, queue'⟩
  have hrounds : ∀ k, Reachable config ((exchange config l f)^[k] S) ∧
      Exchanging config l f n.currentTerm n.log ((exchange config l f)^[k] S) := by
    intro k
    induction k with
    | zero => exact ⟨hS, .live n m p hl hf⟩
    | succ k ih =>
      rw [Function.iterate_succ_apply']
      exact ⟨reachable_exchange ih.1 l f, ih.2.exchange ih.1 fits⟩
  refine ⟨fun k p p' x hp hp' hx => ?_, ?_⟩
  · rw [Function.iterate_succ_apply'] at hp'
    exact (hrounds k).2.reply (hrounds k).1 fits hp hp' hx
  · refine exists_iterate_of_lt (exchange config l f)
      (fun S => S.Repaired l f ∨ S.Stopped l f) (I := fun (S : Cluster) (b : ℕ ×ₗ ℕ ×ₗ ℕ) =>
      Reachable config S ∧ ∃ n' m' p', Leads S l f n.currentTerm n.log n' p' ∧
        Heeds S f n.currentTerm m' ∧ b = p'.distance n.log.length) ?_
      ⟨hS, n, m, p, hl, hf, rfl⟩
    rintro S' b ⟨hS', n', m', p', hl', hf', rfl⟩
    refine ((round hS' hl' hf' fits).distance_lt hS' hl').imp_right ?_
    rintro ⟨n₁, m₁, p₁, hl₁, hf₁, hlt⟩
    exact ⟨_, hlt, reachable_exchange hS' l f, n₁, m₁, p₁, hl₁, hf₁, rfl⟩

end Convergence

/-! ### A run that repairs, and one that is disturbed -/

/-- After the sample election the follower holds the leader's readiness entry, but the leader
does not know it yet. -/
theorem Cluster.repair_converges_elect :
    (∀ k p p' x, ((exchange Sample.config 1 2)^[k]
        (after Sample.config Sample.elect)).progress 1 2 = some p →
      ((exchange Sample.config 1 2)^[k + 1]
        (after Sample.config Sample.elect)).progress 1 2 = some p' →
      ((exchange Sample.config 1 2)^[k]
        (after Sample.config Sample.elect)).reply Sample.config 1 2 = some x →
      (x.success = false → p'.nextIndex < p.nextIndex ∧ p'.matchIndex < p'.nextIndex) ∧
        (x.success = true → ∀ r, (((exchange Sample.config 1 2)^[k]
          (after Sample.config Sample.elect)).posed Sample.config 1 2).request 1 2 =
          some r → r.entries ≠ [] → p.matchIndex < p'.matchIndex)) ∧
    ∃ k, ((exchange Sample.config 1 2)^[k] (after Sample.config Sample.elect)).Repaired 1 2 ∨
      ((exchange Sample.config 1 2)^[k] (after Sample.config Sample.elect)).Stopped 1 2 :=
  have h₁ : ((after Sample.config Sample.elect).node 1).isSome := by decide +kernel
  have h₂ : ((after Sample.config Sample.elect).node 2).isSome := by decide +kernel
  have hfits : ∀ e ∈ (((after Sample.config Sample.elect).node 1).get h₁).log,
      entryBytes e ≤ Sample.config.maxAppendBytesPerRpc - kAppendRpcOverhead := by
    decide +kernel +revert
  repair_converges (reachable_after (by decide +kernel)) (Option.some_get h₁).symm
    (Option.some_get h₂).symm (by decide +kernel +revert) (by decide +kernel +revert)
    (by decide +kernel +revert) hfits (by decide +kernel +revert) (by decide +kernel +revert)

namespace Sample

/-- Node 2 waits for the leader's first entry when node 3 asks it for a vote in term 2. -/
def disturb : List Action :=
  (campaign ++ [grant 2 1 1]) ++
    [.complete 1, append 1 0 [⟨1, 1, none⟩] 0, .start 3, .timer 3 .election 1, .complete 3,
     .timer 3 .election 2, .complete 3, ask 3 2 2 0]

end Sample

theorem Cluster.Repaired.leads (h : S.Repaired l f) :
    (S.node l).map RaftNode.role = some .leader := by
  obtain ⟨n, m, p, hn, -, hl, -⟩ := h
  rw [hn, Option.map_some, hl]

theorem Cluster.Repaired.matched (h : S.Repaired l f) :
    (S.progress l f).map PeerProgress.matchIndex =
      (S.node l).map RaftNode.durableLastLogIndex := by
  obtain ⟨n, m, p, hn, -, -, hp, hmatch, -⟩ := h
  rw [progress, hn, Option.bind_some, hp, Option.map_some, Option.map_some, hmatch]

/-- Without storage to complete and without a leader the exchange does nothing. -/
theorem Cluster.exchange_of_quiet {config : RaftConfig} (hl : (S.hosts l).disk = .idle)
    (hf : (S.hosts f).disk = .idle) (hnone : S.progress l f = none) :
    S.exchange config l f = S := by
  have hcomplete : ∀ i, (S.hosts i).disk = .idle → S.settle config i = S := by
    intro i hi
    have hone : S.perform config (.complete i) = S := by simp [perform, step, hi]
    rw [settle, hone, hone]
  have hposed : S.posed config l f = S := by
    rw [posed, hcomplete f hf, hcomplete l hl, prompt, hnone]
    cases S.node l <;> rfl
  have hreq : (S.posed config l f).request l f = none := by
    rw [hposed, request, hnone]
    cases S.node l <;> rfl
  have hreply : S.reply config l f = none := by rw [reply, hreq]; rfl
  rw [exchange_of_none hreply, asked_of_none hreq, hposed]

/-- **The exchange has to be undisturbed.** A follower of the leader's term waits for storage
and has deferred a vote request of a later term. Its storage completes, it turns to the
request and leaves the term; then the leader hears of the new term and steps down. -/
theorem Cluster.repair_disturbed :
    Reachable Sample.config (after Sample.config Sample.disturb) ∧
    (∃ n m, (after Sample.config Sample.disturb).node 1 = some n ∧
      (after Sample.config Sample.disturb).node 2 = some m ∧ n.role = .leader ∧
      m.role = .follower ∧ m.currentTerm = n.currentTerm ∧ Sample.config.Carriable n.log) ∧
    ∀ k, ¬((exchange Sample.config 1 2)^[k] (after Sample.config Sample.disturb)).Repaired 1 2 := by
  have h₁ : ((after Sample.config Sample.disturb).node 1).isSome := by decide +kernel
  have h₂ : ((after Sample.config Sample.disturb).node 2).isSome := by decide +kernel
  have hfits : ∀ e ∈ (((after Sample.config Sample.disturb).node 1).get h₁).log,
      entryBytes e ≤ Sample.config.maxAppendBytesPerRpc - kAppendRpcOverhead := by
    decide +kernel +revert
  refine ⟨reachable_after (by decide +kernel), ⟨_, _, (Option.some_get h₁).symm,
    (Option.some_get h₂).symm, ?_, ?_, ?_, hfits⟩, ?_⟩
  iterate 3 · decide +kernel +revert
  have hfixed : exchange Sample.config 1 2
      (exchange Sample.config 1 2 (after Sample.config Sample.disturb)) =
      exchange Sample.config 1 2 (after Sample.config Sample.disturb) :=
    exchange_of_quiet (by decide +kernel) (by decide +kernel) (by decide +kernel)
  intro k
  cases k with
  | zero =>
    intro h
    exact absurd h.matched (by decide +kernel)
  | succ k =>
    rintro h
    have hk := (Function.iterate_succ_apply (exchange Sample.config 1 2) k _).trans
      (Function.iterate_fixed hfixed k)
    exact absurd (hk ▸ h).leads (by decide +kernel)

end DetLog
