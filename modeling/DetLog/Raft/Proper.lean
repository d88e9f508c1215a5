import DetLog.Raft.Replication

/-!
# Proper messages

What `DetLog.Worded` means for the messages of a whole run: the identifier of an append and
of its answer is never zero, requests for votes and answers are of a positive term, and the
entries of an append are as many as one message may carry (`DetLog.Message.Proper`).

An answer repeats the identifier of the append it answers, now or when its batch is durable.
So the property is carried by everything a node has heard and not answered yet, the events it
has deferred and the continuation of its outstanding batch (`DetLog.Ctx.Proper`).
-/

namespace DetLog

/-- **A message is proper**: its identifiers and terms are set and its entries fit. -/
def Message.Proper (config : RaftConfig) : Message → Prop
  | .requestVote r => r.term ≠ 0
  | .requestVoteResponse r => r.term ≠ 0
  | .appendEntries r => r.rpcId ≠ 0 ∧ r.entries.length ≤ config.maxAppendEntriesPerRpc ∧
      packEntries config.maxAppendBytesPerRpc r.entries kAppendRpcOverhead = r.entries
  | .appendEntriesResponse r => r.term ≠ 0 ∧ r.rpcId ≠ 0

/-- What a continuation will send is proper, at the given term. -/
def Continuation.Proper (term : ℕ) : Continuation → Prop
  | .campaign => term ≠ 0
  | .voteReply .. => term ≠ 0
  | .appendReject _ rpcId _ _ => term ≠ 0 ∧ rpcId ≠ 0
  | .appendAccept _ rpcId _ _ => term ≠ 0 ∧ rpcId ≠ 0
  | _ => True

/-- An event with a proper message. -/
def RaftEvent.Proper (config : RaftConfig) : RaftEvent → Prop
  | .messageReceived envelope => envelope.message.Proper config
  | _ => True

/-- **A transition says nothing improper**, and it will not when it is resumed. -/
structure Ctx.Proper (g : RaftConfig) (c : Ctx) : Prop where
  config : c.node.config = g
  sent : ∀ m ∈ c.sends, m.message.Proper g
  owed : ∀ p, c.node.pendingStorage = some p → p.afterSuccess.Proper c.node.currentTerm
  queue : ∀ e ∈ c.node.deferredEvents, e.Proper g

/-- What a node reacts to is proper. -/
def Cause.Proper (n : RaftNode) : Cause → Prop
  | .event e => e.Proper n.config
  | .resumed k => k.Proper n.currentTerm

section Reaction

variable {g : RaftConfig} {n m : RaftNode} {cause : Cause} {c c' : Ctx}

/-- A message that is worded in reaction to something proper. -/
theorem Worded.proper {envelope : MessageEnvelope} (hw : Worded n cause envelope.message)
    (hs : SendOk n cause envelope) (hc : cause.Proper n) : envelope.message.Proper n.config := by
  obtain ⟨-, hs⟩ := hs
  cases hm : envelope.message <;> rw [hm] at hw hs
  case requestVote r =>
    obtain ⟨-, rfl, hterm, -⟩ := hs
    exact hterm.trans_ne hc
  case requestVoteResponse r =>
    refine hs.1.trans_ne ?_
    rcases hw with hpos | ⟨_, _, _, rfl⟩
    · exact hpos
    · exact hc
  case appendEntries r => exact hw
  case appendEntriesResponse r =>
    rcases hw with ⟨hpos, s, request, heard, hid⟩ | ⟨_, _, _, rfl⟩ | ⟨_, _, _, rfl⟩
    · obtain ⟨rfl, -⟩ := heard
      exact ⟨hs.1.trans_ne hpos, hid ▸ hc.1⟩
    · exact ⟨hs.1.trans_ne hc.1, hc.2⟩
    · exact ⟨hs.1.trans_ne hc.1, hc.2⟩

/-- What is planned in reaction to something proper is proper when it is resumed. -/
theorem Plan.proper {batch : PersistBatch} {k : Continuation} (plan : Plan n cause m batch k)
    (hc : cause.Proper n) : k.Proper m.currentTerm := by
  cases plan with
  | campaign hs new core =>
    rw [RaftNode.currentTerm, core.hardState, new]
    exact Nat.succ_ne_zero _
  | adopt term k higher core role plain repeats =>
    have hpos : m.currentTerm ≠ 0 := by
      rw [RaftNode.currentTerm, core.hardState]
      exact Nat.ne_zero_of_lt higher
    rcases plain with rfl | ⟨c, w, rfl⟩ | ⟨l, r, i, t, rfl⟩
    · trivial
    · exact hpos
    · obtain ⟨s, request, ⟨rfl, -⟩, hid⟩ := repeats l r i t rfl
      exact ⟨hpos, hid ▸ hc.1⟩
  | grant candidate request w heard pos named term_le free fresh core =>
    rw [RaftNode.currentTerm, core.hardState]
    exact pos
  | accept s request heard named fits keeps core =>
    obtain ⟨rfl, -⟩ := heard
    refine ⟨?_, hc.1⟩
    rw [RaftNode.currentTerm, core.hardState, followed]
    split_ifs with hlt
    · exact fits.term_pos
    · exact Nat.ne_of_gt ((Nat.pos_of_ne_zero fits.term_pos).trans_le (not_lt.mp hlt))
  | _ => trivial

/-- **A reaction to something proper** says nothing improper. -/
theorem Outcome.proper (o : Outcome c.node cause c c') (h : c.Proper g)
    (hc : cause.Proper c.node) : c'.Proper g := by
  have hsent : ∀ m ∈ c'.sends, m.message.Proper g := fun m hm => by
    rcases o.emitted (mem_sends hm) (by simp) with hold | ⟨hs, hw⟩
    · exact h.sent m (List.mem_filterMap.mpr ⟨_, hold, rfl⟩)
    · rw [← h.config]
      exact hw.proper hs hc
  have hqueue : ∀ {n' : RaftNode} {hs l i}, Becomes c.node n' hs l i →
      n'.config = g ∧ ∀ e ∈ n'.deferredEvents, e.Proper g := fun hb => by
    refine ⟨hb.config.trans h.config, fun e he => ?_⟩
    rcases hb.deferred with hd | hd <;> rw [hd] at he
    · exact h.queue e he
    · cases he
  cases o with
  | held hh =>
    obtain ⟨hconfig, hdeferred⟩ := hqueue hh.core
    exact ⟨hconfig, hsent, fun p hp => absurd (hh.pending.symm.trans hp) (by simp), hdeferred⟩
  | waits batch k opId plan pending =>
    obtain ⟨_, _, _, hb⟩ := plan.becomes
    obtain ⟨hconfig, hdeferred⟩ := hqueue hb
    refine ⟨hconfig, hsent, fun p hp => ?_, hdeferred⟩
    obtain rfl := Option.some.inj (pending.symm.trans hp)
    exact plan.proper hc
  | fails m batch k plan emits core pending =>
    obtain ⟨_, _, _, hb⟩ := plan.becomes
    obtain ⟨hconfig, hdeferred⟩ := hqueue hb
    refine ⟨core.config.trans hconfig, hsent, fun p hp => absurd (pending.symm.trans hp) (by simp),
      fun e he => ?_⟩
    rcases core.deferred with hd | hd <;> rw [hd] at he
    · exact hdeferred e he
    · cases he

end Reaction

/-! ### Steps -/

section Step

variable {g : RaftConfig} {n : RaftNode} {c : Ctx} {e : RaftEvent}

/-- Effects that are no messages, and a node that owes nothing new. -/
theorem Ctx.Proper.silent (h : Ctx.Proper g { node := n })
    (he : Emits (fun e => ∀ envelope, e ≠ .send envelope) { node := n } c)
    (config : c.node.config = n.config)
    (owed : ∀ p, c.node.pendingStorage = some p → p.afterSuccess.Proper c.node.currentTerm)
    (queue : ∀ e ∈ c.node.deferredEvents, e.Proper g) : c.Proper g where
  config := config.trans h.config
  sent m hm := absurd (mem_sends hm) (not_sent_of_emits he m)
  owed := owed
  queue := queue

/-- **A node that hears only proper messages says only proper messages.** -/
theorem proper_step (h : Ctx.Proper g { node := n }) (he : e.Proper g) : (n.step e).Proper g := by
  have hevent : ∀ {c : Ctx} {e : RaftEvent}, c.Proper g → e.Proper g →
      (Cause.event e).Proper c.node := fun hc he => by
    rw [← hc.config] at he
    exact he
  refine StepRule.step ⟨fun _ c hc hemits => ?_, fun _ hp => ?_, fun p hc detail => ?_,
    fun p hc => ?_, fun hp _ => ?_, fun c e' rest hc hp _ hrest => ?_⟩
  · exact h.silent (hemits _ tolerant_not_send) (by rw [hc]) (by rw [hc]; exact h.owed)
      (by rw [hc]; exact h.queue)
  · refine ⟨h.config, h.sent, h.owed, fun x hx => ?_⟩
    rcases List.mem_append.mp hx with hx | hx
    · exact h.queue x hx
    · rw [List.mem_singleton.mp hx]
      exact he
  · have hfree : Ctx.Proper g { node := { n with pendingStorage := none } } :=
      ⟨h.config, h.sent, fun _ hp => (nomatch hp), h.queue⟩
    refine hfree.silent (tolerant_not_send.failed (Emits.refl _)) ?_ ?_ ?_ <;>
      rw [Ctx.failStorage_node]
    · exact fun _ hp => nomatch hp
    · exact fun _ he => nomatch he
  · refine (outcome_resume _ rfl _).proper ?_ (h.owed p hc.1)
    exact ⟨h.config, by simp [Ctx.sends, Ctx.markDurable, Ctx.trace, Ctx.emit],
      fun _ hp => (nomatch hp), h.queue⟩
  · exact (outcome_dispatch _ hp e).proper h (hevent h he)
  · have hqueue := hc.queue
    rw [hrest, List.forall_mem_cons] at hqueue
    have hpop : (c.pop rest).Proper g := ⟨hc.config, hc.sent, hc.owed, hqueue.2⟩
    exact (outcome_dispatch (c.pop rest) hp e').proper hpop (hevent hpop hqueue.1)

end Step

end DetLog
