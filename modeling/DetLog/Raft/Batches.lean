import DetLog.Raft.Structure

/-!
# The batches of a node

A step asks its storage for one batch at most, and the batches of a whole run are numbered from
one. `DetLog.Asks` says so for one step, together with what the batch means: written to the state
in memory before the step it gives the one after it. So as long as a node has not stopped, its
memory is the recovered state with every batch it has ever asked for.
-/

namespace DetLog

/-- The batch of an effect. -/
def RaftEffect.batch? : RaftEffect → Option PersistEffect
  | .persist p => some p
  | _ => none

/-- The batches among some effects. -/
def batchesOf (effects : List RaftEffect) : List PersistEffect :=
  effects.filterMap RaftEffect.batch?

/-- The state that some batches leave. -/
def RecoveredState.writeAll (s : RecoveredState) (batches : List PersistEffect) : RecoveredState :=
  (batches.map PersistEffect.batch).foldl RecoveredState.write s

section Batches

variable {n m : RaftNode} {e : RaftEvent} {cause : Cause} {c c' : Ctx} {effects : List RaftEffect}

@[simp] theorem writeAll_nil (s : RecoveredState) : s.writeAll [] = s := rfl

@[simp] theorem writeAll_concat (s : RecoveredState) (batches : List PersistEffect)
    (p : PersistEffect) : s.writeAll (batches ++ [p]) = (s.writeAll batches).write p.batch := by
  simp [RecoveredState.writeAll]

theorem batchesOf_append (effects effects' : List RaftEffect) :
    batchesOf (effects ++ effects') = batchesOf effects ++ batchesOf effects' :=
  List.filterMap_append

theorem batchesOf_eq_nil (h : ∀ p, .persist p ∉ effects) : batchesOf effects = [] := by
  rw [batchesOf, List.filterMap_eq_nil_iff]
  intro effect hmem
  cases effect with
  | persist p => exact absurd hmem (h p)
  | _ => rfl

theorem batchesOf_of_ok {es : List RaftEffect} (h : ∀ x ∈ es, EffectOk n cause x) :
    batchesOf es = [] :=
  batchesOf_eq_nil fun _ hp => h _ hp

theorem Emits.batchesOf (h : Emits (EffectOk n cause) c c') :
    batchesOf c'.effects = batchesOf c.effects := by
  obtain ⟨-, es, hes, hok⟩ := h
  rw [hes, batchesOf_append, batchesOf_of_ok hok, List.append_nil]

/-! ### Numbers -/

/-- Within a step that begins with the next identifier `id`, a node that has not stopped has used
it for the batch it waits for, or has not used it. -/
def Numbered (id : ℕ) (n : RaftNode) : Prop :=
  n.role = .unavailable ∨ (n.pendingStorage = none ∧ n.nextStorageOpId = id) ∨
    (id ≠ 0 ∧ ∃ q, n.pendingStorage = some q ∧ q.opId = id ∧ n.nextStorageOpId = incU64 id)

variable {id : ℕ}

theorem Numbered.congr (h : Numbered id n) (role : n.role = .unavailable → m.role = .unavailable)
    (pending : m.pendingStorage = n.pendingStorage)
    (next : m.nextStorageOpId = n.nextStorageOpId) : Numbered id m := by
  unfold Numbered
  rw [pending, next]
  exact h.imp_left role

theorem numbered_failStorage (c : Ctx) (detail : String) :
    Numbered id (c.failStorage detail).node := by
  rw [Ctx.failStorage_node]
  exact Or.inl rfl

theorem Numbered.startPersist (h : Numbered id c.node) (free : c.node.pendingStorage = none)
    (batch : PersistBatch) (k : Continuation) : Numbered id (c.startPersist batch k).node := by
  refine startPersist_rule free (fun _ => numbered_failStorage c _) fun hid => ?_
  rcases h with hr | ⟨-, rfl⟩ | ⟨-, q, hq, -⟩
  · exact Or.inl hr
  · exact Or.inr (Or.inr ⟨hid, _, rfl, rfl, rfl⟩)
  · exact absurd (free.symm.trans hq) (by simp)

theorem Numbered.micro (move : Micro n cause c c') (h : Numbered id c.node) :
    Numbered id c'.node := by
  cases move with
  | exhausted detail => exact numbered_failStorage c detail
  | overwrite => exact numbered_failStorage c _
  | persist batch k free => exact h.startPersist free batch k
  | commit target batch k free =>
    refine Numbered.startPersist ?_ ?_ batch k
    · exact h
    · exact free
  | append peer progress leader free found idle id =>
    unfold Ctx.sendAppendTo
    simp only
    rw [if_neg id]
    exact h
  | apply e idle =>
    obtain ⟨machine, clients, sessions, hnode⟩ := applyEntry_node _ _ _
    rw [hnode]
    exact h
  | retire hint available | campaign available => exact h.congr (absurd · available) rfl rfl
  | lead candidate => exact h.congr (fun hr => by simp [candidate] at hr) rfl rfl
  | abort leader => exact h.congr (fun hr => by simp [leader] at hr) rfl rfl
  | remove index p found =>
    simp only [Ctx.removePending, Ctx.emitReplies_node]
    exact h
  | _ => exact h

theorem Reaction.numbered (r : Reaction n e cause c c') :
    Numbered c.node.nextStorageOpId c'.node := by
  refine r.keeps (I := fun c' => Numbered c.node.nextStorageOpId c'.node)
    (fun _ _ move h => h.micro move) (fun token command c₁ c₂ hin h => ?_) (fun _ h => h)
    (Or.inr (Or.inl ⟨r.idle.free, rfl⟩))
  cases hin <;> exact h

/-! ### Steps -/

/-- **What a step asks of storage**: nothing, or one batch under the next identifier. -/
inductive Asks (n : RaftNode) (c : Ctx) : Prop
  | nothing (effects : batchesOf c.effects = [])
      (pending : c.node.pendingStorage = none ∨ c.node.pendingStorage = n.pendingStorage)
      (steady : c.node.role ≠ .unavailable →
        n.role ≠ .unavailable ∧ c.node.nextStorageOpId = n.nextStorageOpId ∧
          c.node.memory = n.memory)
  | batch (q : PendingStorage) (pending : c.node.pendingStorage = some q)
      (effects : batchesOf c.effects = [⟨q.opId, q.batch⟩]) (id : q.opId = n.nextStorageOpId)
      (valid : n.nextStorageOpId ≠ 0) (next : c.node.nextStorageOpId = incU64 n.nextStorageOpId)
      (available : n.role ≠ .unavailable) (memory : c.node.memory = n.memory.write q.batch)

variable {d : RecoveredState} {got : Set RaftEvent}

theorem Aside.asks (h : Aside n e c) : Asks n c := by
  have hnone : batchesOf c.effects = [] :=
    batchesOf_eq_nil fun p => not_persist_of_emits (h.emits tolerant_not_persist) p
  have hsteady := h.memory
  cases h with
  | failed p error pending =>
    refine .nothing hnone (Or.inl ?_) fun hr => absurd ?_ hr <;> rw [Ctx.failStorage_node]
  | _ => exact .nothing hnone (Or.inr rfl) fun hr => ⟨hr, rfl, hsteady⟩

theorem Reaction.asks (r : Reaction n e cause c c') (hnone : batchesOf c.effects = [])
    (available : n.role ≠ .unavailable) : Asks n c' := by
  have hsteady := r.steady
  cases r.outcome with
  | held hh =>
    refine .nothing (hh.emits.batchesOf.trans hnone) (Or.inl hh.pending) fun hr => ?_
    rcases r.numbered with hdown | ⟨-, hid⟩ | ⟨-, q, hq, -⟩
    · exact absurd hdown hr
    · exact ⟨available, hid.trans hsteady.opId, hh.core.memory.trans hsteady.memory⟩
    · exact absurd (hh.pending.symm.trans hq) (by simp)
  | waits batch k opId plan pending thrown effects =>
    obtain ⟨es, hes, hok⟩ := effects
    have hbatch : batchesOf c'.effects = [⟨opId, batch⟩] := by
      rw [hes, batchesOf_append, batchesOf_append, hnone, batchesOf_of_ok hok]
      rfl
    have hmem : c'.node.memory = n.memory.write batch := by
      rw [plan.memory_eq, hsteady.memory]
    rcases r.numbered with hdown | ⟨hfree, -⟩ | ⟨hvalid, q, hq, hid, hnext⟩
    · exact absurd hdown (plan.available r.idle.available)
    · exact absurd (hfree.symm.trans pending) (by simp)
    · obtain rfl := Option.some.inj (pending.symm.trans hq)
      rw [hsteady.opId] at hvalid hid hnext
      exact .batch _ pending hbatch hid hvalid hnext available hmem
  | fails m batch k plan emits core pending role =>
    exact .nothing (emits.batchesOf.trans hnone) (Or.inl pending) fun hr => absurd role hr

/-- **One step.** -/
theorem Coherent.asks (hco : Coherent d got n) (e : RaftEvent) : Asks n (n.step e) := by
  -- Until the step has asked for something, the node it started from was running.
  suffices hboth : Asks n (n.step e) ∧ (n.role = .unavailable → (n.step e).node.role =
    .unavailable) from hboth.1
  refine TurnRule.step (I := fun c => Asks n c ∧
    (n.role = .unavailable → c.node.role = .unavailable)) ?_ hco
  refine ⟨fun c h => ⟨h.asks, fun hr => ?_⟩, fun idle => ?_, fun p hp => ?_, ?_, ?_⟩
  · cases h with
    | failed p error pending => rw [Ctx.failStorage_node]
    | _ => exact hr
  · exact ⟨.nothing rfl (Or.inr rfl) fun hr => ⟨hr, rfl, rfl⟩, id⟩
  · exact ⟨.nothing rfl (Or.inl rfl) fun hr => ⟨hr, rfl, rfl⟩, id⟩
  · rintro c x rest - - ⟨h, hdown⟩
    refine ⟨?_, hdown⟩
    cases h with
    | nothing effects pending steady => exact .nothing effects pending steady
    | batch q pending effects id valid next available memory =>
      exact .batch q pending effects id valid next available memory
  · rintro cause c c' r ⟨h, hdown⟩
    have available : n.role ≠ .unavailable := fun hr => r.idle.available (hdown hr)
    refine ⟨?_, fun hr => absurd hr available⟩
    cases h with
    | nothing effects => exact r.asks effects available
    | batch q pending => exact absurd (r.idle.free.symm.trans pending) (by simp)

/-- The same for a call of `start`, which asks for nothing. -/
theorem Driven.asks {s : Driven} (hco : Coherent s.durable s.got s.node) (i : Input) :
    Asks s.node (s.ctx i) := by
  cases i with
  | event e => exact hco.asks e
  | start =>
    rcases start_cases s.node with heq | heq <;> simp only [Driven.ctx, heq] <;>
      exact .nothing rfl (Or.inr rfl) fun hr => ⟨hr, rfl, rfl⟩

theorem Driven.upholds_ctx (s : Driven) (i : Input) :
    s.node.memory.Upholds (s.ctx i).node.memory := by
  cases i with
  | event e => exact s.node.step_upholds e
  | start =>
    rcases start_cases s.node with heq | heq <;> simp only [Driven.ctx, heq] <;> exact .refl _

/-! ### The last effect -/

/-- **A batch ends a step**: the effects without it, and the batch at their end, if there is one,
for which the node waits. -/
inductive PersistLast (c : Ctx) : Prop
  | free (plain : batchesOf c.effects = [])
  | waits (es : List RaftEffect) (p : PersistEffect) (plain : batchesOf es = [])
      (effects : c.effects = es ++ [.persist p]) (pending : c.node.pendingStorage ≠ none)

theorem Reaction.persistLast (r : Reaction n e cause c c') (hnone : batchesOf c.effects = []) :
    PersistLast c' := by
  cases r.outcome with
  | held hh => exact .free (hh.emits.batchesOf.trans hnone)
  | waits batch k opId plan pending thrown effects =>
    obtain ⟨es, hes, hok⟩ := effects
    refine .waits (c.effects ++ es) ⟨opId, batch⟩ ?_ (by rw [hes, List.append_assoc])
      (by simp [pending])
    rw [batchesOf_append, hnone, batchesOf_of_ok hok, List.append_nil]
  | fails m batch k plan emits => exact .free (emits.batchesOf.trans hnone)

theorem Coherent.persistLast (hco : Coherent d got n) (e : RaftEvent) : PersistLast (n.step e) := by
  refine TurnRule.step ⟨fun c h => ?_, fun idle => .free rfl, fun p hp => .free rfl, ?_, ?_⟩ hco
  · exact .free (batchesOf_eq_nil fun p => not_persist_of_emits (h.emits tolerant_not_persist) p)
  · rintro c x rest - idle (hnone | ⟨es, p, hnone, heffects, hpending⟩)
    · exact .free hnone
    · exact absurd idle.free hpending
  · rintro cause c c' r (hnone | ⟨es, p, hnone, heffects, hpending⟩)
    · exact r.persistLast hnone
    · exact absurd r.idle.free hpending

theorem PersistLast.length_le (h : PersistLast c) : (batchesOf c.effects).length ≤ 1 := by
  cases h with
  | free hnone => simp [hnone]
  | waits es p hnone heffects =>
    rw [heffects, batchesOf_append, hnone]
    exact le_rfl

theorem PersistLast.getLast (h : PersistLast c) {p : PersistEffect} (hp : .persist p ∈ c.effects) :
    c.effects.getLast? = some (.persist p) := by
  have hnot : ∀ {es : List RaftEffect}, batchesOf es = [] → .persist p ∉ es := by
    intro es hnone hmem
    have hbatch := List.filterMap_eq_nil_iff.mp hnone _ hmem
    cases hbatch
  cases h with
  | free hnone => exact absurd hp (hnot hnone)
  | waits es q hnone heffects =>
    rw [heffects] at hp ⊢
    rcases List.mem_append.mp hp with hp | hp
    · exact absurd hp (hnot hnone)
    · rw [List.mem_singleton.mp hp, List.getLast?_concat]

/-- What a node may emit while it waits for storage. -/
def RaftEffect.Quiet : RaftEffect → Prop
  | .trace _ => True
  | .clientReply reply => reply.status = .invalidRequest ∨ reply.status = .busy
  | _ => False

/-- **While a batch is outstanding**, only its completion moves the node. -/
theorem step_of_waiting {p : PendingStorage} (hp : n.pendingStorage = some p)
    (he : ∀ success error, e ≠ .storageComplete p.opId success error) :
    (∀ x ∈ (n.step e).effects, x.Quiet) ∧ (n.step e).node.hardState = n.hardState ∧
      (n.step e).node.log = n.log ∧ (n.step e).node.commitIndex = n.commitIndex ∧
      (n.step e).node.role = n.role := by
  suffices hall : (n.step e).node.pendingStorage = some p ∧ (∀ x ∈ (n.step e).effects, x.Quiet) ∧
      (n.step e).node.hardState = n.hardState ∧ (n.step e).node.log = n.log ∧
      (n.step e).node.commitIndex = n.commitIndex ∧ (n.step e).node.role = n.role from hall.2
  refine n.step_induction e (I := fun c => c.node.pendingStorage = some p ∧
    (∀ x ∈ c.effects, x.Quiet) ∧ c.node.hardState = n.hardState ∧ c.node.log = n.log ∧
    c.node.commitIndex = n.commitIndex ∧ c.node.role = n.role) (fun c hc => ?_) ?_
  · cases hc with
    | aside ha =>
      cases ha with
      | failed q error pending =>
        obtain rfl := Option.some.inj (hp.symm.trans pending)
        exact absurd rfl (he false error)
      | stopped token command free | ignored _ _ free => simp [hp] at free
      | deferred => exact ⟨hp, by simp, rfl, rfl, rfl, rfl⟩
      | _ =>
        refine ⟨hp, ?_, rfl, rfl, rfl, rfl⟩
        simp [Ctx.trace, Ctx.emitReply, Ctx.emit, RaftEffect.Quiet]
    | completed q error pending =>
      obtain rfl := Option.some.inj (hp.symm.trans pending)
      exact absurd rfl (he true error)
    | dispatched _ _ idle => exact absurd (hp.symm.trans idle.free) (by simp)
  · rintro c x rest ⟨hwait, -⟩ idle -
    exact absurd (hwait.symm.trans idle.free) (by simp)

end Batches

/-- **Persisting is the last thing a step does**, in every run. A step emits one batch at most, and
it is its last effect. While a batch is outstanding, any event other than its completion leaves
term, vote, log, commit index and role as they are, and only invalid requests and those that find
the queue full are answered. -/
theorem persist_last {config : RaftConfig} {recovered : RecoveredState} {n : RaftNode}
    (hn : RaftNode.create config recovered = .ok n) (inputs : List Input) (e : RaftEvent) :
    let m := (Driven.run { node := n, durable := recovered } inputs).node
    ((batchesOf (m.step e).effects).length ≤ 1 ∧
      ∀ p, .persist p ∈ (m.step e).effects →
        (m.step e).effects.getLast? = some (.persist p)) ∧
    ∀ p, m.pendingStorage = some p →
      (∀ success error, e ≠ .storageComplete p.opId success error) →
      (∀ x ∈ (m.step e).effects, (∀ envelope, x ≠ .send envelope) ∧
        (∀ timer, x ≠ .scheduleTimer timer) ∧ ∀ reply, x = .clientReply reply →
          reply.status = .invalidRequest ∨ reply.status = .busy) ∧
      (m.step e).node.hardState.currentTerm = m.hardState.currentTerm ∧
      (m.step e).node.hardState.votedFor = m.hardState.votedFor ∧
      (m.step e).node.log = m.log ∧ (m.step e).node.commitIndex = m.commitIndex ∧
      (m.step e).node.role = m.role := by
  intro m
  have hlast := ((Driven.kept_create hn).run inputs).coherent.persistLast e
  refine ⟨⟨hlast.length_le, fun p => hlast.getLast⟩, fun p hp he => ?_⟩
  obtain ⟨hquiet, hhard, hlog, hcommit, hrole⟩ := step_of_waiting hp he
  refine ⟨fun x hx => ?_, by rw [hhard], by rw [hhard], hlog, hcommit, hrole⟩
  have hx := hquiet x hx
  refine ⟨?_, ?_, ?_⟩ <;> rintro y rfl
  · exact hx
  · exact hx
  · exact hx

/-- A node that campaigns asks for its first batch, and a heartbeat of another leader has to wait
until the batch is complete. -/
theorem persist_last_campaign :
    let s : Driven := { node := RaftNode.ofRecovered Driven.sampleConfig {}, durable := {} }
    let m := (s.run (Driven.sampleInputs.take 2)).node
    let e : RaftEvent := .messageReceived ⟨2, 1, .appendEntries ⟨9, 2, 1, 0, 0, [], 0⟩⟩
    RaftNode.create Driven.sampleConfig {} = .ok s.node ∧
    m.pendingStorage = some ⟨1, { hardState := some ⟨1, some 1⟩ }, .campaign⟩ ∧
    (batchesOf (m.step e).effects).length ≤ 1 ∧
    (m.step e).node.hardState.currentTerm = m.hardState.currentTerm := by
  intro s m e
  have hcreate : RaftNode.create Driven.sampleConfig {} = .ok s.node := by decide +kernel
  have hpending : m.pendingStorage =
      some ⟨1, { hardState := some ⟨1, some 1⟩ }, .campaign⟩ := by decide +kernel
  have hlast := persist_last hcreate (Driven.sampleInputs.take 2) e
  exact ⟨hcreate, hpending, hlast.1.1, (hlast.2 _ hpending (by simp [e])).2.1⟩

end DetLog
