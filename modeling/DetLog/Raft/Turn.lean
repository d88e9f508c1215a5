import DetLog.Raft.Books

/-!
# A step as a sequence of reactions

`RaftNode.step` takes an event in, and then runs the events that were deferred before it.
`DetLog.Received` lists the ways in which an event is taken in, with the effects of each,
and `DetLog.RaftNode.step_eq_drain` says that the rest of the step is the loop over the
queue.

Most reactions of a step change nothing that is protected: a reaction that does change
something hands it to storage, and then the loop ends. So the node that reacts is
`DetLog.Steady`, the one before the step up to its volatile state, whenever the step gets
to another reaction. `DetLog.TurnRule` is the induction over a step that uses this.
-/

namespace DetLog

/-- The completion of a storage operation. -/
def RaftEvent.IsCompletion : RaftEvent → Prop
  | .storageComplete _ _ _ => True
  | _ => False

/-- The node and the trace with which a completed batch is resumed. -/
def RaftNode.marked (n : RaftNode) (p : PendingStorage) : Ctx :=
  (Ctx.markDurable { node := { n with pendingStorage := none } } p.batch).trace
    .storageComplete "storage operation completed" 0

/-! ### Taking an event in -/

/-- What becomes of an event to which the node does not react: the effects of putting it
aside. -/
inductive Aside (n : RaftNode) : RaftEvent → Ctx → Prop
  | unexpected (opId : ℕ) (success : Bool) (error : String)
      (other : ∀ p, n.pendingStorage = some p → p.opId ≠ opId) :
      Aside n (.storageComplete opId success error)
        (Ctx.trace { node := n } .fault "unexpected storage completion" 0)
  | failed (p : PendingStorage) (error : String) (pending : n.pendingStorage = some p) :
      Aside n (.storageComplete p.opId false error)
        (Ctx.failStorage { node := { n with pendingStorage := none } }
          (if error.isEmpty then "storage operation failed" else error))
  | invalid (token : ClientToken) (command : ClientCommand) (waits : n.pendingStorage.isSome)
      (bad : commandAcceptable n.config command = false) :
      Aside n (.clientRequest token command)
        (Ctx.emitReply { node := n } token .invalidRequest [] 0)
  | oversized (envelope : MessageEnvelope) (append : AppendEntries)
      (waits : n.pendingStorage.isSome) (message : envelope.message = .appendEntries append) :
      Aside n (.messageReceived envelope)
        (Ctx.trace { node := n } .queueSaturated "rejected oversized deferred protocol event" 0)
  | busy (token : ClientToken) (command : ClientCommand) (waits : n.pendingStorage.isSome)
      (full : n.config.maxDeferredEvents ≤ n.deferredEvents.length) :
      Aside n (.clientRequest token command)
        ((Ctx.trace { node := n } .queueSaturated "deferred event queue is full" 0).emitReply token
          .busy [] 0)
  | dropped (e : RaftEvent) (internal : e.IsInternal) (waits : n.pendingStorage.isSome)
      (full : n.config.maxDeferredEvents ≤ n.deferredEvents.length) :
      Aside n e (Ctx.trace { node := n } .queueSaturated "deferred event queue is full" 0)
  | deferred (e : RaftEvent) (event : ¬e.IsCompletion) (waits : n.pendingStorage.isSome)
      (room : n.deferredEvents.length < n.config.maxDeferredEvents) :
      Aside n e { node := { n with deferredEvents := n.deferredEvents ++ [e] } }
  | stopped (token : ClientToken) (command : ClientCommand) (free : n.pendingStorage = none)
      (down : n.role = .unavailable) :
      Aside n (.clientRequest token command)
        (Ctx.emitReply { node := n } token .unavailable [] 0)
  | ignored (e : RaftEvent) (internal : e.IsInternal) (free : n.pendingStorage = none)
      (down : n.role = .unavailable) : Aside n e { node := n }

/-- **How a step begins**: its event is put aside, completes the outstanding batch, or is
dispatched. -/
inductive Received (n : RaftNode) : RaftEvent → Ctx → Prop
  | aside {e : RaftEvent} {c : Ctx} (h : Aside n e c) : Received n e c
  | completed (p : PendingStorage) (error : String) (pending : n.pendingStorage = some p) :
      Received n (.storageComplete p.opId true error) ((n.marked p).resume p.afterSuccess)
  | dispatched (e : RaftEvent) (event : ¬e.IsCompletion) (idle : n.Idle) :
      Received n e (Ctx.dispatch { node := n } e)

/-- A node that waits for storage or has stopped. -/
def RaftNode.Busy (n : RaftNode) : Prop := n.pendingStorage ≠ none ∨ n.role = .unavailable

section Received

variable {n : RaftNode} {e : RaftEvent} {c : Ctx}

theorem RaftNode.Idle.not_busy (h : n.Idle) : ¬n.Busy := by
  rintro (hp | hr)
  · exact hp h.free
  · exact h.available hr

theorem RaftNode.idle_of_not_busy (h : ¬n.Busy) : n.Idle := by
  simp only [RaftNode.Busy, not_or, not_not] at h
  exact ⟨h.1, h.2⟩

/-- A busy node leaves its queue alone. -/
theorem drain_of_busy (h : c.node.Busy) (fuel : ℕ) : c.drain fuel = c := by
  cases fuel with
  | zero => rfl
  | succ fuel =>
    rw [Ctx.drain, if_pos]
    exact h.imp_left Option.isSome_iff_ne_none.mpr

theorem drain_succ_of_idle (h : c.node.Idle) {rest : List RaftEvent}
    (hq : c.node.deferredEvents = e :: rest) (fuel : ℕ) :
    c.drain (fuel + 1) = ((c.pop rest).dispatch e).drain fuel := by
  rw [Ctx.drain, if_neg, hq]
  rintro (hp | hr)
  · simp [h.free] at hp
  · exact h.available hr

theorem received_onStorageComplete (n : RaftNode) (opId : ℕ) (success : Bool) (error : String) :
    Received n (.storageComplete opId success error)
      (Ctx.onStorageComplete { node := n } opId success error) := by
  unfold Ctx.onStorageComplete
  simp only
  cases hp : n.pendingStorage with
  | none => exact .aside (.unexpected opId success error fun p h => by simp [hp] at h)
  | some p =>
    simp only
    by_cases hop : p.opId = opId
    · subst hop
      rw [if_neg (by simp)]
      cases success with
      | false => exact .aside (.failed p error hp)
      | true => exact .completed p error hp
    · rw [if_pos hop]
      refine .aside (.unexpected opId success error fun q hq => ?_)
      obtain rfl : p = q := Option.some.inj (hp.symm.trans hq)
      exact hop

theorem received_defer (hw : n.pendingStorage.isSome) (he : ¬e.IsCompletion) :
    Received n e (n.defer e) := by
  unfold RaftNode.defer
  simp only
  split_ifs with hfull
  · cases e with
    | clientRequest token command => exact .aside (.busy token command hw hfull)
    | timerFired kind generation | messageReceived envelope =>
      exact .aside (.dropped _ trivial hw hfull)
    | storageComplete opId success error => exact absurd trivial he
  · exact .aside (.deferred e he hw (not_le.mp hfull))

theorem received_deferFiltered (hw : n.pendingStorage.isSome) (he : ¬e.IsCompletion) :
    Received n e (n.deferFiltered e) := by
  unfold RaftNode.deferFiltered
  split
  · split_ifs with hbad
    · exact .aside (.invalid _ _ hw hbad)
    · exact received_defer hw he
  · split_ifs
    · exact received_defer hw he
    · exact .aside (.oversized _ _ hw rfl)
  · exact received_defer hw he

theorem deferFiltered_pendingStorage (n : RaftNode) (e : RaftEvent) :
    (n.deferFiltered e).node.pendingStorage = n.pendingStorage := by
  have hdefer : (n.defer e).node.pendingStorage = n.pendingStorage := by
    unfold RaftNode.defer
    simp only
    split_ifs
    · split <;> rfl
    · rfl
  unfold RaftNode.deferFiltered
  split
  · split_ifs
    · rfl
    · exact hdefer
  · split_ifs
    · exact hdefer
    · rfl
  · exact hdefer

/-- **A step takes its event in and drains the queue.** -/
theorem RaftNode.step_eq_drain (n : RaftNode) (e : RaftEvent) :
    ∃ c, Received n e c ∧ n.step e = c.drain c.node.deferredEvents.length := by
  -- An event that is no completion: only a dispatch is followed by the loop, and the loop
  -- does nothing to a node that waits or has stopped.
  have hother : ∀ e refused, ¬e.IsCompletion →
      (n.pendingStorage = none → n.role = .unavailable → Received n e refused) →
      (n.role = .unavailable → refused.node = n) →
      ∃ c, Received n e c ∧ (if n.pendingStorage.isSome then n.deferFiltered e
        else if n.role = .unavailable then refused else n.process e) =
          c.drain c.node.deferredEvents.length := by
    intro e refused he hrefused hnode
    split_ifs with hp hr
    · refine ⟨_, received_deferFiltered hp he, (drain_of_busy (Or.inl ?_) _).symm⟩
      rw [deferFiltered_pendingStorage]
      exact Option.isSome_iff_ne_none.mp hp
    · refine ⟨refused, hrefused (by simpa using hp) hr, (drain_of_busy (Or.inr ?_) _).symm⟩
      rw [hnode hr]
      exact hr
    · exact ⟨_, .dispatched e he ⟨by simpa using hp, hr⟩, rfl⟩
  cases e with
  | storageComplete opId success error =>
    exact ⟨_, received_onStorageComplete n opId success error, rfl⟩
  | timerFired kind generation | messageReceived envelope =>
    exact hother _ _ id (fun hp hr => .aside (.ignored _ trivial hp hr)) fun _ => rfl
  | clientRequest token command =>
    exact hother _ _ id (fun hp hr => .aside (.stopped token command hp hr)) fun _ => rfl

/-- **The induction over a step**: what holds once the event is taken in and is kept by
every event of the queue holds after the step. -/
theorem RaftNode.step_induction {I : Ctx → Prop} (n : RaftNode) (e : RaftEvent)
    (received : ∀ c, Received n e c → I c)
    (pops : ∀ (c : Ctx) (e' : RaftEvent) (rest : List RaftEvent), I c → c.node.Idle →
      c.node.deferredEvents = e' :: rest → I ((c.pop rest).dispatch e')) : I (n.step e) := by
  have hdrain : ∀ fuel c, I c → I (c.drain fuel) := by
    intro fuel
    induction fuel with
    | zero => exact fun c h => h
    | succ fuel ih =>
      intro c h
      by_cases hb : c.node.Busy
      · rwa [drain_of_busy hb]
      · have hidle := RaftNode.idle_of_not_busy hb
        cases hq : c.node.deferredEvents with
        | nil =>
          rw [Ctx.drain, hq]
          simp only [ite_self]
          exact h
        | cons e' rest =>
          rw [drain_succ_of_idle hidle hq]
          exact ih _ (pops c e' rest h hidle hq)
  obtain ⟨c, hc, hstep⟩ := n.step_eq_drain e
  rw [hstep]
  exact hdrain _ c (received c hc)

end Received

/-! ### Steady nodes -/

/-- **The node before a step, up to its volatile state.** -/
structure Steady (n : RaftNode) (e : RaftEvent) (m : RaftNode) : Prop where
  config : m.config = n.config
  memory : m.memory = n.memory
  durable : m.durableLastLogIndex ≤ n.log.length
  opId : m.nextStorageOpId = n.nextStorageOpId
  lead : m.role = .leader → n.role = .leader
  deferred : ∀ x ∈ m.deferredEvents, x = e ∨ x ∈ n.deferredEvents

section Steady

variable {n : RaftNode} {e : RaftEvent} {cause : Cause} {c c' : Ctx}

/-- An idle node has its whole log in storage. -/
theorem Coherent.steady {d : RecoveredState} {got : Set RaftEvent} (h : Coherent d got n)
    (idle : n.Idle) (e : RaftEvent) : Steady n e n := by
  refine ⟨rfl, rfl, ?_, rfl, id, fun _ hx => Or.inr hx⟩
  rw [h.lastIndex, ← h.ready idle.available idle.free]
  exact le_rfl

theorem Steady.pop (h : Steady n e c.node) {rest : List RaftEvent}
    (hrest : ∀ x ∈ rest, x ∈ c.node.deferredEvents) : Steady n e (c.pop rest).node :=
  { h with deferred := fun x hx => h.deferred x (hrest x hx) }

theorem busy_failStorage (c : Ctx) (detail : String) : (c.failStorage detail).node.Busy := by
  rw [Ctx.failStorage_node]
  exact Or.inr rfl

theorem busy_startPersist (free : c.node.pendingStorage = none) (batch : PersistBatch)
    (k : Continuation) : (c.startPersist batch k).node.Busy := by
  unfold Ctx.startPersist
  simp only [free, Option.isSome_none, Bool.false_eq_true, if_false]
  split_ifs
  · exact busy_failStorage c _
  · exact Or.inl (by simp [Ctx.emit, Ctx.trace])

/-- The identifier of the next storage operation changes only with a batch. -/
def KeepsOpId (c c' : Ctx) : Prop :=
  (c'.node.nextStorageOpId = c.node.nextStorageOpId ∨ c'.node.Busy) ∧
    (c.node.Busy → c'.node.Busy)

theorem KeepsOpId.of_same (hid : c'.node.nextStorageOpId = c.node.nextStorageOpId)
    (hp : c'.node.pendingStorage = c.node.pendingStorage)
    (hr : c.node.role = .unavailable → c'.node.role = .unavailable) : KeepsOpId c c' :=
  ⟨Or.inl hid, Or.imp (fun h => by rwa [hp]) hr⟩

theorem KeepsOpId.of_busy (h : c'.node.Busy) : KeepsOpId c c' := ⟨Or.inr h, fun _ => h⟩

theorem KeepsOpId.trans {c'' : Ctx} (h : KeepsOpId c c') (h' : KeepsOpId c' c'') :
    KeepsOpId c c'' := by
  refine ⟨?_, fun hb => h'.2 (h.2 hb)⟩
  rcases h.1 with hid | hb
  · exact h'.1.imp_left fun hid' => hid'.trans hid
  · exact Or.inr (h'.2 hb)

theorem keepsOpId_of_micro (m : Micro n cause c c') : KeepsOpId c c' := by
  cases m with
  | exhausted detail => exact .of_busy (busy_failStorage c detail)
  | overwrite => exact .of_busy (busy_failStorage c _)
  | persist batch k free => exact .of_busy (busy_startPersist free batch k)
  | commit target batch k free =>
    refine .of_busy (busy_startPersist ?_ batch k)
    exact free
  | append peer progress leader free found idle id =>
    unfold Ctx.sendAppendTo
    simp only
    rw [if_neg id]
    exact .of_same rfl rfl fun h => h
  | apply e idle =>
    obtain ⟨machine, clients, sessions, hnode⟩ := applyEntry_node _ _ _
    refine .of_same ?_ ?_ fun h => ?_ <;> rw [hnode]
    exact h
  | retire hint available | campaign available => exact .of_same rfl rfl fun h => absurd h available
  | lead candidate => exact .of_same rfl rfl fun h => by simp [candidate] at h
  | abort leader => exact .of_same rfl rfl fun h => by simp [leader] at h
  | remove index p found =>
    refine .of_same ?_ ?_ fun h => ?_ <;> simp only [Ctx.removePending, Ctx.emitReplies_node]
    exact h
  | _ => exact .of_same rfl rfl fun h => h

/-- **A reaction leaves the node steady or busy.** -/
theorem Steady.react (hs : Steady n e c.node) (o : Outcome c.node cause c c')
    (hid : KeepsOpId c c') : Steady n e c'.node ∨ c'.node.Busy := by
  cases o with
  | waits batch k opId plan pending => exact Or.inr (Or.inl (by simp [pending]))
  | fails m batch k plan emits core pending role => exact Or.inr (Or.inr role)
  | held hh =>
    refine hid.1.imp_left fun hid => ⟨hh.core.config.trans hs.config,
      hh.core.memory.trans hs.memory, hh.core.durableLastLogIndex.trans_le hs.durable,
      hid.trans hs.opId, fun hl => ?_, fun x hx => ?_⟩
    · cases hh.status with
      | same role => exact hs.lead (role.symm.trans hl)
      | tally _ _ _ _ _ _ role | follower role | unavailable role => simp [role] at hl
    · rcases hh.core.deferred with hd | hd
      · exact hs.deferred x (hd ▸ hx)
      · simp [hd] at hx

end Steady

/-- What every move and every intake keeps, a dispatch keeps. -/
theorem dispatch_keeps {I : Ctx → Prop} {c : Ctx} {e : RaftEvent} (idle : c.node.Idle)
    (moves : ∀ c₁ c₂, Micro c.node (.event e) c₁ c₂ → I c₁ → I c₂)
    (takes : ∀ token command c₁ c₂, Intake token command c₁ c₂ → I c₁ → I c₂)
    (reports : ∀ c₁, I c₁ → I (c₁.trace .fault "unexpected storage completion" 0))
    (h : I c) : I (c.dispatch e) := by
  cases e with
  | timerFired kind generation =>
    have hmoves := moves_dispatch idle (e := .timerFired kind generation) trivial
    exact hmoves.keeps moves h
  | messageReceived envelope =>
    have hmoves := moves_dispatch idle (e := .messageReceived envelope) trivial
    exact hmoves.keeps moves h
  | storageComplete opId success error =>
    simp only [Ctx.dispatch, Ctx.onStorageComplete, idle.free]
    exact reports c h
  | clientRequest token command =>
    obtain ⟨c₁, c₂, hbefore, hin, hafter⟩ : TakesIn c.node
        (.event (.clientRequest token command)) token command c _ :=
      takesIn_onClientRequest idle token command
    exact hafter.keeps moves (takes _ _ _ _ hin (hbefore.keeps moves h))

/-! ### The rule -/

/-- **A reaction within a step**: to an event that has come or was waiting, or to the
completion of the outstanding batch. -/
inductive Reaction (n : RaftNode) (e : RaftEvent) : Cause → Ctx → Ctx → Prop
  | event (c : Ctx) (e' : RaftEvent) (taken : e' = e ∨ e' ∈ n.deferredEvents)
      (idle : c.node.Idle) (steady : Steady n e c.node) :
      Reaction n e (.event e') c (c.dispatch e')
  | resumed (p : PendingStorage) (completes : Completes n e p true)
      (available : n.role ≠ .unavailable) (committed : n.commitIndex ≤ n.log.length)
      (durable : (n.marked p).node.durableLastLogIndex ≤ n.log.length) :
      Reaction n e (.resumed p.afterSuccess) (n.marked p) ((n.marked p).resume p.afterSuccess)

/-- **The obligations behind a step whose reactions start from a steady node.** -/
structure TurnRule (I : Ctx → Prop) (n : RaftNode) (e : RaftEvent) : Prop where
  aside : ∀ c, Aside n e c → I c
  begins : n.Idle → I { node := n }
  marks : ∀ p, Completes n e p true → I (n.marked p)
  pops : ∀ c x rest, c.node.deferredEvents = x :: rest → c.node.Idle → I c → I (c.pop rest)
  reacts : ∀ {cause c c'}, Reaction n e cause c c' → I c → I c'

section Rule

variable {n : RaftNode} {e : RaftEvent} {cause : Cause} {c c' : Ctx}

namespace Reaction

variable (r : Reaction n e cause c c')
include r

theorem idle : c.node.Idle := by
  cases r with
  | event _ _ _ idle => exact idle
  | resumed p completes available => exact ⟨rfl, available⟩

theorem steady : Steady n e c.node := by
  cases r with
  | event _ _ _ _ steady => exact steady
  | resumed p completes available committed durable =>
    exact ⟨rfl, rfl, durable, rfl, id, fun x hx => Or.inr hx⟩

theorem outcome : Outcome c.node cause c c' := by
  cases r with
  | event _ e' _ idle => exact outcome_dispatch c idle.free e'
  | resumed p => exact outcome_resume _ rfl _

/-- **What every move and every intake keeps, a reaction keeps.** -/
theorem keeps {I : Ctx → Prop} (moves : ∀ c₁ c₂, Micro c.node cause c₁ c₂ → I c₁ → I c₂)
    (takes : ∀ token command c₁ c₂, Intake token command c₁ c₂ → I c₁ → I c₂)
    (reports : ∀ c₁, I c₁ → I (c₁.trace .fault "unexpected storage completion" 0)) (h : I c) :
    I c' := by
  cases r with
  | event _ e' taken idle => exact dispatch_keeps idle moves takes reports h
  | resumed p completes available committed =>
    have hmoves : Moves (n.marked p).node (.resumed p.afterSuccess) (n.marked p) _ :=
      moves_resume ⟨rfl, available⟩ p.afterSuccess fun _ => committed
    exact hmoves.keeps moves h

theorem keepsOpId : KeepsOpId c c' := by
  refine r.keeps (I := KeepsOpId c) (fun _ _ m h => h.trans (keepsOpId_of_micro m)) ?_
    (fun _ h => h.trans (.of_same rfl rfl fun h => h)) (.of_same rfl rfl fun h => h)
  intro token command c₁ c₂ hin h
  refine h.trans ?_
  cases hin <;> exact .of_same rfl rfl fun h => h

theorem next : Steady n e c'.node ∨ c'.node.Busy :=
  r.steady.react r.outcome r.keepsOpId

end Reaction

variable {d : RecoveredState} {got : Set RaftEvent}

theorem Aside.steady (h : Aside n e c) (hco : Coherent d got n) :
    Steady n e c.node ∨ c.node.Busy := by
  by_cases hb : n.Busy
  · refine Or.inr ?_
    cases h with
    | failed p error pending => exact busy_failStorage _ _
    | _ => exact hb
  · have idle := RaftNode.idle_of_not_busy hb
    have hs := hco.steady idle e
    cases h with
    | unexpected | ignored | stopped => exact Or.inl hs
    | failed p error pending => exact absurd (idle.free.symm.trans pending) (by simp)
    | _ => simp [idle.free] at *

theorem Coherent.durable_marked (hco : Coherent d got n) {p : PendingStorage}
    (hp : n.pendingStorage = some p) :
    (n.marked p).node.durableLastLogIndex ≤ n.log.length := by
  obtain ⟨h, hr, -⟩ := hco.complete hp
  have hmem := h.ready hr rfl
  refine le_of_eq (h.lastIndex.trans ?_)
  rw [← hmem]
  rfl

/-- **The rule for a step.** -/
theorem TurnRule.step {I : Ctx → Prop} (h : TurnRule I n e) (hco : Coherent d got n) :
    I (n.step e) := by
  suffices hboth : I (n.step e) ∧ (Steady n e (n.step e).node ∨ (n.step e).node.Busy) from hboth.1
  refine n.step_induction e (I := fun c => I c ∧ (Steady n e c.node ∨ c.node.Busy)) ?_ ?_
  · intro c hc
    cases hc with
    | aside ha => exact ⟨h.aside c ha, ha.steady hco⟩
    | completed p error pending =>
      have hcomp : Completes n (.storageComplete p.opId true error) p true := ⟨pending, error, rfl⟩
      have r := Reaction.resumed p hcomp (hco.complete pending).2.1 hco.formed.commit_le
        (hco.durable_marked pending)
      exact ⟨h.reacts r (h.marks p hcomp), r.next⟩
    | dispatched e event idle =>
      have r := Reaction.event { node := n } e (Or.inl rfl) idle (hco.steady idle e)
      exact ⟨h.reacts r (h.begins idle), r.next⟩
  · rintro c e' rest ⟨hI, hs⟩ idle hq
    have hs := hs.resolve_right idle.not_busy
    have r := Reaction.event (c.pop rest) e' (hs.deferred e' (by simp [hq]))
      ⟨idle.free, idle.available⟩ (hs.pop fun x hx => by simp [hq, hx])
    exact ⟨h.reacts r (h.pops c e' rest hq idle hI), r.next⟩

end Rule

/-! ### Elections within a step -/

section Election

variable {c : Ctx} {e : RaftEvent}

/-- A vote that completes a quorum makes the node a leader at once. -/
theorem dispatch_of_wins (wins : Wins c.node (.event e)) : ∃ s,
    c.dispatch e =
      ((c.trace .receive "protocol message received" 0).recordVote s).becomeLeader := by
  obtain ⟨hrole, s, response, ⟨hcause, hne, hmem⟩, hterm, hgranted, hquorum⟩ := wins
  obtain rfl : e = _ := Cause.event.inj hcause
  refine ⟨s, ?_⟩
  have hterm' : ¬c.node.currentTerm < response.term := by
    rw [hterm]
    exact lt_irrefl _
  have hcount : ¬(c.node.role ≠ .candidate ∨ response.term ≠ c.node.currentTerm ∨
      response.voteGranted = false) := by simp [hrole, hterm, hgranted]
  simp only [Ctx.dispatch, Ctx.onMessage]
  rw [if_neg (by simp [hne, hmem, RaftNode.isMember])]
  generalize hc₀ : c.trace .receive "protocol message received" 0 = c₀
  have hnode : c₀.node = c.node := hc₀ ▸ rfl
  rw [← hnode] at hterm' hcount hquorum
  simp only [Ctx.onRequestVoteResponse]
  rw [if_neg hterm', if_neg hcount, if_pos]
  rw [Ctx.recordVote_node]
  exact hquorum

/-- A new leader that has appended its readiness entry had room for it. -/
theorem canAppend_of_becomeLeader (h : c.becomeLeader.node.log ≠ c.node.log) :
    c.node.canAppend (c.node.nextEntry none) = true := by
  by_contra hno
  rw [Bool.not_eq_true] at hno
  have hfull : ∀ role votes hint peers generation, RaftNode.canAppend
      { c.node with
        role := role, leaderHint := hint, leaderReady := false, readinessIndex := 0
        votesReceived := votes, electionGeneration := generation, peers := peers }
      (RaftNode.nextEntry { c.node with
        role := role, leaderHint := hint, leaderReady := false, readinessIndex := 0
        votesReceived := votes, electionGeneration := generation, peers := peers } none) = false :=
    fun _ _ _ _ _ => hno
  apply h
  simp only [Ctx.becomeLeader, Ctx.appendReadiness, Ctx.trace_node, hfull, if_true]
  split_ifs
  · rw [Ctx.failStorage_node]
    rfl
  · rfl

/-- **An election that changes the log had room for the change.** -/
theorem canAppend_of_wins (wins : Wins c.node (.event e))
    (h : (c.dispatch e).node.log ≠ c.node.log) :
    c.node.canAppend (c.node.nextEntry none) = true := by
  obtain ⟨s, hs⟩ := dispatch_of_wins wins
  rw [hs] at h
  have hnode := Ctx.recordVote_node (c.trace .receive "protocol message received" 0) s
  have hroom := canAppend_of_becomeLeader
    (c := (c.trace .receive "protocol message received" 0).recordVote s) (by rwa [hnode])
  rw [hnode] at hroom
  exact hroom

end Election

/-! ### What a step plans and sends -/

section Turned

variable {n : RaftNode} {e : RaftEvent} {c : Ctx} {d : RecoveredState} {got : Set RaftEvent}

/-- What a step does to the protected state: nothing, or what one plan of a steady node
does. -/
inductive Turned (n : RaftNode) (e : RaftEvent) (c : Ctx) : Prop
  | steady (memory : c.node.memory = n.memory)
  | planned (n₁ : RaftNode) (cause : Cause) (m : RaftNode) (batch : PersistBatch)
      (k : Continuation) (steady : Steady n e n₁)
      (taken : ∀ e', cause = .event e' → e' = e ∨ e' ∈ n.deferredEvents)
      (plan : Plan n₁ cause m batch k) (memory : c.node.memory = m.memory)
      (role : c.node.role = m.role ∨ c.node.role = .unavailable)
      (room : Wins n₁ cause → m.log ≠ n₁.log → n₁.canAppend (n₁.nextEntry none) = true)

theorem Aside.memory (h : Aside n e c) : c.node.memory = n.memory := by
  cases h with
  | failed p error pending =>
    rw [Ctx.failStorage_node]
    rfl
  | _ => rfl

/-- Putting an event aside emits traces and refusals. -/
theorem Aside.emits (h : Aside n e c) {P : RaftEffect → Prop} (hP : Tolerant P) :
    Emits P { node := n } c := by
  have hr := Emits.refl (P := P) { node := n }
  cases h with
  | unexpected | oversized | dropped => exact hP.traced hr (by simp)
  | failed p error pending => exact hP.failed ((Emits.refl (P := P) { node := n }).setNode _)
  | invalid => exact hP.replied hr (by simp)
  | busy => exact hP.replied (hP.traced hr (by simp)) (by simp)
  | deferred => exact hr.setNode _
  | stopped => exact hP.replied hr (by simp)
  | ignored => exact hr

theorem Reaction.taken {cause : Cause} {c' : Ctx} (r : Reaction n e cause c c') (e' : RaftEvent)
    (h : cause = .event e') : e' = e ∨ e' ∈ n.deferredEvents := by
  cases r with
  | event _ x taken =>
    obtain rfl := Cause.event.inj h
    exact taken
  | resumed => cases h

theorem Reaction.room {cause : Cause} {c' : Ctx} (r : Reaction n e cause c c')
    (wins : Wins c.node cause) (h : c'.node.log ≠ c.node.log) :
    c.node.canAppend (c.node.nextEntry none) = true := by
  cases r with
  | event _ x => exact canAppend_of_wins wins h
  | resumed =>
    obtain ⟨-, _, _, ⟨hcause, -⟩, -⟩ := wins
    cases hcause

/-- **A step changes the protected state by one plan at most.** -/
theorem Coherent.turned (hco : Coherent d got n) (e : RaftEvent) : Turned n e (n.step e) := by
  refine TurnRule.step (I := Turned n e) ?_ hco
  refine ⟨fun c h => .steady h.memory, fun _ => .steady rfl, fun p _ => .steady rfl, ?_, ?_⟩
  · intro c _ rest _ _ h
    cases h with
    | steady memory => exact .steady memory
    | planned n₁ cause m batch k steady taken plan memory role room =>
      exact .planned n₁ cause m batch k steady taken plan memory role room
  · intro cause c c' r _
    have hroom := r.room
    cases r.outcome with
    | held hh => exact .steady (hh.core.memory.trans r.steady.memory)
    | waits batch k opId plan =>
      exact .planned c.node cause c'.node batch k r.steady r.taken plan rfl (Or.inl rfl) hroom
    | fails m batch k plan emits core pending role =>
      refine .planned c.node cause m batch k r.steady r.taken plan core.memory (Or.inr role) ?_
      rwa [core.log] at hroom

/-- **What a step sends**, in terms of a steady node. -/
theorem Coherent.sends (hco : Coherent d got n) (e : RaftEvent) {envelope : MessageEnvelope}
    (h : .send envelope ∈ (n.step e).effects) :
    ∃ n₁ cause, Steady n e n₁ ∧ SendOk n₁ cause envelope := by
  revert envelope
  refine TurnRule.step (I := fun c => ∀ {envelope}, .send envelope ∈ c.effects →
    ∃ n₁ cause, Steady n e n₁ ∧ SendOk n₁ cause envelope) ?_ hco
  refine ⟨fun c h envelope hs => ?_, fun _ => by simp, fun p _ => ?_, fun _ _ _ _ _ h => h, ?_⟩
  · exact absurd hs (not_sent_of_emits (h.emits tolerant_not_send) envelope)
  · simp [RaftNode.marked, Ctx.markDurable, Ctx.trace, Ctx.emit]
  · intro cause c c' r hI envelope hs
    rcases r.outcome.sent hs with hs | hs
    · exact hI hs
    · exact ⟨c.node, cause, r.steady, hs⟩

end Turned

end DetLog
