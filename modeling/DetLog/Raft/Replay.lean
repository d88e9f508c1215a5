import DetLog.Raft.Structure

/-!
# Applying and replaying

A node applies an entry once it knows that the commit index behind it is durable. The commit
index itself moves earlier, when the batch that records it is handed over, and until that
batch is complete the node neither applies nor does anything else. So between two inputs the
applied prefix is exactly what storage is known to have committed
(`DetLog.Caught`), and a node that is rebuilt from its storage has the state machine that it
had before.

`DetLog.Life` is a node over several lifetimes. A crash leaves what storage has reported as
complete, and of the batch that it had not reported it may leave everything or nothing.
`DetLog.Life.replayed` is the result.
-/

namespace DetLog

/-! ### A node that has caught up -/

/-- **Everything that is known to be committed has been applied.** While a node waits for
nothing, there is nothing else to apply, and a batch that moves the commit index is followed
by a round of applying. -/
structure Caught (n : RaftNode) : Prop where
  applied : n.lastApplied = n.durableCommitIndex
  settled : n.Idle → n.commitIndex = n.durableCommitIndex
  pending : ∀ p, n.pendingStorage = some p → p.batch.commitIndex ≠ none → p.afterSuccess.Applies

section Caught

variable {n : RaftNode} {cause : Cause} {c c' : Ctx} {token : ClientToken}
  {command : ClientCommand}

theorem caught_failStorage (h : c.node.lastApplied = c.node.durableCommitIndex)
    (detail : String) : Caught (c.failStorage detail).node := by
  rw [Ctx.failStorage_node]
  exact ⟨h, fun idle => absurd rfl idle.available, by simp⟩

theorem caught_startPersist (h : c.node.lastApplied = c.node.durableCommitIndex)
    (free : c.node.pendingStorage = none) {batch : PersistBatch} {k : Continuation}
    (hk : batch.commitIndex ≠ none → k.Applies) : Caught (c.startPersist batch k).node := by
  refine startPersist_rule free (fun _ => caught_failStorage h _) fun _ =>
    ⟨h, fun idle => absurd idle.free (by simp), ?_⟩
  rintro p ⟨⟩ hb
  exact hk hb

/-- A move that touches neither the books nor the batch keeps a node caught up. -/
theorem Caught.congr {m : RaftNode} (h : Caught n) (applied : m.lastApplied = n.lastApplied)
    (durable : m.durableCommitIndex = n.durableCommitIndex) (commit : m.commitIndex = n.commitIndex)
    (pending : m.pendingStorage = n.pendingStorage)
    (role : m.role ≠ .unavailable → n.role ≠ .unavailable) : Caught m := by
  refine ⟨by rw [applied, durable, h.applied], fun idle => ?_, by rw [pending]; exact h.pending⟩
  rw [commit, durable]
  exact h.settled ⟨pending ▸ idle.free, role idle.available⟩

/-- **Every move keeps a node caught up**: there is never anything to apply. -/
theorem Caught.micro (m : Micro n cause c c') (h : Caught c.node) : Caught c'.node := by
  cases m with
  | exhausted detail => exact caught_failStorage h.applied detail
  | overwrite => exact caught_failStorage h.applied _
  | persist batch k free unchanged => exact caught_startPersist h.applied free (absurd unchanged)
  | commit target batch k free above raised applies =>
    refine caught_startPersist
      (c := { c with node := { c.node with commitIndex := target } }) ?_ ?_ fun _ => applies
    · exact h.applied
    · exact free
  | apply e idle behind =>
    rw [h.applied, h.settled idle] at behind
    exact absurd behind (lt_irrefl _)
  | append peer progress leader free found idle id =>
    unfold Ctx.sendAppendTo
    simp only
    rw [if_neg id]
    exact h.congr rfl rfl rfl rfl fun hr => hr
  | retire hint available | campaign available => exact h.congr rfl rfl rfl rfl fun _ => available
  | lead candidate => exact h.congr rfl rfl rfl rfl fun _ => by simp [candidate]
  | abort leader => exact h.congr rfl rfl rfl rfl fun _ => by simp [leader]
  | remove index p found =>
    simp only [Ctx.removePending, Ctx.emitReplies_node]
    exact h.congr rfl rfl rfl rfl fun hr => hr
  | _ => exact h.congr rfl rfl rfl rfl fun hr => hr

theorem Caught.intake (hin : Intake token command c c') (h : Caught c.node) : Caught c'.node := by
  cases hin <;> exact h.congr rfl rfl rfl rfl fun hr => hr

theorem Caught.dispatch (idle : c.node.Idle) (h : Caught c.node) (e : RaftEvent) :
    Caught (c.dispatch e).node :=
  dispatch_keeps (I := fun c => Caught c.node) idle (fun _ _ m h => h.micro m)
    (fun _ _ _ _ hin h => h.intake hin) (fun _ h => h) h

/-- The rounds of `apply_committed` change nothing but the books. -/
theorem applyRounds_node (fuel : ℕ) (c : Ctx)
    (hle : c.node.lastApplied + fuel ≤ c.node.commitIndex)
    (hlen : c.node.commitIndex ≤ c.node.log.length) : ∃ machine clients sessions,
    (c.applyRounds fuel).node =
      { c.node with
        lastApplied := c.node.lastApplied + fuel
        stateMachine := machine, pendingClients := clients, pendingSessions := sessions } := by
  induction fuel generalizing c with
  | zero => exact ⟨_, _, _, rfl⟩
  | succ fuel ih =>
    rw [Ctx.applyRounds, if_pos (by omega)]
    simp only
    split
    · next habsent =>
      rw [entryAt_succ, List.getElem?_eq_none_iff] at habsent
      omega
    · next e hfound =>
      obtain ⟨machine, clients, sessions, hnode⟩ := applyEntry_node
        { c with node := { c.node with lastApplied := c.node.lastApplied + 1 } }
        (c.node.lastApplied + 1) e
      obtain ⟨machine', clients', sessions', hrest⟩ := ih _
        (by rw [hnode]; simp only; omega) (by rw [hnode]; exact hlen)
      refine ⟨machine', clients', sessions', ?_⟩
      rw [hrest, hnode]
      simp only [Nat.add_assoc, Nat.add_comm 1]

end Caught

section Step

variable {n : RaftNode} {e : RaftEvent} {c : Ctx} {d : RecoveredState} {got : Set RaftEvent}

theorem Aside.caught (ha : Aside n e c) (h : Caught n) : Caught c.node := by
  cases ha with
  | failed p error pending => exact caught_failStorage h.applied _
  | deferred e event waits room => exact h.congr rfl rfl rfl rfl fun hr => hr
  | _ => exact h

/-- **A completed batch lets the node catch up** with the commit index that it records. -/
theorem Caught.complete (h : Caught n) (hco : Coherent d got n)
    (hle : n.lastApplied ≤ n.commitIndex) {p : PendingStorage}
    (hp : n.pendingStorage = some p) : Caught ((n.marked p).resume p.afterSuccess).node := by
  obtain ⟨hco', available, -⟩ := hco.complete hp
  have hlen : n.commitIndex ≤ n.log.length := hco.formed.commit_le
  have hsettled : n.commitIndex = (n.marked p).node.durableCommitIndex := by
    refine Eq.trans ?_ hco'.commitIndex.symm
    rw [← hco'.ready available rfl]
    rfl
  by_cases hb : p.batch.commitIndex = none
  · have hcaught : Caught (n.marked p).node := by
      refine ⟨?_, fun _ => hsettled, fun q hq => ?_⟩
      · simp only [RaftNode.marked, Ctx.trace_node, Ctx.markDurable, hb, Option.getD_none]
        exact h.applied
      · simp [RaftNode.marked, Ctx.markDurable] at hq
    have hmoves : Moves n (.resumed p.afterSuccess) (n.marked p) _ :=
      moves_resume ⟨rfl, available⟩ p.afterSuccess fun _ => hlen
    exact hmoves.keeps (I := fun c => Caught c.node) (fun _ _ m h => h.micro m) hcaught
  · obtain ⟨detail, hmoves⟩ : ∃ detail, Moves n (.resumed p.afterSuccess)
        ((n.marked p).trace .commit detail n.commitIndex).applyCommitted _ :=
      moves_resume_of_applies (h.pending p hp hb)
    refine hmoves.keeps (I := fun c => Caught c.node) (fun _ _ m h => h.micro m) ?_
    obtain ⟨machine, clients, sessions, hnode⟩ := applyRounds_node
      (n.commitIndex - n.lastApplied) ((n.marked p).trace .commit detail n.commitIndex)
      (le_of_eq (Nat.add_sub_cancel' hle)) hlen
    have happlied : ((n.marked p).trace .commit detail n.commitIndex).applyCommitted.node = _ :=
      hnode
    rw [happlied]
    refine ⟨?_, fun _ => hsettled, fun q hq => ?_⟩
    · exact (Nat.add_sub_cancel' hle).trans hsettled
    · simp [RaftNode.marked, Ctx.markDurable] at hq

/-- **Every step leaves the node caught up.** -/
theorem Caught.step (h : Caught n) (hco : Coherent d got n) (hle : n.lastApplied ≤ n.commitIndex)
    (e : RaftEvent) : Caught (n.step e).node := by
  refine n.step_induction e (I := fun c => Caught c.node) (fun c hc => ?_) ?_
  · cases hc with
    | aside ha => exact ha.caught h
    | completed p error pending => exact h.complete hco hle pending
    | dispatched e event idle => exact Caught.dispatch idle h e
  · intro c e' rest hc idle hq
    refine Caught.dispatch (c := c.pop rest) ⟨idle.free, idle.available⟩ ?_ e'
    exact hc.congr rfl rfl rfl rfl fun hr => hr

/-! ### The committed prefix in memory -/

/-- A state has the committed prefix of another one. -/
structure Anchored (d s : RecoveredState) : Prop where
  commit_le : d.commitIndex ≤ s.commitIndex
  log : s.log.take d.commitIndex = d.log.take d.commitIndex

/-- A report of storage moves the committed prefix to that of the memory, if at all. -/
theorem Anchored.reported (h : Anchored d n.memory) (hco : Coherent d got n) (e : RaftEvent) :
    Anchored (durableAfter d n e) n.memory ∧
      d.commitIndex ≤ (durableAfter d n e).commitIndex := by
  by_cases hcomp : ∃ p, Completes n e p true
  · obtain ⟨p, hp⟩ := hcomp
    obtain ⟨hco', available, -⟩ := hco.complete hp.1
    rw [durableAfter_of_completes hp, ← hco'.ready available rfl]
    exact ⟨⟨le_rfl, rfl⟩, h.commit_le⟩
  · rw [durableAfter_of_not_completes fun p hp => hcomp ⟨p, hp⟩]
    exact ⟨h, le_rfl⟩

/-- **The memory of a node never loses what storage has committed**, not even when the node
stops in the middle of a change. -/
theorem Anchored.step (h : Anchored d n.memory) (hco : Coherent d got n) (e : RaftEvent) :
    Anchored (durableAfter d n e) (n.step e).node.memory := by
  have hbase := (h.reported hco e).1
  cases hco.turned e with
  | steady memory => rwa [memory]
  | planned n₁ cause m batch k steady taken plan memory role room =>
    rw [memory]
    rw [← steady.memory] at hbase
    have hle : (durableAfter d n e).commitIndex ≤ n₁.commitIndex := hbase.commit_le
    have hlen : n₁.commitIndex ≤ n₁.log.length := by
      show n₁.memory.commitIndex ≤ n₁.memory.log.length
      rw [steady.memory]
      exact hco.formed.commit_le
    refine ⟨hle.trans plan.forward.2.2, ?_⟩
    have hkeep := List.prefix_iff_eq_take.mp plan.take_commitIndex
    rw [List.length_take_of_le hlen] at hkeep
    have htake := congrArg (List.take (durableAfter d n e).commitIndex) hkeep
    rw [List.take_take, List.take_take, min_eq_left hle] at htake
    exact htake.symm.trans hbase.log

/-- A node that waits or has stopped changes nothing until its batch is complete. -/
theorem step_of_busy (hb : n.Busy) (hc : ∀ p, ¬Completes n e p true) :
    (n.step e).node.memory = n.memory ∧ (n.step e).node.Busy := by
  obtain ⟨c, hr, hstep⟩ := n.step_eq_drain e
  cases hr with
  | completed p error pending => exact absurd ⟨pending, error, rfl⟩ (hc p)
  | dispatched e event idle => exact absurd hb idle.not_busy
  | aside ha =>
    have hbusy : c.node.Busy := by
      cases ha with
      | failed p error pending => exact busy_failStorage _ _
      | _ => exact hb
    rw [hstep, drain_of_busy hbusy]
    exact ⟨ha.memory, hbusy⟩

end Step

/-! ### Several lifetimes -/

/-- What can happen to a node: an input, or a crash that leaves the batch in doubt or not,
followed by a restart. -/
inductive Happening where
  | input (i : Input)
  | crash (kept : Bool)
  deriving DecidableEq

/-- A node and the batch in doubt: handed to storage, and not reported as complete. -/
structure Life where
  driven : Driven
  doubtful : Option PersistBatch := none

/-- The input reports that the outstanding batch is complete. -/
def Driven.reports (s : Driven) : Input → Bool
  | .event (.storageComplete opId true _) =>
    decide (s.node.pendingStorage.map PendingStorage.opId = some opId)
  | _ => false

namespace Life

/-- What storage has after a crash. -/
def survivor (s : Life) (kept : Bool) : RecoveredState :=
  match kept, s.doubtful with
  | true, some batch => s.driven.durable.write batch
  | _, _ => s.driven.durable

/-- The state after a happening; none, if the constructor rejects what storage has. -/
def next (config : RaftConfig) (s : Life) : Happening → Option Life
  | .input i => some
      { driven := s.driven.step i
        doubtful := match (s.driven.step i).node.pendingStorage with
          | some p => some p.batch
          | none => if s.driven.reports i then none else s.doubtful }
  | .crash kept =>
    match RaftNode.create config (s.survivor kept) with
    | .ok n => some { driven := { node := n, durable := s.survivor kept } }
    | .error _ => none

/-- Happening after happening. -/
def run (config : RaftConfig) (s : Life) (happenings : List Happening) : Option Life :=
  happenings.foldlM (next config) s

/-- What is kept over all lifetimes. -/
structure Kept (s : Life) : Prop where
  driven : s.driven.Kept
  caught : Caught s.driven.node
  anchored : Anchored s.driven.durable s.driven.node.memory
  doubtful : ∀ batch, s.doubtful = some batch →
    s.driven.node.Busy ∧ s.driven.node.memory = s.driven.durable.write batch

variable {config : RaftConfig} {s s' : Life} {n : RaftNode} {recovered : RecoveredState}

theorem kept_create (hn : RaftNode.create config recovered = .ok n) :
    Kept { driven := { node := n, durable := recovered } } := by
  refine ⟨Driven.kept_create hn, ?_, ?_, by simp⟩ <;>
    obtain ⟨-, rfl⟩ := RaftNode.create_eq_ok.mp hn
  · exact ⟨rfl, fun _ => rfl, by simp [RaftNode.ofRecovered]⟩
  · exact ⟨le_rfl, rfl⟩

theorem reports_iff {s : Driven} {e : RaftEvent} :
    s.reports (.event e) = true ↔ ∃ p, Completes s.node e p true := by
  unfold Driven.reports Completes
  cases e with
  | storageComplete opId success error =>
    cases success with
    | false => simp
    | true => simp [eq_comm]
  | _ => simp

/-- **Every input keeps a life in order.** -/
theorem Kept.input (h : s.Kept) (i : Input) :
    Kept { driven := s.driven.step i
           doubtful := match (s.driven.step i).node.pendingStorage with
             | some p => some p.batch
             | none => if s.driven.reports i then none else s.doubtful } := by
  have hkept := h.driven.step i
  have hle := h.driven.structured.applied_le
  refine ⟨hkept, ?_, ?_, ?_⟩
  · cases i with
    | event e => exact h.caught.step h.driven.coherent hle e
    | start =>
      simp only [Driven.step, Driven.ctx]
      rcases start_cases s.driven.node with heq | heq <;> rw [heq]
      · exact h.caught
      · exact h.caught.congr rfl rfl rfl rfl fun hr => hr
  · cases i with
    | event e => exact h.anchored.step h.driven.coherent e
    | start =>
      simp only [Driven.step, Driven.ctx]
      rcases start_cases s.driven.node with heq | heq <;> rw [heq] <;> exact h.anchored
  · intro batch hb
    simp only at hb
    cases hp : (s.driven.step i).node.pendingStorage with
    | some p =>
      -- A batch that is outstanding now is the difference between memory and storage.
      rw [hp] at hb
      obtain rfl := Option.some.inj hb
      refine ⟨Or.inl (by simp [hp]), ?_⟩
      cases hkept.coherent.phase with
      | ready _ pending | down _ pending => exact absurd (hp.symm.trans pending) (by simp)
      | waiting q _ pending memory =>
        obtain rfl : p = q := Option.some.inj (hp.symm.trans pending)
        exact memory
    | none =>
      rw [hp] at hb
      simp only at hb
      split_ifs at hb with hrep
      obtain ⟨hbusy, hmem⟩ := h.doubtful batch hb
      cases i with
      | start =>
        simp only [Driven.step, Driven.ctx]
        rcases start_cases s.driven.node with heq | heq <;> rw [heq] <;> exact ⟨hbusy, hmem⟩
      | event e =>
        have hnot : ∀ p, ¬Completes s.driven.node e p true :=
          fun p hp => hrep (reports_iff.mpr ⟨p, hp⟩)
        obtain ⟨hsame, hbusy'⟩ := step_of_busy hbusy hnot
        refine ⟨hbusy', ?_⟩
        have hdurable : (s.driven.step (.event e)).durable = s.driven.durable :=
          durableAfter_of_not_completes hnot
        rw [hdurable]
        exact hsame.trans hmem

theorem Kept.next (h : s.Kept) {x : Happening} (hs : s.next config x = some s') : s'.Kept := by
  cases x with
  | input i =>
    obtain rfl := Option.some.inj hs
    exact h.input i
  | crash kept =>
    simp only [Life.next] at hs
    split at hs
    · next n hn =>
      obtain rfl := Option.some.inj hs
      exact kept_create hn
    · cases hs

theorem Kept.run (h : s.Kept) {happenings : List Happening}
    (hs : s.run config happenings = some s') : s'.Kept := by
  induction happenings generalizing s with
  | nil =>
    obtain rfl := Option.some.inj hs
    exact h
  | cons x rest ih =>
    simp only [Life.run, List.foldlM_cons, Option.bind_eq_bind, Option.bind_eq_some_iff] at hs
    obtain ⟨s₁, hx, hrest⟩ := hs
    exact ih (h.next hx) hrest

/-- Whatever a crash leaves, its committed prefix is in the memory of the node. -/
theorem Kept.survivor_log (h : s.Kept) (kept : Bool) :
    (s.survivor kept).log.take (s.survivor kept).commitIndex =
      s.driven.node.log.take (s.survivor kept).commitIndex := by
  have hdurable := h.anchored.log.symm
  unfold Life.survivor
  split
  · next batch hb =>
    rw [← (h.doubtful batch hb).2]
    rfl
  · exact hdurable

/-- **Apply discipline and replay.** In every state of every life, the state machine is the
replay of the applied prefix of the log, the applied prefix ends at the commit index that
storage has reported, and a node that waits for nothing has applied everything. A restart
rebuilds the state machine of the committed prefix that storage has, and without the batch in
doubt this is the one from before the crash. -/
theorem replayed (hn : RaftNode.create config recovered = .ok n) {happenings : List Happening}
    (hs : run config { driven := { node := n, durable := recovered } } happenings = some s) :
    s.driven.node.stateMachine = replay (s.driven.node.log.take s.driven.node.lastApplied) ∧
    s.driven.node.lastApplied = s.driven.durable.commitIndex ∧
    (s.driven.node.pendingStorage = none → s.driven.node.role ≠ .unavailable →
      s.driven.node.lastApplied = s.driven.node.commitIndex) ∧
    (∀ i, s.driven.node.lastApplied ≤ (s.driven.step i).node.lastApplied) ∧
    ∀ kept s', s.next config (.crash kept) = some s' →
      s'.driven.node.stateMachine =
          replay (s.driven.node.log.take s'.driven.durable.commitIndex) ∧
        (kept = false → s'.driven.node.stateMachine = s.driven.node.stateMachine) := by
  have h := (kept_create hn).run hs
  have hmachine := h.driven.ledger.filed.machine
  have happlied : ∀ {s : Life}, s.Kept →
      s.driven.node.lastApplied = s.driven.durable.commitIndex :=
    fun h => h.caught.applied.trans h.driven.coherent.commitIndex
  refine ⟨hmachine, happlied h, fun hp hr => ?_, fun i => ?_, fun kept s' hs' => ?_⟩
  · exact h.caught.applied.trans (h.caught.settled ⟨hp, hr⟩).symm
  · rw [happlied h, happlied (h.input i)]
    cases i with
    | start => exact le_rfl
    | event e => exact (h.anchored.reported h.driven.coherent e).2
  · have hdurable : s'.driven.durable = s.survivor kept ∧
        s'.driven.node.stateMachine =
          replay ((s.survivor kept).log.take (s.survivor kept).commitIndex) := by
      simp only [Life.next] at hs'
      split at hs'
      · next m hm =>
        obtain rfl := Option.some.inj hs'
        obtain ⟨-, rfl⟩ := RaftNode.create_eq_ok.mp hm
        exact ⟨rfl, rfl⟩
      · cases hs'
    rw [hdurable.1, hdurable.2, h.survivor_log kept]
    refine ⟨rfl, ?_⟩
    rintro rfl
    rw [hmachine, happlied h]
    rfl

/-- The sample node crashes while its client's entry is outstanding. The entry survives, and
the restarted node has applied what it had applied before. -/
theorem replayed_sample :
    let happenings := Driven.sampleInputs.map Happening.input ++ [.crash true]
    let s := (run Driven.sampleConfig
      { driven := { node := RaftNode.ofRecovered Driven.sampleConfig {}, durable := {} } }
      happenings).get (by decide +kernel)
    (s.driven.node.log.length = 2 ∧ s.driven.node.lastApplied = 1) ∧
      s.driven.node.stateMachine = replay (s.driven.node.log.take s.driven.node.lastApplied) := by
  have hcreate : RaftNode.create Driven.sampleConfig {} =
      .ok (RaftNode.ofRecovered Driven.sampleConfig {}) := by decide +kernel
  exact ⟨by decide +kernel, (replayed hcreate (Option.some_get _).symm).1⟩

end Life

end DetLog
