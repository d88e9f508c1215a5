import DetLog.Frames
import DetLog.Host.Moves
import DetLog.Host.Pipeline

/-!
# The durability gate of group commit

With group commit the node runs ahead of the disk: it is told that a batch is complete when it is
only written. What the host makes of this is a matter of three counts, of the batches that the
node has asked for, of those that a flush has covered, and of those that the owner knows to be
covered. Each effect carries the first count at the time of its step, and leaves the host when the
third has reached it.

The invariant of all runs, whatever the interleaving with the worker, has four parts.
* `DetLog.NodeHost.Followed`: the node against the batches it has asked for. What it has been told
  moves its commit index no further than the flushed batches do.
* `DetLog.NodeHost.Piped`: the batches on their way through the worker, and the notices.
* `DetLog.NodeHost.Sequenced`: the effects on their way through the quarantine.
* `DetLog.NodeHost.Published`: the status that the host shows while the gate is closed.
-/

namespace DetLog

namespace NodeHost

/-! ### The node and its batches -/

/-- **The node and the batches it has asked for**, some of which a flush has covered. -/
structure Followed (s₀ : Driven) (raft : RaftNode) (y : HostHistory) (flushed : ℕ) : Prop where
  node : raft = (s₀.run y.inputs).node
  counted : Counted (y.persisted.map PersistEffect.task)
  bound : y.persisted.length ≤ maxU64
  next : raft.role ≠ .unavailable → raft.nextStorageOpId = incU64 y.persisted.length
  pending : ∀ q, raft.pendingStorage = some q → y.persisted.getLast? = some ⟨q.opId, q.batch⟩
  memory : raft.role ≠ .unavailable → raft.memory = s₀.durable.writeAll y.persisted
  rising : ∀ k, (s₀.durable.writeAll (y.persisted.take k)).commitIndex ≤
    (s₀.durable.writeAll (y.persisted.take (k + 1))).commitIndex
  told : (s₀.run y.inputs).durable.commitIndex ≤
    (s₀.durable.writeAll (y.persisted.take flushed)).commitIndex
  calls : ∀ before call after, y.calls = before ++ call :: after → call.1 ≤ flushed ∧
    (s₀.run ((before ++ [call]).map Prod.snd)).node.lastApplied ≤
      (s₀.durable.writeAll (y.persisted.take call.1)).commitIndex

/-- A completion that the owner passes on is true, or is of a batch that says nothing about the
commit index. -/
def Covered (persisted : List PersistEffect) (flushed : ℕ) : Input → Prop
  | .event (.storageComplete opId success _) => success = true ∧
      (opId ≤ flushed ∨ ∃ p ∈ persisted, p.opId = opId ∧ p.batch.commitIndex = none)
  | _ => True

section Followed

variable {s₀ : Driven} {raft : RaftNode} {y : HostHistory} {flushed : ℕ} {i : Input}

section

variable (h : Followed s₀ raft y flushed)
include h

theorem Followed.mono {flushed' : ℕ} (hle : flushed ≤ flushed') : Followed s₀ raft y flushed' := by
  have hrising := monotone_nat_of_le_succ h.rising
  refine { h with told := h.told.trans (hrising hle), calls := fun before call after hcalls => ?_ }
  obtain ⟨hcall, happlied⟩ := h.calls before call after hcalls
  exact ⟨hcall.trans hle, happlied⟩

/-- The rest of the history plays no part. -/
theorem Followed.congr {y' : HostHistory} (calls : y'.calls = y.calls)
    (persisted : y'.persisted = y.persisted) : Followed s₀ raft y' flushed := by
  have hinputs : y'.inputs = y.inputs := congrArg (List.map Prod.snd) calls
  refine ⟨?_, ?_, ?_, ?_, ?_, ?_, ?_, ?_, ?_⟩ <;> simp only [hinputs, persisted, calls]
  exacts [h.node, h.counted, h.bound, h.next, h.pending, h.memory, h.rising, h.told, h.calls]

/-- The number of a batch is its place. -/
theorem Followed.opId {k : ℕ} {p : PersistEffect} (hp : y.persisted[k]? = some p) :
    p.opId = k + 1 :=
  h.counted k p.task (by rw [List.getElem?_map, hp]; rfl)

theorem Followed.pending_opId {q : PendingStorage} (hq : raft.pendingStorage = some q) :
    q.opId = y.persisted.length := by
  have hlast := h.pending q hq
  rw [List.getLast?_eq_getElem?] at hlast
  have hopId := h.opId hlast
  have hne : y.persisted ≠ [] := by
    rintro hnil
    simp [hnil] at hlast
  have hpos := List.length_pos_iff.mpr hne
  dsimp only at hopId
  omega

/-- What the node learns moves its commit index no further than the flushed batches do. -/
theorem Followed.told_step (hk : s₀.Kept) (covered : Covered y.persisted flushed i) :
    ((s₀.run y.inputs).step i).durable.commitIndex ≤
      (s₀.durable.writeAll (y.persisted.take flushed)).commitIndex := by
  have hco := (hk.run y.inputs).coherent
  cases i with
  | start => exact h.told
  | event e =>
    by_cases hcomp : ∃ q, Completes (s₀.run y.inputs).node e q true
    · obtain ⟨q, hq⟩ := hcomp
      have hdurable : ((s₀.run y.inputs).step (.event e)).durable =
          (s₀.run y.inputs).durable.write q.batch := durableAfter_of_completes hq
      obtain ⟨hpending, error, rfl⟩ := hq
      rw [hdurable]
      have hraft : raft.pendingStorage = some q := by rw [h.node, hpending]
      obtain ⟨-, hle | ⟨p, hp, hopId, hnone⟩⟩ := covered
      · -- The whole list is flushed, and the memory of the node is what it leaves.
        rw [h.pending_opId hraft] at hle
        have hmem : raft.memory = (s₀.run y.inputs).durable.write q.batch ∧
            raft.role ≠ .unavailable := by
          rw [h.node]
          cases hco.phase with
          | ready available pending | down stopped pending =>
            exact absurd (hpending.symm.trans pending) (by simp)
          | waiting p available pending memory =>
            obtain rfl := Option.some.inj (hpending.symm.trans pending)
            exact ⟨memory, available⟩
        rw [← hmem.1, h.memory hmem.2, List.take_of_length_le hle]
      · obtain ⟨k, hk⟩ := List.mem_iff_getElem?.mp hp
        have hplace : k + 1 = y.persisted.length := by
          rw [← h.opId hk, hopId, h.pending_opId hraft]
        have hlast := h.pending q hraft
        rw [List.getLast?_eq_getElem?, ← hplace, Nat.add_sub_cancel, hk] at hlast
        obtain rfl := Option.some.inj hlast
        have hsame : ((s₀.run y.inputs).durable.write q.batch).commitIndex =
            (s₀.run y.inputs).durable.commitIndex := by
          simp only [RecoveredState.write]
          rw [show q.batch.commitIndex = none from hnone, Option.getD_none]
        rw [hsame]
        exact h.told
    · have hdurable : ((s₀.run y.inputs).step (.event e)).durable = (s₀.run y.inputs).durable :=
        durableAfter_of_not_completes fun p hp => hcomp ⟨p, hp⟩
      rw [hdurable]
      exact h.told

end

theorem inputs_record (y : HostHistory) (flushed : ℕ) (i : Input) (effects : List RaftEffect) :
    (y.record flushed i effects).inputs = y.inputs ++ [i] := by
  simp [HostHistory.inputs, HostHistory.record]

theorem run_concat (s : Driven) (inputs : List Input) (i : Input) :
    s.run (inputs ++ [i]) = (s.run inputs).step i := by
  simp [Driven.run]

/-- The commit index rises with every batch. -/
theorem rising_concat {s : RecoveredState} {persisted : List PersistEffect} {p : PersistEffect}
    (h : ∀ k, (s.writeAll (persisted.take k)).commitIndex ≤
      (s.writeAll (persisted.take (k + 1))).commitIndex)
    (hlast : (s.writeAll persisted).commitIndex ≤ (s.writeAll (persisted ++ [p])).commitIndex)
    (k : ℕ) : (s.writeAll ((persisted ++ [p]).take k)).commitIndex ≤
      (s.writeAll ((persisted ++ [p]).take (k + 1))).commitIndex := by
  rcases Nat.lt_trichotomy k persisted.length with hlt | rfl | hgt
  · rw [List.take_append_of_le_length hlt.le, List.take_append_of_le_length hlt]
    exact h k
  · rw [List.take_append_of_le_length le_rfl, List.take_length,
      List.take_of_length_le (by simp)]
    exact hlast
  · rw [List.take_of_length_le (by simpa using hgt), List.take_of_length_le (by simp; omega)]

theorem incU64_of_le {k : ℕ} (hle : k ≤ maxU64) (hne : incU64 k ≠ 0) :
    incU64 k = k + 1 ∧ k + 1 ≤ maxU64 := by
  unfold incU64 maxU64 at *
  omega

/-- **A call of the node.** -/
theorem Followed.call (h : Followed s₀ raft y flushed) (hk : s₀.Kept)
    (hflushed : flushed ≤ y.persisted.length) (covered : Covered y.persisted flushed i) :
    Followed s₀ ((s₀.run y.inputs).ctx i).node
      (y.record flushed i ((s₀.run y.inputs).ctx i).effects) flushed := by
  have hkept := (hk.run y.inputs).step i
  have htold := h.told_step hk covered
  have happlied : ((s₀.run y.inputs).step i).node.lastApplied ≤
      (s₀.durable.writeAll (y.persisted.take flushed)).commitIndex :=
    hkept.ledger.filed.applied_le.trans (hkept.coherent.commitIndex.le.trans htold)
  have hcalls : ∀ (added : List PersistEffect) (before : List (ℕ × Input)) call after,
      y.calls ++ [(flushed, i)] = before ++ call :: after → call.1 ≤ flushed ∧
        (s₀.run ((before ++ [call]).map Prod.snd)).node.lastApplied ≤
          (s₀.durable.writeAll ((y.persisted ++ added).take call.1)).commitIndex := by
    intro added before call after heq
    rcases List.eq_nil_or_concat after with rfl | ⟨after', last, rfl⟩
    · obtain ⟨rfl, hcall⟩ := List.append_inj' heq rfl
      obtain rfl := List.singleton_inj.mp hcall
      rw [List.take_append_of_le_length hflushed, List.map_append, List.map_singleton, run_concat]
      exact ⟨le_rfl, happlied⟩
    · have hcut : y.calls = before ++ call :: after' := by
        rw [List.concat_eq_append, ← List.cons_append, ← List.append_assoc] at heq
        exact (List.append_inj' heq rfl).1
      obtain ⟨hle, hcall⟩ := h.calls before call after' hcut
      rw [List.take_append_of_le_length (hle.trans hflushed)]
      exact ⟨hle, hcall⟩
  have hnode : ((s₀.run y.inputs).ctx i).node =
      (s₀.run (y.inputs ++ [i])).node := by rw [run_concat]; rfl
  have hasks := Driven.asks (hk.run y.inputs).coherent i
  rw [← h.node] at hasks
  have hpersisted : (y.record flushed i ((s₀.run y.inputs).ctx i).effects).persisted =
      y.persisted ++ batchesOf ((s₀.run y.inputs).ctx i).effects := rfl
  have htake : ∀ added : List PersistEffect, (y.persisted ++ added).take flushed =
      y.persisted.take flushed := fun added => List.take_append_of_le_length hflushed
  cases hasks with
  | nothing effects pending steady =>
    rw [effects, List.append_nil] at hpersisted
    refine ⟨by rw [inputs_record, hnode], ?_, ?_, ?_, ?_, ?_, ?_, ?_, ?_⟩ <;>
      rw [hpersisted]
    · exact h.counted
    · exact h.bound
    · intro hr
      obtain ⟨hraft, hid, -⟩ := steady hr
      rw [hid, h.next hraft]
    · intro q hq
      rcases pending with hnone | hsame
      · exact absurd (hnone.symm.trans hq) (by simp)
      · exact h.pending q (hsame.symm.trans hq)
    · intro hr
      obtain ⟨hraft, -, hmem⟩ := steady hr
      rw [hmem, h.memory hraft]
    · exact h.rising
    · rw [inputs_record, run_concat]
      exact htold
    · intro before call after heq
      have hcall := hcalls [] before call after heq
      rwa [List.append_nil] at hcall
  | batch q pending effects id valid next available memory =>
    rw [effects] at hpersisted
    rw [h.next available] at id valid next
    obtain ⟨hinc, hbound⟩ := incU64_of_le h.bound valid
    have hmemory := h.memory available
    refine ⟨by rw [inputs_record, hnode], ?_, ?_, ?_, ?_, ?_, ?_, ?_, ?_⟩ <;>
      rw [hpersisted]
    · rw [List.map_append]
      refine h.counted.concat ?_
      rw [List.length_map]
      exact id.trans hinc
    · simpa using hbound
    · intro _
      rw [next, hinc]
      simp
    · intro p hp
      obtain rfl := Option.some.inj (pending.symm.trans hp)
      simp
    · intro _
      rw [memory, hmemory, writeAll_concat]
    · refine rising_concat h.rising ?_
      rw [writeAll_concat, ← hmemory, ← memory, h.node]
      exact (Driven.upholds_ctx (s₀.run y.inputs) i).commit_le
    · rw [inputs_record, run_concat, htake]
      exact htold
    · exact fun before call after heq => hcalls _ before call after heq

end Followed

/-! ### The batches on their way -/

/-- The tasks among the effects in hand. -/
def tasksIn (todo : List QuarantinedEffect) : List StorageTask :=
  (batchesOf (todo.map QuarantinedEffect.effect)).map PersistEffect.task

/-- **The batches and the notices on their way** through the worker. -/
structure Piped (w : StorageWorker) (persisted : List PersistEffect) (running : Bool)
    (notices : List StorageNotice) (delayed : Option StorageComplete)
    (todo : List QuarantinedEffect) : Prop where
  grouped : w.groupCommit.enabled = true
  counted : Counted (persisted.map PersistEffect.task)
  worker : WorkerOk (persisted.map PersistEffect.task) w
  ends : w.Ends
  idle : w.started = false → w.stopping = false
  live : running = true → w.started = true ∧ w.stopping = false
  halted : running = false → w.stopping = true ∨ todo = [] ∧ notices = []
  whole : w.stopping = false → w.failed = false →
    w.intake ++ tasksIn todo = persisted.map PersistEffect.task
  reports : w.stopping = false → w.failed = true →
    w.Reports ∨ ∃ n ∈ notices, n.kind = .failed
  noticed : ∀ n ∈ notices, NoticeOk w.journal n
  delayed : ∀ completion, delayed = some completion →
    completion.success = true ∧ completion.opId ≤ w.journal.flushed

section Piped

variable {w w' : StorageWorker} {persisted : List PersistEffect} {running : Bool}
  {notices : List StorageNotice} {delayed : Option StorageComplete} {todo : List QuarantinedEffect}

section

variable (h : Piped w persisted running notices delayed todo)
include h

theorem Piped.flushed_le : w.journal.flushed ≤ persisted.length := by
  have hle := h.worker.written.length_le
  rw [List.length_map] at hle
  exact h.worker.flushed_le.trans hle

theorem Piped.turn (t : WorkerTurn w w') : Piped w' persisted running notices delayed todo := by
  have hgrows := t.grows h.worker.flushed_le
  refine ⟨by rw [t.groupCommit, h.grouped], h.counted, h.worker.turn h.counted t, t.ends h.ends,
    by rw [t.started, t.stopping]; exact h.idle, by rw [t.started, t.stopping]; exact h.live,
    by rw [t.stopping]; exact h.halted, fun hstop hgood => ?_, fun hstop hfailed => ?_,
    fun n hn => (h.noticed n hn).mono hgrows, fun completion hc => ?_⟩
  · rw [t.stopping] at hstop
    obtain ⟨hintake, hfailed⟩ := t.intake.2 hgood
    rw [hintake]
    exact h.whole hstop hfailed
  · rw [t.stopping] at hstop
    by_cases hnotice : ∃ n ∈ notices, n.kind = .failed
    · exact Or.inr hnotice
    · exact Or.inl (t.reports hstop hfailed fun hf => (h.reports hstop hf).resolve_right hnotice)
  · obtain ⟨hsuccess, hle⟩ := h.delayed completion hc
    exact ⟨hsuccess, hle.trans hgrows.flushed⟩

theorem Piped.step (s : WorkerStep) :
    Piped (w.step s) persisted running notices delayed todo := h.turn (turn_step h.grouped s)

end

/-- The node has been called. -/
theorem Piped.call (h : Piped w persisted running notices delayed []) (effects : List RaftEffect)
    (d : ℕ) (delayed' : Option StorageComplete)
    (hdelayed : ∀ completion, delayed' = some completion → delayed = some completion)
    (hrun : running = true)
    (counted : Counted ((persisted ++ batchesOf effects).map PersistEffect.task)) :
    Piped w (persisted ++ batchesOf effects) running notices delayed' (tagged d effects) := by
  have htasks : tasksIn (tagged d effects) = (batchesOf effects).map PersistEffect.task := by
    rw [tasksIn, tagged, List.map_map]
    exact congrArg (fun l => (batchesOf l).map PersistEffect.task) (List.map_id effects)
  refine ⟨h.grouped, counted, ?_, h.ends, h.idle, h.live,
    fun hstop => absurd (hrun.symm.trans hstop) (by simp), fun hstop hgood => ?_, h.reports,
    h.noticed, fun completion hc => h.delayed completion (hdelayed completion hc)⟩
  · have hok := h.worker
    refine { hok with order := hok.order.trans ?_ }
    rw [List.map_append]
    exact List.prefix_append _ _
  · have hwhole := h.whole hstop hgood
    rw [tasksIn, List.map_nil, batchesOf, List.filterMap_nil, List.map_nil,
      List.append_nil] at hwhole
    rw [htasks, List.map_append, hwhole]

/-- The worker is stopped. -/
theorem Piped.stop (h : Piped w persisted running notices delayed todo)
    (hstarted : w.started = true) (todo' : List QuarantinedEffect) :
    Piped w.stop persisted false notices delayed todo' := by
  have hok := h.worker
  refine ⟨h.grouped, h.counted, { hok with
      order := ?_ }, h.ends, fun hs => absurd (hstarted.symm.trans hs) (by simp), by simp,
    fun _ => Or.inl rfl, by simp [StorageWorker.stop], by simp [StorageWorker.stop], h.noticed,
    h.delayed⟩
  refine List.IsPrefix.trans ?_ hok.order
  simp [StorageWorker.intake, StorageWorker.stop, StorageWorker.inHand]

theorem enqueue_eq_some {task : StorageTask} (h : w.enqueue task = some w') :
    w' = { w with tasks := w.tasks ++ [task] } ∧ w.failed = false := by
  unfold StorageWorker.enqueue at h
  split_ifs at h with hrefused
  obtain rfl := Option.some.inj h
  simp only [not_or, Bool.not_eq_true] at hrefused
  exact ⟨rfl, hrefused.2.2.1⟩

/-- A batch is handed over. -/
theorem Piped.submit {d : ℕ} {p : PersistEffect}
    (h : Piped w persisted running notices delayed (⟨d, .persist p⟩ :: todo))
    (hrun : running = true) (taken : w.enqueue p.task = some w') :
    Piped w' persisted running notices delayed todo := by
  obtain ⟨rfl, hgood⟩ := enqueue_eq_some taken
  have hok := h.worker
  have hwhole := h.whole (h.live hrun).2 hgood
  have htasks : tasksIn (⟨d, .persist p⟩ :: todo) = p.task :: tasksIn todo := rfl
  have hintake : ({ w with tasks := w.tasks ++ [p.task] } : StorageWorker).intake =
      w.intake ++ [p.task] := by
    simp [StorageWorker.intake, StorageWorker.inHand]
  rw [htasks, List.append_cons, ← hintake] at hwhole
  refine { h with
      worker := ⟨?_, hok.flushed_le, hok.group_le, hok.closing, hok.publishing, hok.queued⟩
      halted := fun hstop => absurd (hrun.symm.trans hstop) (by simp)
      whole := fun _ _ => hwhole }
  exact ⟨_, hwhole⟩

/-- Another effect is dealt with. -/
theorem Piped.pass {q : QuarantinedEffect}
    (h : Piped w persisted running notices delayed (q :: todo)) (other : q.effect.batch? = none) :
    Piped w persisted running notices delayed todo := by
  have htasks : tasksIn (q :: todo) = tasksIn todo := by
    simp [tasksIn, batchesOf, other]
  refine { h with halted := fun hstop => ?_, whole := ?_ }
  · exact Or.inl ((h.halted hstop).resolve_right (by simp))
  · rw [← htasks]
    exact h.whole

/-- The owner takes some notices. -/
theorem Piped.take (h : Piped w persisted running [] delayed todo) (hrun : running = true)
    (count : ℕ) :
    Piped (w.take count).2 persisted running (w.take count).1 delayed todo := by
  have hok := h.worker
  refine { h with
      worker := ⟨hok.order, hok.flushed_le, hok.group_le, hok.closing, hok.publishing, fun n hn
        => hok.queued n (List.mem_of_mem_drop hn)⟩
      halted := fun hstop => absurd (hrun.symm.trans hstop) (by simp)
      reports := fun hstop hfailed => ?_
      noticed := fun n hn => hok.queued n (List.mem_of_mem_take hn) }
  rcases h.reports hstop hfailed with (hphase | ⟨n, hn, hkind⟩) | ⟨n, hn, -⟩
  · exact Or.inl (Or.inl hphase)
  · rw [← List.take_append_drop count w.completions, List.mem_append] at hn
    rcases hn with hn | hn
    · exact Or.inr ⟨n, hn, hkind⟩
    · exact Or.inl (Or.inr ⟨n, hn, hkind⟩)
  · simp at hn

/-- A notice other than one of a failure is dealt with. -/
theorem Piped.next {n : StorageNotice} (h : Piped w persisted running (n :: notices) none [])
    (hrun : running = true) (hkind : n.kind ≠ .failed) {delayed' : Option StorageComplete}
    (hdelayed : ∀ completion, delayed' = some completion →
      completion.success = true ∧ completion.opId ≤ w.journal.flushed) :
    Piped w persisted running notices delayed' [] := by
  refine ⟨h.grouped, h.counted, h.worker, h.ends, h.idle, h.live,
    fun hstop => absurd (hrun.symm.trans hstop) (by simp), h.whole, fun hstop hfailed => ?_,
    fun x hx => h.noticed x (by simp [hx]), hdelayed⟩
  refine (h.reports hstop hfailed).imp_right ?_
  rintro ⟨x, hx, hfail⟩
  rcases List.mem_cons.mp hx with rfl | hx
  · exact absurd hfail hkind
  · exact ⟨x, hx, hfail⟩

/-- A host that does not run leaves what it has in hand. -/
theorem Piped.leave (h : Piped w persisted running notices delayed todo) (hstop : running = false)
    {notices' : List StorageNotice} {delayed' : Option StorageComplete}
    (hnotices : ∀ n ∈ notices', n ∈ notices)
    (hdelayed : ∀ completion, delayed' = some completion → delayed = some completion) :
    Piped w persisted running notices' delayed' [] := by
  have hleft : w.stopping = false → todo = [] ∧ notices = [] :=
    fun hs => (h.halted hstop).resolve_left (by simp [hs])
  refine ⟨h.grouped, h.counted, h.worker, h.ends, h.idle, h.live, fun _ => ?_, fun hs hgood => ?_,
    fun hs hfailed => ?_, fun n hn => h.noticed n (hnotices n hn),
    fun completion hc => h.delayed completion (hdelayed completion hc)⟩
  · refine (h.halted hstop).imp_right fun hnone => ⟨rfl, ?_⟩
    refine List.eq_nil_iff_forall_not_mem.mpr fun n hn => ?_
    simpa [hnone.2] using hnotices n hn
  · rw [← (hleft hs).1]
    exact h.whole hs hgood
  · refine (h.reports hs hfailed).imp_right ?_
    rw [(hleft hs).2]
    rintro ⟨n, hn, -⟩
    simp at hn

end Piped

/-! ### The effects on their way -/

/-- An effect and the count it depends on. -/
def entry (q : QuarantinedEffect) : ℕ × RaftEffect := (q.durabilityDependency, q.effect)

/-- The effects in hand that are not batches. -/
def othersIn (todo : List QuarantinedEffect) : List (ℕ × RaftEffect) :=
  (todo.filter fun q => q.effect.batch?.isNone).map entry

/-- The effect `d` has been carried out as the effect `e` was emitted, after a flush had covered
what it depends on. -/
def Answers (d e : ℕ × RaftEffect) : Prop := d.2 = e.2 ∧ e.1 ≤ d.1

/-- **The effects on their way** through the quarantine. -/
structure Sequenced (y : HostHistory) (last durable flushed : ℕ) (active fatal : Bool)
    (held todo : List QuarantinedEffect) : Prop where
  last_eq : last = y.persisted.length
  durable_le : durable ≤ flushed
  carried : List.Forall₂ Answers y.dispatched (y.emitted.take y.dispatched.length)
  past : ∀ d ∈ y.dispatched, d.1 ≤ flushed
  waiting : fatal = false →
    y.emitted.drop y.dispatched.length = held.map entry ++ othersIn todo
  sorted : fatal = false →
    held.Pairwise fun q q' => q.durabilityDependency ≤ q'.durabilityDependency
  held_ok : fatal = false → ∀ q ∈ held, q.durabilityDependency ≤ last ∧ q.effect.batch? = none
  todo_ok : fatal = false → ∀ q ∈ todo, q.durabilityDependency = last
  gate : fatal = false → active = false → last ≤ durable ∧ held = []

section Sequenced

variable {y y' : HostHistory} {last durable flushed : ℕ} {active fatal : Bool}
  {held todo : List QuarantinedEffect}

section

variable (h : Sequenced y last durable flushed active fatal held todo)
include h

theorem Sequenced.length_le : y.dispatched.length ≤ y.emitted.length := by
  have hlength := h.carried.length_eq
  rw [List.length_take] at hlength
  omega

theorem Sequenced.mono {flushed' : ℕ} (hle : flushed ≤ flushed') :
    Sequenced y last durable flushed' active fatal held todo :=
  { h with durable_le := h.durable_le.trans hle, past := fun d hd => (h.past d hd).trans hle }

theorem Sequenced.congr (persisted : y'.persisted = y.persisted) (emitted : y'.emitted = y.emitted)
    (dispatched : y'.dispatched = y.dispatched) :
    Sequenced y' last durable flushed active fatal held todo := by
  refine ⟨?_, h.durable_le, ?_, ?_, ?_, h.sorted, h.held_ok, h.todo_ok, h.gate⟩ <;>
    simp only [persisted, emitted, dispatched]
  exacts [h.last_eq, h.carried, h.past, h.waiting]

/-- After a failure only the past counts. -/
theorem Sequenced.fail (active' : Bool) (held' todo' : List QuarantinedEffect) :
    Sequenced y last durable flushed active' true held' todo' :=
  ⟨h.last_eq, h.durable_le, h.carried, h.past, by simp, by simp, by simp, by simp, by simp⟩

end

/-- Effects that come next and are covered are carried out. -/
theorem forall₂_answers {emitted dispatched : List (ℕ × RaftEffect)}
    (h : List.Forall₂ Answers dispatched (emitted.take dispatched.length))
    {out : List QuarantinedEffect} {rest : List (ℕ × RaftEffect)}
    (hnext : emitted.drop dispatched.length = out.map entry ++ rest)
    (hle : ∀ q ∈ out, q.durabilityDependency ≤ flushed) {dispatched' : List (ℕ × RaftEffect)}
    (heq : dispatched' = dispatched ++ (out.map QuarantinedEffect.effect).map fun effect =>
      (flushed, effect)) :
    List.Forall₂ Answers dispatched' (emitted.take dispatched'.length) ∧
      emitted.drop dispatched'.length = rest := by
  have hlength : dispatched'.length = dispatched.length + (out.map entry).length := by
    simp [heq]
  have htake : emitted.take dispatched'.length =
      emitted.take dispatched.length ++ out.map entry := by
    rw [hlength, List.take_add, hnext, List.take_left]
  have hdrop : emitted.drop dispatched'.length = rest := by
    rw [hlength, ← List.drop_drop, hnext, List.drop_left]
  refine ⟨?_, hdrop⟩
  rw [htake, heq, List.map_map]
  refine List.rel_append h ?_
  rw [List.forall₂_map_left_iff, List.forall₂_map_right_iff, List.forall₂_same]
  exact fun q hq => ⟨rfl, hle q hq⟩

/-- A sorted list splits at every count. -/
theorem filter_append_filter (d : ℕ)
    (h : held.Pairwise fun q q' => q.durabilityDependency ≤ q'.durabilityDependency) :
    held.filter (fun q => decide (q.durabilityDependency ≤ d)) ++
      held.filter (fun q => decide (d < q.durabilityDependency)) = held := by
  induction held with
  | nil => rfl
  | cons q rest ih =>
    obtain ⟨hq, hrest⟩ := List.pairwise_cons.mp h
    by_cases hle : q.durabilityDependency ≤ d
    · rw [List.filter_cons_of_pos (by simpa using hle),
        List.filter_cons_of_neg (by simpa using hle), List.cons_append, ih hrest]
    · have hnone : rest.filter (fun q => decide (q.durabilityDependency ≤ d)) = [] := by
        refine List.filter_eq_nil_iff.mpr fun x hx => ?_
        have hx := hq x hx
        simp only [decide_eq_true_eq]
        omega
      have hall : rest.filter (fun q => decide (d < q.durabilityDependency)) = rest := by
        refine List.filter_eq_self.mpr fun x hx => ?_
        have hx := hq x hx
        simp only [decide_eq_true_eq]
        omega
      rw [List.filter_cons_of_neg (by simpa using hle),
        List.filter_cons_of_pos (by simpa using hle), hnone, hall, List.nil_append]

theorem othersIn_tagged (k : ℕ) (effects : List RaftEffect) : othersIn (tagged k effects) =
    (effects.filter fun e => e.batch?.isNone).map fun e => (k, e) := by
  rw [othersIn, tagged, List.filter_map, List.map_map]
  rfl

/-- The node has been called. -/
theorem Sequenced.call (h : Sequenced y last durable flushed active fatal held []) (i : Input)
    (effects : List RaftEffect) :
    Sequenced (y.record flushed i effects) (last + (batchesOf effects).length) durable flushed
      (active || !(batchesOf effects).isEmpty) fatal held
      (tagged (last + (batchesOf effects).length) effects) := by
  have hlength : (y.persisted ++ batchesOf effects).length =
      last + (batchesOf effects).length := by
    rw [List.length_append, h.last_eq]
  have hemitted : (y.record flushed i effects).emitted = y.emitted ++
      othersIn (tagged (last + (batchesOf effects).length) effects) := by
    rw [othersIn_tagged, ← hlength]
    rfl
  refine ⟨hlength.symm, h.durable_le, ?_, h.past, fun hfatal => ?_, h.sorted, fun hfatal q hq => ?_,
    fun _ q hq => ?_, fun hfatal hactive => ?_⟩
  · rw [hemitted]
    change List.Forall₂ Answers y.dispatched (List.take y.dispatched.length _)
    rw [List.take_append_of_le_length h.length_le]
    exact h.carried
  · rw [hemitted]
    change List.drop y.dispatched.length _ = _
    rw [List.drop_append_of_le_length h.length_le, h.waiting hfatal]
    simp [othersIn]
  · obtain ⟨hle, hother⟩ := h.held_ok hfatal q hq
    exact ⟨hle.trans (Nat.le_add_right _ _), hother⟩
  · obtain ⟨effect, -, rfl⟩ := List.mem_map.mp hq
    rfl
  · rw [Bool.or_eq_false_iff, Bool.not_eq_false', List.isEmpty_iff] at hactive
    rw [hactive.2]
    exact h.gate hfatal hactive.1

/-- An effect goes into quarantine. -/
theorem Sequenced.quarantine {q : QuarantinedEffect}
    (h : Sequenced y last durable flushed active fatal held (q :: todo)) (hactive : active = true)
    (other : q.effect.batch? = none) :
    Sequenced y last durable flushed active fatal (held ++ [q]) todo := by
  refine ⟨h.last_eq, h.durable_le, h.carried, h.past, fun hfatal => ?_, fun hfatal => ?_,
    fun hfatal x hx => ?_, fun hfatal x hx => h.todo_ok hfatal x (by simp [hx]),
    fun _ hopen => absurd (hactive.symm.trans hopen) (by simp)⟩
  · rw [h.waiting hfatal]
    simp [othersIn, other]
  · refine List.pairwise_append.mpr ⟨h.sorted hfatal, by simp, fun x hx x' hx' => ?_⟩
    rw [List.mem_singleton.mp hx', h.todo_ok hfatal q (by simp)]
    exact (h.held_ok hfatal x hx).1
  · rcases List.mem_append.mp hx with hx | hx
    · exact h.held_ok hfatal x hx
    · rw [List.mem_singleton.mp hx]
      exact ⟨(h.todo_ok hfatal q (by simp)).le, other⟩

/-- A batch has been handed over. -/
theorem Sequenced.submit {k : ℕ} {p : PersistEffect}
    (h : Sequenced y last durable flushed active fatal held (⟨k, .persist p⟩ :: todo)) :
    Sequenced y last durable flushed active fatal held todo := by
  refine { h with
      waiting := fun hfatal => ?_
      todo_ok := fun hfatal x hx => h.todo_ok hfatal x (by simp [hx]) }
  rw [h.waiting hfatal]
  simp [othersIn, RaftEffect.batch?]

/-- The history after some effects have been carried out. -/
def sent (y : HostHistory) (flushed : ℕ) (effects : List RaftEffect)
    (discarded : List ClientReply) : HostHistory :=
  { y with
    dispatched := y.dispatched ++ effects.map fun effect => (flushed, effect)
    discarded := discarded }

/-- Effects that come next leave the host. -/
theorem Sequenced.send (h : Sequenced y last durable flushed active fatal held todo)
    {out : List QuarantinedEffect} {rest : List (ℕ × RaftEffect)}
    (hnext : y.emitted.drop y.dispatched.length = out.map entry ++ rest)
    (hle : ∀ q ∈ out, q.durabilityDependency ≤ durable) (discarded : List ClientReply)
    {active' fatal' : Bool} {held' todo' : List QuarantinedEffect}
    (waiting : fatal' = false → rest = held'.map entry ++ othersIn todo')
    (sorted : fatal' = false →
      held'.Pairwise fun q q' => q.durabilityDependency ≤ q'.durabilityDependency)
    (held_ok : fatal' = false → ∀ q ∈ held',
      q.durabilityDependency ≤ last ∧ q.effect.batch? = none)
    (todo_ok : fatal' = false → ∀ q ∈ todo', q.durabilityDependency = last)
    (gate : fatal' = false → active' = false → last ≤ durable ∧ held' = []) :
    Sequenced (sent y flushed (out.map QuarantinedEffect.effect) discarded) last durable flushed
      active' fatal' held' todo' := by
  obtain ⟨hcarried, hdrop⟩ := forall₂_answers h.carried hnext
    (fun q hq => (hle q hq).trans h.durable_le) rfl
  refine ⟨h.last_eq, h.durable_le, hcarried, fun d hd => ?_, fun hfatal => ?_, sorted, held_ok,
    todo_ok, gate⟩
  · rcases List.mem_append.mp hd with hd | hd
    · exact h.past d hd
    · obtain ⟨effect, -, rfl⟩ := List.mem_map.mp hd
      exact le_rfl
  · rw [← waiting hfatal]
    exact hdrop

end Sequenced

/-! ### What the host shows -/

/-- A status shows a state: its term, the end of its log, its commit index, and no more applied
than it has committed. -/
structure Shows (status : NodeHostStatus) (s : RecoveredState) : Prop where
  term : status.term = s.hardState.currentTerm
  lastLogIndex : status.lastLogIndex = s.log.length
  commitIndex : status.commitIndex = s.commitIndex
  lastApplied : status.lastApplied ≤ s.commitIndex

/-- **The published status** shows what some flushed batches leave, unless the node has stopped. -/
def Published (s₀ : Driven) (raft : RaftNode) (y : HostHistory) (flushed : ℕ)
    (status : NodeHostStatus) : Prop :=
  raft.role ≠ .unavailable → ∃ k ≤ flushed, Shows status (s₀.durable.writeAll (y.persisted.take k))

/-- Where the host stands. -/
structure Phased (started running fatal : Bool) (todo : List QuarantinedEffect) : Prop where
  begun : running = true ∨ fatal = true → started = true
  sound : running = true → fatal = false
  halted : running = false → fatal = true ∨ todo = []

/-- **The invariant of the gate.** -/
structure Sealed (s₀ : Driven) (b : Busy) : Prop where
  mode : b.host.grouped = true
  followed : Followed s₀ b.host.raft b.host.history b.host.storage.journal.flushed
  piped : Piped b.host.storage b.host.history.persisted b.host.running b.notices b.delayed b.todo
  sequenced : Sequenced b.host.history b.host.lastSubmittedOperation
    b.host.durableOperationThrough b.host.storage.journal.flushed b.host.groupBarrierActive
    b.host.fatalError b.host.quarantinedEffects b.todo
  phased : Phased b.host.started b.host.running b.host.fatalError b.todo
  published : Published s₀ b.host.raft b.host.history b.host.storage.journal.flushed
    b.host.publishedStatus
  events : ∀ e ∈ b.host.ownerEvents, ¬e.IsCompletion

section Sealed

variable {s₀ : Driven} {h h' : NodeHost} {notices : List StorageNotice}
  {delayed : Option StorageComplete} {todo : List QuarantinedEffect} {i : Input}

theorem Published.mono {raft : RaftNode} {y : HostHistory} {flushed flushed' : ℕ}
    {status : NodeHostStatus} (hp : Published s₀ raft y flushed status) (hle : flushed ≤ flushed') :
    Published s₀ raft y flushed' status := by
  intro hr
  obtain ⟨k, hk, hshows⟩ := hp hr
  exact ⟨k, hk.trans hle, hshows⟩

/-- While everything is flushed, what the node has in memory may be shown. -/
theorem shows_liveStatus {flushed : ℕ} (hk : s₀.Kept)
    (hf : Followed s₀ h.raft h.history flushed) (hr : h.raft.role ≠ .unavailable)
    (hle : h.history.persisted.length ≤ flushed) :
    Shows h.liveStatus (s₀.durable.writeAll (h.history.persisted.take flushed)) := by
  have hmem := hf.memory hr
  have htold := hf.told
  have hkept := hk.run h.history.inputs
  have happlied := hkept.ledger.filed.applied_le.trans hkept.coherent.commitIndex.le
  rw [← hf.node] at happlied
  have happlied : h.raft.lastApplied ≤
      (s₀.durable.writeAll (h.history.persisted.take flushed)).commitIndex := happlied.trans htold
  rw [List.take_of_length_le hle, ← hmem] at happlied ⊢
  exact ⟨rfl, rfl, rfl, happlied⟩

theorem Sealed.worker (hs : Sealed s₀ ⟨h, notices, delayed, todo⟩) (s : WorkerStep) :
    Sealed s₀ ⟨{ h with storage := h.storage.step s }, notices, delayed, todo⟩ := by
  have hgrows := (turn_step hs.piped.grouped s).grows hs.piped.worker.flushed_le
  exact ⟨hs.mode, hs.followed.mono hgrows.flushed, hs.piped.step s,
    hs.sequenced.mono hgrows.flushed, hs.phased, hs.published.mono hgrows.flushed, hs.events⟩

theorem Sealed.fail (hs : Sealed s₀ ⟨h, notices, delayed, todo⟩) (running : h.running = true) :
    Sealed s₀ ⟨h.failTransport, notices, delayed, todo⟩ := by
  rw [failTransport_eq running]
  refine ⟨hs.mode, hs.followed, hs.piped.stop (hs.piped.live running).1 todo,
    hs.sequenced.fail false [] todo, ⟨fun _ => hs.phased.begun (Or.inl running), by simp,
    fun _ => Or.inl rfl⟩, fun hr => ?_, by simp⟩
  obtain ⟨k, hk, hshows⟩ := hs.published hr
  exact ⟨k, hk, hshows.term, hshows.lastLogIndex, hshows.commitIndex, hshows.lastApplied⟩

theorem reaction_eq (hnode : h.raft = (s₀.run h.history.inputs).node) (i : Input) :
    h.reaction i = (s₀.run h.history.inputs).ctx i := by
  cases i <;> simp only [reaction, Driven.ctx, hnode]

/-- What the effects of a call depend on, and how the gate stands after it. -/
theorem calling_eq (mode : h.grouped = true)
    (hbatches : batchesOf (h.reaction i).effects = [] ∨
      ∃ p, batchesOf (h.reaction i).effects = [p] ∧ p.opId = h.lastSubmittedOperation + 1) :
    h.dependencyOf i = h.lastSubmittedOperation + (batchesOf (h.reaction i).effects).length ∧
      h.calling i = { h.called i with
        lastSubmittedOperation :=
          h.lastSubmittedOperation + (batchesOf (h.reaction i).effects).length
        groupBarrierActive :=
          h.groupBarrierActive || !(batchesOf (h.reaction i).effects).isEmpty } := by
  have hmode : (h.called i).grouped = true := mode
  have hdep : h.dependencyOf i = (batchesOf (h.reaction i).effects).foldl
      (fun d p => max d p.opId) h.lastSubmittedOperation := by
    rw [dependencyOf, effectDependency, if_pos hmode]
    rfl
  rcases hbatches with hnone | ⟨p, hone, hid⟩
  · rw [hnone] at hdep ⊢
    have hlast : h.dependencyOf i = h.lastSubmittedOperation := hdep
    refine ⟨hlast, ?_⟩
    rw [calling, openGate, hlast, if_neg (by simp [called])]
    simp [called]
  · rw [hone] at hdep ⊢
    have hlast : h.dependencyOf i = h.lastSubmittedOperation + 1 := by
      rw [hdep, List.foldl_cons, List.foldl_nil, hid]
      omega
    refine ⟨hlast, ?_⟩
    rw [calling, openGate, hlast, if_pos (by simpa [called, grouped] using mode)]
    simp [called]

/-- **A call of the node.** -/
theorem Sealed.call (hk : s₀.Kept) (hs : Sealed s₀ ⟨h, notices, delayed, []⟩) (i : Input)
    (running : h.running = true)
    (covered : Covered h.history.persisted h.storage.journal.flushed i)
    (delayed' : Option StorageComplete)
    (hdelayed : ∀ completion, delayed' = some completion → delayed = some completion) :
    Sealed s₀ ⟨h.calling i, notices, delayed', h.effectsOf i⟩ := by
  have hreaction := reaction_eq hs.followed.node i
  have hfollowed := hs.followed.call hk hs.piped.flushed_le covered
  rw [← hreaction] at hfollowed
  have hasks : Asks h.raft (h.reaction i) := by
    rw [hreaction]
    have := Driven.asks (hk.run h.history.inputs).coherent i
    rwa [← hs.followed.node] at this
  have hbatches : batchesOf (h.reaction i).effects = [] ∨
      ∃ p, batchesOf (h.reaction i).effects = [p] ∧ p.opId = h.lastSubmittedOperation + 1 := by
    cases hasks with
    | nothing effects => exact Or.inl effects
    | batch q pending effects =>
      refine Or.inr ⟨_, effects, ?_⟩
      have hcounted := hfollowed.counted h.history.persisted.length ⟨q.opId, q.batch⟩ (by
        simp [HostHistory.record, effects, PersistEffect.task])
      rw [hs.sequenced.last_eq]
      exact hcounted
  obtain ⟨hdep, hcalling⟩ := calling_eq hs.mode hbatches
  rw [effectsOf, hdep, hcalling]
  refine ⟨hs.mode, hfollowed, ?_, hs.sequenced.call i _, ⟨hs.phased.begun, hs.phased.sound,
    fun hstop => absurd (running.symm.trans hstop) (by simp)⟩, fun hr => ?_, hs.events⟩
  · exact hs.piped.call _ _ delayed' hdelayed running hfollowed.counted
  · have hraft : h.raft.role ≠ .unavailable := by
      cases hasks with
      | nothing effects pending steady => exact (steady hr).1
      | batch q pending effects id valid next available => exact available
    obtain ⟨k, hle, hshows⟩ := hs.published hraft
    refine ⟨k, hle, ?_⟩
    change Shows _ (s₀.durable.writeAll ((h.history.persisted ++ _).take k))
    rwa [List.take_append_of_le_length (hle.trans hs.piped.flushed_le)]

/-- An effect that is not held back leaves the host. -/
theorem Sealed.dispatch {q : QuarantinedEffect}
    (hs : Sealed s₀ ⟨h, notices, delayed, q :: todo⟩) (running : h.running = true)
    (inactive : h.groupBarrierActive = false) (other : q.effect.batch? = none) :
    Sealed s₀ ⟨h.dispatching q.effect, notices, delayed, todo⟩ := by
  have hfatal : h.fatalError = false := hs.phased.sound running
  have hseq := hs.sequenced
  obtain ⟨hle, hheld⟩ := hseq.gate hfatal inactive
  have hheld : h.quarantinedEffects = [] := hheld
  have hnext : h.history.emitted.drop h.history.dispatched.length =
      [q].map entry ++ othersIn todo := by
    refine (hseq.waiting hfatal).trans ?_
    simp [hheld, othersIn, other]
  have hcarry : ∀ h₁, Carried h [q.effect] h₁ → Sealed s₀ ⟨h₁, notices, delayed, todo⟩ ∧
      h₁.running = true := by
    rintro h₁ ⟨tokens, replies, traces, election, heartbeat, discarded, rfl⟩
    have hdue : ∀ x ∈ [q], x.durabilityDependency ≤ h.durableOperationThrough := by
      intro x hx
      rw [List.mem_singleton.mp hx, hseq.todo_ok hfatal q (by simp)]
      exact hle
    have hsent : Sequenced (sent h.history h.storage.journal.flushed [q.effect] discarded)
        h.lastSubmittedOperation h.durableOperationThrough h.storage.journal.flushed
        h.groupBarrierActive h.fatalError h.quarantinedEffects todo :=
      hseq.send hnext hdue discarded (fun _ => by simp [hheld]) hseq.sorted hseq.held_ok
        (fun hf x hx => hseq.todo_ok hf x (by simp [hx])) hseq.gate
    exact ⟨⟨hs.mode, hs.followed.congr rfl rfl, hs.piped.pass other, hsent,
      ⟨hs.phased.begun, hs.phased.sound, fun hstop => absurd (running.symm.trans hstop) (by simp)⟩,
      hs.published, hs.events⟩, running⟩
  rcases carried_dispatching h q.effect with c | ⟨h₁, c, heq⟩
  · exact (hcarry _ c).1
  · rw [heq]
    obtain ⟨hsealed, hrun⟩ := hcarry h₁ c
    exact hsealed.fail hrun

/-- **A barrier opens the gate** for what it covers. -/
theorem Sealed.barrier {n : StorageNotice} (hs : Sealed s₀ ⟨h, n :: notices, none, []⟩)
    (running : h.running = true) (kind : n.kind = .barrier) :
    Sealed s₀ ⟨h.openBarrier n, notices, n.delayedCompletion, []⟩ := by
  have hok : NoticeOk h.storage.journal n := hs.piped.noticed n (by simp)
  rw [NoticeOk, kind] at hok
  have hfatal : h.fatalError = false := hs.phased.sound running
  have hseq := hs.sequenced
  have hpiped : Piped h.storage h.history.persisted h.running notices n.delayedCompletion [] :=
    hs.piped.next running (by simp [kind]) hok.2
  set d := max h.durableOperationThrough n.durableThrough with hd
  have hdle : d ≤ h.storage.journal.flushed := max_le hseq.durable_le hok.1
  set h₀ : NodeHost := { h with durableOperationThrough := d } with hh₀
  obtain ⟨out, hout, hsteps, hend⟩ := dispatches_release (h := h₀) running
    (fun q hq => (hseq.held_ok hfatal q hq).2) []
  have hsplit := filter_append_filter d (hseq.sorted hfatal)
  have hseq₀ : Sequenced h.history h.lastSubmittedOperation d h.storage.journal.flushed
      h.groupBarrierActive h.fatalError h.quarantinedEffects [] :=
    { hseq with
        durable_le := hdle
        gate := fun hf ha => ⟨(hseq.gate hf ha).1.trans (le_max_left _ _), (hseq.gate hf ha).2⟩ }
  have hdue : ∀ q ∈ out, q.durabilityDependency ≤ d := fun q hq =>
    of_decide_eq_true (List.mem_filter.mp (hout.subset hq)).2
  have hopen : h.openBarrier n = { (h₀.release h.quarantinedEffects []).1 with
      quarantinedEffects := (h₀.release h.quarantinedEffects []).2
      groupBarrierActive := decide ((h₀.release h.quarantinedEffects []).1.durableOperationThrough <
        (h₀.release h.quarantinedEffects []).1.lastSubmittedOperation) } := rfl
  rw [hopen]
  rcases hsteps.carried with c | ⟨h₁, c, heq⟩
  · obtain ⟨tokens, replies, traces, election, heartbeat, discarded, heq⟩ := c
    obtain ⟨rfl, hwait⟩ := hend (by rw [heq]; exact running)
    rw [heq, hwait]
    have hnext : h.history.emitted.drop h.history.dispatched.length =
        (h.quarantinedEffects.filter fun q => decide (q.durabilityDependency ≤ d)).map entry ++
          (h.quarantinedEffects.filter fun q => decide (d < q.durabilityDependency)).map entry := by
      rw [← List.map_append, hsplit]
      refine (hseq.waiting hfatal).trans ?_
      simp [othersIn]
    refine ⟨hs.mode, hs.followed.congr rfl rfl, hpiped, ?_, hs.phased, hs.published, hs.events⟩
    refine hseq₀.send hnext hdue discarded (fun _ => by simp [othersIn, h₀]) (fun _ => ?_)
      (fun hfat q hq => ?_) (fun _ => by simp) (fun _ hclosed => ?_)
    · rw [List.nil_append]
      exact (hseq.sorted hfatal).filter _
    · rw [List.nil_append] at hq
      exact hseq.held_ok hfat q (List.mem_of_mem_filter hq)
    · have hle : h.lastSubmittedOperation ≤ d := by
        simpa [h₀] using hclosed
      refine ⟨hle, ?_⟩
      rw [List.nil_append]
      refine List.filter_eq_nil_iff.mpr fun q hq => ?_
      have hdep : q.durabilityDependency ≤ h.lastSubmittedOperation :=
        (hseq.held_ok hfatal q hq).1
      simpa [h₀] using hdep.trans hle
  · obtain ⟨tokens, replies, traces, election, heartbeat, discarded, rfl⟩ := c
    rw [heq.trans (failTransport_eq (by exact running))]
    obtain ⟨rest, hrest⟩ := hout
    have hnext : h.history.emitted.drop h.history.dispatched.length = out.map entry ++
        (rest.map entry ++ (h.quarantinedEffects.filter fun q =>
          decide (d < q.durabilityDependency)).map entry) := by
      rw [← List.append_assoc, ← List.map_append, hrest, ← List.map_append, hsplit]
      refine (hseq.waiting hfatal).trans ?_
      simp [othersIn]
    refine ⟨hs.mode, hs.followed.congr rfl rfl, hpiped.stop (hs.piped.live running).1 [], ?_,
      ⟨fun _ => hs.phased.begun (Or.inl running), by simp, fun _ => Or.inl rfl⟩, fun hr => ?_,
      by simp⟩
    · exact hseq₀.send hnext hdue discarded (by simp) (by simp) (by simp) (by simp) (by simp)
    · obtain ⟨k, hk, hshows⟩ := hs.published hr
      exact ⟨k, hk, hshows.term, hshows.lastLogIndex, hshows.commitIndex, hshows.lastApplied⟩

theorem Sealed.refresh (hk : s₀.Kept) (hs : Sealed s₀ ⟨h, notices, delayed, todo⟩) :
    Sealed s₀ ⟨h.refreshPublishedStatus, notices, delayed, todo⟩ := by
  unfold refreshPublishedStatus
  split_ifs with hopen
  · have hseq := hs.sequenced
    have hgate : h.lastSubmittedOperation ≤ h.durableOperationThrough :=
      (hseq.gate hopen.2 hopen.1).1
    have hle : h.history.persisted.length ≤ h.storage.journal.flushed :=
      hseq.last_eq.ge.trans (hgate.trans hseq.durable_le)
    exact { hs with published := fun hr => ⟨_, le_rfl, shows_liveStatus hk hs.followed hr hle⟩ }
  · exact hs

theorem Sealed.start (hk : s₀.Kept) (hs : Sealed s₀ ⟨h, [], none, []⟩)
    (fresh : h.started = false) (idle : h.storage.started = false) :
    Sealed s₀ ⟨calling { h with
      started := true
      running := true
      storage := { h.storage with started := true } } .start, [], none, effectsOf { h with
      started := true
      running := true
      storage := { h.storage with started := true } } .start⟩ := by
  have hp := hs.piped
  have hok := hp.worker
  have hfatal : h.fatalError = false := by
    rw [← Bool.not_eq_true]
    exact fun hf => absurd (fresh.symm.trans (hs.phased.begun (Or.inr hf))) (by simp)
  have hstarted : Sealed s₀ ⟨{ h with
      started := true
      running := true
      storage := { h.storage with started := true } }, [], none, []⟩ :=
    { hs with
        piped := ⟨hp.grouped, hp.counted, ⟨hok.order, hok.flushed_le, hok.group_le, hok.closing,
          hok.publishing, hok.queued⟩, hp.ends, by simp, fun _ => ⟨rfl, hp.idle idle⟩, by simp,
          hp.whole, hp.reports, hp.noticed, hp.delayed⟩
        phased := ⟨fun _ => rfl, fun _ => hfatal, by simp⟩ }
  exact hstarted.call hk .start rfl trivial none (by simp)

/-- What a host that does not run has in hand is of no use to it. -/
theorem Sealed.leave (hs : Sealed s₀ ⟨h, notices, delayed, todo⟩) (stopped : h.running = false)
    {notices' : List StorageNotice} {delayed' : Option StorageComplete}
    (hnotices : ∀ n ∈ notices', n ∈ notices)
    (hdelayed : ∀ completion, delayed' = some completion → delayed = some completion) :
    Sealed s₀ ⟨h, notices', delayed', []⟩ := by
  refine ⟨hs.mode, hs.followed, hs.piped.leave stopped hnotices hdelayed, ?_, ⟨hs.phased.begun,
    hs.phased.sound, fun _ => Or.inr rfl⟩, hs.published, hs.events⟩
  rcases hs.phased.halted stopped with hfatal | hnone
  · have hfail := hs.sequenced.fail h.groupBarrierActive h.quarantinedEffects []
    rw [← show h.fatalError = true from hfatal] at hfail
    exact hfail
  · obtain rfl : todo = [] := hnone
    exact hs.sequenced

/-- **Every move keeps the gate.** -/
theorem Sealed.move (hk : s₀.Kept) {b b' : Busy} (m : Move b b') (hs : Sealed s₀ b) :
    Sealed s₀ b' := by
  cases m with
  | worker b s => exact Sealed.worker hs s
  | ahead b => exact { hs with }
  | start h fresh idle => exact hs.start hk fresh idle
  | event h running e rest next =>
    have hevents : ∀ x ∈ e :: rest, ¬x.IsCompletion := by
      rw [← next]
      exact hs.events
    have hplain := hevents e (by simp)
    have hnext : Sealed s₀ ⟨{ h with ownerEvents := rest }, [], none, []⟩ :=
      { hs with events := fun x hx => hevents x (by simp [hx]) }
    refine hnext.call hk (.event e) running ?_ none (by simp)
    cases e with
    | storageComplete => exact absurd trivial hplain
    | _ => trivial
  | take h running count =>
    exact { hs with piped := hs.piped.take running count }
  | staged h running mode n rest kind =>
    have hok : NoticeOk h.storage.journal n := hs.piped.noticed n (by simp)
    rw [NoticeOk, kind] at hok
    obtain ⟨hsuccess, task, htask, hop, hnone⟩ := hok
    obtain ⟨p, hp, rfl⟩ := List.mem_map.mp (hs.piped.worker.written.subset htask)
    have hnext : Sealed s₀ ⟨h, rest, none, []⟩ :=
      { hs with piped := hs.piped.next running (by simp [kind]) (by simp) }
    exact hnext.call hk (.event n.completion.event) running
      ⟨hsuccess, Or.inr ⟨p, hp, hop, hnone⟩⟩ none (by simp)
  | barrier h running mode n rest kind => exact hs.barrier running kind
  | resume h running mode notices completion =>
    obtain ⟨hsuccess, hle⟩ := hs.piped.delayed completion rfl
    exact hs.call hk (.event completion.event) running ⟨hsuccess, Or.inl hle⟩ none (by simp)
  | complete h running mode | refused h running mode =>
    exact absurd (hs.mode.symm.trans mode) (by simp)
  | submit h running notices delayed d p rest storage taken =>
    obtain ⟨rfl, -⟩ := enqueue_eq_some taken
    exact ⟨hs.mode, hs.followed, hs.piped.submit running taken, hs.sequenced.submit,
      ⟨hs.phased.begun, hs.phased.sound,
        fun hstop => absurd (running.symm.trans hstop) (by simp)⟩, hs.published, hs.events⟩
  | quarantine h running mode active notices delayed q other rest =>
    exact ⟨hs.mode, hs.followed, hs.piped.pass other, hs.sequenced.quarantine active other,
      ⟨hs.phased.begun, hs.phased.sound,
        fun hstop => absurd (running.symm.trans hstop) (by simp)⟩, hs.published, hs.events⟩
  | dispatch h running inactive notices delayed q other rest =>
    exact hs.dispatch running (inactive hs.mode) other
  | fail b running => exact Sealed.fail hs running
  | drop b stopped => exact Sealed.leave hs stopped (by simp) (by simp)
  | forget b stopped => exact Sealed.leave hs stopped (fun _ hn => hn) (fun _ hc => hc)
  | refresh h => exact hs.refresh hk
  | arrive h running e plain =>
    refine { hs with events := fun x hx => ?_ }
    rcases List.mem_append.mp hx with hx | hx
    · exact hs.events x hx
    · rw [List.mem_singleton.mp hx]
      exact plain
  | clients h running count =>
    refine { hs with events := fun x hx => ?_ }
    rcases List.mem_append.mp hx with hx | hx
    · exact hs.events x hx
    · obtain ⟨r, -, rfl⟩ := List.mem_map.mp hx
      exact id

theorem Sealed.called (hs : Sealed s₀ ⟨h, [], none, []⟩) (c : Call h h') :
    Sealed s₀ ⟨h', [], none, []⟩ := by
  cases c with
  | startFailed idle =>
    have hp := hs.piped
    have hok := hp.worker
    have hrunning : h.running = false := by
      rw [← Bool.not_eq_true]
      exact fun hrun => absurd (idle.symm.trans (hp.live hrun).1) (by simp)
    have hstarted : Piped { h.storage with started := true } h.history.persisted h.running [] none
        [] :=
      { hp with
          worker := ⟨hok.order, hok.flushed_le, hok.group_le, hok.closing, hok.publishing,
            hok.queued⟩
          idle := by simp
          live := by simp [hrunning] }
    have hstop := hstarted.stop rfl []
    rw [← hrunning] at hstop
    exact { hs with piped := hstop }
  | submit command =>
    unfold NodeHost.submit
    split_ifs
    all_goals exact { hs with
        followed := hs.followed.congr rfl rfl
        sequenced := hs.sequenced.congr rfl rfl rfl }
  | replies maximum =>
    exact { hs with
        followed := hs.followed.congr rfl rfl
        sequenced := hs.sequenced.congr rfl rfl rfl }
  | traces maximum =>
    exact { hs with }
  | stop =>
    unfold NodeHost.stop
    split_ifs with hidle
    · exact hs
    · simp only [not_or, Bool.not_eq_false] at hidle
      exact { hs with
          piped := hs.piped.stop (hs.piped.live hidle.2).1 []
          phased := ⟨fun _ => hidle.1, by simp, fun _ => Or.inr rfl⟩ }

end Sealed

/-! ### Whole runs -/

section Runs

variable {config : NodeHostConfig} {recovered : RecoveredState} {s₀ : Driven} {h h₀ : NodeHost}

theorem create_eq_ok (hcreate : create config recovered = .ok h₀) : ∃ n,
    RaftNode.create config.raft recovered = .ok n ∧
      h₀ = { fresh config n with publishedStatus := (fresh config n).liveStatus } := by
  unfold create at hcreate
  cases hvalid : validateHostConfig config with
  | error e => rw [hvalid] at hcreate; cases hcreate
  | ok =>
    cases hn : RaftNode.create config.raft recovered with
    | error e => rw [hvalid, hn] at hcreate; cases hcreate
    | ok n =>
      rw [hvalid, hn] at hcreate
      exact ⟨n, rfl, (Except.ok.inj hcreate).symm⟩

section

variable {n : RaftNode} (hn : RaftNode.create config.raft recovered = .ok n)
    (enabled : config.groupCommit.enabled = true)
include hn enabled

/-- A new host. -/
theorem sealed_create : Sealed { node := n, durable := recovered }
      { host := { fresh config n with publishedStatus := (fresh config n).liveStatus } } := by
  have hco := coherent_create hn ∅
  have happlied := (Driven.kept_create hn).ledger.filed.applied_le
  have hinit : n.role ≠ .unavailable ∧ n.nextStorageOpId = 1 ∧ n.pendingStorage = none ∧
      n.memory = recovered ∧ n.lastApplied ≤ recovered.commitIndex := by
    obtain ⟨-, rfl⟩ := RaftNode.create_eq_ok.mp hn
    exact ⟨by simp [RaftNode.ofRecovered], rfl, rfl, rfl, happlied⟩
  obtain ⟨hrole, hnext, hpending, hmem, happlied⟩ := hinit
  refine ⟨enabled, ⟨rfl, by simp [Counted, fresh], Nat.zero_le _, fun _ => hnext, ?_, fun _ => hmem,
    fun _ => by simp [fresh], le_rfl, by simp [fresh]⟩, ⟨enabled, by simp [Counted, fresh],
    ⟨List.nil_prefix, le_rfl, le_rfl, by simp [fresh], by simp [fresh], by simp [fresh]⟩,
    by simp [StorageWorker.Ends, fresh], fun _ => rfl, by simp [fresh], fun _ => Or.inr ⟨rfl, rfl⟩,
    fun _ _ => rfl, by simp [fresh], by simp, by simp⟩, ⟨rfl, le_rfl, .nil, by simp [fresh],
    fun _ => rfl, fun _ => .nil, by simp [fresh], by simp, fun _ _ => ⟨le_rfl, rfl⟩⟩,
    ⟨by simp [fresh], by simp [fresh], fun _ => Or.inr rfl⟩, fun _ => ⟨0, le_rfl, ?_⟩,
    by simp [fresh]⟩
  · intro q hq
    exact absurd (hpending.symm.trans hq) (by simp)
  · change Shows _ recovered
    rw [← hmem]
    refine ⟨rfl, rfl, rfl, ?_⟩
    rw [hmem]
    exact happlied

/-- **The gate holds in every run.** -/
theorem sealed_run (hcreate : create config recovered = .ok h₀) (acts : List Act) :
    Sealed { node := n, durable := recovered } { host := h₀.run acts } := by
  obtain ⟨m, hm, rfl⟩ := create_eq_ok hcreate
  obtain rfl := Except.ok.inj (hn.symm.trans hm)
  exact Move.run (fun _ _ m hs => hs.move (Driven.kept_create hn) m)
    (fun _ _ c hs => hs.called c) (sealed_create hn enabled) acts

end

/-! ### After a failure -/

/-- A host that has stopped carries nothing out. -/
theorem dispatched_run_of_stopped (hstarted : h.started = true) (hstop : h.running = false)
    (acts : List Act) : (h.run acts).history.dispatched = h.history.dispatched := by
  have hrun : ∀ b : Busy, b.host.running = false → b.host.running = true → False :=
    fun _ hstop hrun => absurd (hrun.symm.trans hstop) (by simp)
  have hend := Move.run (I := fun b : Busy => b.host.started = true ∧ b.host.running = false ∧
    b.host.history.dispatched = h.history.dispatched) (h := h) ?_ ?_ ⟨hstarted, hstop, rfl⟩ acts
  · exact hend.2.2
  · rintro b b' m ⟨hs, hr, hd⟩
    cases m with
    | worker | ahead | drop | forget => exact ⟨hs, hr, hd⟩
    | refresh h =>
      simp only
      unfold refreshPublishedStatus
      split_ifs <;> exact ⟨hs, hr, hd⟩
    | start h fresh => exact absurd (fresh.symm.trans hs) (by simp)
    | event h running | take h running | staged h running | barrier h running | resume h running
    | complete h running | submit h running | refused h running | quarantine h running
    | dispatch h running | fail b running | arrive h running | clients h running =>
      exact (hrun _ hr running).elim
  · rintro h' h'' c ⟨hs, hr, hd⟩
    cases c with
    | startFailed | replies | traces => exact ⟨hs, hr, hd⟩
    | submit command =>
      unfold NodeHost.submit
      rw [if_pos hr]
      exact ⟨hs, hr, hd⟩
    | stop =>
      unfold NodeHost.stop
      rw [if_pos (Or.inr hr)]
      exact ⟨hs, hr, hd⟩

/-- The file and the failure of a worker are as before. -/
def Frozen (w w' : StorageWorker) : Prop := w'.journal = w.journal ∧ w'.failed = w.failed

theorem frozen_failTransport (h : NodeHost) : Frozen h.storage h.failTransport.storage := by
  unfold failTransport
  split_ifs <;> exact ⟨rfl, rfl⟩

theorem Dispatches.frozen {h h' : NodeHost} {out : List QuarantinedEffect}
    (steps : Dispatches h out h') : Frozen h.storage h'.storage := by
  rcases steps.carried with ⟨_, _, _, _, _, _, rfl⟩ | ⟨h₁, ⟨_, _, _, _, _, _, rfl⟩, rfl⟩
  · exact ⟨rfl, rfl⟩
  · exact frozen_failTransport _

theorem frozen_calling (h : NodeHost) (i : Input) : Frozen h.storage (h.calling i).storage := by
  unfold calling openGate
  split_ifs <;> exact ⟨rfl, rfl⟩

/-- After a failure of the worker no move touches the file. -/
theorem Sealed.frozen {b b' : Busy} (hs : Sealed s₀ b) (m : Move b b')
    (hfailed : b.host.storage.failed = true) : Frozen b.host.storage b'.host.storage := by
  cases m with
  | worker b s =>
    obtain ⟨hjournal, hfailed'⟩ := (turn_step hs.piped.grouped s).frozen hs.piped.ends hfailed
    exact ⟨hjournal, hfailed'.trans hfailed.symm⟩
  | start h | event h | staged h | resume h => exact frozen_calling _ _
  | barrier h running mode n =>
    set h₀ : NodeHost := { h with
      durableOperationThrough := max h.durableOperationThrough n.durableThrough } with hh₀
    obtain ⟨out, -, hsteps, -⟩ := dispatches_release (h := h₀) running
      (fun q hq => (hs.sequenced.held_ok (hs.phased.sound running) q hq).2) []
    exact hsteps.frozen
  | submit h running notices delayed k p rest storage taken =>
    obtain ⟨-, hgood⟩ := enqueue_eq_some taken
    exact absurd (hgood.symm.trans hfailed) (by simp)
  | dispatch h running inactive notices delayed q other =>
    exact (Dispatches.cons running other (.nil _)).frozen
  | fail b => exact frozen_failTransport b.host
  | refresh h =>
    simp only
    unfold refreshPublishedStatus
    split_ifs <;> exact ⟨rfl, rfl⟩
  | _ => exact ⟨rfl, rfl⟩

theorem Call.frozen {h h' : NodeHost} (c : Call h h') : Frozen h.storage h'.storage := by
  cases c with
  | submit command =>
    unfold NodeHost.submit
    split_ifs <;> exact ⟨rfl, rfl⟩
  | stop =>
    unfold NodeHost.stop
    split_ifs <;> exact ⟨rfl, rfl⟩
  | _ => exact ⟨rfl, rfl⟩

theorem Sealed.journal_run (hk : s₀.Kept) (hs : Sealed s₀ { host := h })
    (hfailed : h.storage.failed = true) (acts : List Act) :
    (h.run acts).storage.journal = h.storage.journal := by
  have hend := Move.run (I := fun b : Busy => Sealed s₀ b ∧ b.host.storage.failed = true ∧
    b.host.storage.journal = h.storage.journal) (h := h) ?_ ?_ ⟨hs, hfailed, rfl⟩ acts
  · exact hend.2.2
  · rintro b b' m ⟨hb, hf, hj⟩
    obtain ⟨hjournal, hsame⟩ := hb.frozen m hf
    exact ⟨hb.move hk m, hsame.trans hf, hjournal.trans hj⟩
  · rintro h' h'' c ⟨hb, hf, hj⟩
    obtain ⟨hjournal, hsame⟩ := c.frozen
    exact ⟨hb.called c, hsame.trans hf, hjournal.trans hj⟩

/-! ### The gate -/

/-- **What the gate guarantees** of a host that was built from the state `recovered` with the
node `n`. -/
structure DurabilityGate (recovered : RecoveredState) (n : RaftNode) (h : NodeHost) : Prop where
  /-- The file has the batches of the node, in their order. -/
  written : h.storage.journal.written <+: h.history.persisted.map PersistEffect.task
  flushed : h.storage.journal.flushed ≤ h.storage.journal.written.length
  /-- Effects leave in the order in which the node has emitted them. Each of them leaves after a
  flush has covered every batch that the node has emitted up to and including its step. -/
  dispatched : List.Forall₂ Answers h.history.dispatched
    (h.history.emitted.take h.history.dispatched.length)
  past : ∀ d ∈ h.history.dispatched, d.1 ≤ h.storage.journal.flushed
  /-- A host that runs although its worker has failed has not taken the report yet. -/
  reported : h.running = true → h.storage.failed = true → h.storage.Reports
  /-- A host that has stopped carries nothing out any more. -/
  stopped : h.started = true → h.running = false → ∀ acts,
    (h.run acts).history.dispatched = h.history.dispatched
  /-- After a failure nothing is flushed any more. -/
  failed : h.storage.failed = true → ∀ acts, (h.run acts).storage.journal = h.storage.journal
  /-- After every call, the node has applied no more than what the batches flushed by then
  commit. -/
  applied : ∀ before call after, h.history.calls = before ++ call :: after →
    call.1 ≤ h.storage.journal.flushed ∧
      (Driven.run { node := n, durable := recovered }
        ((before ++ [call]).map Prod.snd)).node.lastApplied ≤
      (recovered.writeAll (h.history.persisted.take call.1)).commitIndex
  /-- Unless the node has stopped itself, the status shows what some flushed batches leave. -/
  status : h.raft.role ≠ .unavailable → ∃ k ≤ h.storage.journal.flushed,
    Shows h.status (recovered.writeAll (h.history.persisted.take k))

theorem shows_status (hk : s₀.Kept) (hs : Sealed s₀ { host := h })
    (hr : h.raft.role ≠ .unavailable) : ∃ k ≤ h.storage.journal.flushed,
      Shows h.status (s₀.durable.writeAll (h.history.persisted.take k)) := by
  have hmode : h.grouped = true := hs.mode
  unfold NodeHost.status
  rw [hmode]
  dsimp only
  split_ifs with hclosed
  · obtain ⟨k, hle, hshows⟩ := hs.published hr
    exact ⟨k, hle, hshows.term, hshows.lastLogIndex, hshows.commitIndex, hshows.lastApplied⟩
  · simp only [Bool.true_and, Bool.or_eq_true, not_or, Bool.not_eq_true] at hclosed
    have hseq := hs.sequenced
    have hgate : h.lastSubmittedOperation ≤ h.durableOperationThrough :=
      (hseq.gate hclosed.2 hclosed.1).1
    have hshows := shows_liveStatus hk hs.followed hr
      (hseq.last_eq.ge.trans (hgate.trans hseq.durable_le))
    exact ⟨_, le_rfl, hshows.term, hshows.lastLogIndex, hshows.commitIndex, hshows.lastApplied⟩

/-- **The durability gate of group commit**, in every run of a host and its worker. -/
theorem durabilityGate_run (hcreate : create config recovered = .ok h₀)
    (enabled : config.groupCommit.enabled = true) (acts : List Act) :
    DurabilityGate recovered h₀.raft (h₀.run acts) := by
  obtain ⟨n, hn, hh₀⟩ := create_eq_ok hcreate
  have hraft : h₀.raft = n := by rw [hh₀]; rfl
  have hk := Driven.kept_create hn
  have hs := sealed_run hn enabled hcreate acts
  rw [hraft]
  refine ⟨hs.piped.worker.written, hs.piped.worker.flushed_le, hs.sequenced.carried,
    hs.sequenced.past, fun running hfailed => ?_, dispatched_run_of_stopped,
    fun hfailed more => hs.journal_run hk hfailed more, hs.followed.calls, shows_status hk hs⟩
  refine (hs.piped.reports (hs.piped.live running).2 hfailed).resolve_right ?_
  rintro ⟨x, hx, -⟩
  simp at hx

end Runs

end NodeHost

/-! ### Two runs -/

namespace Sample

/-- A host with group commit. -/
def groupHost : NodeHostConfig := { host narrow {} with groupCommit := { enabled := true } }

/-- What arrives when a peer sends a message. -/
def arrives (peer : NodeId) (message : Message) : TcpTransportEvent :=
  .message peer ((Codec.encodeMessage message groupHost.codec).toOption.getD [])

/-- Node 1 campaigns. Its vote is written, and only written when the node goes on; it is flushed
while the owner hands over the next batch, whose append fails. -/
def failover : List NodeHost.Act :=
  [.start true [], .poll { electionDue := true }, .worker .take,
    .worker (.append (.ok ⟨96, false⟩) false), .worker .publish, .poll {},
    .poll { events := [arrives 2 (.requestVote ⟨2, 2, 0, 0⟩)],
            ahead := [[], [.timeout, .flush (.ok ()), .publish]] },
    .worker .take, .worker (.append (.error "disk full") false)]

/-- The owner learns of the flush and of the failure. -/
def learns : List NodeHost.Act := [.worker .publish, .poll {}]

/-- The first entry is committed. -/
def settled : RecoveredState := { hardState := ⟨1, none⟩, log := [⟨1, 1, none⟩], commitIndex := 1 }

/-- A leader of a later term wants to replace it. -/
def overwritten : List NodeHost.Act :=
  [.start true [], .poll { events := [arrives 2 (.appendEntries
    { term := 2, leaderId := 2, rpcId := 1, prevLogIndex := 0, prevLogTerm := 0,
      entries := [⟨1, 2, none⟩], leaderCommit := 0 })] }]

end Sample

namespace NodeHost

open Sample

/-- The gate opens in the sample run: after the barrier, the votes that node 1 asks for leave. -/
theorem durabilityGate_run_campaign : ∃ h₀, create groupHost {} = .ok h₀ ∧
    groupHost.groupCommit.enabled = true ∧
    ((1, RaftEffect.send ⟨1, 2, .requestVote ⟨1, 1, 0, 0⟩⟩) ∈
      (h₀.run (failover ++ learns)).history.dispatched) ∧
    DurabilityGate {} h₀.raft (h₀.run (failover ++ learns)) := by
  have hsome : ((create groupHost {}).toOption.map fun h => decide
      ((1, RaftEffect.send ⟨1, 2, .requestVote ⟨1, 1, 0, 0⟩⟩) ∈
        (h.run (failover ++ learns)).history.dispatched)) = some true := by
    decide +kernel
  cases hcreate : create groupHost {} with
  | error e =>
    rw [hcreate] at hsome
    cases hsome
  | ok h₀ =>
    rw [hcreate] at hsome
    refine ⟨h₀, rfl, rfl, ?_, durabilityGate_run hcreate rfl _⟩
    exact of_decide_eq_true (Option.some.inj hsome)

/-- **What the gate does not guarantee.** An effect whose batch is flushed leaves after the append
of a later batch has failed. And a node that stops itself, here because a leader wants to replace
a committed entry, shows a term that is in no batch. -/
theorem durabilityGate_limits :
    ((create groupHost {}).toOption.map fun h =>
      ((h.run failover).storage.failed, (h.run failover).history.dispatched.length,
        (h.run (failover ++ learns)).history.dispatched.length)) = some (true, 1, 11) ∧
    ((create groupHost settled).toOption.map fun h =>
      ((h.run overwritten).history.persisted, (h.run overwritten).status.term)) =
        some ([], 2) ∧
    settled.hardState.currentTerm = 1 := by
  refine ⟨?_, ?_, rfl⟩ <;> decide +kernel

end NodeHost

end DetLog
