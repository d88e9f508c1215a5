import DetLog.Host.Owner
import DetLog.Raft.Tokens

/-!
# The moves of a host

A call of the owner is a long piece of sequential code with the worker running beside it. What it
does is a sequence of a few kinds of moves (`DetLog.NodeHost.Move`). Between two moves the owner has
something in hand: the notices it has taken but not handled, a completion that waits for the end of
its barrier, and the effects of the last call of the node. `DetLog.NodeHost.Busy` is the host
together with these.

`DetLog.NodeHost.moves_act` takes every call apart, and `DetLog.NodeHost.Move.run` is the induction
that follows: what holds at the beginning and is kept by every move holds after every run, whatever
the owner calls, the worker does, and the network sends.
-/

namespace DetLog

namespace NodeHost

/-- A host and what its owner has in hand. -/
structure Busy where
  host : NodeHost
  notices : List StorageNotice := []
  delayed : Option StorageComplete := none
  todo : List QuarantinedEffect := []

/-- The effects of a call, with what they depend on. -/
def tagged (dependency : ℕ) (effects : List RaftEffect) : List QuarantinedEffect :=
  effects.map fun effect => { durabilityDependency := dependency, effect }

/-- The last operation that the effects of a call depend on. -/
def dependencyOf (h : NodeHost) (i : Input) : ℕ :=
  (h.called i).effectDependency (h.reaction i).effects

/-- The node has been called; its effects are still in hand. -/
def calling (h : NodeHost) (i : Input) : NodeHost := (h.called i).openGate (h.dependencyOf i)

/-- The effects of a call, with what they wait for. -/
def effectsOf (h : NodeHost) (i : Input) : List QuarantinedEffect :=
  tagged (h.dependencyOf i) (h.reaction i).effects

/-- The part of `complete_group_barrier` before the delayed completion. -/
def openBarrier (h : NodeHost) (notice : StorageNotice) : NodeHost :=
  let h := { h with
    durableOperationThrough := max h.durableOperationThrough notice.durableThrough }
  let released := h.release h.quarantinedEffects []
  { released.1 with
    quarantinedEffects := released.2
    groupBarrierActive := decide
      (released.1.durableOperationThrough < released.1.lastSubmittedOperation) }

/-- An effect is carried out and recorded. -/
def dispatching (h : NodeHost) (effect : RaftEffect) : NodeHost :=
  ({ h with history := { h.history with
      dispatched := h.history.dispatched ++ [(h.storage.journal.flushed, effect)] } } :
    NodeHost).carryOut effect

/-- **The moves.** -/
inductive Move : Busy → Busy → Prop
  | worker (b : Busy) (s : WorkerStep) :
      Move b { b with host := { b.host with storage := b.host.storage.step s } }
  | ahead (b : Busy) (steps : List (List WorkerStep)) :
      Move b { b with host := { b.host with ahead := steps } }
  | start (h : NodeHost) (fresh : h.started = false) (idle : h.storage.started = false) :
      Move { host := h }
        { host := calling { h with
            started := true
            running := true
            storage := { h.storage with started := true } } .start
          todo := effectsOf { h with
            started := true
            running := true
            storage := { h.storage with started := true } } .start }
  | event (h : NodeHost) (running : h.running = true) (e : RaftEvent) (rest : List RaftEvent)
      (next : h.ownerEvents = e :: rest) :
      Move { host := h }
        { host := calling { h with ownerEvents := rest } (.event e)
          todo := effectsOf { h with ownerEvents := rest } (.event e) }
  | take (h : NodeHost) (running : h.running = true) (count : ℕ) :
      Move { host := h } { host := { h with storage := (h.storage.take count).2 }
                           notices := (h.storage.take count).1 }
  | staged (h : NodeHost) (running : h.running = true) (mode : h.grouped = true)
      (n : StorageNotice) (rest : List StorageNotice) (kind : n.kind = .staged) :
      Move { host := h, notices := n :: rest }
        { host := h.calling (.event n.completion.event), notices := rest
          todo := h.effectsOf (.event n.completion.event) }
  | barrier (h : NodeHost) (running : h.running = true) (mode : h.grouped = true)
      (n : StorageNotice) (rest : List StorageNotice) (kind : n.kind = .barrier) :
      Move { host := h, notices := n :: rest }
        { host := h.openBarrier n, notices := rest, delayed := n.delayedCompletion }
  | resume (h : NodeHost) (running : h.running = true) (mode : h.grouped = true)
      (notices : List StorageNotice) (completion : StorageComplete) :
      Move { host := h, notices, delayed := some completion }
        { host := h.calling (.event completion.event), notices
          todo := h.effectsOf (.event completion.event) }
  | complete (h : NodeHost) (running : h.running = true) (mode : h.grouped = false)
      (n : StorageNotice) (rest : List StorageNotice) :
      Move { host := h, notices := n :: rest }
        { host := { h with ownerEvents := h.ownerEvents ++ [n.completion.event] }, notices := rest }
  | submit (h : NodeHost) (running : h.running = true) (notices : List StorageNotice)
      (delayed : Option StorageComplete) (d : ℕ) (p : PersistEffect)
      (rest : List QuarantinedEffect) (storage : StorageWorker)
      (taken : h.storage.enqueue { operation := p.opId, batch := p.batch } = some storage) :
      Move { host := h, notices, delayed, todo := ⟨d, .persist p⟩ :: rest }
        { host := { h with storage }, notices, delayed, todo := rest }
  | refused (h : NodeHost) (running : h.running = true) (mode : h.grouped = false)
      (notices : List StorageNotice) (delayed : Option StorageComplete) (d : ℕ) (p : PersistEffect)
      (rest : List QuarantinedEffect) (events : List RaftEvent)
      (told : events = [] ∨
        events = [.storageComplete p.opId false "bounded storage queue unavailable"]) :
      Move { host := h, notices, delayed, todo := ⟨d, .persist p⟩ :: rest }
        { host := { h with ownerEvents := events ++ h.ownerEvents }, notices, delayed,
          todo := rest }
  | quarantine (h : NodeHost) (running : h.running = true) (mode : h.grouped = true)
      (active : h.groupBarrierActive = true) (notices : List StorageNotice)
      (delayed : Option StorageComplete) (q : QuarantinedEffect)
      (other : q.effect.batch? = none) (rest : List QuarantinedEffect) :
      Move { host := h, notices, delayed, todo := q :: rest }
        { host := { h with quarantinedEffects := h.quarantinedEffects ++ [q] }, notices, delayed,
          todo := rest }
  | dispatch (h : NodeHost) (running : h.running = true)
      (inactive : h.grouped = true → h.groupBarrierActive = false)
      (notices : List StorageNotice) (delayed : Option StorageComplete) (q : QuarantinedEffect)
      (other : q.effect.batch? = none) (rest : List QuarantinedEffect) :
      Move { host := h, notices, delayed, todo := q :: rest }
        { host := h.dispatching q.effect, notices, delayed, todo := rest }
  | fail (b : Busy) (running : b.host.running = true) :
      Move b { b with host := b.host.failTransport }
  | drop (b : Busy) (stopped : b.host.running = false) : Move b { host := b.host }
  | forget (b : Busy) (stopped : b.host.running = false) : Move b { b with todo := [] }
  | refresh (h : NodeHost) (notices : List StorageNotice) (delayed : Option StorageComplete) :
      Move { host := h, notices, delayed }
        { host := h.refreshPublishedStatus, notices, delayed }
  | arrive (h : NodeHost) (running : h.running = true) (e : RaftEvent) (plain : ¬e.IsCompletion)
      (free : e.asked = none) (election heartbeat : HostTimer) :
      Move { host := h } { host := { h with
        ownerEvents := h.ownerEvents ++ [e]
        electionTimer := election
        heartbeatTimer := heartbeat } }
  | clients (h : NodeHost) (running : h.running = true) (count : ℕ) :
      Move { host := h } { host := h.admitClients count }

/-- The calls that are one move. -/
inductive Call (h : NodeHost) : NodeHost → Prop
  | startFailed (idle : h.storage.started = false) :
      Call h { h with storage := ({ h.storage with started := true } : StorageWorker).stop }
  | submit (command : ClientCommand) : Call h (h.submit command).2
  | replies (maximum : ℕ) : Call h (h.pollReplies maximum).2
  | traces (maximum : ℕ) : Call h (h.pollTraces maximum).2
  | stop : Call h h.stop

/-- Move after move. -/
def Moves : Busy → Busy → Prop := Relation.ReflTransGen Move

/-! ### Taking the calls apart -/

section Apart

variable {h : NodeHost} {notices : List StorageNotice} {delayed : Option StorageComplete}
  {todo : List QuarantinedEffect} {h' : NodeHost} {b b' : Busy}

theorem failGroupStorage_eq (running : h.running = true) :
    h.failGroupStorage = h.failTransport := by
  unfold failGroupStorage failTransport
  rw [if_neg (by simp [running]), if_neg (by simp [running])]

theorem failTransport_eq (running : h.running = true) : h.failTransport = { h with
    fatalError := true
    running := false
    quarantinedEffects := []
    groupBarrierActive := false
    publishedStatus := { h.publishedStatus with
      role := .unavailable, leaderHint := none, leaderReady := false, storagePending := false }
    replies := answerAll h.config.limits.maxClientSlots h.replies h.outstandingTokens
    outstandingTokens := []
    clientQueue := []
    ownerEvents := []
    storage := h.storage.stop } := if_neg (by simp [running])

theorem running_failTransport (h : NodeHost) : h.failTransport.running = false := by
  unfold failTransport
  split_ifs with hrun
  · exact hrun
  · rfl

theorem moves_steps (b : Busy) (steps : List WorkerStep) : Moves b { b with
    host := { b.host with storage := steps.foldl StorageWorker.step b.host.storage } } := by
  induction steps generalizing b with
  | nil => exact .refl
  | cons s rest ih => exact .head (.worker b s) (ih _)

theorem moves_interfere (b : Busy) : Moves b { b with host := b.host.interfere } := by
  unfold interfere
  split
  · exact .refl
  · next steps rest hahead => exact (moves_steps b steps).tail (.ahead _ rest)

theorem running_interfere (h : NodeHost) : h.interfere.running = h.running := by
  unfold interfere
  split <;> rfl

theorem grouped_interfere (h : NodeHost) : h.interfere.grouped = h.grouped := by
  unfold interfere
  split <;> rfl

/-- A host that has failed leaves what it has in hand. -/
theorem moves_fail (running : h.running = true) :
    Moves ⟨h, notices, delayed, todo⟩ ⟨h.failTransport, notices, delayed, []⟩ :=
  .tail (.single (.fail ⟨h, notices, delayed, todo⟩ running))
    (.forget ⟨h.failTransport, notices, delayed, todo⟩ (running_failTransport h))

/-- What an effect leads to: the next one, or the end. -/
def Handled (h : NodeHost) (notices : List StorageNotice) (delayed : Option StorageComplete)
    (q : QuarantinedEffect) (rest : List QuarantinedEffect) (h' : NodeHost) : Prop :=
  (h'.running = true → Moves ⟨h, notices, delayed, q :: rest⟩ ⟨h', notices, delayed, rest⟩) ∧
    (h'.running = false → Moves ⟨h, notices, delayed, q :: rest⟩ ⟨h', notices, delayed, []⟩)

theorem handled_of_moves {q : QuarantinedEffect} {rest : List QuarantinedEffect}
    (hmoves : Moves ⟨h, notices, delayed, q :: rest⟩ ⟨h', notices, delayed, rest⟩) :
    Handled h notices delayed q rest h' :=
  ⟨fun _ => hmoves, fun hstop => hmoves.tail (.forget ⟨h', notices, delayed, rest⟩ hstop)⟩

theorem handled_of_fails {q : QuarantinedEffect} {rest : List QuarantinedEffect}
    (hstop : h'.running = false)
    (hmoves : Moves ⟨h, notices, delayed, q :: rest⟩ ⟨h', notices, delayed, []⟩) :
    Handled h notices delayed q rest h' :=
  ⟨fun hrun => absurd (hrun.symm.trans hstop) (by simp), fun _ => hmoves⟩

theorem handled_submitBatch (running : h.running = true) (d : ℕ) (p : PersistEffect)
    (rest : List QuarantinedEffect) :
    Handled h notices delayed ⟨d, .persist p⟩ rest (h.submitBatch p) := by
  have hahead := moves_interfere ⟨h, notices, delayed, ⟨d, .persist p⟩ :: rest⟩
  have hrun : h.interfere.running = true := (running_interfere h).trans running
  unfold submitBatch
  simp only
  cases htask : h.interfere.storage.enqueue { operation := p.opId, batch := p.batch } with
  | some storage =>
    exact handled_of_moves (hahead.tail (.submit _ hrun notices delayed d p rest storage htask))
  | none =>
    cases hmode : h.interfere.grouped with
    | true =>
      simp only [if_true]
      rw [failGroupStorage_eq hrun]
      exact handled_of_fails (running_failTransport _) (hahead.trans (moves_fail hrun))
    | false =>
      simp only [Bool.false_eq_true, if_false]
      split_ifs
      · exact handled_of_moves (hahead.tail
          (.refused _ hrun hmode notices delayed d p rest _ (Or.inr rfl)))
      · exact handled_of_moves (hahead.tail
          (.refused _ hrun hmode notices delayed d p rest [] (Or.inl rfl)))

theorem dispatchEffect_eq {effect : RaftEffect} (other : effect.batch? = none) :
    h.dispatchEffect effect = h.dispatching effect := by
  cases effect with
  | persist p => cases other
  | _ => rfl

theorem handled_handleEffect (running : h.running = true) (d : ℕ) (effect : RaftEffect)
    (rest : List QuarantinedEffect) :
    Handled h notices delayed ⟨d, effect⟩ rest (h.handleEffect d effect) := by
  unfold handleEffect
  cases hbatch : effect.batch? with
  | some p =>
    obtain rfl : effect = .persist p := by
      cases effect <;> cases hbatch
      rfl
    rw [Option.isNone_some, Bool.and_false, if_neg (by simp)]
    exact handled_submitBatch running d p rest
  | none =>
    rw [Option.isNone_none, Bool.and_true]
    split_ifs with hactive hfull
    · rw [failGroupStorage_eq running]
      exact handled_of_fails (running_failTransport _) (moves_fail running)
    · rw [Bool.and_eq_true] at hactive
      exact handled_of_moves (.single
        (.quarantine h running hactive.1 hactive.2 notices delayed ⟨d, effect⟩ hbatch rest))
    · rw [dispatchEffect_eq hbatch]
      refine handled_of_moves (.single
        (.dispatch h running (fun hmode => ?_) notices delayed ⟨d, effect⟩ hbatch rest))
      simpa [hmode] using hactive

/-- The effects of a call are handled in their order. -/
theorem moves_handleLoop (running : h.running = true) (d : ℕ) (effects : List RaftEffect) :
    Moves ⟨h, notices, delayed, tagged d effects⟩
      ⟨handleLoop d h effects, notices, delayed, []⟩ := by
  induction effects generalizing h with
  | nil => exact .refl
  | cons effect rest ih =>
    have hhandled : Handled h notices delayed ⟨d, effect⟩ (tagged d rest)
        (h.handleEffect d effect) := handled_handleEffect running d effect _
    rw [handleLoop]
    split_ifs with hstop
    · exact hhandled.2 hstop
    · rw [Bool.not_eq_false] at hstop
      exact (hhandled.1 hstop).trans (ih hstop)

theorem running_openGate (h : NodeHost) (d : ℕ) : (h.openGate d).running = h.running := by
  unfold openGate
  split_ifs <;> rfl

theorem running_calling (h : NodeHost) (i : Input) : (h.calling i).running = h.running :=
  running_openGate _ _

/-- The effects of a call are handled. -/
theorem moves_feed (running : h.running = true) (i : Input) :
    Moves ⟨h.calling i, notices, delayed, h.effectsOf i⟩ ⟨h.feed i, notices, delayed, []⟩ :=
  (moves_handleLoop ((running_calling h i).trans running) _ _).tail (.refresh _ notices delayed)

/-! ### Notices -/

/-- A host that does not run has failed, and has no events left. -/
def Quiet (h : NodeHost) : Prop := h.running = false → h.fatalError = true ∧ h.ownerEvents = []

/-- The configuration stays, and a host that stops is quiet. -/
def Keeps (h h' : NodeHost) : Prop := h'.config = h.config ∧ h'.Quiet

theorem quiet_of_running (running : h.running = true) : h.Quiet :=
  fun hstop => absurd (running.symm.trans hstop) (by simp)

theorem keeps_of_running (config : h'.config = h.config) (running : h'.running = true) :
    Keeps h h' := ⟨config, quiet_of_running running⟩

theorem keeps_failTransport (config : h'.config = h.config) (running : h'.running = true) :
    Keeps h h'.failTransport := by
  rw [failTransport_eq running]
  exact ⟨config, fun _ => ⟨rfl, rfl⟩⟩

theorem keeps_dispatching (running : h.running = true) (effect : RaftEffect) :
    Keeps h (h.dispatching effect) := by
  unfold dispatching carryOut
  split
  · exact keeps_of_running rfl running
  · split
    · exact keeps_failTransport rfl running
    · exact keeps_of_running rfl running
  · unfold scheduleTimer
    split <;> exact keeps_of_running rfl running
  · unfold reply
    dsimp only
    split_ifs <;> exact keeps_of_running rfl running
  · split_ifs <;> exact keeps_of_running rfl running

theorem keeps_submitBatch (running : h.running = true) (p : PersistEffect) :
    Keeps h (h.submitBatch p) := by
  have hconfig : h.interfere.config = h.config := by
    unfold interfere
    split <;> rfl
  have hrun : h.interfere.running = true := (running_interfere h).trans running
  unfold submitBatch
  simp only
  split
  · exact keeps_of_running hconfig hrun
  · split_ifs
    · rw [failGroupStorage_eq hrun]
      exact keeps_failTransport hconfig hrun
    · exact keeps_of_running hconfig hrun
    · exact keeps_of_running hconfig hrun

theorem keeps_release (running : h.running = true) (held waiting : List QuarantinedEffect) :
    Keeps h (h.release held waiting).1 := by
  induction held generalizing h waiting with
  | nil => exact keeps_of_running rfl running
  | cons q rest ih =>
    have hnext : Keeps h (h.dispatchEffect q.effect) := by
      cases q.effect with
      | persist p => exact keeps_submitBatch running p
      | _ => exact keeps_dispatching running _
    rw [release]
    dsimp only
    split_ifs with hdurable hstop
    · exact hnext
    · obtain ⟨hconfig, hquiet⟩ := ih (by simpa using hstop) waiting
      exact ⟨hconfig.trans hnext.1, hquiet⟩
    · exact ih running _

theorem grouped_of_config (config : h'.config = h.config) :
    h'.grouped = h.grouped := congrArg (fun c => c.groupCommit.enabled) config

theorem running_refreshPublishedStatus (h : NodeHost) :
    h.refreshPublishedStatus.running = h.running := by
  unfold refreshPublishedStatus
  split_ifs <;> rfl

theorem completeGroupBarrier_eq (h : NodeHost) (n : StorageNotice) : h.completeGroupBarrier n =
    (n.delayedCompletion.elim (h.openBarrier n) fun completion =>
      if (h.openBarrier n).running then (h.openBarrier n).feed (.event completion.event)
      else h.openBarrier n).refreshPublishedStatus := by
  unfold completeGroupBarrier
  cases n.delayedCompletion <;> rfl

/-- A notice leads to the next one, or in the group mode to the end. -/
theorem moves_takeNotice (running : h.running = true) (n : StorageNotice)
    (rest : List StorageNotice) :
    Moves ⟨h, n :: rest, none, []⟩ ⟨h.takeNotice n, rest, none, []⟩ ∨
      (h.takeNotice n).running = false ∧ h.grouped = true ∧
        Moves ⟨h, n :: rest, none, []⟩ ⟨h.takeNotice n, [], none, []⟩ := by
  have hfails : Moves ⟨h, n :: rest, none, []⟩ ⟨h.failGroupStorage, [], none, []⟩ := by
    rw [failGroupStorage_eq running]
    exact (moves_fail running).tail (.drop ⟨h.failTransport, n :: rest, none, []⟩
      (running_failTransport h))
  unfold takeNotice
  cases hmode : h.grouped with
  | false =>
    rw [if_neg (by simp)]
    exact Or.inl (.single (.complete h running hmode n rest))
  | true =>
    rw [if_pos rfl]
    cases hkind : n.kind with
    | staged =>
      exact Or.inl ((Relation.ReflTransGen.single (.staged h running hmode n rest hkind)).trans
        (moves_feed running _))
    | failed | complete =>
      refine Or.inr ⟨?_, rfl, hfails⟩
      rw [failGroupStorage_eq running]
      exact running_failTransport h
    | barrier =>
      have hbarrier : Moves ⟨h, n :: rest, none, []⟩
          ⟨h.openBarrier n, rest, n.delayedCompletion, []⟩ :=
        .single (.barrier h running hmode n rest hkind)
      have hgrouped : (h.openBarrier n).grouped = h.grouped :=
        grouped_of_config (keeps_release (by exact running) _ _).1
      simp only
      rw [completeGroupBarrier_eq]
      cases hrun : (h.openBarrier n).running with
      | false =>
        refine Or.inr ⟨?_, trivial, ?_⟩
        · rw [running_refreshPublishedStatus]
          cases n.delayedCompletion <;> exact hrun
        · refine Relation.ReflTransGen.tail (hbarrier.tail (.drop _ hrun)) ?_
          cases n.delayedCompletion <;> exact .refresh _ [] none
      | true =>
        refine Or.inl ?_
        cases hdelayed : n.delayedCompletion with
        | none =>
          rw [hdelayed] at hbarrier
          exact hbarrier.tail (.refresh _ rest none)
        | some completion =>
          rw [hdelayed] at hbarrier
          have hresume : Moves ⟨h.openBarrier n, rest, some completion, []⟩
              ⟨(h.openBarrier n).feed (.event completion.event), rest, none, []⟩ :=
            (Relation.ReflTransGen.single (.resume _ hrun (hgrouped.trans hmode)
              rest completion)).trans (moves_feed hrun _)
          exact (hbarrier.trans hresume).tail (.refresh _ rest none)

theorem Move.keeps (m : Move b b') (hquiet : b.host.Quiet) :
    Keeps b.host b'.host := by
  have hcalling : ∀ (h : NodeHost) (i : Input), h.running = true → Keeps h (h.calling i) := by
    intro h i running
    refine keeps_of_running ?_ ((running_calling h i).trans running)
    unfold calling openGate
    split_ifs <;> rfl
  cases m with
  | start h => exact hcalling _ _ rfl
  | event h running | staged h running | resume h running => exact hcalling _ _ running
  | barrier h running mode n => exact keeps_release (by exact running) _ _
  | dispatch h running inactive notices delayed q => exact keeps_dispatching running q.effect
  | fail b running => exact keeps_failTransport rfl running
  | refresh h =>
    simp only
    unfold refreshPublishedStatus
    split_ifs <;> exact ⟨rfl, hquiet⟩
  | complete h running | refused h running | arrive h running | clients h running =>
    exact keeps_of_running rfl running
  | _ => exact ⟨rfl, hquiet⟩

/-- Moves of a running host keep its configuration, and a host they stop is quiet. -/
theorem Moves.keeps (m : Moves b b') (running : b.host.running = true) :
    Keeps b.host b'.host := by
  induction m with
  | refl => exact keeps_of_running rfl running
  | tail _ step ih =>
    obtain ⟨hconfig, hquiet⟩ := step.keeps ih.2
    exact ⟨hconfig.trans ih.1, hquiet⟩

theorem Moves.grouped (m : Moves b b') (running : b.host.running = true) :
    b'.host.grouped = b.host.grouped := grouped_of_config (m.keeps running).1

theorem moves_takeNotices (running : h.running = true) (ns : List StorageNotice) :
    Moves ⟨h, ns, none, []⟩ ⟨takeNotices h ns, [], none, []⟩ := by
  induction ns generalizing h with
  | nil => exact .refl
  | cons n rest ih =>
    rw [takeNotices]
    rcases moves_takeNotice running n rest with hgoes | ⟨hstop, hmode, hends⟩
    · split_ifs with hfails
      · rw [Bool.and_eq_true, Bool.not_eq_true'] at hfails
        exact hgoes.tail (.drop ⟨h.takeNotice n, rest, none, []⟩ hfails.2)
      · refine hgoes.trans (ih ?_)
        have hmode : (h.takeNotice n).grouped = h.grouped := hgoes.grouped running
        cases hgrouped : h.grouped with
        | true =>
          rw [hmode, hgrouped] at hfails
          simpa using hfails
        | false =>
          unfold takeNotice
          rw [if_neg (by simp [hgrouped])]
          exact running
    · have hmode' : (h.takeNotice n).grouped = h.grouped := hends.grouped running
      rw [if_pos (by rw [hmode', hmode, hstop]; rfl)]
      exact hends

/-! ### Polls -/

theorem moves_collect (running : h.running = true) : Moves ⟨h, [], none, []⟩
    ⟨h.collect, [], none, []⟩ := by
  unfold collect
  split_ifs
  · exact .refl
  · have hrun : ({ h.interfere with storage := (h.interfere.storage.take h.available).2 } :
        NodeHost).running = true := (running_interfere h).trans running
    exact ((moves_interfere ⟨h, [], none, []⟩).tail (.take _ (by exact hrun) h.available)).trans
      (moves_takeNotices hrun _)

/-- Without group commit a notice is only passed on. -/
theorem running_takeNotices (mode : h.grouped = false) (ns : List StorageNotice) :
    (takeNotices h ns).running = h.running := by
  induction ns generalizing h with
  | nil => rfl
  | cons n rest ih =>
    have hnotice : h.takeNotice n =
        { h with ownerEvents := h.ownerEvents ++ [n.completion.event] } := by
      unfold takeNotice
      rw [if_neg (by simp [mode])]
    have hmode : (h.takeNotice n).grouped = false := by
      rw [hnotice]
      exact mode
    rw [takeNotices, if_neg (by simp [hmode]), ih hmode, hnotice]

theorem running_collect (running : h.running = true)
    (hgoes : ¬(h.collect.grouped && !h.collect.running) = true) : h.collect.running = true := by
  have hmode : h.collect.grouped = h.grouped := (moves_collect running).grouped running
  cases hgrouped : h.grouped with
  | true =>
    rw [hmode, hgrouped] at hgoes
    simpa using hgoes
  | false =>
    unfold collect
    split_ifs
    · exact running
    · exact (running_takeNotices (by exact (grouped_interfere h).trans hgrouped) _).trans
        ((running_interfere h).trans running)

theorem moves_fireTimers (running : h.running = true) (inputs : PollInputs) :
    Moves ⟨h, [], none, []⟩ ⟨h.fireTimers inputs, [], none, []⟩ := by
  unfold fireTimers fireTimer
  dsimp only
  split_ifs
  · exact .tail (.single (.arrive h running _ (by exact id) rfl _ _))
      (.arrive _ (by exact running) _ (by exact id) rfl _ _)
  · exact .single (.arrive h running _ (by exact id) rfl _ _)
  · exact .single (.arrive h running _ (by exact id) rfl _ _)
  · exact .refl

theorem running_fireTimers (h : NodeHost) (inputs : PollInputs) :
    (h.fireTimers inputs).running = h.running := by
  unfold fireTimers fireTimer
  dsimp only
  split_ifs <;> rfl

theorem moves_admitLocal (running : h.running = true) (inputs : PollInputs) :
    Moves ⟨h, [], none, []⟩ ⟨h.admitLocal inputs, [], none, []⟩ :=
  (moves_fireTimers running inputs).tail
    (.clients _ ((running_fireTimers h inputs).trans running) _)

theorem moves_receive (running : h.running = true) (events : List TcpTransportEvent) :
    Moves ⟨h, [], none, []⟩ ⟨receive h events, [], none, []⟩ := by
  induction events generalizing h with
  | nil => exact .refl
  | cons event rest ih =>
    cases event with
    | message peer bytes =>
      simp only [receive]
      split
      · exact ih running
      · exact .head (.arrive h running _ (by exact id) rfl h.electionTimer h.heartbeatTimer)
          (ih running)
    | peerRejected | connection => exact ih running
    | transportError => exact .single (.fail ⟨h, [], none, []⟩ running)

theorem moves_gatherInputs (running : h.running = true) (inputs : PollInputs) :
    Moves ⟨h, [], none, []⟩ ⟨h.gatherInputs inputs, [], none, []⟩ := by
  unfold gatherInputs
  split_ifs with htcp
  · exact .single (.fail ⟨h, [], none, []⟩ running)
  dsimp only
  split_ifs with hfails hstop
  · exact moves_collect running
  all_goals
    have hcollected := running_collect running hfails
    have hlocal := (moves_collect running).trans (moves_admitLocal hcollected inputs)
    have hrun : (h.collect.admitLocal inputs).running = true :=
      (running_fireTimers h.collect inputs).trans hcollected
  · exact hlocal.trans (moves_receive hrun _)
  · rw [Bool.not_eq_false] at hstop
    exact (hlocal.trans (moves_receive hrun _)).tail (.clients _ hstop _)

/-- **One round of the loop is a sequence of moves.** -/
theorem moves_pollOnce (h : NodeHost) (inputs : PollInputs) :
    Moves ⟨h, [], none, []⟩ ⟨h.pollOnce inputs, [], none, []⟩ := by
  unfold pollOnce
  split_ifs with hstop
  · exact .refl
  rw [Bool.not_eq_false] at hstop
  have hgather : Moves ⟨h, [], none, []⟩
      ⟨({ h with ahead := inputs.ahead } : NodeHost).gatherInputs inputs, [], none, []⟩ :=
    .head (.ahead ⟨h, [], none, []⟩ inputs.ahead) (moves_gatherInputs (by exact hstop) inputs)
  dsimp only
  split
  · exact hgather
  · next event rest hnext =>
    have hquiet : (({ h with ahead := inputs.ahead } : NodeHost).gatherInputs inputs).Quiet :=
      (hgather.keeps hstop).2
    have hrun :
        (({ h with ahead := inputs.ahead } : NodeHost).gatherInputs inputs).running = true := by
      rw [← Bool.not_eq_false]
      intro hstops
      simp [(hquiet hstops).2] at hnext
    exact (hgather.tail (.event _ hrun event rest hnext)).trans (moves_feed (by exact hrun) _)

/-! ### Failures at a poll -/

/-- Some effects have been carried out, and nothing has happened to the gate. -/
def Carried (h : NodeHost) (effects : List RaftEffect) (h' : NodeHost) : Prop :=
  ∃ tokens replies traces election heartbeat discarded, h' = { h with
    outstandingTokens := tokens
    replies := replies
    traces := traces
    electionTimer := election
    heartbeatTimer := heartbeat
    history := { h.history with
      dispatched := h.history.dispatched ++
        effects.map fun effect => (h.storage.journal.flushed, effect)
      discarded := discarded } }

/-- What becomes of a host that carries an effect out. -/
theorem carried_dispatching (h : NodeHost) (effect : RaftEffect) :
    Carried h [effect] (h.dispatching effect) ∨
      ∃ h₁, Carried h [effect] h₁ ∧ h.dispatching effect = h₁.failTransport := by
  unfold dispatching carryOut
  split
  · exact Or.inl ⟨_, _, _, _, _, _, rfl⟩
  · split
    · exact Or.inr ⟨_, ⟨_, _, _, _, _, _, rfl⟩, rfl⟩
    · exact Or.inl ⟨_, _, _, _, _, _, rfl⟩
  · unfold scheduleTimer
    split <;> exact Or.inl ⟨_, _, _, _, _, _, rfl⟩
  · unfold reply
    dsimp only
    split_ifs <;> exact Or.inl ⟨_, _, _, _, _, _, rfl⟩
  · split_ifs <;> exact Or.inl ⟨_, _, _, _, _, _, rfl⟩

/-- A running host carries some effects out, one after the other. -/
inductive Dispatches : NodeHost → List QuarantinedEffect → NodeHost → Prop
  | nil (h : NodeHost) : Dispatches h [] h
  | cons {h h' : NodeHost} {q : QuarantinedEffect} {rest : List QuarantinedEffect}
      (running : h.running = true) (other : q.effect.batch? = none)
      (next : Dispatches (h.dispatching q.effect) rest h') : Dispatches h (q :: rest) h'

theorem durable_dispatching (h : NodeHost) (effect : RaftEffect) :
    (h.dispatching effect).durableOperationThrough = h.durableOperationThrough := by
  unfold dispatching carryOut failTransport scheduleTimer reply
  dsimp only
  split <;> (try split) <;> (try split_ifs) <;> rfl

theorem Carried.refl (h : NodeHost) : Carried h [] h :=
  ⟨_, _, _, _, _, h.history.discarded, by rw [List.map_nil, List.append_nil]⟩

theorem Carried.trans {h' h'' : NodeHost} {effects effects' : List RaftEffect}
    (c : Carried h effects h') (c' : Carried h' effects' h'') :
    Carried h (effects ++ effects') h'' := by
  obtain ⟨_, _, _, _, _, _, rfl⟩ := c
  obtain ⟨_, _, _, _, _, _, rfl⟩ := c'
  exact ⟨_, _, _, _, _, _, by rw [List.map_append, ← List.append_assoc]⟩

/-- A host that carries some effects out fails at the last one, if at all. -/
theorem Dispatches.carried {out : List QuarantinedEffect} (d : Dispatches h out h') :
    Carried h (out.map QuarantinedEffect.effect) h' ∨
      ∃ h₁, Carried h (out.map QuarantinedEffect.effect) h₁ ∧ h' = h₁.failTransport := by
  induction d with
  | nil h => exact Or.inl (.refl h)
  | @cons h h' q rest running other next ih =>
    rcases carried_dispatching h q.effect with c | ⟨h₁, c, heq⟩
    · rcases ih with c' | ⟨h₁, c', heq⟩
      · exact Or.inl (c.trans c')
      · exact Or.inr ⟨h₁, c.trans c', heq⟩
    · refine Or.inr ⟨h₁, ?_, ?_⟩ <;> rw [heq] at next <;> cases next with
      | nil => first | exact c | rfl
      | cons hrun => exact absurd ((running_failTransport h₁).symm.trans hrun) (by simp)

/-- **The loop of `complete_group_barrier`**: unless it fails, it carries out what is due, and the
rest waits. -/
theorem dispatches_release (running : h.running = true) {held : List QuarantinedEffect}
    (others : ∀ q ∈ held, q.effect.batch? = none) (waiting : List QuarantinedEffect) :
    ∃ out, out <+: held.filter (fun q =>
        decide (q.durabilityDependency ≤ h.durableOperationThrough)) ∧
      Dispatches h out (h.release held waiting).1 ∧
      ((h.release held waiting).1.running = true →
        out = held.filter (fun q =>
          decide (q.durabilityDependency ≤ h.durableOperationThrough)) ∧
        (h.release held waiting).2 = waiting ++ held.filter (fun q =>
          decide (h.durableOperationThrough < q.durabilityDependency))) := by
  induction held generalizing h waiting with
  | nil => exact ⟨[], List.nil_prefix, .nil h, fun _ => ⟨rfl, by simp [release]⟩⟩
  | cons q rest ih =>
    have hother : h.dispatchEffect q.effect = h.dispatching q.effect :=
      dispatchEffect_eq (others q (by simp))
    have hrest : ∀ q ∈ rest, q.effect.batch? = none := fun x hx => others x (by simp [hx])
    rw [release]
    split
    · next hdue =>
      rw [hother, List.filter_cons_of_pos (by simpa using hdue),
        List.filter_cons_of_neg (by simpa using hdue)]
      dsimp only
      split_ifs with hstop
      · exact ⟨[q], by simp, .cons running (others q (by simp)) (.nil _),
          fun hrun => absurd (hrun.symm.trans hstop) (by simp)⟩
      · rw [Bool.not_eq_false] at hstop
        obtain ⟨out, hout, hsteps, hend⟩ := ih hstop hrest waiting
        rw [durable_dispatching] at hout hend
        refine ⟨q :: out, by simpa using hout, .cons running (others q (by simp)) hsteps,
          fun hrun => ?_⟩
        obtain ⟨rfl, hwait⟩ := hend hrun
        exact ⟨rfl, hwait⟩
    · next hdue =>
      rw [List.filter_cons_of_neg (by simpa using hdue),
        List.filter_cons_of_pos (by simpa using hdue)]
      obtain ⟨out, hout, hsteps, hend⟩ := ih running hrest (waiting ++ [q])
      refine ⟨out, hout, hsteps, fun hrun => ?_⟩
      obtain ⟨rfl, hwait⟩ := hend hrun
      exact ⟨rfl, by rw [hwait, List.append_assoc, List.singleton_append]⟩

end Apart

/-! ### Runs -/

theorem moves_act (h : NodeHost) (a : Act) :
    Moves ⟨h, [], none, []⟩ ⟨h.act a, [], none, []⟩ ∨ Call h (h.act a) := by
  cases a with
  | start tcp ahead =>
    simp only [act, start]
    split_ifs with hstarted htcp
    · exact Or.inl .refl
    · rw [not_or, Bool.not_eq_true, Bool.not_eq_true] at hstarted
      exact Or.inr (.startFailed hstarted.2)
    · rw [not_or, Bool.not_eq_true, Bool.not_eq_true] at hstarted
      exact Or.inl (.head (.ahead ⟨h, [], none, []⟩ ahead)
        (.head (.start _ hstarted.1 hstarted.2) (moves_feed rfl _)))
  | poll inputs => exact Or.inl (moves_pollOnce h inputs)
  | submit command => exact Or.inr (.submit command)
  | pollReplies maximum => exact Or.inr (.replies maximum)
  | pollTraces maximum => exact Or.inr (.traces maximum)
  | stop => exact Or.inr .stop
  | worker s => exact Or.inl (.single (.worker ⟨h, [], none, []⟩ s))

/-- **The induction over the runs of a host.** -/
theorem Move.run {I : Busy → Prop} (keeps : ∀ b b', Move b b' → I b → I b')
    (calls : ∀ h h', Call h h' → I { host := h } → I { host := h' }) {h : NodeHost}
    (begins : I { host := h }) (acts : List Act) : I { host := h.run acts } := by
  have hmoves : ∀ {b b'}, Moves b b' → I b → I b' := by
    intro b b' m hb
    induction m with
    | refl => exact hb
    | tail _ step ih => exact keeps _ _ step ih
  induction acts generalizing h with
  | nil => exact begins
  | cons a rest ih =>
    refine ih ?_
    rcases moves_act h a with m | c
    · exact hmoves m begins
    · exact calls h _ c begins

end NodeHost

end DetLog
