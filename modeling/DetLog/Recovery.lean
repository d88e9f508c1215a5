import DetLog.Clients

/-!
# Nodes and their storage

What a node asks its storage to write, and what it finds there when it restarts. The WAL
accepts every batch that a node emits, and when a node is idle the WAL holds exactly its
memory (`DetLog.Cluster.wal_refines`): the rules the WAL checks follow from invariants of
the whole cluster that no node checks. A node can restart from its durable state as long as
every acceptable command that is submitted fits into one append
(`DetLog.Cluster.restarts`). Admission does not check this, and a node that has admitted a
larger command cannot restart (`DetLog.Cluster.restart_rejected`).
-/

namespace DetLog

open Consensus Consensus.History

variable {config : RaftConfig} {S S' : Cluster} {h : Chronicle} {i : NodeId} {n : RaftNode}
  {a : Action} {effects : List RaftEffect} {s : RecoveredState} {cause : Cause} {c c' : Ctx}

/-! ### What a node asks for -/

/-- A node asks its storage for the batch it waits for, and for nothing else. -/
def Ctx.AsksPending (c : Ctx) : Prop :=
  ∀ p, .persist p ∈ c.effects →
    ∃ q, c.node.pendingStorage = some q ∧ p = ⟨q.opId, q.batch⟩

theorem Outcome.asksPending (o : Outcome n cause c c') (hno : ∀ p, .persist p ∉ c.effects) :
    c'.AsksPending := by
  have hnone : Emits (EffectOk n cause) c c' → c'.AsksPending := by
    rintro ⟨-, es, hes, hok⟩ p hp
    rw [hes, List.mem_append] at hp
    exact (hp.elim (hno p) (hok _)).elim
  cases o with
  | held h => exact hnone h.emits
  | waits batch k opId plan pending thrown effects =>
    obtain ⟨es, hes, hok⟩ := effects
    intro p hp
    rw [hes, List.mem_append, List.mem_append, List.mem_singleton] at hp
    rcases hp with hp | hp | hp
    · exact absurd hp (hno p)
    · exact (hok _ hp).elim
    · exact ⟨_, pending, RaftEffect.persist.inj hp⟩
  | fails m batch k plan emits => exact hnone emits

theorem RaftNode.step_asksPending (n : RaftNode) (e : RaftEvent) : (n.step e).AsksPending := by
  have hempty : ∀ p : PersistEffect, .persist p ∉ ({ node := n } : Ctx).effects := by simp
  have h : StepRule Ctx.AsksPending n e :=
    { noise := fun _ c _ he p hp => absurd hp (not_persist_of_emits (he _ tolerant_not_persist) p)
      defers := fun _ _ p hp => by simp at hp
      fails := fun q _ detail p hp => absurd hp (not_persist_of_emits
        (tolerant_not_persist.failed (Emits.refl { node := { n with pendingStorage := none } })) p)
      completes := fun q _ => (outcome_resume _ rfl _).asksPending fun p => by
        simp [Ctx.markDurable, Ctx.trace, Ctx.emit]
      dispatches := fun hp _ => (outcome_dispatch _ hp e).asksPending hempty
      pops := fun c e' rest hc hp _ _ =>
        (outcome_dispatch (c.pop rest) hp e').asksPending fun p hmem => by
          obtain ⟨q, hq, -⟩ := hc p hmem
          exact absurd (hp.symm.trans hq) (by simp) }
  exact h.step

/-- **A batch that a node emits** respects the rules of the log its storage has. -/
theorem Related.emitted_writable (hr : Related config S h)
    (hstep : S.step config a = some (S', effects)) {p : PersistEffect}
    (hp : .persist p ∈ effects) :
    Sound ((S'.hosts a.actor).completed ++ [p.batch]) := by
  obtain ⟨h', adv⟩ := hr.step hstep
  have hasks : ∃ m q, S'.node a.actor = some m ∧ m.pendingStorage = some q ∧
      p = ⟨q.opId, q.batch⟩ := by
    cases Cluster.move_of_step hstep with
    | boot i n off created => simp at hp
    | start i n on => rcases start_cases n with heq | heq <;> rw [heq] at hp <;> simp at hp
    | @feed _ i e host S₀ n feeds on actor live =>
      subst actor
      obtain ⟨q, hq, heq⟩ := n.step_asksPending e p hp
      exact ⟨_, q, by rw [Cluster.node, Cluster.hosts_absorb_self], hq, heq⟩
    | crash i n keep on => simp at hp
  -- The batch is the outstanding one, and an outstanding batch carries its pledge.
  obtain ⟨m, q, hm, hq, rfl⟩ := hasks
  refine .concat (adv.related.hosts _).kept.sound ?_
  cases (adv.related.on hm).stage with
  | ready _ pending | down _ pending => exact absurd (hq.symm.trans pending) (by simp)
  | waiting q' op _ pending _ pledge =>
    obtain rfl : q = q' := Option.some.inj (hq.symm.trans pending)
    exact pledge.writable

/-! ### The WAL -/

/-- A WAL that takes one more batch has staged it. -/
theorem WalState.staged_of_replay {options : WalOptions} {batches : List PersistBatch}
    {batch : PersistBatch} {state' : WalState}
    (hok : WalState.replay options (batches ++ [batch]) = .ok state') :
    ∃ state view, WalState.replay options batches = .ok state ∧
      (ValidationView.ofState state).stage batch options = .ok view ∧
      view.materialize state = state' := by
  rw [WalState.replay_concat] at hok
  cases hstate : WalState.replay options batches with
  | error e =>
    rw [hstate] at hok
    cases hok
  | ok state =>
    rw [hstate] at hok
    replace hok : WalState.append options state batch = .ok state' := hok
    unfold WalState.append at hok
    cases hview : (ValidationView.ofState state).stage batch options with
    | error e => simp [hview] at hok
    | ok view =>
      rw [hview] at hok
      exact ⟨state, view, rfl, hview, Except.ok.inj hok⟩

/-- **The storage of a node refines the WAL.** In every run that hits no limit of the WAL,
each batch that a node emits passes the check of the WAL on the state of the batches that
were completed before, and whenever a node is idle the WAL has exactly its hard state, its
log and its commit index. -/
theorem Cluster.wal_refines (options : WalOptions) (hS : Reachable config S) :
    (∀ a S' effects p, S.step config a = some (S', effects) → .persist p ∈ effects →
      ¬HitsLimit options ((S'.hosts a.actor).completed ++ [p.batch]) →
      ∃ state view, WalState.replay options (S'.hosts a.actor).completed = .ok state ∧
        (ValidationView.ofState state).stage p.batch options = .ok view ∧
        (view.materialize state).recovered = (S'.durable a.actor).write p.batch) ∧
    (∀ i n, S.node i = some n → n.pendingStorage = none → n.role ≠ .unavailable →
      ¬HitsLimit options (S.hosts i).completed →
      ∃ state, WalState.replay options (S.hosts i).completed = .ok state ∧
        state.hardState = n.hardState ∧ state.entries = n.log ∧
        state.commitIndex = n.commitIndex ∧ n.durableLastLogIndex = n.log.length) := by
  obtain ⟨h, hr⟩ := exists_related hS
  constructor
  · intro a S' effects p hstep hp hlimit
    have hsound := hr.emitted_writable hstep hp
    obtain ⟨state', hok, hstate⟩ := (replay_of_sound hsound).resolve_right hlimit
    obtain ⟨state, view, hreplay, hview, rfl⟩ := WalState.staged_of_replay hok
    rw [written_concat] at hstate
    exact ⟨state, view, hreplay, hview, hstate⟩
  · intro i n hn hpending hrole hlimit
    obtain ⟨state, hok, hstate⟩ :=
      (replay_of_sound (hr.hosts i).kept.sound).resolve_right hlimit
    have hco := (hr.on hn).coherent
    have hmem : n.memory = S.durable i := hco.ready hrole hpending
    have hrec : state.recovered = n.memory := hstate.trans hmem.symm
    refine ⟨state, hok, congrArg RecoveredState.hardState hrec, congrArg RecoveredState.log hrec,
      congrArg RecoveredState.commitIndex hrec, ?_⟩
    rw [hco.lastIndex, ← hmem]
    rfl

theorem not_hitsLimit {options : WalOptions} {batches : List PersistBatch}
    (hok : (WalState.replay options batches).isOk = true) : ¬HitsLimit options batches := by
  rintro ⟨e, he, -⟩
  rw [he] at hok
  cases hok

/-- The WAL takes the commit of node 1 of the sample run, and has what the idle node 2 has. -/
theorem Cluster.wal_refines_sample :
    (∃ state view, WalState.replay {} ((after Sample.config
        (Sample.elect ++ [Sample.accepted 1 1])).hosts 1).completed = .ok state ∧
      (ValidationView.ofState state).stage { commitIndex := some 1 } {} = .ok view ∧
      (view.materialize state).recovered = ((after Sample.config
        (Sample.elect ++ [Sample.accepted 1 1])).durable 1).write { commitIndex := some 1 }) ∧
    ∃ state, WalState.replay {} ((after Sample.config Sample.elect).hosts 2).completed = .ok state ∧
      state.entries =
        (((after Sample.config Sample.elect).node 2).get (by decide +kernel)).log := by
  have hS : Reachable Sample.config (after Sample.config Sample.elect) :=
    reachable_after (by decide +kernel)
  obtain ⟨hbatch, hidle⟩ := wal_refines {} hS
  constructor
  · exact hbatch (Sample.accepted 1 1) _ _ ⟨3, { commitIndex := some 1 }⟩
      (step_after (by decide +kernel)) (by decide +kernel) (not_hitsLimit (by decide +kernel))
  · obtain ⟨state, hreplay, -, hentries, -⟩ := hidle 2 _ (Option.some_get (by decide +kernel)).symm
      (by decide +kernel) (by decide +kernel) (not_hitsLimit (by decide +kernel))
    exact ⟨state, hreplay, hentries⟩

/-! ### Restarts -/

/-- Every submitted command that is valid and within the size limits of a request can be
carried by one append. -/
def Cluster.CommandsFit (config : RaftConfig) (S : Cluster) : Prop :=
  ∀ command, S.commands command → commandAcceptable config command = true → ∀ index term,
    entryBytes ⟨index, term, some command⟩ ≤ config.maxAppendBytesPerRpc - kAppendRpcOverhead

/-- Then every entry can. -/
theorem Related.sized (hr : Related config S h) (hs : S.Holds i s) (hfit : S.CommandsFit config) :
    Sized (config.forNode i).sorted s.log := by
  intro e he
  have horigin := hr.chronicled.origin_of_traces (hr.traces hs) e he
  have hacceptable := ((hr.formed hs).entries e he).2.2
  obtain ⟨index, term, command⟩ := e
  cases command with
  | none => exact horigin
  | some command => exact hfit command horigin hacceptable index term

/-- What a crash would leave is the storage of a state of the cluster. -/
theorem Related.crashed (hr : Related config S h) (i : NodeId) (keep : Bool) :
    ∃ S' h', Related config S' h' ∧ S'.submitted = S.submitted ∧
      S'.durable i = written ((S.hosts i).completed ++
        (if keep then (S.hosts i).disk.outstanding else [])) := by
  cases hnode : S.node i with
  | none =>
    refine ⟨S, h, hr, rfl, ?_⟩
    rw [(hr.hosts i).off hnode, Disk.outstanding, ite_self, List.append_nil]
    rfl
  | some n =>
    obtain ⟨h', hr', -⟩ := hr.crash hnode keep
    refine ⟨_, h', hr', rfl, ?_⟩
    rw [Cluster.durable, S.hosts_setHost_self]
    rfl

/-- An append carries at least the first entry it is about. -/
theorem packEntries_cons {limit : ℕ} {e : LogEntry}
    (hle : entryBytes e ≤ limit - kAppendRpcOverhead) (rest : List LogEntry) :
    ∃ more, packEntries limit (e :: rest) kAppendRpcOverhead = e :: more := by
  rw [packEntries, if_neg (by omega)]
  exact ⟨_, rfl⟩

/-- **A node can restart from its durable state**, with or without the batch that storage
has not confirmed, if every acceptable command that clients have submitted fits into one
append; and then every entry of its logs does. -/
theorem Cluster.restarts (hS : Reachable config S)
    (hvalid : ∃ n, RaftNode.create (config.forNode i) {} = .ok n)
    (hfit : S.CommandsFit config) :
    (∀ keep : Bool, ∃ n, RaftNode.create (config.forNode i) (written ((S.hosts i).completed ++
      (if keep then (S.hosts i).disk.outstanding else []))) = .ok n) ∧
    ∀ s, S.Holds i s → ∀ e ∈ s.log,
      entryBytes e ≤ config.maxAppendBytesPerRpc - kAppendRpcOverhead ∧
      ∀ rest, ∃ more,
        packEntries config.maxAppendBytesPerRpc (e :: rest) kAppendRpcOverhead = e :: more := by
  obtain ⟨h, hr⟩ := exists_related hS
  obtain ⟨n₀, hn₀⟩ := hvalid
  obtain ⟨⟨hmembers, hbounds, -⟩, -⟩ := RaftNode.create_eq_ok.mp hn₀
  constructor
  · intro keep
    -- A node that crashes here has the state in question as its durable state.
    obtain ⟨S', h', hr', hsubmitted, hdurable⟩ := hr.crashed i keep
    have hfit' : S'.CommandsFit config := by
      rintro command ⟨j, token, hc⟩
      exact hfit command ⟨j, token, hsubmitted ▸ hc⟩
    rw [← hdurable]
    exact ⟨_, RaftNode.create_eq_ok.mpr
      ⟨⟨hmembers, hbounds, hr'.formed .durable, hr'.sized .durable hfit'⟩, rfl⟩⟩
  · intro s hs e he
    have hle : entryBytes e ≤ config.maxAppendBytesPerRpc - kAppendRpcOverhead :=
      hr.sized hs hfit e he
    exact ⟨hle, packEntries_cons hle⟩

/-- Node 1 of the sample run can restart while it waits for its second commit. -/
theorem Cluster.restarts_sample : ∃ n, RaftNode.create (Sample.config.forNode 1)
    (written (((after Sample.config (Sample.elect ++ Sample.serve)).hosts 1).completed ++
      (if true then ((after Sample.config (Sample.elect ++ Sample.serve)).hosts 1).disk.outstanding
        else []))) = .ok n := by
  have hsubmitted : (after Sample.config (Sample.elect ++ Sample.serve)).submitted =
      [(1, 7, Sample.command)] := by
    decide +kernel
  have hfit : (after Sample.config (Sample.elect ++ Sample.serve)).CommandsFit Sample.config := by
    rintro command ⟨_, _, hc⟩ - index term
    rw [hsubmitted, List.mem_singleton] at hc
    simp only [Prod.mk.injEq] at hc
    rw [hc.2.2]
    simp [entryBytes, Sample.command, Sample.config, maxU64, kEntryOverhead, kAppendRpcOverhead]
  exact (restarts (reachable_after (by decide +kernel)) ⟨_, rfl⟩ hfit).1 true

/-- Appends of at most 128 bytes can carry the readiness entry of a leader, but no command. -/
def Sample.tight : RaftConfig := { Sample.config with maxAppendBytesPerRpc := 128 }

/-- Node 1 is elected, admits a command and has it in its storage. -/
def Sample.admitted : List Action := Sample.elect ++ Sample.serve.take 4

/-- **A command that no append can carry** is admitted all the same: the constructor accepts
the configuration, but not the state that the node then has in its storage. -/
theorem Cluster.restart_rejected :
    Reachable Sample.tight (after Sample.tight Sample.admitted) ∧
    (∃ n, RaftNode.create (Sample.tight.forNode 1) {} = .ok n) ∧
    (∃ n, RaftNode.create (Sample.tight.forNode 2) {} = .ok n) ∧
    (∃ n, RaftNode.create (Sample.tight.forNode 3) {} = .ok n) ∧
    RaftNode.create (Sample.tight.forNode 1) ((after Sample.tight Sample.admitted).durable 1) =
      .error "Recovered log is not a valid consecutive Raft log" ∧
    packEntries Sample.tight.maxAppendBytesPerRpc
      (((after Sample.tight Sample.admitted).durable 1).log.drop 1) kAppendRpcOverhead = [] :=
  ⟨reachable_after (by decide +kernel), ⟨_, rfl⟩, ⟨_, rfl⟩, ⟨_, rfl⟩, rfl, by decide +kernel⟩

end DetLog
