import DetLog.Raft.Turn
import DetLog.Refinement.Simulation

/-!
# Invariants that travel with the appends

Some properties of the state of a node rest on the log it has taken over from a leader:
that its committed prefix was chosen in a term it has reached, or that what is not yet
committed is bounded. A leader passes such a property on with its appends, and the follower
has it because the append that it accepts has it. `DetLog.Carries` is what a property of
states and a property of appends must satisfy for this to work, and
`DetLog.Carries.reachable` is the conclusion: every state a host holds and every append on
the network has its property, in the history of the cluster.

A host holds up to three states: what its storage has, what its storage will have if a batch
turns out to have been written, and the memory of its node.
-/

namespace DetLog

open Consensus Consensus.History

/-- What is known about a node that plans a change. -/
structure Planned (Q : QuorumSystem NodeId) (K : Chronicle → AppendEntries → Prop)
    (h : Chronicle) (n : RaftNode) (cause : Cause) (m : RaftNode) : Prop where
  inv : Inv Q h
  traces : Traces h n.log
  formed : WellFormed n.config n.memory
  heard : ∀ s r, Heard n cause s (.appendEntries r) →
    Truthful Q h { sender := s, target := n.config.nodeId, message := .appendEntries r } ∧ K h r
  room : Wins n cause → m.log ≠ n.log → n.canAppend (n.nextEntry none) = true
  chosen : m.role = .leader → m.commitIndex ≠ n.commitIndex →
    Chosen Q h m.currentTerm (m.log.take m.commitIndex)

/-- **A property of states that appends pass on.** -/
structure Carries (config : RaftConfig) (J : Chronicle → RecoveredState → Prop)
    (K : Chronicle → AppendEntries → Prop) : Prop where
  empty : ∀ h, J h {}
  mono : ∀ {h h' : Chronicle} {s : RecoveredState}, Grows h h' → J h s → J h' s
  append_mono : ∀ {h h' : Chronicle} {m : MessageEnvelope} {r : AppendEntries},
    Truthful (quorums config) h m → m.message = .appendEntries r → Grows h h' → K h r → K h' r
  plan : ∀ {h : Chronicle} {n m : RaftNode} {cause : Cause} {batch : PersistBatch}
    {k : Continuation}, (∃ i, n.config = (config.forNode i).sorted) →
    Planned (quorums config) K h n cause m → Plan n cause m batch k → J h n.memory → J h m.memory
  send : ∀ {h : Chronicle} {n : RaftNode} {r : AppendEntries},
    n.log <+: h.leaderLog n.currentTerm → r.term = n.currentTerm →
    r.prevLogIndex + r.entries.length ≤ n.log.length → r.leaderCommit = n.commitIndex →
    n.commitIndex ≤ n.log.length → J h n.memory → K h r

/-- The property holds of everything the hosts hold and of every append. -/
structure Carried (J : Chronicle → RecoveredState → Prop) (K : Chronicle → AppendEntries → Prop)
    (h : Chronicle) (S : Cluster) : Prop where
  durable : ∀ i, J h (S.durable i)
  memory : ∀ i n, S.node i = some n → J h n.memory
  outstanding : ∀ i, ∀ b ∈ (S.hosts i).disk.outstanding, J h ((S.durable i).write b)
  sent : ∀ m ∈ S.sent, ∀ r, m.message = .appendEntries r → K h r

variable {config : RaftConfig} {S S' S₀ : Cluster} {h h' : Chronicle} {i : NodeId}
  {n : RaftNode} {e : RaftEvent} {host : Host} {a : Action} {effects : List RaftEffect}
  {J : Chronicle → RecoveredState → Prop} {K : Chronicle → AppendEntries → Prop}

/-! ### The node that takes part -/

/-- A leader's log is the log of its term, also while it waits for storage. -/
theorem Running.leads {d : RecoveredState} {disk : Disk} (hn : Running config S h i d disk n)
    (hl : n.role = .leader) :
    h.led n.currentTerm = some n.config.nodeId ∧ h.leaderLog n.currentTerm = n.log := by
  cases hn.stage with
  | ready _ _ _ agrees => exact ⟨(agrees.leader hl).led, (agrees.leader hl).log⟩
  | waiting p op _ _ _ pledge agrees =>
    have hled := (agrees.leader hl).led
    have hlog := (agrees.leader hl).log
    rw [Operation.run_led] at hled
    rw [Operation.run_leaderLog] at hlog
    exact ⟨hled, hlog⟩
  | down stopped => simp [hl] at stopped

theorem Plan.commit_of_leader {m : RaftNode} {cause : Cause} {batch : PersistBatch}
    {k : Continuation} (plan : Plan n cause m batch k) (hm : m.role = .leader)
    (hc : m.commitIndex ≠ n.commitIndex) :
    n.role = .leader ∧ m.currentTerm = n.currentTerm := by
  cases plan with
  | commit target old core => exact ⟨old, core.currentTerm⟩
  | campaign hs new core | adopt term k higher core | lead wins bound core =>
    exact absurd core.commitIndex hc
  | grant candidate request w heard pos named term_le free fresh core =>
    exact absurd core.commitIndex hc
  | propose token command asked old ready acceptable admits bound room core =>
    exact absurd core.commitIndex hc
  | accept s request heard named fits keeps core role => simp [role] at hm

/-- **The memory of a node keeps the property** over a step. -/
theorem Carries.memory (hc : Carries config J K) (hr : Related config S h)
    (hC : Carried J K h S) (hf : Cluster.Feeds S i e host S₀) (hon : S.node i = some n)
    (hr' : Related config (S₀.absorb i host (n.step e)) h') (hg : Grows h h')
    (hraised : Raised (quorums config) h' n (n.step e).node) : J h' (n.step e).node.memory := by
  have hn := hr.on hon
  obtain ⟨he, hsent, -, -⟩ := Cluster.feeds_mem hf
  have hJ : J h' n.memory := hc.mono hg (hC.memory i n hon)
  cases hn.coherent.turned e with
  | steady memory => rwa [memory]
  | planned n₁ cause m batch k steady taken plan memory role room =>
    have hlog : n₁.log = n.log := congrArg RecoveredState.log steady.memory
    have hterm : n₁.currentTerm = n.currentTerm :=
      congrArg (fun s => s.hardState.currentTerm) steady.memory
    have hcommit : n₁.commitIndex = n.commitIndex :=
      congrArg RecoveredState.commitIndex steady.memory
    have hcommit' : (n.step e).node.commitIndex = m.commitIndex :=
      congrArg RecoveredState.commitIndex memory
    have hlog' : (n.step e).node.log = m.log := congrArg RecoveredState.log memory
    have hterm' : (n.step e).node.currentTerm = m.currentTerm :=
      congrArg (fun s => s.hardState.currentTerm) memory
    rw [memory]
    refine hc.plan ⟨i, steady.config.trans hn.config_eq⟩ ⟨hr'.chronicled.inv, ?_, ?_, ?_, room, ?_⟩
      plan (steady.memory ▸ hJ)
    · rw [hlog]
      exact hg.traces hn.grounded.traces
    · rw [steady.config, steady.memory]
      exact hn.coherent.formed
    · rintro s r ⟨hcause, -⟩
      -- The append was on the network before the step.
      have hmem : ({ sender := s, target := n₁.config.nodeId, message := .appendEntries r } :
          MessageEnvelope) ∈ S.sent := by
        rcases taken _ hcause with rfl | hd
        · exact hsent ▸ he
        · exact hn.coherent.deferred _ hd
      have ht := hr.truthful _ hmem
      exact ⟨ht.mono hg, hc.append_mono ht rfl hg (hC.sent _ hmem r rfl)⟩
    · intro hlead hne
      obtain ⟨hold, hcur⟩ := plan.commit_of_leader hlead hne
      obtain ⟨hled, -⟩ := hn.leads (steady.lead hold)
      rw [hcommit, ← hcommit'] at hne
      rcases hraised.resolve_left hne with ⟨-, hchosen | ⟨-, hother, -⟩⟩
      · rw [hterm', hlog', hcommit'] at hchosen
        exact hchosen.1
      · refine absurd ?_ hother
        rw [hterm', hcur, hterm, RaftNode.step_config]
        exact hg.led_keep hled

/-- **What a leader sends has the property.** -/
theorem Carries.sends (hc : Carries config J K) (hr : Related config S h)
    (hC : Carried J K h S) (hon : S.node i = some n) (hg : Grows h h') {m : MessageEnvelope}
    (hm : .send m ∈ (n.step e).effects) {r : AppendEntries} (hmr : m.message = .appendEntries r) :
    K h' r := by
  have hn := hr.on hon
  obtain ⟨n₁, cause, steady, hsender, hok⟩ := hn.coherent.sends e hm
  rw [hmr] at hok
  obtain ⟨hrole, hterm, -, -, -, hlen, hcommit⟩ := hok
  have hlog : n₁.log = n.log := congrArg RecoveredState.log steady.memory
  have hcur : n₁.currentTerm = n.currentTerm :=
    congrArg (fun s => s.hardState.currentTerm) steady.memory
  obtain ⟨-, hleader⟩ := hn.leads (steady.lead hrole)
  have hJ : J h' n.memory := hc.mono hg (hC.memory i n hon)
  have hle : n₁.memory.commitIndex ≤ n₁.memory.log.length := by
    rw [steady.memory]
    exact hn.coherent.formed.commit_le
  refine hc.send (n := n₁) ?_ hterm ?_ hcommit hle (steady.memory ▸ hJ)
  · rw [hlog, hcur, ← hleader]
    exact hg.leaderLog_le _
  · rw [hlog]
    exact hlen.trans steady.durable

/-! ### Actions -/

theorem Carried.mono (hC : Carried J K h S) (hc : Carries config J K) (hr : Related config S h)
    (hg : Grows h h') : Carried J K h' S :=
  ⟨fun i => hc.mono hg (hC.durable i), fun i n hn => hc.mono hg (hC.memory i n hn),
    fun i b hb => hc.mono hg (hC.outstanding i b hb),
    fun m hm r hmr => hc.append_mono (hr.truthful m hm) hmr hg (hC.sent m hm r hmr)⟩

/-- One host changes, and messages are sent. -/
theorem Carried.update (hC : Carried J K h S)
    (hothers : ∀ j, j ≠ i → S'.hosts j = S.hosts j) (hd : J h (S'.durable i))
    (hm : ∀ n, S'.node i = some n → J h n.memory)
    (ho : ∀ b ∈ (S'.hosts i).disk.outstanding, J h ((S'.durable i).write b))
    (hs : ∀ m ∈ S'.sent, m ∈ S.sent ∨ ∀ r, m.message = .appendEntries r → K h r) :
    Carried J K h S' := by
  refine ⟨fun j => ?_, fun j n hn => ?_, fun j b hb => ?_, fun m hmem r hr => ?_⟩
  · rcases eq_or_ne j i with rfl | hj
    · exact hd
    · rw [Cluster.durable, hothers j hj]
      exact hC.durable j
  · rcases eq_or_ne j i with rfl | hj
    · exact hm n hn
    · rw [Cluster.node, hothers j hj] at hn
      exact hC.memory j n hn
  · rcases eq_or_ne j i with rfl | hj
    · exact ho b hb
    · rw [hothers j hj] at hb
      rw [Cluster.durable, hothers j hj]
      exact hC.outstanding j b hb
  · rcases hs m hmem with hold | hnew
    · exact hC.sent m hold r hr
    · exact hnew r hr

/-- A batch that storage has completed is what the node had in memory. -/
theorem Carries.durable (hr : Related config S h) (hC : Carried J K h S)
    (hf : Cluster.Feeds S i e host S₀) (hon : S.node i = some n) : J h host.durable := by
  rw [(hr.offered hf hon).durable]
  by_cases hcomp : ∃ p, Completes n e p true
  · obtain ⟨p, hp⟩ := hcomp
    rw [durableAfter_of_completes hp]
    obtain ⟨hco, hrole, -⟩ := (hr.on hon).coherent.complete hp.1
    rw [← hco.ready hrole rfl]
    exact hC.memory i n hon
  · rw [durableAfter_of_not_completes fun p hp => hcomp ⟨p, hp⟩]
    exact hC.durable i

/-- A device keeps a failed batch; otherwise it has the batch the node waits for. -/
theorem Carries.outstanding (hC : Carried J K h' S) (hf : Cluster.Feeds S i e host S₀)
    (hr' : Related config (S₀.absorb i host (n.step e)) h')
    (hJ : J h' (n.step e).node.memory) :
    ∀ b ∈ ((n.step e).diskAfter host.disk).outstanding, J h' (host.durable.write b) := by
  have hon' : (S₀.absorb i host (n.step e)).node i = some (n.step e).node := by
    simp [Cluster.node]
  have hn' := hr'.on hon'
  have hdisk : ((S₀.absorb i host (n.step e)).hosts i).disk = (n.step e).diskAfter host.disk := by
    simp
  have hdur : (S₀.absorb i host (n.step e)).durable i = host.durable := by
    simp [Cluster.durable, Host.durable]
  rw [hdisk, hdur] at hn'
  intro b hb
  cases hn'.stage with
  | ready _ _ device => simp [device, Disk.outstanding] at hb
  | waiting p op available pending device =>
    obtain rfl : b = p.batch := by simpa [device, Disk.outstanding] using hb
    cases hn'.coherent.phase with
    | ready _ hnone => exact absurd (hnone.symm.trans pending) (by simp)
    | down hstop => exact absurd hstop available
    | waiting q _ hq memory =>
      obtain rfl : p = q := Option.some.inj (pending.symm.trans hq)
      rw [← memory]
      exact hJ
  | down stopped pending device =>
    rcases device with device | ⟨p, op, device, -⟩
    · simp [device, Disk.outstanding] at hb
    · -- No batch was handed over, so the device was in this state before.
      obtain rfl : b = p.batch := by simpa [device, Disk.outstanding] using hb
      have hkept : host.disk = .failed p := by
        unfold Ctx.diskAfter at device
        cases hp : (n.step e).persisted with
        | none => simpa [hp] using device
        | some q => simp [hp] at device
      cases hf with
      | complete i q writing => simp at hkept
      | fail i q writing error =>
        obtain rfl : q = p := by simpa using hkept
        exact hC.outstanding i q.batch (by simp [writing, Disk.outstanding])
      | timer i kind generation | submit i token command =>
        exact hC.outstanding i p.batch (by simp [hkept, Disk.outstanding])
      | deliver envelope sent =>
        exact hC.outstanding _ p.batch (by simp [hkept, Disk.outstanding])

/-- **Every action keeps the property.** -/
theorem Carries.step (hc : Carries config J K) (hr : Related config S h) (hC : Carried J K h S)
    (hstep : S.step config a = some (S', effects)) (adv : Advance config S S' effects h h') :
    Carried J K h' S' := by
  have hC' := hC.mono hc hr adv.grows
  have hmove := Cluster.move_of_step hstep
  cases hmove with
  | boot i n off created =>
    refine hC'.update (i := i) (fun j hj => S.hosts_setHost_of_ne i _ hj) ?_ ?_ ?_
      fun m hm => Or.inl hm
    · rw [Cluster.durable, S.hosts_setHost_self]
      exact hC'.durable i
    · intro m hm
      rw [Cluster.node, S.hosts_setHost_self] at hm
      obtain rfl := Option.some.inj hm
      obtain ⟨-, rfl⟩ := RaftNode.create_eq_ok.mp created
      exact hC'.durable i
    · rw [Cluster.durable, S.hosts_setHost_self]
      exact hC'.outstanding i
  | start i n on =>
    obtain ⟨hsends, hdisk⟩ := start_quiet n (S.hosts i).disk
    refine hC'.update (i := i) (fun j hj => S.hosts_absorb_of_ne i _ _ hj) ?_ ?_ ?_ fun m hm => ?_
    · rw [Cluster.durable, S.hosts_absorb_self]
      exact hC'.durable i
    · intro m hm
      rw [Cluster.node, S.hosts_absorb_self] at hm
      obtain rfl := Option.some.inj hm
      have hmem : n.start.node.memory = n.memory := by
        rcases start_cases n with heq | heq
        · rw [heq]
        · rw [heq]
          rfl
      rw [hmem]
      exact hC'.memory i n on
    · rw [Cluster.durable, S.hosts_absorb_self, hdisk]
      exact hC'.outstanding i
    · simp only [Cluster.absorb, hsends, List.append_nil] at hm
      exact Or.inl hm
  | @feed _ i e host S₀ n feeds on actor live =>
    obtain ⟨-, hsent, -, hhosts⟩ := Cluster.feeds_mem feeds
    have hraised : Raised (quorums config) h' n (n.step e).node :=
      adv.raised i n _ on (by simp [Cluster.node])
    have hJ := hc.memory hr hC feeds on adv.related adv.grows hraised
    refine hC'.update (i := i) (fun j hj => ?_) ?_ ?_ ?_ fun m hm => ?_
    · rw [S₀.hosts_absorb_of_ne i _ _ hj, hhosts]
    · have hdurable := hc.mono adv.grows (Carries.durable hr hC feeds on)
      rw [Cluster.durable, S₀.hosts_absorb_self]
      exact hdurable
    · intro m hm
      rw [Cluster.node, S₀.hosts_absorb_self] at hm
      obtain rfl := Option.some.inj hm
      exact hJ
    · rw [Cluster.durable, S₀.hosts_absorb_self]
      exact Carries.outstanding hC' feeds adv.related hJ
    · rcases List.mem_append.mp hm with hm | hm
      · exact Or.inl (hsent ▸ hm)
      · exact Or.inr fun r hmr => hc.sends hr hC on adv.grows (mem_sends hm) hmr
  | crash i n keep on =>
    refine hC'.update (i := i) (fun j hj => S.hosts_setHost_of_ne i _ hj) ?_ ?_ ?_
      fun m hm => Or.inl hm
    · rw [Cluster.durable, S.hosts_setHost_self]
      cases keep with
      | false =>
        simp only [Host.durable, Bool.false_eq_true, if_false, List.append_nil]
        exact hC'.durable i
      | true =>
        -- The surviving batch is the outstanding one.
        have hout := hC'.outstanding i
        simp only [Host.durable, if_true]
        cases hd : (S.hosts i).disk with
        | idle =>
          simp only [Disk.outstanding, List.append_nil]
          exact hC'.durable i
        | writing p | failed p =>
          simp only [Disk.outstanding, written_concat]
          exact hout p.batch (by simp [hd, Disk.outstanding])
    · intro m hm
      simp [Cluster.node] at hm
    · simp [Disk.outstanding]

theorem Carries.initial (hc : Carries config J K) (h : Chronicle) :
    Carried J K h Cluster.initial := by
  refine ⟨fun i => hc.empty h, fun i n hn => ?_, fun i b hb => ?_, fun m hm => ?_⟩
  · simp [Cluster.node, Cluster.initial] at hn
  · simp [Cluster.initial, Disk.outstanding] at hb
  · simp [Cluster.initial] at hm

/-- **Every reachable state has the property.** -/
theorem Carries.reachable (hc : Carries config J K) (hreach : Cluster.Reachable config S) :
    ∃ h, Related config S h ∧ Carried J K h S := by
  induction hreach with
  | refl => exact ⟨_, related_initial config, hc.initial _⟩
  | tail _ hnext ih =>
    obtain ⟨h, hr, hC⟩ := ih
    obtain ⟨a, effects, hstep⟩ := hnext
    obtain ⟨h', adv⟩ := hr.step hstep
    exact ⟨h', adv.related, hc.step hr hC hstep adv⟩

end DetLog
