import DetLog.Raft.Driven
import DetLog.Refinement.Reaction

/-!
# The cluster refines a replicated log

Every run of the cluster is a run of a replicated log. `DetLog.Related` relates a state of
the cluster to a history, and `DetLog.Related.step` shows that every action of the
environment can be followed by steps of the history, so that every reachable state has
one (`DetLog.exists_related`) and later states have later ones (`DetLog.Related.reaches`).
What a replicated log promises then holds of the cluster.
-/

namespace DetLog

open Consensus Consensus.History

/-- The majorities of the configured members. -/
def quorums (config : RaftConfig) : QuorumSystem NodeId := majority config.sorted.members.toFinset

/-- The commands that clients have submitted, at whichever node. -/
def Cluster.commands (S : Cluster) (command : ClientCommand) : Prop :=
  ∃ i token, (i, token, command) ∈ S.submitted

/-- A running node of the cluster. -/
structure Running (config : RaftConfig) (S : Cluster) (h : Chronicle) (i : NodeId)
    (d : RecoveredState) (disk : Disk) (n : RaftNode) : Prop where
  config_eq : n.config = (config.forNode i).sorted
  nodup : n.config.members.Nodup
  coherent : Coherent d (S.events i) n
  ledger : Ledger (S.events i) { node := n }
  grounded : Grounded (quorums config) h n
  stage : Stage (quorums config) h d disk n

/-- What the storage of a host holds. -/
structure Kept (config : RaftConfig) (h : Chronicle) (i : NodeId)
    (completed : List PersistBatch) : Prop where
  stores : Stores h i (written completed)
  settled : Settled (quorums config) h
    ((written completed).log.take (written completed).commitIndex)
  formed : WellFormed (config.forNode i).sorted (written completed)
  sound : Sound completed

/-- A host of the cluster. -/
structure Hosted (config : RaftConfig) (S : Cluster) (h : Chronicle) (i : NodeId)
    (host : Host) : Prop where
  kept : Kept config h i host.completed
  on : ∀ n, host.node = some n → Running config S h i host.durable host.disk n
  off : host.node = none → host.disk = .idle

/-- **A state of the cluster and its history.** -/
structure Related (config : RaftConfig) (S : Cluster) (h : Chronicle) : Prop where
  chronicled : Chronicled (quorums config) config.maxAppendBytesPerRpc S.commands h
  truthful : ∀ m ∈ S.sent, Truthful (quorums config) h m
  hosts : ∀ i, Hosted config S h i (S.hosts i)

variable {config : RaftConfig} {S S' S₀ : Cluster} {h h' : Chronicle} {i : NodeId}
  {d : RecoveredState} {disk : Disk} {n : RaftNode} {e : RaftEvent} {host : Host}

theorem Running.nodeId (hn : Running config S h i d disk n) : n.config.nodeId = i := by
  rw [hn.config_eq]
  rfl

theorem Running.members (hn : Running config S h i d disk n) :
    n.config.members = config.sorted.members := by
  rw [hn.config_eq]
  rfl

/-! ### What other nodes do -/

theorem Running.mono (hn : Running config S h i d disk n) (hg : Grows h h')
    (hu : Untouched i h h') (hsub : ∀ e ∈ S.events i, e ∈ S'.events i) :
    Running config S' h' i d disk n where
  config_eq := hn.config_eq
  nodup := hn.nodup
  coherent := hn.coherent.mono hsub
  ledger := hn.ledger.mono hsub
  grounded := hn.grounded.mono hg
  stage := hn.stage.mono hg (hn.nodeId.symm ▸ hu)

theorem Kept.mono {completed : List PersistBatch} (hk : Kept config h i completed)
    (hg : Grows h h') (hu : Untouched i h h') : Kept config h' i completed :=
  ⟨hk.stores.mono hu, hg.settled hk.settled, hk.formed, hk.sound⟩

theorem Hosted.mono (hh : Hosted config S h i host) (hg : Grows h h') (hu : Untouched i h h')
    (hsub : ∀ e ∈ S.events i, e ∈ S'.events i) : Hosted config S' h' i host :=
  ⟨hh.kept.mono hg hu, fun n hn => (hh.on n hn).mono hg hu hsub, hh.off⟩

/-- Messages and submissions are never taken back. -/
theorem events_subset (hsent : ∀ m ∈ S.sent, m ∈ S'.sent)
    (hsub : ∀ x ∈ S.submitted, x ∈ S'.submitted) (i : NodeId) :
    ∀ e ∈ S.events i, e ∈ S'.events i := by
  intro e he
  cases e with
  | messageReceived envelope => exact hsent _ he
  | clientRequest token command => exact hsub _ he
  | _ => trivial

/-! ### One event -/

/-- What a transition leaves, with everything known about it. -/
structure Follows (config : RaftConfig) (S : Cluster) (h : Chronicle) (n : RaftNode)
    (d : RecoveredState) (disk : Disk) (c : Ctx) : Prop where
  config_eq : c.node.config = n.config
  gated : Gated d (S.events n.config.nodeId) c
  ledger : Ledger (S.events n.config.nodeId) c
  live : ∃ h', Steps (quorums config) n.config.nodeId h h' ∧
    Live (quorums config) config.maxAppendBytesPerRpc S.commands d disk h' c ∧
    Raised (quorums config) h' n c.node

section Rule

variable {disk' : Disk} {c : Ctx}

theorem tolerant_recorded (Q : QuorumSystem NodeId) (h : Chronicle) : Tolerant (Recorded Q h) :=
  ⟨fun _ hr hk hd => absurd ⟨hk, hd⟩ hr, fun _ => trivial, fun _ _ => trivial⟩

/-- Traces, timers and refusals leave the device alone. -/
theorem diskAfter_of_tolerant (he : Emits (fun e => ∀ p, e ≠ .persist p) { node := n } c)
    (disk : Disk) : c.diskAfter disk = disk := by
  obtain ⟨-, es, hes, hok⟩ := he
  have hnone : c.persisted = none := by
    unfold Ctx.persisted
    rw [hes, List.nil_append, List.findSome?_eq_none_iff]
    intro e he
    cases e with
    | persist p => exact absurd rfl (hok _ he p)
    | _ => rfl
  rw [Ctx.diskAfter, hnone]
  rfl

theorem recorded_of_tolerant {Q : QuorumSystem NodeId}
    (he : Emits (Recorded Q h) { node := n } c) : ∀ e ∈ c.effects, Recorded Q h e := by
  obtain ⟨-, es, hes, hok⟩ := he
  intro e he
  rw [hes, List.nil_append] at he
  exact hok e he

/-- A node that is idle in the middle of a transition. -/
theorem Running.atRest (hn : Running config S h i d disk n) (hconf : c.node.config = n.config)
    {d' : RecoveredState} (hg : Gated d' (S.events i) c) (hl : Ledger (S.events i) c)
    (hlive : Live (quorums config) config.maxAppendBytesPerRpc S.commands d' disk' h' c)
    (hr : c.node.role ≠ .unavailable) (hp : c.node.pendingStorage = none) :
    AtRest (quorums config) config.maxAppendBytesPerRpc S.commands (S.events i) d' h' c.node ∧
      c.diskAfter disk' = .idle := by
  cases hlive.stage with
  | ready available pending device agrees =>
    refine ⟨⟨?_, ?_, ?_, fun token command hc => ⟨i, token, hc⟩, hg.coherent, hr, hp, hl.filed,
      hl.led, hlive.chronicled, hlive.grounded, agrees⟩, device⟩
    · rw [hconf, hn.members]
      rfl
    · rw [hconf]
      exact hn.nodup
    · rw [hconf, hn.config_eq]
      rfl
  | waiting p op available pending => exact absurd (hp.symm.trans pending) (by simp)
  | down stopped => exact absurd stopped hr

theorem grounds_event {Q : QuorumSystem NodeId} (ht : ∀ m ∈ S.sent, Truthful Q h m)
    (hg : Grows h h') (he : e ∈ S.events i) : Grounds Q (S.events i) h' n (.event e) := by
  refine ⟨he, fun m hm => ?_⟩
  subst hm
  exact (ht m he).mono hg

variable (hn : Running config S h i d disk n)
include hn

/-- A reaction in the middle of a transition. -/
theorem Running.reacts {h₁ : Chronicle} {d' : RecoveredState} {cause : Cause} {c' : Ctx}
    (hs : Steps (quorums config) i h h₁)
    (hlive : Live (quorums config) config.maxAppendBytesPerRpc S.commands d' disk' h₁ c)
    (hconf : c.node.config = n.config) (hcommit : c.node.commitIndex = n.commitIndex)
    (hg : Gated d' (S.events i) c) (hl : Ledger (S.events i) c) (hr : c.node.role ≠ .unavailable)
    (hp : c.node.pendingStorage = none) (o : Outcome c.node cause c c')
    (hcause : Grounds (quorums config) (S.events i) h₁ c.node cause)
    (hgl : Gated d' (S.events i) c' ∧ Ledger (S.events i) c') :
    Follows config S h n d' disk' c' := by
  obtain rfl := hn.nodeId
  obtain ⟨hrest, hidle⟩ := hn.atRest hconf hg hl hlive hr hp
  obtain ⟨h₂, hs₂, hlive₂, hraised⟩ := hrest.react hlive.recorded hidle o hcause
  rw [hconf] at hs₂
  rw [Raised, hcommit] at hraised
  exact ⟨o.config.trans hconf, hgl.1, hgl.2, h₂, hs.trans hs₂, hlive₂, hraised⟩

/-- A failed batch stays on the device. -/
theorem Running.live_fail (hst : Stores h i d)
    (hS : Chronicled (quorums config) config.maxAppendBytesPerRpc S.commands h) {p : PendingStorage}
    (hp : n.pendingStorage = some p) (detail : String) :
    Live (quorums config) config.maxAppendBytesPerRpc S.commands d (.failed ⟨p.opId, p.batch⟩) h
      (Ctx.failStorage { node := { n with pendingStorage := none } } detail) := by
  obtain rfl := hn.nodeId
  have hemits : ∀ P, Tolerant P → Emits P { node := { n with pendingStorage := none } }
      (Ctx.failStorage { node := { n with pendingStorage := none } } detail) :=
    fun P hP => hP.failed (Emits.refl _)
  refine ⟨hS, ?_, ?_, recorded_of_tolerant (hemits _ (tolerant_recorded _ _)), ?_⟩
  · rw [Ctx.failStorage_node]
    exact hst
  · rw [Ctx.failStorage_node]
    exact ⟨hn.grounded.traces, hn.grounded.settled⟩
  · rw [diskAfter_of_tolerant (hemits _ tolerant_not_persist), Ctx.failStorage_node]
    refine .down rfl rfl (Or.inr ?_)
    cases hn.stage with
    | ready available pending | down stopped pending =>
      exact absurd (hp.symm.trans pending) (by simp)
    | waiting q op available pending device pledge =>
      obtain rfl : p = q := Option.some.inj (hp.symm.trans pending)
      exact ⟨_, op, rfl, pledge⟩

/-- A confirmed batch: its operation is performed. -/
theorem Running.live_complete
    (hS : Chronicled (quorums config) config.maxAppendBytesPerRpc S.commands h) {p : PendingStorage}
    (hp : n.pendingStorage = some p) :
    ∃ h₁, Steps (quorums config) i h h₁ ∧ Owed h₁ n p.afterSuccess ∧
      Live (quorums config) config.maxAppendBytesPerRpc S.commands (d.write p.batch) .idle h₁
        ((Ctx.markDurable { node := { n with pendingStorage := none } } p.batch).trace
          .storageComplete "storage operation completed" 0) := by
  obtain rfl := hn.nodeId
  cases hn.stage with
  | ready available pending | down stopped pending => exact absurd (hp.symm.trans pending) (by simp)
  | waiting q op available pending device pledge agrees owed =>
    obtain rfl : p = q := Option.some.inj (hp.symm.trans pending)
    -- The history performs what the batch stands for only now that it is durable.
    have hstep := pledge.enabled.step (quorums config)
    have hg := (hstep.extends hS.inv).toGrows
    refine ⟨_, .single hstep, owed, hS.run pledge.enabled, pledge.stores,
      (hn.grounded.mono hg).congr rfl, ?_, .ready available rfl rfl (agrees.congr rfl)⟩
    intro x hx
    obtain rfl := List.mem_singleton.mp hx
    simp [Recorded]

/-- **Every step of a node is followed by the history.** The device of the host is idle
after a completion, has a failed batch after a failure, and is as before otherwise. -/
theorem Running.stepRule (hst : Stores h i d)
    (hS : Chronicled (quorums config) config.maxAppendBytesPerRpc S.commands h)
    (ht : ∀ m ∈ S.sent, Truthful (quorums config) h m) (he : e ∈ S.events i)
    (hok : ∀ p, Completes n e p true → disk' = .idle)
    (hfail : ∀ p, Completes n e p false → disk' = .failed ⟨p.opId, p.batch⟩)
    (hsame : (∀ p success, ¬Completes n e p success) → disk' = disk) :
    StepRule (Follows config S h n (durableAfter d n e) disk') n e := by
  obtain rfl := hn.nodeId
  have hbook := hn.coherent.bookRule hn.ledger he
  have hd : (∀ p success, ¬Completes n e p success) → durableAfter d n e = d := fun hne =>
    durableAfter_of_not_completes fun p => hne p true
  -- An event that is no completion leaves durable state and device alone, and with them
  -- everything the history says of the node.
  have hbase : ∀ {c : Ctx}, (∀ p success, ¬Completes n e p success) →
      c.node.outline = n.outline → c.node.pendingStorage = n.pendingStorage →
      (∀ x ∈ c.effects, Recorded (quorums config) h x) → c.diskAfter disk' = disk' →
      Live (quorums config) config.maxAppendBytesPerRpc S.commands (durableAfter d n e) disk' h
        c := by
    intro c hne ho hp hrec hdisk
    rw [hd hne]
    have hconf : c.node.config = n.config := congrArg Prod.fst ho
    refine ⟨hS, by rwa [hconf], hn.grounded.congr ho, hrec, ?_⟩
    rw [hdisk, hsame hne]
    exact hn.stage.congr ho hp
  refine ⟨?noise, ?defers, ?fails, ?completes, ?dispatches, ?pops⟩
  case noise =>
    intro hne c hc hemits
    obtain ⟨hg, hl⟩ := hbook.noise hne c hc hemits
    refine ⟨by rw [hc], hg, hl, h, .refl, hbase hne (by rw [hc]) (by rw [hc]) ?_ ?_,
      Or.inl (by rw [hc])⟩
    · exact recorded_of_tolerant (hemits _ (tolerant_recorded _ _))
    · exact diskAfter_of_tolerant (hemits _ tolerant_not_persist) _
  case defers =>
    intro hne hp
    obtain ⟨hg, hl⟩ := hbook.defers hne hp
    exact ⟨rfl, hg, hl, h, .refl, hbase hne rfl rfl (by simp) rfl, Or.inl rfl⟩
  case fails =>
    intro p hc detail
    obtain ⟨hg, hl⟩ := hbook.fails p hc detail
    have hd : durableAfter d n e = d := by
      refine durableAfter_of_not_completes fun q hq => ?_
      obtain ⟨-, _, he₁⟩ := hc
      obtain ⟨-, _, he₂⟩ := hq
      simp [he₁] at he₂
    rw [hd] at hg ⊢
    rw [hfail p hc]
    exact ⟨by rw [Ctx.failStorage_node], hg, hl, h, .refl, hn.live_fail hst hS hc.1 detail,
      Or.inl (by rw [Ctx.failStorage_node])⟩
  case completes =>
    intro p hc
    obtain ⟨h₁, hs, howed, hlive⟩ := hn.live_complete hS hc.1
    obtain ⟨hco, hr, hpromise⟩ := hn.coherent.complete hc.1
    have hgl := hbook.completes p hc
    rw [durableAfter_of_completes hc] at hgl ⊢
    rw [hok p hc]
    refine hn.reacts hs hlive rfl rfl ⟨hco, rfl, ?_⟩
      ((hn.ledger.marked hn.coherent hc.1).trace _ _ _) hr rfl (outcome_resume _ rfl _)
      ⟨hpromise, howed.congr rfl⟩ hgl
    simp [Ctx.markDurable, Ctx.trace, Ctx.emit]
  case dispatches =>
    intro hp hr
    have hne : ∀ p success, ¬Completes n e p success := fun p success hc => by
      simp [Completes, hp] at hc
    refine hn.reacts (c := { node := n }) .refl (hbase hne rfl rfl (by simp) rfl) rfl rfl ?_
      hn.ledger hr hp (outcome_dispatch _ hp e) (grounds_event ht (Grows.refl _) he)
      (hbook.dispatches hp hr)
    rw [hd hne]
    exact ⟨hn.coherent, rfl, by simp⟩
  case pops =>
    intro c e' rest hc hp hr hrest
    obtain ⟨hconf, hg, hl, h₁, hs, hlive, hraised⟩ := hc
    -- A commit index that had risen would have left the node waiting or stopped, and
    -- the queue would not be drained.
    have hcommit : c.node.commitIndex = n.commitIndex :=
      hraised.resolve_right fun hbusy => hbusy.1.elim (fun h => h hp) hr
    have hgl := hbook.pops c e' rest ⟨hg, hl⟩ hp hr hrest
    have hpop : Gated (durableAfter d n e) (S.events n.config.nodeId) (c.pop rest) :=
      hg.pop hr hp hrest
    refine hn.reacts (c := c.pop rest) hs ?_ hconf hcommit hpop
      (hl.setNode ⟨rfl, le_rfl, fun hl => ⟨hl, rfl, rfl⟩⟩) hr hp
      (outcome_dispatch (c.pop rest) hp e')
      (grounds_event ht (Steps.grows hs hS.inv) (hg.coherent.deferred e' (by simp [hrest]))) hgl
    exact ⟨hlive.chronicled, hlive.stores, hlive.grounded.congr rfl, hlive.recorded,
      hlive.stage.congr rfl rfl⟩

end Rule

/-! ### Actions -/

section Actions

variable {c : Ctx}

/-- The host as the node finds it: what the event means for its storage. -/
structure Offered (config : RaftConfig) (S : Cluster) (h : Chronicle) (i : NodeId) (e : RaftEvent)
    (host : Host) (n : RaftNode) : Prop where
  durable : host.durable = durableAfter (S.durable i) n e
  ok : ∀ p, Completes n e p true → host.disk = .idle
  fail : ∀ p, Completes n e p false → host.disk = .failed ⟨p.opId, p.batch⟩
  same : (∀ p success, ¬Completes n e p success) → host.disk = (S.hosts i).disk
  settled : Settled (quorums config) h (host.durable.log.take host.durable.commitIndex)
  formed : WellFormed (config.forNode i).sorted host.durable
  sound : Sound host.completed

theorem Related.on (hr : Related config S h) (hon : S.node i = some n) :
    Running config S h i (S.durable i) (S.hosts i).disk n :=
  (hr.hosts i).on n hon

/-- A device that is writing has the batch its node waits for. -/
theorem Running.writing (hn : Running config S h i d disk n) {p : PersistEffect}
    (hw : disk = .writing p) : ∃ q op, n.pendingStorage = some q ∧ p = ⟨q.opId, q.batch⟩ ∧
      Pledge (quorums config) n.config h n.config.nodeId d q.batch op := by
  cases hn.stage with
  | ready _ _ device => exact absurd (hw.symm.trans device) (by simp)
  | waiting q op available pending device pledge =>
    obtain rfl : p = ⟨q.opId, q.batch⟩ := by simpa using hw.symm.trans device
    exact ⟨q, op, pending, rfl, pledge⟩
  | down _ _ device =>
    rcases device with device | ⟨_, _, device, -⟩ <;>
      exact absurd (hw.symm.trans device) (by simp)

theorem Related.offered (hr : Related config S h) (hf : Cluster.Feeds S i e host S₀)
    (hon : S.node i = some n) : Offered config S h i e host n := by
  have hk := (hr.hosts i).kept
  have hn := hr.on hon
  -- An event that is no storage completion finds the host as it is.
  have hplain : (∀ p success, ¬Completes n e p success) → host = S.hosts i →
      Offered config S h i e host n := by
    rintro hne rfl
    refine ⟨(durableAfter_of_not_completes fun p => hne p true).symm,
      fun p hc => absurd hc (hne _ _), fun p hc => absurd hc (hne _ _), fun _ => rfl, hk.settled,
      hk.formed, hk.sound⟩
  cases hf with
  | timer _ kind generation | deliver envelope sent | submit _ token command =>
    exact hplain (by rintro p success ⟨-, _, he⟩; simp at he) rfl
  | complete _ p writing =>
    obtain ⟨q, op, hq, rfl, pledge⟩ := hn.writing writing
    have hc : Completes n (.storageComplete q.opId true "") q true := ⟨hq, _, rfl⟩
    have hw : written ((S.hosts i).completed ++ [q.batch]) = (S.durable i).write q.batch :=
      written_concat _ _
    refine ⟨?_, fun _ _ => rfl, ?_, fun hne => absurd hc (hne _ _), ?_, ?_, ?_⟩
    · rw [durableAfter_of_completes hc]
      exact hw
    · rintro p ⟨-, _, he⟩
      simp at he
    · simp only [Host.durable, hw]
      exact pledge.settled
    · simp only [Host.durable, hw]
      have := pledge.formed
      rwa [hn.config_eq] at this
    · exact .concat hk.sound pledge.writable
  | fail _ p writing error =>
    obtain ⟨q, op, hq, rfl, pledge⟩ := hn.writing writing
    have hc : Completes n (.storageComplete q.opId false error) q false := ⟨hq, _, rfl⟩
    have hnc : ∀ p, ¬Completes n (.storageComplete q.opId false error) p true := by
      rintro p ⟨-, _, he⟩
      simp at he
    refine ⟨(durableAfter_of_not_completes hnc).symm, fun p hp => absurd hp (hnc p), ?_,
      fun hne => absurd hc (hne _ _), hk.settled, hk.formed, hk.sound⟩
    rintro p ⟨hp, -⟩
    obtain rfl : q = p := Option.some.inj (hq.symm.trans hp)
    rfl

theorem Chronicled.submit {Q : QuorumSystem NodeId} {limit : ℕ}
    {submitted submitted' : ClientCommand → Prop} (hc : Chronicled Q limit submitted h)
    (hs : ∀ c, submitted c → submitted' c) : Chronicled Q limit submitted' h :=
  ⟨hc.inv, hc.orderly, fun t e he => (hc.origin t e he).mono hs⟩

/-- **An event that a node handles** is followed by the history. -/
theorem Related.feed (hr : Related config S h) (hf : Cluster.Feeds S i e host S₀)
    (hon : S.node i = some n) :
    ∃ h', Related config (S₀.absorb i host (n.step e)) h' ∧ Steps (quorums config) i h h' ∧
      (∀ x ∈ (n.step e).effects, Recorded (quorums config) h' x) ∧
      Raised (quorums config) h' n (n.step e).node := by
  obtain ⟨he, hsent, hsub, hhosts⟩ := Cluster.feeds_mem hf
  have ho := hr.offered hf hon
  have hevents : ∀ j, ∀ x ∈ S.events j, x ∈ S₀.events j :=
    events_subset (fun m hm => hsent ▸ hm) hsub
  have hn : Running config S₀ h i (S.durable i) (S.hosts i).disk n :=
    (hr.on hon).mono (Grows.refl _) (Untouched.refl _ _) (hevents i)
  have hS₀ : Chronicled (quorums config) config.maxAppendBytesPerRpc S₀.commands h :=
    hr.chronicled.submit fun c ⟨j, token, hc⟩ => ⟨j, token, hsub _ hc⟩
  have hrule := hn.stepRule (hr.hosts i).kept.stores hS₀ (fun m hm => hr.truthful m (hsent ▸ hm)) he
    ho.ok ho.fail ho.same
  rw [← ho.durable] at hrule
  obtain rfl := hn.nodeId
  obtain ⟨hconf, hg, hl, h', hs, hlive, hraised⟩ := hrule.step
  have hext := Steps.extends hr.chronicled.inv hs
  have hgrows := hext.toGrows
  -- What the transition sends was truthful before it reached the network.
  have hsub' : ∀ j, ∀ x ∈ S₀.events j,
      x ∈ (S₀.absorb n.config.nodeId host (n.step e)).events j :=
    events_subset (fun m hm => List.mem_append_left _ hm) fun x hx => hx
  have hothers : ∀ j, j ≠ n.config.nodeId →
      (S₀.absorb n.config.nodeId host (n.step e)).hosts j = S.hosts j := fun j hj =>
    (S₀.hosts_absorb_of_ne _ _ _ hj).trans (congrFun hhosts j)
  refine ⟨h', ⟨hlive.chronicled, fun m hm => ?_, fun j => ?_⟩, hs, hlive.recorded, hraised⟩
  · rcases List.mem_append.mp hm with hm | hm
    · exact (hr.truthful m (hsent ▸ hm)).mono hgrows
    · exact hlive.recorded _ (mem_sends hm)
  · rcases eq_or_ne j n.config.nodeId with rfl | hj
    · have hstored := hlive.stores
      rw [hconf] at hstored
      rw [Cluster.hosts_absorb_self]
      refine ⟨⟨hstored, hgrows.settled ho.settled, ho.formed, ho.sound⟩, fun m hm => ?_,
        fun hoff => by simp at hoff⟩
      obtain rfl := Option.some.inj hm
      exact ⟨hconf.trans hn.config_eq, hconf.symm ▸ hn.nodup, hg.coherent.mono (hsub' _),
        (Ledger.forget hl).mono (hsub' _), hlive.grounded, hlive.stage⟩
    · rw [hothers j hj]
      exact (hr.hosts j).mono hgrows (hext.others hj) fun x hx => hsub' j x (hevents j x hx)

/-- A member list that passes the constructor has no duplicates. -/
theorem nodup_of_membershipValid (hv : config.sorted.membershipValid = true) :
    config.sorted.members.Nodup := by
  have hnodup : ∀ l : List NodeId, l.Pairwise (· ≤ ·) → l.IsChain (· ≠ ·) → l.Nodup := by
    intro l
    induction l with
    | nil => exact fun _ _ => List.nodup_nil
    | cons a l ih =>
      intro hs hc
      rw [List.pairwise_cons] at hs
      refine List.nodup_cons.mpr ⟨fun ha => ?_, ih hs.2 hc.tail⟩
      cases l with
      | nil => simp at ha
      | cons b l =>
        have hne : a ≠ b := (List.isChain_cons_cons.mp hc).1
        rcases List.mem_cons.mp ha with rfl | ha
        · exact hne rfl
        · have h₁ := hs.1 b (by simp)
          have h₂ := (List.pairwise_cons.mp hs.2).1 a ha
          exact hne (le_antisymm h₁ h₂)
  simp only [RaftConfig.membershipValid, decide_eq_true_eq] at hv
  exact hnodup _ (List.pairwise_insertionSort _ _) hv.2.1

/-- A host that changes alone, with nothing sent or submitted. -/
theorem Related.setHost (hr : Related config S h) (hext : Extends i h h')
    (hc : Chronicled (quorums config) config.maxAppendBytesPerRpc S.commands h')
    (hh : Hosted config S h' i host) : Related config (S.setHost i host) h' := by
  refine ⟨hc, fun m hm => (hr.truthful m hm).mono hext.toGrows, fun j => ?_⟩
  rcases eq_or_ne j i with rfl | hj
  · rw [S.hosts_setHost_self]
    exact ⟨hh.kept, fun n hn => (hh.on n hn).mono (Grows.refl _) (Untouched.refl _ _)
      fun _ he => he, hh.off⟩
  · rw [S.hosts_setHost_of_ne i host hj]
    exact (hr.hosts j).mono hext.toGrows (hext.others hj) fun _ he => he

theorem Related.boot (hr : Related config S h) (hoff : S.node i = none)
    (hc : RaftNode.create (config.forNode i) (S.durable i) = .ok n) :
    Related config (S.setHost i { S.hosts i with node := some n }) h := by
  have hk := (hr.hosts i).kept
  refine hr.setHost (Extends.refl i h) hr.chronicled ⟨hk, fun m hm => ?_, fun hn => by simp at hn⟩
  obtain rfl := Option.some.inj hm
  obtain ⟨⟨hmembers, -, hform, -⟩, heq⟩ := RaftNode.create_eq_ok.mp hc
  have hco := coherent_create hc (S.events i)
  have hled : Ledger (S.events i) { node := n } := ledger_create hc
  subst heq
  refine ⟨rfl, nodup_of_membershipValid hmembers, hco, hled, ⟨?_, hk.settled⟩,
    .ready (by simp [RaftNode.ofRecovered]) rfl ((hr.hosts i).off hoff)
      ⟨hk.stores, fun hc => ?_, fun hl => ?_⟩⟩
  · have htraces := hr.chronicled.inv.traces_log i
    rw [hk.stores.log] at htraces
    exact htraces
  · simp [RaftNode.ofRecovered] at hc
  · simp [RaftNode.ofRecovered] at hl

/-- The batch that a crash may leave has an operation under way. -/
theorem Running.outstanding (hn : Running config S h i d disk n) : disk.outstanding = [] ∨
    ∃ batch op, disk.outstanding = [batch] ∧
      Pledge (quorums config) n.config h n.config.nodeId d batch op := by
  cases hn.stage with
  | ready _ _ device => exact Or.inl (by rw [device]; rfl)
  | waiting p op _ _ device pledge => exact Or.inr ⟨_, op, by rw [device]; rfl, pledge⟩
  | down _ _ device =>
    rcases device with device | ⟨p, op, device, pledge⟩
    · exact Or.inl (by rw [device]; rfl)
    · exact Or.inr ⟨_, op, by rw [device]; rfl, pledge⟩

theorem Related.crash (hr : Related config S h) (hon : S.node i = some n) (keep : Bool) :
    ∃ h', Related config (S.setHost i { completed := (S.hosts i).completed ++
      (if keep then (S.hosts i).disk.outstanding else []) }) h' ∧
        Steps (quorums config) i h h' := by
  have hk := (hr.hosts i).kept
  have hn := hr.on hon
  -- Nothing survives but what was completed.
  have hlost : (if keep then (S.hosts i).disk.outstanding else []) = [] →
      ∃ h', Related config (S.setHost i { completed := (S.hosts i).completed ++
        (if keep then (S.hosts i).disk.outstanding else []) }) h' ∧
          Steps (quorums config) i h h' := by
    intro hnil
    refine ⟨h, ?_, .refl⟩
    rw [hnil, List.append_nil]
    exact hr.setHost (Extends.refl i h) hr.chronicled ⟨hk, fun m hm => by simp at hm, fun _ => rfl⟩
  cases keep with
  | false => exact hlost rfl
  | true =>
    rcases hn.outstanding with hnil | ⟨batch, op, hone, pledge⟩
    · exact hlost (by simpa using hnil)
    · -- The outstanding batch has reached the disk although nobody has heard of it: the
      -- history performs its operation, and the restarted node finds it done.
      obtain rfl := hn.nodeId
      have hstep := pledge.enabled.step (quorums config)
      have hext := hstep.extends hr.chronicled.inv
      refine ⟨_, hr.setHost hext (hr.chronicled.run pledge.enabled) ⟨?_, fun m hm => by simp at hm,
        fun _ => rfl⟩, .single hstep⟩
      simp only [if_true, hone]
      have hw : written ((S.hosts n.config.nodeId).completed ++ [batch]) =
          (S.durable n.config.nodeId).write batch := written_concat _ _
      have hform := pledge.formed
      rw [hn.config_eq] at hform
      exact ⟨by rw [hw]; exact pledge.stores, by rw [hw]; exact hext.toGrows.settled pledge.settled,
        by rw [hw]; exact hform, .concat hk.sound pledge.writable⟩

/-- A node arms its first timer. -/
theorem Running.start (hn : Running config S h i d disk n) :
    Running config S h i d disk n.start.node := by
  rcases start_cases n with heq | heq
  · rw [heq]
    exact hn
  · have hco := hn.coherent
    rw [heq]
    refine ⟨hn.config_eq, hn.nodup, { hco with phase := ?_ },
      hn.ledger.setNode ⟨rfl, le_rfl, fun hl => ⟨hl, rfl, rfl⟩⟩, hn.grounded.congr rfl,
      hn.stage.congr rfl rfl⟩
    cases hco.phase with
    | ready available pending memory => exact .ready available pending memory
    | waiting p available pending memory promise =>
      exact .waiting p available pending memory promise
    | down stopped pending => exact .down stopped pending

theorem start_quiet (n : RaftNode) (disk : Disk) :
    n.start.sends = [] ∧ n.start.diskAfter disk = disk := by
  rcases start_cases n with heq | heq <;> rw [heq] <;> exact ⟨rfl, rfl⟩

theorem Related.start (hr : Related config S h) (hon : S.node i = some n) :
    Related config (S.absorb i (S.hosts i) n.start) h := by
  obtain ⟨hsends, hdisk⟩ := start_quiet n (S.hosts i).disk
  have hS : S.absorb i (S.hosts i) n.start =
      S.setHost i { S.hosts i with node := some n.start.node } := by
    simp [Cluster.absorb, hsends, hdisk, Cluster.setHost]
  rw [hS]
  refine hr.setHost (Extends.refl i h) hr.chronicled
    ⟨(hr.hosts i).kept, fun m hm => ?_, fun hoff => by simp at hoff⟩
  obtain rfl := Option.some.inj hm
  exact (hr.on hon).start

/-- **An action and the history** that follows it: what the nodes emit is recorded, and no
commit index rises without a certificate. -/
structure Advance (config : RaftConfig) (S S' : Cluster) (effects : List RaftEffect)
    (h h' : Chronicle) : Prop where
  related : Related config S' h'
  grows : Grows h h'
  recorded : ∀ x ∈ effects, Recorded (quorums config) h' x
  raised : ∀ i n n', S.node i = some n → S'.node i = some n' → Raised (quorums config) h' n n'

variable {a : Action} {effects : List RaftEffect} (hr : Related config S h)
    (hstep : S.step config a = some (S', effects))
include hr hstep

/-- **The simulation**: every action of the environment is followed by steps of the node
that takes part in it. -/
theorem Related.follow :
    ∃ h', Advance config S S' effects h h' ∧ Steps (quorums config) a.actor h h' := by
  have hmove := Cluster.move_of_step hstep
  obtain ⟨h', hr', hs, hrec, hraised⟩ : ∃ h', Related config S' h' ∧
      Steps (quorums config) a.actor h h' ∧ (∀ x ∈ effects, Recorded (quorums config) h' x) ∧
      ∀ n n', S.node a.actor = some n → S'.node a.actor = some n' →
        Raised (quorums config) h' n n' := by
    cases hmove with
    | boot i n off created =>
      refine ⟨h, hr.boot off created, .refl, by simp, fun m m' hm => ?_⟩
      exact absurd (off.symm.trans hm) (by simp)
    | start i n on =>
      refine ⟨h, hr.start on, .refl, ?_, fun m m' hm hm' => ?_⟩
      · rcases start_cases n with heq | heq <;> rw [heq] <;> simp [Recorded]
      · obtain rfl : n = m := Option.some.inj (on.symm.trans hm)
        obtain rfl : n.start.node = m' := by simpa [Action.actor, Cluster.node] using hm'
        rcases start_cases n with heq | heq <;> rw [heq] <;> exact Or.inl rfl
    | @feed _ i e host S₀ n feeds on actor live =>
      obtain ⟨h', hr', hs, hrec, hraised⟩ := hr.feed feeds on
      rw [actor]
      refine ⟨h', hr', hs, hrec, fun m m' hm hm' => ?_⟩
      obtain rfl : n = m := Option.some.inj (on.symm.trans hm)
      obtain rfl : (n.step e).node = m' := by simpa [Cluster.node] using hm'
      exact hraised
    | crash i n keep on =>
      obtain ⟨h', hr', hs⟩ := hr.crash on keep
      refine ⟨h', hr', hs, by simp, fun m m' _ hm' => ?_⟩
      simp [Action.actor, Cluster.node] at hm'
  -- A node that takes no part in the action is as it was.
  refine ⟨h', ⟨hr', Steps.grows hs hr.chronicled.inv, hrec, fun i n n' hn hn' => ?_⟩, hs⟩
  rcases eq_or_ne i a.actor with rfl | hi
  · exact hraised n n' hn hn'
  · rw [Cluster.node, hmove.hosts_of_ne hi] at hn'
    exact Or.inl (by rw [Option.some.inj (hn.symm.trans hn')])

theorem Related.step : ∃ h', Advance config S S' effects h h' := by
  obtain ⟨h', adv, -⟩ := hr.follow hstep
  exact ⟨h', adv⟩

end Actions

/-! ### Runs -/

theorem related_initial (config : RaftConfig) : Related config .initial History.initial where
  chronicled := ⟨inv_initial, fun _ => orderly_nil, fun _ _ he => by simp [History.initial] at he⟩
  truthful m hm := by simp [Cluster.initial] at hm
  hosts i := by
    refine ⟨⟨⟨rfl, rfl, rfl⟩, Or.inl rfl, ?_, .nil⟩, fun n hn => by simp [Cluster.initial] at hn,
      fun _ => rfl⟩
    exact ⟨by simp [written, Cluster.initial], by simp [written, Cluster.initial],
      indexedFrom_nil 0, by simp [written, Cluster.initial], le_rfl⟩

/-- **Later states have later histories.** -/
theorem Related.reaches (hr : Related config S h) (hreach : Cluster.Reaches config S S') :
    ∃ h', Related config S' h' ∧ Grows h h' := by
  induction hreach with
  | refl => exact ⟨h, hr, Grows.refl h⟩
  | tail _ hnext ih =>
    obtain ⟨h₁, hr₁, hg₁⟩ := ih
    obtain ⟨a, effects, hstep⟩ := hnext
    obtain ⟨h₂, adv⟩ := hr₁.step hstep
    exact ⟨h₂, adv.related, hg₁.trans adv.grows⟩

/-- **Every reachable state has a history.** -/
theorem exists_related (hreach : Cluster.Reachable config S) : ∃ h, Related config S h := by
  obtain ⟨h, hr, -⟩ := (related_initial config).reaches hreach
  exact ⟨h, hr⟩

/-- **Every reachable state has a history in which nobody has lost what it acknowledged in
its own term.** -/
theorem exists_related_holding (hreach : Cluster.Reachable config S) :
    ∃ h, Related config S h ∧ Holding h := by
  induction hreach with
  | refl => exact ⟨_, related_initial config, holding_initial⟩
  | tail _ hnext ih =>
    obtain ⟨h, hr, hh⟩ := ih
    obtain ⟨a, effects, hstep⟩ := hnext
    obtain ⟨h', adv, hs⟩ := hr.follow hstep
    exact ⟨h', adv.related, hh.steps hr.chronicled.inv hs⟩

end DetLog
