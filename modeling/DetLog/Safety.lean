import DetLog.Refinement.Simulation

/-!
# Safety of the cluster

The promises of a replicated log, read off the states of the cluster. A host holds two
states, the memory of its node and what its storage has (`DetLog.Cluster.Holds`), and by
`DetLog.Related` both trace the history and have settled committed prefixes. From this
follow that no two hosts ever disagree on a committed entry
(`DetLog.Cluster.committed_agree`), that a leader holds everything that was committed in
earlier terms (`DetLog.Cluster.leader_holds_committed`), that a term has one leader
(`DetLog.Cluster.leader_unique`), that logs with a common entry agree up to it
(`DetLog.Cluster.logs_match`), and that a leader commits only what a majority has in its
storage (`DetLog.Cluster.commit_certified`).
-/

namespace DetLog

open Consensus Consensus.History

variable {config : RaftConfig} {S S' S₀ S₁ S₂ S₃ : Cluster} {h h' : Chronicle} {i j : NodeId}
  {n n' m : RaftNode} {a : Action} {effects : List RaftEffect} {s t : RecoveredState} {k : ℕ}
  {T N : ℕ}

/-! ### Entries and prefixes -/

theorem take_of_entryAt {log : List LogEntry} {e : LogEntry} (he : entryAt log k = some e) :
    k ≤ log.length ∧ log.take k ≠ [] ∧ lastStamp (log.take k) = e.term := by
  obtain ⟨hk, hget⟩ := entryAt_eq_some.mp he
  obtain ⟨hlt, -⟩ := List.getElem?_eq_some_iff.mp hget
  have hle : k ≤ log.length := by omega
  refine ⟨hle, fun hnil => ?_, ?_⟩
  · have := congrArg List.length hnil
    rw [List.length_take_of_le hle, List.length_nil] at this
    omega
  · rw [← termAt_eq_lastStamp hle, termAt, he]

theorem entryAt_of_take {log log' : List LogEntry} (hk : 1 ≤ k) (hle : k ≤ log.length)
    (hp : log.take k <+: log') :
    ∃ e, entryAt log k = some e ∧ entryAt log' k = some e := by
  have hlt : k - 1 < log.length := by omega
  have he : entryAt log k = some log[k - 1] :=
    entryAt_eq_some.mpr ⟨hk, List.getElem?_eq_getElem hlt⟩
  refine ⟨_, he, entryAt_of_isPrefix hp (entryAt_eq_some.mpr ⟨hk, ?_⟩)⟩
  rw [List.getElem?_take_of_lt (by omega), List.getElem?_eq_getElem hlt]

/-- Prefixes one of which extends the other have the same entries. -/
theorem entryAt_of_prefixes {p p' log log' : List LogEntry} (hp : p <+: log) (hp' : p' <+: log')
    (hor : p <+: p' ∨ p' <+: p) (hk : 1 ≤ k) (hle : k ≤ p.length) (hle' : k ≤ p'.length) :
    ∃ e, entryAt log k = some e ∧ entryAt log' k = some e := by
  have htake : p.take k = p'.take k := by
    rcases hor with h | h
    · exact (take_eq_of_isPrefix h hle).symm
    · exact take_eq_of_isPrefix h hle'
  have hpre : p.take k <+: p' := htake ▸ List.take_prefix _ _
  obtain ⟨e, he, he'⟩ := entryAt_of_take hk hle hpre
  exact ⟨e, entryAt_of_isPrefix hp he, entryAt_of_isPrefix hp' he'⟩

/-! ### The states a host holds -/

/-- **The states of a host**: the memory of its running node, with what storage has not
confirmed or has failed to take, and the state its storage has. -/
inductive Cluster.Holds (S : Cluster) (i : NodeId) : RecoveredState → Prop
  | memory (n : RaftNode) (on : S.node i = some n) : Holds S i n.memory
  | durable : Holds S i (S.durable i)

theorem Related.settled (hr : Related config S h) (hs : S.Holds i s) :
    Settled (quorums config) h (s.log.take s.commitIndex) := by
  cases hs with
  | memory n on => exact (hr.on on).grounded.settled
  | durable => exact (hr.hosts i).kept.settled

theorem Related.traces (hr : Related config S h) (hs : S.Holds i s) : Traces h s.log := by
  cases hs with
  | memory n on => exact (hr.on on).grounded.traces
  | durable =>
    have htraces := hr.chronicled.inv.traces_log i
    rwa [(hr.hosts i).kept.stores.log] at htraces

theorem Related.commit_le (hr : Related config S h) (hs : S.Holds i s) :
    s.commitIndex ≤ s.log.length := by
  cases hs with
  | memory n on => exact (hr.on on).coherent.formed.commit_le
  | durable => exact (hr.hosts i).kept.formed.commit_le

/-- Two states of one run, each at its own time, agree on what both have committed. -/
theorem Related.agree (hr : Related config S h) (hr' : Related config S' h') (hg : Grows h h')
    (hs : S.Holds i s) (ht : S'.Holds j t) (hk : 1 ≤ k) (hks : k ≤ s.commitIndex)
    (hkt : k ≤ t.commitIndex) : ∃ e, entryAt s.log k = some e ∧ entryAt t.log k = some e := by
  refine entryAt_of_prefixes ⟨_, List.take_append_drop _ _⟩ ⟨_, List.take_append_drop _ _⟩
    ((hg.settled (hr.settled hs)).comparable hr'.chronicled.inv (hr'.settled ht)) hk ?_ ?_
  · rwa [List.length_take_of_le (hr.commit_le hs)]
  · rwa [List.length_take_of_le (hr'.commit_le ht)]

/-! ### Committed entries -/

/-- Storage upholds what it has committed, whatever happens to the host. -/
theorem Related.durable_upholds (hr : Related config S h)
    (hstep : S.step config a = some (S', effects)) (i : NodeId) :
    (S.durable i).Upholds (S'.durable i) := by
  have hmove := Cluster.move_of_step hstep
  rcases eq_or_ne i a.actor with hi | hi
  swap
  · rw [Cluster.durable, Cluster.durable, hmove.hosts_of_ne hi]
    exact .refl _
  -- The storage of the acting host changes only by a batch that respects the rules.
  have hwrite : ∀ {batch : PersistBatch}, Writable (S.durable i) batch →
      (S.durable i).Upholds (written ((S.hosts i).completed ++ [batch])) := by
    intro batch hw
    rw [written_concat]
    exact hw.upholds
  cases hmove with
  | boot l n off created =>
    obtain rfl : i = l := hi
    rw [Cluster.durable, Cluster.durable, S.hosts_setHost_self]
    exact .refl _
  | start l n on =>
    obtain rfl : i = l := hi
    rw [Cluster.durable, Cluster.durable, S.hosts_absorb_self]
    exact .refl _
  | feed n feeds on actor live =>
    obtain rfl := hi.trans actor
    rw [Cluster.durable, Cluster.durable, Cluster.hosts_absorb_self]
    cases feeds with
    | complete _ p writing =>
      obtain ⟨q, op, -, rfl, pledge⟩ := (hr.on on).writing writing
      exact hwrite pledge.writable
    | _ => exact .refl _
  | crash l n keep on =>
    obtain rfl : i = l := hi
    rw [Cluster.durable, Cluster.durable, S.hosts_setHost_self]
    rcases (hr.on on).outstanding with hnil | ⟨batch, op, hbatch, pledge⟩
    · simp only [Host.durable, hnil, ite_self, List.append_nil]
      exact .refl _
    · cases keep with
      | false =>
        simp only [Host.durable, Bool.false_eq_true, if_false, List.append_nil]
        exact .refl _
      | true =>
        simp only [Host.durable, hbatch, if_true]
        exact hwrite pledge.writable

theorem Related.durable_upholds_of_reaches (hr : Related config S h)
    (hrun : Cluster.Reaches config S S') (i : NodeId) :
    (S.durable i).Upholds (S'.durable i) := by
  induction hrun with
  | refl => exact .refl _
  | tail hrun hnext ih =>
    obtain ⟨h₁, hr₁, -⟩ := hr.reaches hrun
    obtain ⟨a, effects, hstep⟩ := hnext
    exact ih.trans (hr₁.durable_upholds hstep i)

/-- Any number of actions during which a host does not crash. -/
def Cluster.ReachesUp (config : RaftConfig) (i : NodeId) : Cluster → Cluster → Prop :=
  Relation.ReflTransGen fun S S' =>
    ∃ a effects, (∀ keep, a ≠ .crash i keep) ∧ S.step config a = some (S', effects)

/-- The memory of a node upholds what it has committed until it crashes. -/
theorem Cluster.memory_upholds (hstep : S.step config a = some (S', effects))
    (hup : ∀ keep, a ≠ .crash i keep) (hon : S.node i = some n) :
    ∃ n', S'.node i = some n' ∧ n.memory.Upholds n'.memory := by
  have hmove := Cluster.move_of_step hstep
  rcases eq_or_ne i a.actor with hi | hi
  swap
  · exact ⟨n, by rw [Cluster.node, hmove.hosts_of_ne hi]; exact hon, .refl _⟩
  cases hmove with
  | boot l m off created =>
    obtain rfl : i = l := hi
    exact absurd (off.symm.trans hon) (by simp)
  | start l m on =>
    obtain rfl : i = l := hi
    obtain rfl : m = n := Option.some.inj (on.symm.trans hon)
    refine ⟨m.start.node, by rw [Cluster.node, S.hosts_absorb_self], ?_⟩
    rcases start_cases m with heq | heq <;> rw [heq] <;> exact .refl _
  | @feed _ l e host S₀ m feeds on actor live =>
    obtain rfl := hi.trans actor
    obtain rfl : m = n := Option.some.inj (on.symm.trans hon)
    exact ⟨(m.step e).node, by rw [Cluster.node, Cluster.hosts_absorb_self], m.step_upholds e⟩
  | crash l m keep on =>
    obtain rfl : i = l := hi
    exact absurd rfl (hup keep)

theorem Cluster.memory_upholds_of_reachesUp (hrun : Cluster.ReachesUp config i S S')
    (hon : S.node i = some n) : ∃ n', S'.node i = some n' ∧ n.memory.Upholds n'.memory := by
  induction hrun with
  | refl => exact ⟨n, hon, .refl _⟩
  | tail hrun hnext ih =>
    obtain ⟨m, hm, hup⟩ := ih
    obtain ⟨a, effects, hlive, hstep⟩ := hnext
    obtain ⟨m', hm', hup'⟩ := Cluster.memory_upholds hstep hlive hm
    exact ⟨m', hm', hup.trans hup'⟩

/-- **State-machine safety.** Whatever two hosts have committed, in memory or in storage and
at whatever times of a run, they agree on it. A node keeps its committed entries while it
runs, and those its storage has committed for ever, through every crash. -/
theorem Cluster.committed_agree (hS : Reachable config S) (hrun : Reaches config S S') :
    (∀ i j s t k, S.Holds i s → S'.Holds j t → 1 ≤ k → k ≤ s.commitIndex → k ≤ t.commitIndex →
      ∃ e, entryAt s.log k = some e ∧ entryAt t.log k = some e) ∧
    (∀ i n, S.node i = some n → ReachesUp config i S S' → ∃ n', S'.node i = some n' ∧
      ∀ k, 1 ≤ k → k ≤ n.commitIndex → k ≤ n'.commitIndex ∧
        ∃ e, entryAt n.log k = some e ∧ entryAt n'.log k = some e) ∧
    (∀ i k, 1 ≤ k → k ≤ (S.durable i).commitIndex →
      ∃ e, entryAt (S.durable i).log k = some e ∧
        ∀ t, S'.Holds i t → k ≤ t.commitIndex ∧ entryAt t.log k = some e) := by
  obtain ⟨h, hr⟩ := exists_related hS
  obtain ⟨h', hr', hg⟩ := hr.reaches hrun
  refine ⟨fun i j s t k hs ht => hr.agree hr' hg hs ht, fun i n hn hup => ?_,
    fun i k hk hle => ?_⟩
  · obtain ⟨n', hn', hmem⟩ := memory_upholds_of_reachesUp hup hn
    refine ⟨n', hn', fun k hk hle => ⟨hle.trans hmem.commit_le, ?_⟩⟩
    exact hr.agree hr' hg (.memory n hn) (.memory n' hn') hk hle (hle.trans hmem.commit_le)
  · have hdurable : k ≤ (S'.durable i).commitIndex :=
      hle.trans (hr.durable_upholds_of_reaches hrun i).commit_le
    have hcommit : ∀ t, S'.Holds i t → k ≤ t.commitIndex := by
      intro t ht
      cases ht with
      | durable => exact hdurable
      | memory n on =>
        have hn := hr'.on on
        calc k ≤ (S'.durable i).commitIndex := hdurable
          _ = n.durableCommitIndex := hn.coherent.commitIndex.symm
          _ ≤ n.commitIndex := hn.ledger.filed.durable_le
    obtain ⟨e, he, -⟩ := hr.agree hr (Grows.refl h) .durable .durable hk hle hle
    refine ⟨e, he, fun t ht => ⟨hcommit t ht, ?_⟩⟩
    obtain ⟨e', h₁, h₂⟩ := hr.agree hr' hg .durable ht hk hle (hcommit t ht)
    rwa [Option.some.inj (he.symm.trans h₁)]

/-- Two nodes that have committed the first entry of the sample run agree on it. -/
theorem Cluster.committed_agree_sample :
    1 ≤ ((after Sample.config (Sample.elect ++ Sample.serve)).durable 1).commitIndex ∧
    1 ≤ ((after Sample.config (Sample.elect ++ Sample.serve)).durable 2).commitIndex ∧
    ∃ e, entryAt ((after Sample.config (Sample.elect ++ Sample.serve)).durable 1).log 1 = some e ∧
      entryAt ((after Sample.config (Sample.elect ++ Sample.serve)).durable 2).log 1 = some e :=
  ⟨by decide +kernel, by decide +kernel,
    (committed_agree (reachable_after (by decide +kernel)) .refl).1 1 2 _ _ 1 .durable .durable
      le_rfl (by decide +kernel) (by decide +kernel)⟩

/-! ### Leaders -/

/-- A leader leads its term in the history, and its log is the leader log. -/
theorem Related.leads (hr : Related config S h) (hn : S.node i = some n)
    (hl : n.role = .leader) : h.led n.currentTerm = some i ∧ h.leaderLog n.currentTerm = n.log := by
  have hon := hr.on hn
  have hid := hon.nodeId
  cases hon.stage with
  | ready available pending device agrees =>
    obtain ⟨hled, hlog, -⟩ := agrees.leader hl
    exact ⟨hid ▸ hled, hlog⟩
  | waiting p op available pending device pledge agrees owed =>
    obtain ⟨hled, hlog, -⟩ := agrees.leader hl
    rw [Operation.run_led, hid] at hled
    rw [Operation.run_leaderLog] at hlog
    exact ⟨hled, hlog⟩
  | down stopped => exact absurd (hl.symm.trans stopped) (by simp)

/-- **A leader of a term raises its commit index**; only `Ctx.maybeAdvanceCommit` does so.
A leader that cannot hand its batch to storage has stopped by the end of the step. -/
structure RaisesCommit (n n' : RaftNode) (term target : ℕ) : Prop where
  term_eq : n'.currentTerm = term
  lt_target : n.commitIndex < target
  commit_eq : n'.commitIndex = target
  leader : n'.role = .leader ∨
    (n'.role = .unavailable ∧ n.role = .leader ∧ n.currentTerm = term)

/-- What a leader commits is chosen in its term. -/
theorem Related.certificate (hr : Related config S h) (adv : Advance config S S' effects h h')
    (hn : S.node i = some n) (hn' : S'.node i = some n') (hraise : RaisesCommit n n' T N) :
    Chosen (quorums config) h' T (n'.log.take N) ∧ N ≤ h'.ack i T := by
  obtain ⟨rfl, hlt, rfl, hleader⟩ := hraise
  have hid := (adv.related.on hn').nodeId
  rcases adv.raised i n n' hn hn' with heq | ⟨-, ⟨hchosen, hack⟩ | ⟨hrole, hled, -⟩⟩
  · exact absurd heq hlt.ne'
  · exact ⟨hchosen, hid ▸ hack⟩
  · -- another node would lead the term of this leader
    rcases hleader with hl | ⟨-, hl, hterm⟩
    · exact absurd hl hrole
    · have h₁ := adv.grows.led_keep (hr.leads hn hl).1
      rw [hterm] at h₁
      exact absurd h₁ (hid ▸ hled)

/-- **Leader completeness.** What a leader commits, every leader of a later term has, and
had at every time of the run, before the commit too. -/
theorem Cluster.leader_holds_committed (hS : Reachable config S)
    (hstep : S.step config a = some (S₁, effects)) (hn : S.node i = some n)
    (hn' : S₁.node i = some n') (hraise : RaisesCommit n n' T N)
    (hrun : Reaches config S₁ S₂ ∨ Reachable config S₂ ∧ Reaches config S₂ S)
    (hm : S₂.node j = some m) (hrole : m.role = .leader) (hT : T < m.currentTerm) (k : ℕ)
    (hk : 1 ≤ k) (hkN : k ≤ N) :
    ∃ e, entryAt n'.log k = some e ∧ entryAt m.log k = some e := by
  -- The history at the time of the later leader, and one in which the prefix is chosen.
  have hchosen : ∃ h₂ h₃, Related config S₂ h₂ ∧ Inv (quorums config) h₃ ∧ Grows h₂ h₃ ∧
      Chosen (quorums config) h₃ T (n'.log.take N) := by
    rcases hrun with hafter | ⟨hS₂, hbefore⟩
    · obtain ⟨h, hr⟩ := exists_related hS
      obtain ⟨h₁, adv⟩ := hr.step hstep
      obtain ⟨h₂, hr₂, hg⟩ := adv.related.reaches hafter
      exact ⟨h₂, h₂, hr₂, hr₂.chronicled.inv, Grows.refl _,
        hg.chosen (hr.certificate adv hn hn' hraise).1⟩
    · obtain ⟨h₂, hr₂⟩ := exists_related hS₂
      obtain ⟨h, hr, hg⟩ := hr₂.reaches hbefore
      obtain ⟨h₁, adv⟩ := hr.step hstep
      exact ⟨h₂, h₁, hr₂, adv.related.chronicled.inv, hg.trans adv.grows,
        (hr.certificate adv hn hn' hraise).1⟩
  obtain ⟨h₂, h₃, hr₂, hinv, hg, hc⟩ := hchosen
  obtain ⟨hled, hlog⟩ := hr₂.leads hm hrole
  have hpre : n'.log.take N <+: m.log := hlog ▸ hc.prefix_of_led hr₂.chronicled.inv hinv hg hled hT
  obtain ⟨h₁, hr₁⟩ := exists_related (hS.tail ⟨a, effects, hstep⟩)
  have hle : N ≤ n'.log.length := hraise.commit_eq ▸ hr₁.commit_le (.memory n' hn')
  exact entryAt_of_take hk (hkN.trans hle) ((List.take_prefix_take_left hkN).trans hpre)

/-- Node 1 of the sample run raises its commit index to its readiness entry. -/
theorem raisesCommit_sample :
    RaisesCommit (((Cluster.after Sample.config Sample.elect).node 1).get (by decide +kernel))
      (((Cluster.after Sample.config (Sample.elect ++ [Sample.accepted 1 1])).node 1).get
        (by decide +kernel)) 1 1 :=
  ⟨by decide +kernel, by decide +kernel, by decide +kernel, Or.inl (by decide +kernel)⟩

/-- Node 2, which leads term 2 of the sample run, has what node 1 committed in term 1. -/
theorem Cluster.leader_holds_committed_sample : ∃ e,
    entryAt (((after Sample.config (Sample.elect ++ [Sample.accepted 1 1])).node 1).get
      (by decide +kernel)).log 1 = some e ∧
    entryAt (((after Sample.config ((Sample.elect ++ [Sample.accepted 1 1]) ++
      Sample.succeed)).node 2).get (by decide +kernel)).log 1 = some e :=
  leader_holds_committed (reachable_after (by decide +kernel)) (step_after (by decide +kernel))
    (Option.some_get _).symm (Option.some_get _).symm raisesCommit_sample
    (Or.inl (reaches_after (by decide +kernel))) (Option.some_get _).symm (by decide +kernel)
    (by decide +kernel) 1 le_rfl le_rfl

/-- **A commit certificate.** A leader of a term commits up to an entry of that term, and
when it does, a majority with itself in it has its log up to there in storage. -/
theorem Cluster.commit_certified (hS : Reachable config S)
    (hstep : S.step config a = some (S₁, effects)) (hn : S.node i = some n)
    (hn' : S₁.node i = some n') (hraise : RaisesCommit n n' T N) :
    (∃ e, entryAt n'.log N = some e ∧ e.term = T) ∧
      ∃ A : Finset NodeId, (∀ x ∈ A, x ∈ config.members) ∧ config.members.length < 2 * A.card ∧
        i ∈ A ∧ ∀ x ∈ A, (S₁.durable x).log.take N = n'.log.take N := by
  obtain ⟨h, hr⟩ := exists_related hS
  obtain ⟨h₁, adv⟩ := hr.step hstep
  obtain ⟨⟨hstamp, A, ⟨hAsub, hAcard⟩, hack⟩, hself⟩ := hr.certificate adv hn hn' hraise
  have hle : N ≤ n'.log.length := hraise.commit_eq ▸ adv.related.commit_le (.memory n' hn')
  have hpos : 1 ≤ N := Nat.one_le_of_lt hraise.lt_target
  have hlen : (n'.log.take N).length = N := List.length_take_of_le hle
  have hon := adv.related.on hn'
  have hperm : config.sorted.members.Perm config.members := List.perm_insertionSort _ _
  constructor
  · obtain ⟨e, he, -⟩ := entryAt_of_take hpos hle (List.take_prefix N n'.log)
    exact ⟨e, he, (take_of_entryAt he).2.2.symm.trans hstamp.2.2⟩
  have hchosen : Chosen (quorums config) h₁ T (n'.log.take N) :=
    ⟨hstamp, A, ⟨hAsub, hAcard⟩, hack⟩
  refine ⟨insert i A, fun x hx => ?_, ?_, Finset.mem_insert_self i A, fun x hx => ?_⟩
  · rcases Finset.mem_insert.mp hx with rfl | hx
    · have := hon.coherent.self
      rw [hon.nodeId, hon.members] at this
      exact hperm.mem_iff.mp this
    · exact hperm.mem_iff.mp (List.mem_toFinset.mp (hAsub hx))
  · have hnodup : config.sorted.members.Nodup := hon.members ▸ hon.nodup
    rw [List.toFinset_card_of_nodup hnodup, hperm.length_eq] at hAcard
    have := Finset.card_le_card (Finset.subset_insert i A)
    omega
  · have hackx : (n'.log.take N).length ≤ h₁.ack x T := by
      rcases Finset.mem_insert.mp hx with rfl | hx
      · rwa [hlen]
      · exact hack x hx
    have hpre := hchosen.prefix_log adv.related.chronicled.inv hackx
    rw [(adv.related.hosts x).kept.stores.log] at hpre
    have heq := List.prefix_iff_eq_take.mp hpre
    rw [hlen] at heq
    exact heq.symm

/-- When node 1 of the sample run commits its readiness entry, a majority has it. -/
theorem Cluster.commit_certified_sample : ∃ A : Finset NodeId,
    (∀ x ∈ A, x ∈ Sample.config.members) ∧ Sample.config.members.length < 2 * A.card ∧ 1 ∈ A ∧
      ∀ x ∈ A,
        ((after Sample.config (Sample.elect ++ [Sample.accepted 1 1])).durable x).log.take 1 =
        (((after Sample.config (Sample.elect ++ [Sample.accepted 1 1])).node 1).get
          (by decide +kernel)).log.take 1 :=
  (commit_certified (reachable_after (by decide +kernel)) (step_after (by decide +kernel))
    (Option.some_get _).symm (Option.some_get _).symm raisesCommit_sample).2

/-! ### Terms and their logs -/

/-- **A node is seen as a leader** in an action: it announces that it has become one, or
has that role afterwards. -/
inductive Cluster.SeenLeading (S' : Cluster) (effects : List RaftEffect) (i : NodeId)
    (term : ℕ) : Prop
  | enters (r : TraceRecord) (emitted : .trace r ∈ effects) (kind : r.kind = .roleChange)
      (detail : r.detail = "became leader") (node : r.node = i) (term_eq : r.term = term)
  | leads (n : RaftNode) (on : S'.node i = some n) (role : n.role = .leader)
      (term_eq : n.currentTerm = term)

theorem Advance.led (adv : Advance config S S' effects h h') (hl : S'.SeenLeading effects i T) :
    h'.led T = some i := by
  cases hl with
  | enters r emitted kind detail node term_eq =>
    rw [← node, ← term_eq]
    exact adv.recorded _ emitted kind detail
  | leads n on role term_eq =>
    rw [← term_eq]
    exact (adv.related.leads on role).1

/-- **Election safety.** In every run a term has at most one leader, however votes are
delayed, duplicated or lost and whoever restarts. -/
theorem Cluster.leader_unique {a' : Action} {effects' : List RaftEffect} (hS : Reachable config S)
    (hstep : S.step config a = some (S₁, effects)) (hi : S₁.SeenLeading effects i T)
    (hrun : Reaches config S₁ S₂) (hstep' : S₂.step config a' = some (S₃, effects'))
    (hj : S₃.SeenLeading effects' j T) :
    i = j := by
  obtain ⟨h, hr⟩ := exists_related hS
  obtain ⟨h₁, adv⟩ := hr.step hstep
  obtain ⟨h₂, hr₂, hg⟩ := adv.related.reaches hrun
  obtain ⟨h₃, adv'⟩ := hr₂.step hstep'
  have hled := adv'.grows.led_keep (hg.led_keep (adv.led hi))
  exact Option.some.inj (hled.symm.trans (adv'.led hj))

/-- Node 1 of the sample run announces that it leads term 1, and still does later. -/
theorem Cluster.leader_unique_sample :
    (after Sample.config (Sample.campaign ++ [Sample.grant 2 1 1])).SeenLeading
      (effectsAfter Sample.config Sample.campaign (Sample.grant 2 1 1)) 1 1 ∧
    (after Sample.config (Sample.elect ++ [Sample.accepted 1 1])).SeenLeading
      (effectsAfter Sample.config Sample.elect (Sample.accepted 1 1)) 1 1 ∧ (1 : NodeId) = 1 := by
  have hfirst : (after Sample.config (Sample.campaign ++ [Sample.grant 2 1 1])).SeenLeading
      (effectsAfter Sample.config Sample.campaign (Sample.grant 2 1 1)) 1 1 :=
    .enters ⟨.roleChange, 1, 1, 0, "became leader"⟩ (by decide +kernel) rfl rfl rfl rfl
  have hlater : (after Sample.config (Sample.elect ++ [Sample.accepted 1 1])).SeenLeading
      (effectsAfter Sample.config Sample.elect (Sample.accepted 1 1)) 1 1 :=
    .leads _ (Option.some_get (by decide +kernel)).symm (by decide +kernel) (by decide +kernel)
  exact ⟨hfirst, hlater, leader_unique (reachable_after (by decide +kernel))
    (step_after (by decide +kernel)) hfirst (reaches_after (by decide +kernel))
    (step_after (by decide +kernel)) hlater⟩

/-- A log has its first entry of a term at an index. -/
def FirstOf (log : List LogEntry) (term k : ℕ) : Prop :=
  (∃ e, entryAt log k = some e ∧ e.term = term) ∧
    ∀ k' e, k' < k → entryAt log k' = some e → e.term ≠ term

/-- Logs that trace one history match. -/
theorem take_eq_of_traces {l l' : List LogEntry} {e e' : LogEntry} (ht : Traces h l)
    (ht' : Traces h l') (he : entryAt l k = some e) (he' : entryAt l' k = some e')
    (hterm : e.term = e'.term) : l.take k = l'.take k := by
  obtain ⟨hle, hne, hs⟩ := take_of_entryAt he
  obtain ⟨hle', -, hs'⟩ := take_of_entryAt he'
  have hlen : (l.take k).length = (l'.take k).length := by
    rw [List.length_take_of_le hle, List.length_take_of_le hle']
  exact (ht.prefix_of_lastStamp_eq ht' (List.take_prefix _ _) (List.take_prefix _ _) hne
    (by rw [hs, hs', hterm]) hlen.le).eq_of_length hlen

theorem FirstOf.le {l l' : List LogEntry} {T k' : ℕ} (ht : Traces h l) (ht' : Traces h l')
    (hk : FirstOf l T k) (hk' : FirstOf l' T k') : k ≤ k' := by
  by_contra hlt
  push Not at hlt
  obtain ⟨⟨e, he, hterm⟩, hfirst⟩ := hk
  obtain ⟨⟨e', he', hterm'⟩, -⟩ := hk'
  obtain ⟨hle, hne, hs⟩ := take_of_entryAt he
  obtain ⟨hle', hne', hs'⟩ := take_of_entryAt he'
  have hpre : l'.take k' <+: l.take k := by
    refine ht'.prefix_of_lastStamp_eq ht (List.take_prefix _ _) (List.take_prefix _ _) hne'
      (by rw [hs, hs', hterm, hterm']) ?_
    rw [List.length_take_of_le hle, List.length_take_of_le hle']
    exact hlt.le
  obtain ⟨e₁, h₁, h₂⟩ := entryAt_of_take (entryAt_eq_some.mp he').1 hle'
    (hpre.trans (List.take_prefix _ _))
  obtain rfl : e' = e₁ := Option.some.inj (he'.symm.trans h₁)
  exact hfirst k' e' hlt h₂ hterm'

/-- **Log matching.** Any two logs, volatile or durable, with entries of one term at one
index are equal up to it, and all logs with entries of a term have their first one at the
same index. -/
theorem Cluster.logs_match (hS : Reachable config S) (hs : S.Holds i s) (ht : S.Holds j t) :
    (∀ k e e', entryAt s.log k = some e → entryAt t.log k = some e' → e.term = e'.term →
      s.log.take k = t.log.take k) ∧
    ∀ T k k', FirstOf s.log T k → FirstOf t.log T k' → k = k' := by
  obtain ⟨h, hr⟩ := exists_related hS
  have hts := hr.traces hs
  have htt := hr.traces ht
  exact ⟨fun k e e' he he' => take_eq_of_traces hts htt he he',
    fun T k k' hk hk' => (hk.le hts htt hk').antisymm (hk'.le htt hts hk)⟩

/-- The log in the memory of node 1 of the sample run matches that in the storage of node 2. -/
theorem Cluster.logs_match_sample :
    (((after Sample.config Sample.elect).node 1).get (by decide +kernel)).memory.log.take 1 =
      ((after Sample.config Sample.elect).durable 2).log.take 1 :=
  (logs_match (reachable_after (by decide +kernel)) (.memory _ (Option.some_get _).symm)
    .durable).1 1 ⟨1, 1, none⟩ ⟨1, 1, none⟩ (by decide +kernel) (by decide +kernel) rfl

end DetLog
