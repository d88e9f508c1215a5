import DetLog.Clients
import DetLog.Execution

/-!
# Guarantees over time

What the cluster promises about two moments of a run, with any messages, elections, crashes and
restarts in between. Committed entries stay on the disks of a majority (`Cluster.committed_stays`),
a vote binds the voter whatever it forgets in a crash (`Cluster.vote_binds`), of two replicas one is
ahead by some entries and nothing else (`Cluster.replicas_agree`), an append under way is a piece of
the log of its leader (`Cluster.append_under_way`), and a command submitted after another one has
been acknowledged comes after it in every committed log (`Cluster.acknowledged_first`).
-/

namespace DetLog

open Consensus Consensus.History

variable {config : RaftConfig} {S S' S₁ S₂ : Cluster} {h : Chronicle} {i j : NodeId}
  {n m : RaftNode} {s t : RecoveredState} {k : ℕ}

namespace Cluster

/-- A cluster that has served a client. -/
abbrev served : Cluster := after Sample.config (Sample.elect ++ Sample.serve)

theorem reachable_served : Reachable Sample.config served := reachable_after (by decide +kernel)

/-- **A committed entry is on the disks of a majority, and stays there.** It does not matter which
host has committed it, and whether its storage knows. -/
theorem committed_stays (hS : Reachable config S) (hs : S.Holds i s) (hk : 1 ≤ k)
    (hcommitted : k ≤ s.commitIndex) :
    ∃ A, (quorums config).IsQuorum A ∧ ∀ S', Reaches config S S' → ∀ x ∈ A,
      ∃ e, entryAt s.log k = some e ∧ entryAt (S'.durable x).log k = some e := by
  obtain ⟨h, hr⟩ := exists_related hS
  have hle := hcommitted.trans (hr.commit_le hs)
  rcases hr.settled hs with hnil | ⟨T, q, hq, hpre⟩
  · have := congrArg List.length hnil
    rw [List.length_take_of_le (hr.commit_le hs), List.length_nil] at this
    omega
  obtain ⟨-, A, hA, hack⟩ := id hq
  refine ⟨A, hA, fun S' hrun x hx => ?_⟩
  obtain ⟨h', hr', hg⟩ := hr.reaches hrun
  have hlog := (hg.chosen hq).prefix_log hr'.chronicled.inv ((hack x hx).trans (hg.ack_le x T))
  rw [(hr'.hosts x).kept.stores.log] at hlog
  exact entryAt_of_take hk hle ((List.take_prefix_take_left hcommitted).trans (hpre.trans hlog))

theorem committed_stays_sample : ∃ A, (quorums Sample.config).IsQuorum A ∧ ∀ S',
    Reaches Sample.config served S' → ∀ x ∈ A, ∃ e, entryAt (served.durable 1).log 1 = some e ∧
      entryAt (S'.durable x).log 1 = some e :=
  committed_stays reachable_served .durable le_rfl (by decide +kernel)

/-- The disk of a voter knows a vote, until it has moved on to a later term. -/
def Keeps (S : Cluster) (x : NodeId) (T : ℕ) (i : NodeId) : Prop :=
  T ≤ (S.durable x).hardState.currentTerm ∧
    ((S.durable x).hardState.currentTerm = T → (S.durable x).hardState.votedFor = some i)

theorem keeps_of_vote (hr : Related config S h) {T : ℕ} {x : NodeId} (hv : h.vote x T = some i) :
    S.Keeps x T i := by
  obtain ⟨hterm, hvote, -⟩ := (hr.hosts x).kept.stores
  refine ⟨hterm ▸ hr.chronicled.inv.vote_le hv, ?_⟩
  rintro rfl
  exact hvote.symm.trans hv

/-- **A leader has been elected by a majority whose disks say so**, as long as they have not moved
on to a later term. -/
theorem leader_certified (hS : Reachable config S) (hn : S.node i = some n)
    (hl : n.role = .leader) : ∃ A, (quorums config).IsQuorum A ∧ ∀ S', Reaches config S S' →
      ∀ x ∈ A, S'.Keeps x n.currentTerm i := by
  obtain ⟨h, hr⟩ := exists_related hS
  obtain ⟨A, hA, hvotes⟩ := hr.chronicled.inv.led_quorum (hr.leads hn hl).1
  refine ⟨A, hA, fun S' hrun x hx => ?_⟩
  obtain ⟨h', hr', hg⟩ := hr.reaches hrun
  exact keeps_of_vote hr' (hg.vote_keep (hvotes x hx))

theorem leader_certified_sample : ∃ A, (quorums Sample.config).IsQuorum A ∧ ∀ S',
    Reaches Sample.config served S' → ∀ x ∈ A,
      S'.Keeps x ((served.node 1).get (by decide +kernel)).currentTerm 1 :=
  leader_certified reachable_served (Option.some_get _).symm (by decide +kernel)

/-- **A vote that has been granted binds the voter**: it stays on its disk for the rest of the term,
and nobody else is ever granted one in this term, before or after a restart. -/
theorem vote_binds (hS : Reachable config S) {x : NodeId} {r : RequestVoteResponse}
    (hm : ⟨x, i, .requestVoteResponse r⟩ ∈ S.sent) (hgranted : r.voteGranted = true)
    (hrun : Reaches config S S') :
    S'.Keeps x r.term i ∧ ∀ j r', ⟨x, j, .requestVoteResponse r'⟩ ∈ S'.sent →
      r'.voteGranted = true → r'.term = r.term → j = i := by
  obtain ⟨h, hr⟩ := exists_related hS
  obtain ⟨h', hr', hg⟩ := hr.reaches hrun
  have hvote : h'.vote x r.term = some i := hg.vote_keep (hr.truthful _ hm hgranted)
  refine ⟨keeps_of_vote hr' hvote, fun j r' hm' hgranted' hterm => ?_⟩
  have hvote' : h'.vote x r'.term = some j := hr'.truthful _ hm' hgranted'
  rw [hterm] at hvote'
  exact Option.some.inj (hvote'.symm.trans hvote)

theorem vote_binds_sample : served.Keeps 2 1 1 :=
  (vote_binds (r := ⟨1, true⟩) reachable_served (by decide +kernel) rfl .refl).1

end Cluster

/-! ### Replicas -/

/-- **A replica is behind another one** by some entries, and by nothing else. -/
def RaftNode.Behind (n m : RaftNode) : Prop :=
  ∃ entries, m.applied = n.applied ++ entries ∧
    m.stateMachine = n.stateMachine.applyAll (entries.filterMap (·.command))

theorem RaftNode.behind_of_isPrefix (hn : n.stateMachine = replay n.applied)
    (hm : m.stateMachine = replay m.applied) (hpre : n.applied <+: m.applied) : n.Behind m := by
  obtain ⟨entries, heq⟩ := hpre
  refine ⟨entries, heq.symm, ?_⟩
  rw [hm, hn, ← heq, KvStateMachine.applyAll, List.foldl_filterMap, replay, List.foldl_append]
  congr 1
  funext machine e
  cases e.command <;> rfl

/-- What a node has applied is settled, and its state machine has run it. -/
theorem Related.applied_settled (hr : Related config S h) (hn : S.node i = some n) :
    Settled (quorums config) h n.applied ∧ n.stateMachine = replay n.applied := by
  have filed := (hr.on hn).ledger.filed
  refine ⟨(hr.settled (.memory n hn)).of_isPrefix (List.take_prefix_take_left ?_), filed.machine⟩
  exact filed.applied_le.trans filed.durable_le

/-- **Replicas agree.** Of two nodes, each at its own moment of a run, one is behind the other. In
particular they have the same state if they have applied equally many entries. -/
theorem Cluster.replicas_agree (hS : Reachable config S) (hrun : Reaches config S S')
    (hn : S.node i = some n) (hm : S'.node j = some m) : n.Behind m ∨ m.Behind n := by
  obtain ⟨h, hr⟩ := exists_related hS
  obtain ⟨h', hr', hg⟩ := hr.reaches hrun
  obtain ⟨hsettled, hmachine⟩ := hr.applied_settled hn
  obtain ⟨hsettled', hmachine'⟩ := hr'.applied_settled hm
  exact ((hg.settled hsettled).comparable hr'.chronicled.inv hsettled').imp
    (RaftNode.behind_of_isPrefix hmachine hmachine')
    (RaftNode.behind_of_isPrefix hmachine' hmachine)

theorem Cluster.replicas_agree_sample : ∃ n m, served.node 1 = some n ∧ served.node 2 = some m ∧
    (n.Behind m ∨ m.Behind n) := by
  obtain ⟨n, hn⟩ := Option.isSome_iff_exists.mp (by decide +kernel : (served.node 1).isSome)
  obtain ⟨m, hm⟩ := Option.isSome_iff_exists.mp (by decide +kernel : (served.node 2).isSome)
  exact ⟨n, m, hn, hm, replicas_agree reachable_served .refl hn hm⟩

/-! ### Leaders and their messages -/

namespace Cluster

/-- **An append that is under way**, however old, is a piece of the log that the leader of its term
has now, and up to its commit index this log is what everybody has committed. -/
theorem append_under_way (hS : Reachable config S) {r : AppendEntries}
    (hm : ⟨i, j, .appendEntries r⟩ ∈ S.sent) {l : NodeId} (hn : S.node l = some n)
    (hl : n.role = .leader) (hterm : n.currentTerm = r.term) :
    l = i ∧ r.prevLogIndex + r.entries.length ≤ n.log.length ∧
    r.prevLogTerm = termAt n.log r.prevLogIndex ∧
    r.entries = (n.log.drop r.prevLogIndex).take r.entries.length ∧
    ∀ x t k, S.Holds x t → 1 ≤ k → k ≤ t.commitIndex → k ≤ r.leaderCommit →
      ∃ e, entryAt n.log k = some e ∧ entryAt t.log k = some e := by
  obtain ⟨h, hr⟩ := exists_related hS
  obtain ⟨hled, hlog⟩ := hr.leads hn hl
  obtain ⟨hsender, hlen, hprev, hentries, hcommit, hsettled⟩ := hr.truthful _ hm
  rw [hterm] at hled hlog
  simp only [hlog] at hlen hprev hentries hcommit hsettled
  refine ⟨Option.some.inj (hled.symm.trans hsender), hlen, ?_, hentries,
    fun x t k ht hk hkt hkr => ?_⟩
  · rw [termAt_eq_lastStamp (by omega)]
    exact hprev
  · refine entryAt_of_prefixes ⟨_, List.take_append_drop _ _⟩ ⟨_, List.take_append_drop _ _⟩
      (hsettled.comparable hr.chronicled.inv (hr.settled ht)) hk ?_ ?_
    · rwa [List.length_take_of_le hcommit]
    · rwa [List.length_take_of_le (hr.commit_le ht)]

/-- The first append to node 3 is still under way in the sample run. -/
theorem append_under_way_sample :
    [⟨1, 1, none⟩] = (((served.node 1).get (by decide +kernel)).log.drop 0).take 1 :=
  (append_under_way (i := 1) (j := 3) (r := ⟨1, 1, 2, 0, 0, [⟨1, 1, none⟩], 0⟩) reachable_served
    (by decide +kernel) (Option.some_get _).symm (by decide +kernel) (by decide +kernel)).2.2.2.1

/-! ### Clients -/

/-- **Acknowledged commands come first.** A command that nobody has submitted when another one is
acknowledged comes after it in every log that ever commits it. -/
theorem acknowledged_first {a : Action} {effects : List RaftEffect} {reply : ClientReply}
    (hS : Reachable config S) (hstep : S.step config a = some (S₁, effects))
    (hfree : S₁.CollisionFree) (hreply : .clientReply reply ∈ effects) (hok : reply.status = .ok)
    {later : ClientCommand} (hnew : ¬S₁.commands later) (hrun : Reaches config S₁ S₂)
    (ht : S₂.Holds j t) (hk : k ≤ t.commitIndex) (hlater : CommandAt t.log k later) :
    ∃ command k₀, (a.actor, reply.token, command) ∈ S₁.submitted ∧ k₀ < k ∧
      CommandAt t.log k₀ command := by
  obtain ⟨h, hr⟩ := exists_related hS
  obtain ⟨h₁, adv⟩ := hr.step hstep
  obtain ⟨m, hm, asked, k₀, e, command, hasked, hk₀, hc, hsame, -⟩ := hr.replies hstep hreply hok
  have hr₁ := adv.related
  obtain ⟨h₂, hr₂, hg⟩ := hr₁.reaches hrun
  obtain ⟨hle, he, -⟩ := hr₁.applied_durable hm hk₀
  obtain ⟨x, hx, hxc⟩ := hlater
  have hmem : ∀ {e' : LogEntry} {k'}, entryAt (S₁.durable a.actor).log k' = some e' →
      e' ∈ (S₁.durable a.actor).log := fun he' => List.mem_of_getElem? (entryAt_eq_some.mp he').2
  obtain rfl : asked = command := hfree asked command ⟨_, _, hasked⟩
    (hr₁.submitted .durable (hmem he) hc) hsame.session hsame.sequence hsame.digest
  have hlt : k₀ + 1 < k := by
    by_contra hge
    -- what is committed by then was submitted by then
    obtain ⟨x', hx', hx''⟩ := hr₁.agree hr₂ hg .durable ht (entryAt_eq_some.mp hx).1
      ((not_lt.mp hge).trans hle) hk
    obtain rfl : x = x' := Option.some.inj (hx.symm.trans hx'')
    exact hnew (hr₁.submitted .durable (hmem hx') hxc)
  obtain ⟨e', he', het⟩ := hr₁.agree hr₂ hg .durable ht (Nat.le_add_left 1 k₀) hle (hlt.le.trans hk)
  obtain rfl : e = e' := Option.some.inj (he.symm.trans he')
  exact ⟨asked, k₀ + 1, hasked, hlt, e, het, hc⟩

/-- The two commands of the sample run. -/
theorem acknowledged_first_sample : ∃ command k₀,
    (1, 7, command) ∈ (after Sample.config Sample.acknowledged).submitted ∧ k₀ < 3 ∧
      CommandAt ((after Sample.config (Sample.acknowledged ++ Sample.proceed)).durable 1).log k₀
        command := by
  have hsubmitted :
      (after Sample.config Sample.acknowledged).submitted = [(1, 7, Sample.command)] := by
    decide +kernel
  have honly : ∀ c, (after Sample.config Sample.acknowledged).commands c → c = Sample.command := by
    rintro c ⟨_, _, hc⟩
    rw [hsubmitted, List.mem_singleton] at hc
    exact congrArg (·.2.2) hc
  have hreply : .clientReply ⟨7, .ok, some 1, 2, [⟨118, by decide⟩]⟩ ∈
      effectsAfter Sample.config (Sample.elect ++ Sample.serve) (.complete 1) := by decide +kernel
  have hnew : ¬(after Sample.config Sample.acknowledged).commands Sample.second := fun h =>
    absurd (honly _ h) (by decide)
  exact acknowledged_first reachable_served (step_after (by decide +kernel))
    (fun c c' hc hc' _ _ _ => (honly c hc).trans (honly c' hc').symm) hreply rfl hnew
    (reaches_after (by decide +kernel)) .durable (by decide +kernel)
    ⟨⟨3, 1, some Sample.second⟩, by decide +kernel, rfl⟩

end Cluster

end DetLog
