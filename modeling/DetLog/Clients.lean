import DetLog.Safety

/-!
# What clients can rely on

In every log of the cluster the commands of a session stand in the order of their numbers,
without gaps or repetitions, so that the state machine never refuses a committed command
(`DetLog.Cluster.sessions_consecutive`). A client that is told `ok` has its command at
exactly one index of the durably committed log, the reply carries the value that applying it
there gives, and no node will ever have anything else there
(`DetLog.Cluster.acknowledged_once`).
-/

namespace DetLog

open Consensus Consensus.History

variable {config : RaftConfig} {S S' S₀ : Cluster} {h h' : Chronicle} {i : NodeId} {n m : RaftNode}
  {a : Action} {effects : List RaftEffect} {s : RecoveredState} {k : ℕ} {e : LogEntry}

/-! ### Logs are orderly -/

section

variable (hr : Related config S h) (hs : S.Holds i s)
include hr hs

theorem Related.orderly : Orderly s.log :=
  hr.chronicled.orderly_of_traces (hr.traces hs)

theorem Related.formed : WellFormed (config.forNode i).sorted s := by
  cases hs with
  | memory n on =>
    have hon := hr.on on
    have hform := hon.coherent.formed
    rwa [hon.config_eq] at hform
  | durable => exact (hr.hosts i).kept.formed

/-- A command in a log was submitted. -/
theorem Related.submitted {command : ClientCommand} (he : e ∈ s.log)
    (hc : e.command = some command) :
    S.commands command := by
  have horigin := hr.chronicled.origin_of_traces (hr.traces hs) e he
  rwa [Origin, hc] at horigin

/-- The state machine accepts every command of a log in its turn. -/
theorem Related.apply_executed {command : ClientCommand} (he : s.log[k]? = some e)
    (hc : e.command = some command) : ((replay (s.log.take k)).apply command).2.executed = true ∧
      ((replay (s.log.take k)).apply command).2.status = .ok := by
  have hform := hr.formed hs
  refine (hr.orderly hs).apply_executed hform.length_le (fun x hx c hxc => ?_) he hc
  exact structurallyValid_of_acceptable (hform.entries x hx).2.2 hxc

end

/-- **The rounds of `apply_committed`** replay the log. -/
theorem Ctx.applyRounds_replay (c : Ctx) (fuel : ℕ)
    (hm : c.node.stateMachine = replay (c.node.log.take c.node.lastApplied))
    (hle : c.node.lastApplied + fuel ≤ c.node.commitIndex)
    (hlen : c.node.commitIndex ≤ c.node.log.length) :
    (c.applyRounds fuel).node.stateMachine =
      replay (c.node.log.take (c.node.lastApplied + fuel)) := by
  induction fuel generalizing c with
  | zero => exact hm
  | succ fuel ih =>
    have hlt : c.node.lastApplied < c.node.commitIndex := by omega
    obtain ⟨e, he⟩ : ∃ e, entryAt c.node.log (c.node.lastApplied + 1) = some e :=
      ⟨_, by rw [entryAt_succ]; exact List.getElem?_eq_getElem (by omega)⟩
    rw [Ctx.applyRounds]
    simp only [if_pos hlt, he]
    have hret := retires_applyEntry c e
    refine (ih _ (hret.replays hm he) ?_ ?_).trans ?_
    · rw [hret.lastApplied, hret.commit.1]
      omega
    · rw [hret.commit.1, hret.log]
      exact hlen
    · rw [hret.log, hret.lastApplied, Nat.add_right_comm, Nat.add_assoc]

/-- **Session discipline.** In every log of the cluster, volatile or durable, the commands of
a session carry the numbers `1, 2, …, k` in this order. So the state machine executes every
command when its turn comes: in the replay of the constructor, and in each round of
`apply_committed`, from the state machine that the node has. -/
theorem Cluster.sessions_consecutive (hS : Reachable config S) (hs : S.Holds i s) :
    (∀ session, ∃ count, sequences session s.log = List.range' 1 count) ∧
    (∀ k e command, s.log[k]? = some e → e.command = some command →
      ((replay (s.log.take k)).apply command).2.executed = true ∧
        ((replay (s.log.take k)).apply command).2.status = .ok) ∧
    ∀ n, S.node i = some n → ∀ c : Ctx, c.node.log = n.log → c.node.lastApplied = n.lastApplied →
      c.node.commitIndex = n.commitIndex → c.node.stateMachine = n.stateMachine →
      ∀ fuel e command, n.lastApplied + fuel < n.commitIndex →
        entryAt n.log (n.lastApplied + fuel + 1) = some e → e.command = some command →
        ((c.applyRounds fuel).node.stateMachine.apply command).2.executed = true ∧
          ((c.applyRounds fuel).node.stateMachine.apply command).2.status = .ok := by
  obtain ⟨h, hr⟩ := exists_related hS
  refine ⟨fun session => ⟨_, hr.orderly hs session⟩,
    fun k e command he hc => hr.apply_executed hs he hc, ?_⟩
  intro n hn c hlog hlast hcommit hmachine fuel e command hlt he hc
  have hon := hr.on hn
  have hreplay := c.applyRounds_replay fuel
    (by rw [hmachine, hlog, hlast, hon.ledger.filed.machine])
    (by rw [hlast, hcommit]; exact hlt.le)
    (by rw [hcommit, hlog]; exact hon.coherent.formed.commit_le)
  rw [entryAt_succ] at he
  rw [hreplay, hlog, hlast]
  exact hr.apply_executed (.memory n hn) he hc

/-- The sample run has two commands of its session in the log of node 1. -/
theorem Cluster.sessions_consecutive_sample :
    let s := (after Sample.config (Sample.acknowledged ++ Sample.proceed)).durable 1
    sequences ⟨0, 5⟩ s.log = [1, 2] ∧ ∃ count, sequences ⟨0, 5⟩ s.log = List.range' 1 count :=
  ⟨by decide +kernel, (sessions_consecutive (reachable_after (by decide +kernel)) .durable).1 _⟩

/-! ### Replies -/

/-- A command stands at an index of a log. -/
def CommandAt (log : List LogEntry) (k : ℕ) (command : ClientCommand) : Prop :=
  ∃ e, entryAt log k = some e ∧ e.command = some command

/-- No two submitted commands with the same session and number collide in their digest. -/
def Cluster.CollisionFree (S : Cluster) : Prop :=
  ∀ c c', S.commands c → S.commands c' → c.session = c'.session → c.sequence = c'.sequence →
    KvStateMachine.commandDigest c = KvStateMachine.commandDigest c' → c = c'

/-- A successful reply answers a request with what applying it returned. -/
theorem Related.replies (hr : Related config S h) (hstep : S.step config a = some (S', effects))
    {reply : ClientReply} (hreply : .clientReply reply ∈ effects) (hok : reply.status = .ok) :
    ∃ m, S'.node a.actor = some m ∧
      ReplyOk (S'.events a.actor) m.applied reply.token reply.value := by
  cases Cluster.move_of_step hstep with
  | boot i n off created => simp at hreply
  | start i n on =>
    rcases start_cases n with heq | heq <;> rw [heq] at hreply <;> simp at hreply
  | @feed _ i e host S₀ n feeds on actor live =>
    obtain ⟨he, hsent, hsub, hhosts⟩ := Cluster.feeds_mem feeds
    have hevents := events_subset (S := S) (fun m hm => hsent ▸ hm) hsub i
    have hon := (hr.on on).mono (Grows.refl h) (Untouched.refl _ _) hevents
    obtain ⟨-, hl⟩ := (hon.coherent.bookRule hon.ledger he).step
    subst actor
    refine ⟨(n.step e).node, by rw [Cluster.node, Cluster.hosts_absorb_self], ?_⟩
    obtain ⟨asked, k, x, command, hasked, hrest⟩ := hl.replies reply hreply hok
    exact ⟨asked, k, x, command, hasked, hrest⟩
  | crash i n keep on => simp at hreply

/-- What a node has applied is in its durably committed log. -/
theorem Related.applied_durable (hr : Related config S h) (hn : S.node i = some n)
    (hk : n.applied[k]? = some e) :
    k + 1 ≤ (S.durable i).commitIndex ∧ entryAt (S.durable i).log (k + 1) = some e ∧
      n.applied.take k = (S.durable i).log.take k := by
  have hon := hr.on hn
  obtain ⟨hlt, -⟩ := List.getElem?_eq_some_iff.mp hk
  have happlied : k + 1 ≤ n.lastApplied := by
    have := List.length_take_le n.lastApplied n.log
    exact hlt.trans_le this
  have hdurable : k + 1 ≤ (S.durable i).commitIndex := by
    rw [← hon.coherent.commitIndex]
    exact happlied.trans hon.ledger.filed.applied_le
  have hcommit : k + 1 ≤ n.memory.commitIndex := by
    rw [← hon.coherent.commitIndex] at hdurable
    exact hdurable.trans hon.ledger.filed.durable_le
  obtain ⟨e', hmem, hdur⟩ := hr.agree hr (Grows.refl h) (.memory n hn) .durable
    (Nat.le_add_left 1 k) hcommit hdurable
  have hlog : entryAt n.log (k + 1) = some e := by
    rw [entryAt_succ]
    rwa [RaftNode.applied, List.getElem?_take_of_lt (by omega)] at hk
  obtain rfl : e = e' := Option.some.inj (hlog.symm.trans hmem)
  refine ⟨hdurable, hdur, ?_⟩
  have htake := take_eq_of_traces (hr.traces (.memory n hn)) (hr.traces .durable) hmem hdur rfl
  have := congrArg (List.take k) htake
  rw [List.take_take, List.take_take, min_eq_left (Nat.le_succ k)] at this
  rw [RaftNode.applied, List.take_take, min_eq_left (by omega)]
  exact this

/-- **An acknowledged command is never lost or misreported.** A client that gets `ok` for a
token has submitted it with a command that stands at exactly one index of the durably
committed log of that node; the reply has the value that applying it there gives, and every
node that ever commits this index has the command there. -/
theorem Cluster.acknowledged_once (hS : Reachable config S)
    (hstep : S.step config a = some (S', effects)) (hfree : S'.CollisionFree)
    {reply : ClientReply} (hreply : .clientReply reply ∈ effects) (hok : reply.status = .ok) :
    ∃ command, (a.actor, reply.token, command) ∈ S'.submitted ∧
      ∃ k, 1 ≤ k ∧ k ≤ (S'.durable a.actor).commitIndex ∧
        CommandAt (S'.durable a.actor).log k command ∧
        (∀ k', k' ≤ (S'.durable a.actor).commitIndex →
          CommandAt (S'.durable a.actor).log k' command → k' = k) ∧
        ((replay ((S'.durable a.actor).log.take (k - 1))).apply command).2.value = reply.value ∧
        ∀ S'', Reaches config S' S'' → ∀ j t, S''.Holds j t → k ≤ t.commitIndex →
          CommandAt t.log k command := by
  obtain ⟨h, hr⟩ := exists_related hS
  obtain ⟨h', adv⟩ := hr.step hstep
  obtain ⟨m, hm, asked, k, e, command, hasked, hk, hc, hsame, -, hvalue⟩ :=
    hr.replies hstep hreply hok
  have hr' := adv.related
  obtain ⟨hle, he, htake⟩ := hr'.applied_durable hm hk
  have hmem : e ∈ (S'.durable a.actor).log :=
    List.mem_of_getElem? (entryAt_eq_some.mp he).2
  -- Without collisions the digest identifies the command that the client has asked for.
  obtain rfl : asked = command := hfree asked command ⟨_, _, hasked⟩
    (hr'.submitted .durable hmem hc) hsame.session hsame.sequence hsame.digest
  refine ⟨asked, hasked, k + 1, Nat.le_add_left 1 k, hle, ⟨e, he, hc⟩, ?_, ?_, ?_⟩
  · rintro k' - ⟨e', he', hc'⟩
    obtain ⟨hpos, hget'⟩ := entryAt_eq_some.mp he'
    rw [entryAt_succ] at he
    have := (hr'.orderly .durable).eq_of_command hget' he hc' hc
    omega
  · rw [Nat.add_sub_cancel, ← htake]
    exact hvalue
  · intro S'' hrun j t ht hkt
    obtain ⟨h'', hr'', hg⟩ := hr'.reaches hrun
    obtain ⟨e', h₁, h₂⟩ := hr'.agree hr'' hg .durable ht (Nat.le_add_left 1 k) hle hkt
    obtain rfl : e = e' := Option.some.inj (he.symm.trans h₁)
    exact ⟨e, h₂, hc⟩

/-- The client of the sample run is told `ok` for the value it has put. -/
theorem Cluster.acknowledged_once_sample :
    ∃ command, (1, 7, command) ∈
        (after Sample.config ((Sample.elect ++ Sample.serve) ++ [.complete 1])).submitted ∧
      ∃ k, CommandAt ((after Sample.config
          ((Sample.elect ++ Sample.serve) ++ [.complete 1])).durable 1).log k command ∧
        ((replay (((after Sample.config ((Sample.elect ++ Sample.serve) ++
          [.complete 1])).durable 1).log.take (k - 1))).apply command).2.value =
            [⟨118, by decide⟩] := by
  have hsubmitted : (after Sample.config
      ((Sample.elect ++ Sample.serve) ++ [.complete 1])).submitted = [(1, 7, Sample.command)] := by
    decide +kernel
  have hfree : (after Sample.config
      ((Sample.elect ++ Sample.serve) ++ [.complete 1])).CollisionFree := by
    rintro c c' ⟨_, _, hc⟩ ⟨_, _, hc'⟩ - - -
    rw [hsubmitted, List.mem_singleton] at hc hc'
    simp only [Prod.mk.injEq] at hc hc'
    rw [hc.2.2, hc'.2.2]
  have hreply : .clientReply ⟨7, .ok, some 1, 2, [⟨118, by decide⟩]⟩ ∈
      effectsAfter Sample.config (Sample.elect ++ Sample.serve) (.complete 1) := by
    decide +kernel
  obtain ⟨command, hc, k, -, -, hk, -, hvalue, -⟩ :=
    acknowledged_once (reachable_after (by decide +kernel)) (step_after (by decide +kernel)) hfree
      hreply rfl
  exact ⟨command, hc, k, hk, hvalue⟩

end DetLog
