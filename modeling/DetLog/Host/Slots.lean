import DetLog.Host.Gate

/-!
# The clients of a host

A token that the host has accepted is at one of five places: among the requests that wait, among
the events of the owner, with the node, in an effect that has not been carried out, or in a reply.
All this time it has a slot, and a reply takes over the slot of its token, so there is always room
for it.

When the host fails it answers the tokens that still have a slot, wherever they are. What the node
would have answered later, or has answered in an effect that is now thrown away, is lost with the
node, so no token is answered twice.

`DetLog.NodeHost.Paid` is the invariant of the slots, `DetLog.NodeHost.Served` the one that
follows the tokens on their way. Both hold with and without group commit.
-/

namespace DetLog

namespace NodeHost

/-! ### Slots -/

/-- The tokens that the node has answered through effects that were carried out. -/
def served (h : NodeHost) : Multiset ClientToken := answered (h.history.dispatched.map Prod.snd)

/-- The replies that clients have got or can get. -/
def answers (h : NodeHost) : List ClientReply := h.history.delivered ++ h.replies

/-- **The slots of a host.** -/
structure Paid (h : NodeHost) : Prop where
  fresh : ∀ token ∈ h.history.accepted, token < h.nextClientToken
  nodup : h.history.accepted.Nodup
  sound : h.running = true → h.fatalError = false
  begun : h.started = false → h.running = false ∧ h.fatalError = false
  slots : h.outstandingTokens.length + h.replies.length ≤ h.config.limits.maxClientSlots
  discarded : h.history.discarded = []
  working : h.fatalError = false →
    (h.outstandingTokens : Multiset ClientToken) + h.served = h.history.accepted ∧
      (h.answers.map ClientReply.token : Multiset ClientToken) = h.served
  failed : h.fatalError = true → h.outstandingTokens = [] ∧
    ∃ (replies : List ClientReply) (tokens : List ClientToken),
    h.answers = replies ++ tokens.map unavailableReply ∧
      (replies.map ClientReply.token : Multiset ClientToken) = h.served ∧
      (tokens : Multiset ClientToken) + h.served = h.history.accepted

section Paid

variable {h h' : NodeHost}

/-- There is room for all the replies. -/
theorem answerAll_eq {maximum : ℕ} {replies : List ClientReply} {tokens : List ClientToken}
    (hroom : tokens.length + replies.length ≤ maximum) :
    answerAll maximum replies tokens = replies ++ tokens.map unavailableReply := by
  induction tokens generalizing replies with
  | nil => simp [answerAll]
  | cons token rest ih =>
    rw [List.length_cons] at hroom
    rw [answerAll, if_neg (by omega), ih (by simp; omega), List.map_cons, List.append_assoc,
      List.singleton_append]

/-- A failure answers every token that has a slot. -/
theorem Paid.fail (hp : Paid h) (running : h.running = true) : Paid h.failTransport := by
  obtain ⟨htokens, hanswers⟩ := hp.working (hp.sound running)
  rw [failTransport_eq running, answerAll_eq hp.slots]
  refine ⟨hp.fresh, hp.nodup, by simp, fun hstarted => ?_, ?_, hp.discarded, by simp,
    fun _ => ⟨rfl, h.answers, h.outstandingTokens, ?_, hanswers, htokens⟩⟩
  · exact absurd (running.symm.trans (hp.begun hstarted).1) (by simp)
  · have hslots := hp.slots
    simp only [List.length_nil, List.length_append, List.length_map]
    omega
  · simp [answers]

/-- The host with an effect among those that were carried out. -/
def noting (h : NodeHost) (effect : RaftEffect) : NodeHost :=
  { h with history := { h.history with
      dispatched := h.history.dispatched ++ [(h.storage.journal.flushed, effect)] } }

theorem served_noting (h : NodeHost) (effect : RaftEffect) :
    (h.noting effect).served = h.served + answered [effect] := by
  simp [served, noting, answered_append]

/-- An effect that answers nobody. -/
theorem Paid.noting (hp : Paid h) (effect : RaftEffect) (hnone : effect.answered = none) :
    Paid (h.noting effect) := by
  have hserved : (h.noting effect).served = h.served := by
    rw [served_noting]
    simp [answered, hnone]
  refine { hp with working := ?_, failed := ?_ } <;> rw [hserved]
  exacts [hp.working, hp.failed]

/-- A reply takes over the slot of its token. -/
theorem Paid.reply (hp : Paid h) (running : h.running = true) (r : ClientReply)
    (hle : h.served + answered [.clientReply r] ≤ h.history.accepted) :
    Paid ((h.noting (.clientReply r)).reply r) := by
  have hfatal := hp.sound running
  obtain ⟨htokens, hanswers⟩ := hp.working hfatal
  have hone : answered [.clientReply r] = {r.token} := rfl
  have hmem : r.token ∈ h.outstandingTokens := by
    rw [← htokens, hone, add_comm, add_le_add_iff_right, Multiset.singleton_le] at hle
    exact Multiset.mem_coe.mp hle
  have hpos := List.length_pos_of_mem hmem
  have hslots := hp.slots
  have hroom : h.replies.length < h.config.limits.maxClientSlots := by omega
  have hreply : (h.noting (.clientReply r)).reply r = { h.noting (.clientReply r) with
      outstandingTokens := h.outstandingTokens.erase r.token, replies := h.replies ++ [r] } :=
    if_pos hroom
  have herase : (h.outstandingTokens : Multiset ClientToken) =
      {r.token} + (h.outstandingTokens.erase r.token : List ClientToken) := by
    rw [← Multiset.coe_erase, Multiset.singleton_add,
      Multiset.cons_erase (Multiset.mem_coe.mpr hmem)]
  have hserved : (h.noting (.clientReply r)).served = h.served + {r.token} := served_noting h _
  rw [hreply]
  refine ⟨hp.fresh, hp.nodup, hp.sound, hp.begun, ?_, hp.discarded, fun _ => ⟨?_, ?_⟩,
    fun hf => absurd (hfatal.symm.trans hf) (by simp)⟩
  · change (h.outstandingTokens.erase r.token).length + (h.replies ++ [r]).length ≤ _
    rw [List.length_erase_of_mem hmem, List.length_append, List.length_singleton]
    exact le_trans (by omega) hslots
  · rw [herase] at htokens
    change ((h.outstandingTokens.erase r.token : List ClientToken) : Multiset ClientToken) +
      (h.noting (.clientReply r)).served = h.history.accepted
    rw [hserved, ← htokens, add_comm h.served, ← add_assoc]
    exact congrArg (· + h.served) (add_comm _ _)
  · change ((h.history.delivered ++ (h.replies ++ [r])).map ClientReply.token :
      Multiset ClientToken) = (h.noting (.clientReply r)).served
    rw [hserved, ← hanswers, answers, ← List.append_assoc, List.map_append, ← Multiset.coe_add]
    rfl

/-- **An effect is carried out**, for which its token still has a slot. -/
theorem Paid.dispatching (hp : Paid h) (running : h.running = true) (effect : RaftEffect)
    (hle : h.served + answered [effect] ≤ h.history.accepted) : Paid (h.dispatching effect) := by
  have hnoting : h.dispatching effect = (h.noting effect).carryOut effect := rfl
  rw [hnoting]
  cases effect with
  | persist p => exact hp.noting _ rfl
  | send envelope =>
    have hn := hp.noting (.send envelope) rfl
    simp only [carryOut]
    split
    · exact hn.fail running
    · exact hn
  | scheduleTimer timer =>
    have hn := hp.noting (.scheduleTimer timer) rfl
    change Paid ((h.noting (.scheduleTimer timer)).scheduleTimer timer)
    unfold NodeHost.scheduleTimer
    split <;>
      exact { hn with }
  | clientReply r => exact hp.reply running r hle
  | trace record =>
    have hn := hp.noting (.trace record) rfl
    change Paid (if _ then _ else _)
    split_ifs
    · exact { hn with }
    · exact hn

theorem history_failTransport (h : NodeHost) : h.failTransport.history = h.history := by
  unfold failTransport
  split_ifs <;> rfl

/-- What the clients have got, and what the host owes them, after some effects. -/
theorem Dispatches.accounts {out : List QuarantinedEffect} (d : Dispatches h out h') :
    h'.served = h.served + answered (out.map QuarantinedEffect.effect) ∧
      h'.history.accepted = h.history.accepted ∧ h'.history.delivered = h.history.delivered ∧
      h'.history.calls = h.history.calls := by
  have hcarried : ∀ {h₁ : NodeHost}, Carried h (out.map QuarantinedEffect.effect) h₁ →
      h₁.served = h.served + answered (out.map QuarantinedEffect.effect) ∧
        h₁.history.accepted = h.history.accepted ∧ h₁.history.delivered = h.history.delivered ∧
        h₁.history.calls = h.history.calls := by
    rintro h₁ ⟨tokens, replies, traces, election, heartbeat, discarded, rfl⟩
    refine ⟨?_, rfl, rfl, rfl⟩
    simp [served, answered_append, Function.comp_def]
  rcases d.carried with c | ⟨h₁, c, rfl⟩
  · exact hcarried c
  · have hserved : h₁.failTransport.served = h₁.served := by
      rw [served, history_failTransport]
      rfl
    rw [hserved, history_failTransport]
    exact hcarried c

/-- Effects are carried out, one after the other. -/
theorem Paid.dispatches {out : List QuarantinedEffect} (d : Dispatches h out h') (hp : Paid h)
    (hle : h.served + answered (out.map QuarantinedEffect.effect) ≤ h.history.accepted) :
    Paid h' := by
  induction d with
  | nil h => exact hp
  | @cons h h' q rest running other next ih =>
    obtain ⟨hserved, haccepted, -⟩ := (Dispatches.cons running other (.nil _)).accounts
    rw [List.map_cons, ← List.singleton_append, answered_append, ← add_assoc] at hle
    refine ih (hp.dispatching running q.effect ((Multiset.le_add_right _ _).trans hle)) ?_
    rw [hserved, haccepted]
    exact hle

end Paid

/-! ### The way of a token -/

/-- **Where the tokens are.** What was submitted to the node, waits among the events, or waits
among the requests, has been accepted; and what has been carried out, is held back, or is in hand,
has been answered by the node. -/
structure Served (s₀ : Driven) (b : Busy) : Prop where
  paid : Paid b.host
  node : b.host.raft = (s₀.run b.host.history.inputs).node
  accepted : (Driven.submitted b.host.history.inputs : Multiset ClientToken) +
    asked b.host.ownerEvents + (b.host.clientQueue.map Prod.fst : List ClientToken) ≤
      b.host.history.accepted
  others : b.host.fatalError = false → ∀ q ∈ b.host.quarantinedEffects, q.effect.batch? = none
  settled : b.host.fatalError = false → b.host.served +
    answered (b.host.quarantinedEffects.map QuarantinedEffect.effect) +
      answered (b.todo.map QuarantinedEffect.effect) ≤ answered (s₀.outputs b.host.history.inputs)

section Served

variable {s₀ : Driven} {h h' : NodeHost} {notices : List StorageNotice}
  {delayed : Option StorageComplete} {todo : List QuarantinedEffect} {b : Busy}

theorem outputs_concat (s : Driven) (inputs : List Input) (i : Input) :
    s.outputs (inputs ++ [i]) = s.outputs inputs ++ ((s.run inputs).ctx i).effects := by
  induction inputs generalizing s with
  | nil => simp [Driven.outputs, Driven.run]
  | cons j rest ih =>
    rw [List.cons_append, Driven.outputs, ih, Driven.outputs, List.append_assoc]
    rfl

theorem submitted_concat (inputs : List Input) (i : Input) :
    (Driven.submitted (inputs ++ [i]) : Multiset ClientToken) =
      Driven.submitted inputs + Driven.submitted [i] := by
  rw [Driven.submitted, List.filterMap_append, ← Multiset.coe_add]
  rfl

/-- A call of the node changes the node, the record and the gate. -/
theorem calling_record (h : NodeHost) (i : Input) : ∃ last active, h.calling i = { h with
    raft := (h.reaction i).node
    history := h.history.record h.storage.journal.flushed i (h.reaction i).effects
    lastSubmittedOperation := last
    groupBarrierActive := active } := by
  unfold calling openGate
  split_ifs
  · exact ⟨_, _, rfl⟩
  · exact ⟨_, _, rfl⟩

theorem effects_effectsOf (h : NodeHost) (i : Input) :
    (h.effectsOf i).map QuarantinedEffect.effect = (h.reaction i).effects := by
  simp [effectsOf, tagged, Function.comp_def]

/-- **The node is called.** -/
theorem Served.call (hs : Served s₀ ⟨h, notices, delayed, []⟩) (i : Input)
    (delayed' : Option StorageComplete)
    (hle : (Driven.submitted h.history.inputs : Multiset ClientToken) + Driven.submitted [i] +
      asked h.ownerEvents + (h.clientQueue.map Prod.fst : List ClientToken) ≤
        h.history.accepted) :
    Served s₀ ⟨h.calling i, notices, delayed', h.effectsOf i⟩ := by
  have hp := hs.paid
  have hreaction := reaction_eq hs.node i
  have heffects := effects_effectsOf h i
  obtain ⟨last, active, heq⟩ := calling_record h i
  rw [heq]
  refine ⟨{ hp with },
    ?_, ?_, hs.others, fun hfatal => ?_⟩
  · dsimp only
    rw [inputs_record, run_concat, hreaction]
    rfl
  · dsimp only
    rw [inputs_record, submitted_concat]
    exact hle
  · have hanswered := hs.settled hfatal
    rw [List.map_nil, show answered [] = 0 from rfl, add_zero] at hanswered
    dsimp only
    rw [heffects, inputs_record, outputs_concat, answered_append, ← hreaction]
    exact add_le_add_left hanswered _

theorem Served.submitted_le (hs : Served s₀ b) :
    (Driven.submitted b.host.history.inputs : Multiset ClientToken) ≤ b.host.history.accepted :=
  (Multiset.le_add_right _ _).trans ((Multiset.le_add_right _ _).trans hs.accepted)

/-- What is owed to clients is covered by slots. -/
theorem Served.owed (honest : ∀ inputs, answered (s₀.outputs inputs) ≤ Driven.submitted inputs)
    (hs : Served s₀ b) (hfatal : b.host.fatalError = false) :
    b.host.served + answered (b.host.quarantinedEffects.map QuarantinedEffect.effect) +
      answered (b.todo.map QuarantinedEffect.effect) ≤ b.host.history.accepted :=
  (hs.settled hfatal).trans ((honest _).trans hs.submitted_le)

theorem answered_cons (q : QuarantinedEffect) (rest : List QuarantinedEffect) :
    answered ((q :: rest).map QuarantinedEffect.effect) =
      answered [q.effect] + answered (rest.map QuarantinedEffect.effect) := by
  rw [List.map_cons, ← List.singleton_append, answered_append]

theorem answered_filter (p : QuarantinedEffect → Bool) (held : List QuarantinedEffect) :
    answered ((held.filter p).map QuarantinedEffect.effect) +
      answered ((held.filter fun q => !p q).map QuarantinedEffect.effect) =
        answered (held.map QuarantinedEffect.effect) := by
  induction held with
  | nil => rfl
  | cons q rest ih =>
    rw [answered_cons, ← ih]
    cases hq : p q with
    | true =>
      rw [List.filter_cons_of_pos hq, List.filter_cons_of_neg (by simp [hq]), answered_cons,
        add_assoc]
    | false =>
      rw [List.filter_cons_of_neg (by simp [hq]), List.filter_cons_of_pos (by simp [hq]),
        answered_cons, add_left_comm]

theorem answered_le_of_isPrefix {l l' : List QuarantinedEffect} (hle : l <+: l') :
    answered (l.map QuarantinedEffect.effect) ≤ answered (l'.map QuarantinedEffect.effect) := by
  obtain ⟨rest, rfl⟩ := hle
  rw [List.map_append, answered_append]
  exact Multiset.le_add_right _ _

theorem emptied {t accepted : Multiset ClientToken} (hle : t ≤ accepted) :
    t + asked [] + (([] : List (ClientToken × ClientCommand)).map Prod.fst : List ClientToken) ≤
      accepted := by
  simpa [asked] using hle

/-- A host that has failed holds nothing. -/
theorem Served.fail (hs : Served s₀ b) (running : b.host.running = true)
    (notices : List StorageNotice) (delayed : Option StorageComplete)
    (todo : List QuarantinedEffect) :
    Served s₀ ⟨b.host.failTransport, notices, delayed, todo⟩ := by
  have hp := hs.paid.fail running
  have haccepted := hs.submitted_le
  rw [failTransport_eq running] at hp ⊢
  exact ⟨hp, hs.node, emptied haccepted, by simp, by simp⟩

/-- **A barrier** lets effects go that were held back. -/
theorem Served.barrier (honest : ∀ inputs, answered (s₀.outputs inputs) ≤ Driven.submitted inputs)
    {n : StorageNotice} (hs : Served s₀ ⟨h, n :: notices, none, []⟩) (running : h.running = true) :
    Served s₀ ⟨h.openBarrier n, notices, n.delayedCompletion, []⟩ := by
  have hp := hs.paid
  have hfatal : h.fatalError = false := hp.sound running
  have howed := hs.owed honest hfatal
  have hsettled := hs.settled hfatal
  set d := max h.durableOperationThrough n.durableThrough with hd
  set h₁ : NodeHost := { h with durableOperationThrough := d } with hh₁
  have hp₁ : Paid h₁ :=
    { hp with }
  obtain ⟨out, hout, hsteps, hend⟩ :=
    dispatches_release (h := h₁) running (hs.others hfatal) []
  have hfilter := answered_filter (fun q => decide (q.durabilityDependency ≤ d))
    h.quarantinedEffects
  have hpaid : Paid (h₁.release h.quarantinedEffects []).1 := by
    refine hp₁.dispatches hsteps (le_trans ?_ howed)
    refine le_trans (add_le_add_right ((answered_le_of_isPrefix hout).trans ?_) _)
      (Multiset.le_add_right _ _)
    rw [← hfilter]
    exact Multiset.le_add_right _ _
  have hopen : h.openBarrier n = { (h₁.release h.quarantinedEffects []).1 with
      quarantinedEffects := (h₁.release h.quarantinedEffects []).2
      groupBarrierActive := decide ((h₁.release h.quarantinedEffects []).1.durableOperationThrough <
        (h₁.release h.quarantinedEffects []).1.lastSubmittedOperation) } := rfl
  rw [hopen]
  rcases hsteps.carried with c | ⟨h₂, c, heq⟩
  · obtain ⟨tokens, replies, traces, election, heartbeat, discarded, heq⟩ := c
    obtain ⟨rfl, hwait⟩ := hend (by rw [heq]; exact running)
    have hserved := hsteps.accounts.1
    rw [heq] at hpaid hserved ⊢
    rw [hwait, List.nil_append]
    refine ⟨{ hpaid with }, hs.node, hs.accepted,
      fun _ q hq => hs.others hfatal q (List.mem_of_mem_filter hq), fun _ => ?_⟩
    refine le_trans (le_of_eq ?_) hsettled
    have hheld : answered ((h.quarantinedEffects.filter fun q =>
        decide (d < q.durabilityDependency)).map QuarantinedEffect.effect) =
        answered ((h.quarantinedEffects.filter fun q =>
          !decide (q.durabilityDependency ≤ d)).map QuarantinedEffect.effect) := by
      simp only [← decide_not, not_le]
    refine congrArg (· + answered []) ?_
    change _ = h.served + _
    rw [← hfilter, ← hheld, ← add_assoc]
    exact congrArg (· + _) hserved
  · obtain ⟨tokens, replies, traces, election, heartbeat, discarded, rfl⟩ := c
    have hsub := hs.submitted_le
    rw [heq, failTransport_eq (by exact running)] at hpaid ⊢
    exact ⟨{ hpaid with }, hs.node, emptied hsub, by simp, by simp⟩

/-- Effects in hand can be left. -/
theorem Served.leave (hs : Served s₀ b) (todo : List QuarantinedEffect)
    (hle : answered (todo.map QuarantinedEffect.effect) ≤
      answered (b.todo.map QuarantinedEffect.effect)) (notices : List StorageNotice)
    (delayed : Option StorageComplete) : Served s₀ ⟨b.host, notices, delayed, todo⟩ :=
  { hs with settled := fun hfatal => (add_le_add_right hle _).trans (hs.settled hfatal) }

/-- **An effect leaves the host.** -/
theorem Served.dispatch (honest : ∀ inputs, answered (s₀.outputs inputs) ≤ Driven.submitted inputs)
    {q : QuarantinedEffect} (hs : Served s₀ ⟨h, notices, delayed, q :: todo⟩)
    (running : h.running = true) (other : q.effect.batch? = none) :
    Served s₀ ⟨h.dispatching q.effect, notices, delayed, todo⟩ := by
  have hfatal : h.fatalError = false := hs.paid.sound running
  have howed := hs.owed honest hfatal
  have hsettled := hs.settled hfatal
  rw [answered_cons] at howed hsettled
  have hpaid : Paid (h.dispatching q.effect) := by
    refine hs.paid.dispatching running q.effect (le_trans ?_ howed)
    rw [add_assoc]
    refine add_le_add_right ?_ _
    exact (Multiset.le_add_right _ _).trans (Multiset.le_add_left _ _)
  have hserved := (Dispatches.cons running other (.nil _)).accounts.1
  rcases carried_dispatching h q.effect with c | ⟨h₂, c, heq⟩
  · obtain ⟨tokens, replies, traces, election, heartbeat, discarded, heq⟩ := c
    rw [heq] at hpaid hserved ⊢
    refine ⟨hpaid, hs.node, hs.accepted, hs.others, fun _ => le_trans (le_of_eq ?_) hsettled⟩
    rw [hserved]
    change h.served + answered [q.effect] + answered (h.quarantinedEffects.map _) + _ =
      h.served + answered (h.quarantinedEffects.map _) + _
    rw [add_right_comm h.served, add_assoc _ (answered [q.effect])]
  · obtain ⟨tokens, replies, traces, election, heartbeat, discarded, rfl⟩ := c
    have hsub := hs.submitted_le
    rw [heq, failTransport_eq (by exact running)] at hpaid ⊢
    exact ⟨hpaid, hs.node, emptied hsub, by simp, by simp⟩

/-- **Every move keeps the account.** -/
theorem Served.move (honest : ∀ inputs, answered (s₀.outputs inputs) ≤ Driven.submitted inputs)
    {b b' : Busy} (m : Move b b') (hs : Served s₀ b) : Served s₀ b' := by
  have hp := hs.paid
  cases m with
  | worker b s | ahead b => exact { hs with paid := { hp with } }
  | start h fresh idle =>
    obtain ⟨-, hfatal⟩ := hp.begun fresh
    have hbase : Served s₀ ⟨{ h with
        started := true
        running := true
        storage := { h.storage with started := true } }, [], none, []⟩ :=
      { hs with
          paid := ⟨hp.fresh, hp.nodup, fun _ => hfatal, by simp, hp.slots, hp.discarded,
            hp.working, hp.failed⟩ }
    refine hbase.call .start none ?_
    have haccepted := hs.accepted
    rwa [show Driven.submitted [.start] = [] from rfl, Multiset.coe_nil, add_zero]
  | event h running e rest next =>
    have haccepted := hs.accepted
    have hsplit : asked h.ownerEvents = Driven.submitted [.event e] + asked rest := by
      rw [next, ← List.singleton_append, asked_append]
      cases e <;> rfl
    rw [hsplit, ← add_assoc] at haccepted
    have hbase : Served s₀ ⟨{ h with ownerEvents := rest }, [], none, []⟩ := by
      refine ⟨{ hp with }, hs.node, le_trans ?_ haccepted, hs.others, hs.settled⟩
      exact add_le_add_left (add_le_add_left (Multiset.le_add_right _ _) _) _
    exact hbase.call (.event e) none haccepted
  | take h running count =>
    exact { hs with paid := { hp with } }
  | staged h running mode n rest kind =>
    refine (hs.leave _ le_rfl rest none).call (.event n.completion.event) none ?_
    have haccepted := hs.accepted
    rwa [show Driven.submitted [.event n.completion.event] = [] from rfl, Multiset.coe_nil,
      add_zero]
  | barrier h running mode n rest kind => exact hs.barrier honest running
  | resume h running mode notices completion =>
    refine hs.call (.event completion.event) none ?_
    have haccepted := hs.accepted
    rwa [show Driven.submitted [.event completion.event] = [] from rfl, Multiset.coe_nil,
      add_zero]
  | complete h running mode n rest =>
    refine ⟨{ hp with }, hs.node, ?_, hs.others, hs.settled⟩
    have hasked : asked (h.ownerEvents ++ [n.completion.event]) = asked h.ownerEvents :=
      (asked_append _ _).trans (add_zero _)
    rw [hasked]
    exact hs.accepted
  | submit h running notices delayed d p rest storage taken =>
    have hbase := hs.leave rest (answered_cons _ _ ▸ Multiset.le_add_left _ _)
      notices delayed
    exact ⟨{ hp with }, hs.node, hs.accepted, hs.others, hbase.settled⟩
  | refused h running mode notices delayed d p rest events told =>
    have hbase := hs.leave rest (answered_cons _ _ ▸ Multiset.le_add_left _ _)
      notices delayed
    refine ⟨{ hp with }, hs.node, ?_, hs.others, hbase.settled⟩
    have hasked : asked (events ++ h.ownerEvents) = asked h.ownerEvents := by
      rw [asked_append]
      rcases told with rfl | rfl <;> exact zero_add _
    rw [hasked]
    exact hs.accepted
  | quarantine h running mode active notices delayed q other rest =>
    refine ⟨{ hp with }, hs.node, hs.accepted, fun hfatal x hx => ?_, fun hfatal => ?_⟩
    · rcases List.mem_append.mp hx with hx | hx
      · exact hs.others hfatal x hx
      · rw [List.mem_singleton.mp hx]
        exact other
    · have hsettled := hs.settled hfatal
      rw [answered_cons, ← add_assoc, add_assoc h.served] at hsettled
      rw [List.map_append, answered_append]
      exact hsettled
  | dispatch h running inactive notices delayed q other rest =>
    exact hs.dispatch honest running other
  | fail b running => exact hs.fail running _ _ _
  | drop b stopped | forget b stopped => exact hs.leave _ (Multiset.zero_le _) _ _
  | refresh h =>
    unfold refreshPublishedStatus
    split_ifs
    · exact { hs with paid := { hp with } }
    · exact hs
  | arrive h running e plain free =>
    refine ⟨{ hp with }, hs.node, ?_, hs.others, hs.settled⟩
    have hasked : asked (h.ownerEvents ++ [e]) = asked h.ownerEvents := by
      rw [asked_append]
      simp [asked, free]
    rw [hasked]
    exact hs.accepted
  | clients h running count =>
    refine ⟨{ hp with }, hs.node, ?_, hs.others, hs.settled⟩
    have hasked : asked ((h.clientQueue.take count).map fun r => .clientRequest r.1 r.2) =
        ((h.clientQueue.take count).map Prod.fst : List ClientToken) := by
      rw [asked, List.filterMap_map]
      exact congrArg _ (congrFun List.filterMap_eq_map' _)
    have hsplit : ((h.clientQueue.map Prod.fst : List ClientToken) : Multiset ClientToken) =
        ((h.clientQueue.take count).map Prod.fst : List ClientToken) +
          ((h.clientQueue.drop count).map Prod.fst : List ClientToken) := by
      rw [Multiset.coe_add, ← List.map_append, List.take_append_drop]
    have haccepted := hs.accepted
    rw [hsplit, ← add_assoc, add_assoc (Driven.submitted _ : Multiset ClientToken)] at haccepted
    simp only [admitClients]
    rw [asked_append, hasked]
    exact haccepted

/-- A request that is accepted gets a token that no other request has had. -/
theorem Served.submit (hs : Served s₀ ⟨h, [], none, []⟩) (command : ClientCommand) :
    Served s₀ ⟨(h.submit command).2, [], none, []⟩ := by
  have hp := hs.paid
  unfold NodeHost.submit
  split_ifs with hstopped hinvalid hfull hlast
  · exact hs
  · exact hs
  · exact hs
  · exact hs
  · rw [Bool.not_eq_false] at hstopped
    rw [not_or, not_le, not_le] at hfull
    have hfatal : h.fatalError = false := hp.sound hstopped
    obtain ⟨htokens, hreplies⟩ := hp.working hfatal
    have hnew : h.nextClientToken ∉ h.history.accepted :=
      fun hmem => lt_irrefl _ (hp.fresh _ hmem)
    have haccepted : ((h.history.accepted ++ [h.nextClientToken] : List ClientToken) :
        Multiset ClientToken) = (h.history.accepted : Multiset ClientToken) +
          {h.nextClientToken} := (Multiset.coe_add _ _).symm
    have hinsert : ((h.outstandingTokens.orderedInsert (· ≤ ·) h.nextClientToken :
        List ClientToken) : Multiset ClientToken) =
          {h.nextClientToken} + (h.outstandingTokens : Multiset ClientToken) := by
      rw [Multiset.coe_eq_coe.mpr (List.perm_orderedInsert _ _ _), ← Multiset.cons_coe,
        Multiset.singleton_add]
    refine ⟨⟨fun token htoken => ?_, ?_, hp.sound, hp.begun, ?_, hp.discarded,
      fun _ => ⟨?_, hreplies⟩, fun hf => absurd (hfatal.symm.trans hf) (by simp)⟩, hs.node, ?_,
      hs.others, hs.settled⟩
    · rcases List.mem_append.mp htoken with htoken | htoken
      · exact Nat.lt_succ_of_lt (hp.fresh token htoken)
      · rw [List.mem_singleton.mp htoken]
        exact Nat.lt_succ_self _
    · exact List.nodup_append.mpr ⟨hp.nodup, List.nodup_singleton _, fun a ha b hb heq =>
        hnew (List.mem_singleton.mp hb ▸ heq ▸ ha)⟩
    · have hroom := hfull.2
      simp only [List.orderedInsert_length]
      omega
    · change _ + h.served = _
      rw [haccepted, hinsert, ← htokens, add_assoc, add_comm]
    · have hold := hs.accepted
      simp only [List.map_append, List.map_singleton]
      rw [haccepted, ← Multiset.coe_add, ← add_assoc]
      exact add_le_add_left hold _

/-- The calls that are one move. -/
theorem Served.called (hs : Served s₀ ⟨h, [], none, []⟩) (c : Call h h') :
    Served s₀ ⟨h', [], none, []⟩ := by
  have hp := hs.paid
  cases c with
  | startFailed => exact { hs with paid := { hp with } }
  | submit command => exact hs.submit command
  | replies maximum =>
    have hanswers : h.history.delivered ++ h.replies.take maximum ++ h.replies.drop maximum =
        h.answers := by
      rw [List.append_assoc, List.take_append_drop, answers]
    refine { hs with
        paid := ⟨hp.fresh, hp.nodup, hp.sound, hp.begun, ?_, hp.discarded, fun hfatal => ?_, fun
          hfatal => ?_⟩ }
    · have hslots := hp.slots
      simp only [pollReplies, List.length_drop] at hslots ⊢
      omega
    · obtain ⟨htokens, hreplies⟩ := hp.working hfatal
      refine ⟨htokens, ?_⟩
      rw [answers, pollReplies, hanswers]
      exact hreplies
    · obtain ⟨hnone, replies, tokens, hreplies, hrest⟩ := hp.failed hfatal
      refine ⟨hnone, replies, tokens, ?_, hrest⟩
      rw [answers, pollReplies, hanswers]
      exact hreplies
  | traces => exact { hs with paid := { hp with } }
  | stop =>
    unfold NodeHost.stop
    split_ifs with hstopped
    · exact hs
    · rw [not_or, Bool.not_eq_false, Bool.not_eq_false] at hstopped
      exact { hs with
          paid := ⟨hp.fresh, hp.nodup, by simp, fun hstarted => ⟨rfl, (hp.begun hstarted).2⟩,
            hp.slots, hp.discarded, hp.working, hp.failed⟩ }

end Served

/-! ### Runs -/

/-- A move gives no reply to a client, and takes none back. -/
theorem Served.accounts {s₀ : Driven} {b b' : Busy} (hs : Served s₀ b) (m : Move b b') :
    b'.host.history.delivered = b.host.history.delivered ∧ b.host.served ≤ b'.host.served := by
  have hcalling : ∀ (h : NodeHost) (i : Input),
      (h.calling i).history.delivered = h.history.delivered ∧ h.served ≤ (h.calling i).served := by
    intro h i
    obtain ⟨last, active, heq⟩ := calling_record h i
    rw [heq]
    exact ⟨rfl, le_rfl⟩
  have hdispatches : ∀ {h h' : NodeHost} {out}, Dispatches h out h' →
      h'.history.delivered = h.history.delivered ∧ h.served ≤ h'.served := fun d => by
    obtain ⟨hserved, -, hdelivered, -⟩ := d.accounts
    exact ⟨hdelivered, hserved ▸ Multiset.le_add_right _ _⟩
  cases m with
  | start h | event h | staged h | resume h => exact hcalling _ _
  | barrier h running mode n =>
    obtain ⟨out, -, hsteps, -⟩ := dispatches_release
      (h := { h with durableOperationThrough := max h.durableOperationThrough n.durableThrough })
      running (hs.others (hs.paid.sound running)) []
    have haccounts := hdispatches hsteps
    exact haccounts
  | dispatch h running inactive notices delayed q other =>
    exact hdispatches (.cons running other (.nil _))
  | fail b =>
    have hhistory := history_failTransport b.host
    simp only [served, hhistory, le_refl, and_self]
  | refresh h =>
    unfold refreshPublishedStatus
    split_ifs <;> exact ⟨rfl, le_rfl⟩
  | _ => exact ⟨rfl, le_rfl⟩

section Runs

variable {config : NodeHostConfig} {recovered : RecoveredState} {h₀ : NodeHost} {n : RaftNode}

theorem Call.fatal {h h' : NodeHost} (c : Call h h') : h'.fatalError = h.fatalError := by
  cases c with
  | submit command =>
    unfold NodeHost.submit
    split_ifs <;> rfl
  | stop =>
    unfold NodeHost.stop
    split_ifs <;> rfl
  | _ => rfl

end Runs

end NodeHost

namespace Sample

end Sample

namespace NodeHost

open Sample

end NodeHost

end DetLog
