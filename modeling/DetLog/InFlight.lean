import DetLog.Faults
import DetLog.Raft.Replication

/-!
# Appends in flight

A leader remembers of each append that it waits for an answer: its identifier, the index
before its entries and the index of the last one. The message itself is on the network
(`DetLog.IsLaunch`), and nothing that happens meanwhile takes it back, so an exchange that
loses nothing can be resumed from any state of the cluster (`DetLog.Cluster.poised`).

The term needs care. Within a reaction a leader may raise its term before it steps down, and
then its appends in flight are of another term. So the invariant of a reaction
(`DetLog.InFlight`) speaks about one fixed term; a node that leads at the end of a step has
not changed its term (`DetLog.Coherent.leader_term`).
-/

namespace DetLog

open Consensus Consensus.History

/-- **The message of an append in flight.** -/
structure IsLaunch (config : RaftConfig) (T : ℕ) (p : PeerProgress) (a : InflightAppend)
    (r : AppendEntries) : Prop where
  term : r.term = T
  leader : r.leaderId = config.nodeId
  id : r.rpcId = a.rpcId
  prev : r.prevLogIndex = a.prevIndex
  last : r.prevLogIndex + r.entries.length = a.lastIndex
  next : p.nextIndex = a.prevIndex + 1
  count : r.entries.length ≤ config.maxAppendEntriesPerRpc
  packed : packEntries config.maxAppendBytesPerRpc r.entries kAppendRpcOverhead = r.entries

/-- The appends of a leader of the term `T` have been sent, and it has an entry for every
other member. -/
structure InFlight (T : ℕ) (sent : List MessageEnvelope) (c : Ctx) : Prop where
  term : T ≤ c.node.currentTerm
  launched : c.node.role = .leader → c.node.currentTerm = T →
    ∀ s p a, c.node.peers.find s = some p → p.inflight = some a →
      ∃ r, IsLaunch c.node.config T p a r ∧
        (({ sender := c.node.config.nodeId, target := s, message := .appendEntries r } :
          MessageEnvelope) ∈ sent ∨
          .send { sender := c.node.config.nodeId, target := s, message := .appendEntries r } ∈
            c.effects)
  peered : c.node.role = .leader → ∀ s ∈ c.node.config.members, s ≠ c.node.config.nodeId →
    (c.node.peers.find s).isSome

section Reaction

variable {n : RaftNode} {cause : Cause} {c c' : Ctx} {T : ℕ} {sent : List MessageEnvelope}

/-- A leader whose term and peers are what they were. -/
theorem InFlight.congr (h : InFlight T sent c) (role : c'.node.role = .leader →
    c.node.role = .leader) (config : c'.node.config = c.node.config)
    (term : c'.node.currentTerm = c.node.currentTerm) (peers : c'.node.peers = c.node.peers)
    (effects : c.effects ⊆ c'.effects) : InFlight T sent c' := by
  refine ⟨term ▸ h.term, fun hl ht s p a hp ha => ?_, fun hl => ?_⟩
  · rw [peers] at hp
    obtain ⟨r, hr, hsent⟩ := h.launched (role hl) (term ▸ ht) s p a hp ha
    rw [config]
    exact ⟨r, hr, hsent.imp_right fun hm => effects hm⟩
  · rw [config, peers]
    exact h.peered (role hl)

/-- A node that does not lead has nothing in flight. -/
theorem InFlight.of_ne (role : c.node.role ≠ .leader) (term : T ≤ c.node.currentTerm) :
    InFlight T sent c :=
  ⟨term, fun hl => absurd hl role, fun hl => absurd hl role⟩

theorem InFlight.failStorage (h : InFlight T sent c) (detail : String) :
    InFlight T sent (c.failStorage detail) := by
  refine .of_ne ?_ ?_ <;> rw [Ctx.failStorage_node]
  · simp
  · exact h.term

theorem InFlight.startPersist (h : InFlight T sent c) (free : c.node.pendingStorage = none)
    (batch : PersistBatch) (k : Continuation)
    (effects : c.effects ⊆ (c.startPersist batch k).effects) :
    InFlight T sent (c.startPersist batch k) := by
  by_cases hid : c.node.nextStorageOpId = 0
  · rw [startPersist_of_overflow free hid]
    exact h.failStorage _
  · have hnode := startPersist_of_free free hid batch k
    refine h.congr ?_ ?_ ?_ ?_ effects <;> rw [hnode]
    · exact id
    · rfl

/-- A leader that sends an append has its message among the effects. -/
theorem InFlight.sendAppendTo (h : InFlight T sent c) (ok : PeersOk c.node)
    (leader : c.node.role = .leader) {s : NodeId} {p : PeerProgress}
    (found : c.node.peers.find s = some p) (id : c.node.nextRpcId ≠ 0) :
    InFlight T sent (c.sendAppendTo s p) := by
  obtain ⟨hlt, hle, -⟩ := ok leader s p found
  rw [sendAppendTo_eq hlt hle id]
  refine ⟨h.term, fun _ ht s' q a hq ha => ?_, fun _ s' hs' hne => ?_⟩ <;>
    simp only [Ctx.sendMessage_node, RaftNode.launched] at *
  · rw [OrdMap.find_insert] at hq
    split_ifs at hq with hs
    · obtain rfl := Option.some.inj hq
      obtain rfl := Option.some.inj ha
      refine ⟨c.node.appendTo p, ⟨ht, rfl, rfl, rfl, rfl, ?_, ?_, ?_⟩, Or.inr ?_⟩
      · simp only [RaftNode.launch]
        omega
      · exact (c.node.length_payload_le p).trans (min_le_right _ _)
      · exact packEntries_packEntries _ _ _
      · simp [Ctx.sendMessage, Ctx.emit, hs]
    · obtain ⟨r, hr, hsent⟩ := h.launched leader ht s' q a hq ha
      refine ⟨r, hr, hsent.imp_right fun hm => ?_⟩
      simp [Ctx.sendMessage, Ctx.emit, Ctx.trace, hm]
  · rw [OrdMap.find_insert]
    split_ifs
    · simp
    · exact h.peered leader s' hs' hne

/-- **Every move keeps the appends in flight.** -/
theorem InFlight.micro (m : Micro n cause c c') (ok : PeersOk c.node) (h : InFlight T sent c) :
    InFlight T sent c' := by
  have heffects := effects_subset_of_micro m
  cases m with
  | exhausted detail => exact h.failStorage detail
  | overwrite => exact h.failStorage _
  | persist batch k free => exact h.startPersist free batch k heffects
  | commit target batch k free =>
    refine InFlight.startPersist ?_ ?_ batch k heffects
    · exact h.congr (fun hl => hl) rfl rfl rfl (List.Subset.refl _)
    · exact free
  | append peer progress leader free found idle id => exact h.sendAppendTo ok leader found id
  | apply e idle =>
    obtain ⟨machine, clients, sessions, hnode⟩ := applyEntry_node
      { c with node := { c.node with lastApplied := c.node.lastApplied + 1 } }
      (c.node.lastApplied + 1) e
    refine h.congr ?_ ?_ ?_ ?_ heffects <;> rw [hnode]
    · exact fun hl => hl
    · rfl
  | term t higher =>
    -- A higher term is not the one the appends are of.
    refine ⟨h.term.trans higher.le, fun _ ht => ?_, h.peered⟩
    exact absurd h.term (not_le.mpr (ht ▸ higher))
  | retire hint => exact .of_ne (by simp) h.term
  | campaign => exact .of_ne (by simp) (h.term.trans (Nat.le_succ _))
  | abort => exact .of_ne (by simp) h.term
  | lead candidate =>
    refine ⟨h.term, fun _ _ s p a hp ha => ?_, fun _ s hs hne =>
      Option.isSome_iff_exists.mpr ⟨_, Ctx.freshPeers_find.mpr ⟨rfl, hs, hne⟩⟩⟩
    obtain ⟨rfl, -⟩ := Ctx.freshPeers_find.mp hp
    simp at ha
  | remove index p found =>
    refine h.congr ?_ ?_ ?_ ?_ heffects <;> simp only [Ctx.removePending, Ctx.emitReplies_node]
    · exact fun hl => hl
    · rfl
  | note s progress progress' sent response heard leader term found inflight id noted =>
    have hnone : progress'.inflight = none := by cases noted <;> rfl
    refine ⟨h.term, fun _ ht s' p a hp ha => ?_, fun _ s' hs' hne => ?_⟩
    · rw [OrdMap.find_insert] at hp
      split_ifs at hp with hs
      · obtain rfl := Option.some.inj hp
        simp [hnone] at ha
      · exact h.launched leader ht s' p a hp ha
    · rw [OrdMap.find_insert]
      split_ifs
      · rfl
      · exact h.peered leader s' hs' hne
  | age leader =>
    refine ⟨h.term, fun _ ht s p a hp ha => ?_, fun _ s hs hne => ?_⟩
    · rw [OrdMap.find_mapValues] at hp
      obtain ⟨q, hq, rfl⟩ := Option.map_eq_some_iff.mp hp
      -- Ageing gives an append up or leaves it in flight.
      have hold : q.inflight = some a ∧
          (Ctx.ageInflight c.node.config q).nextIndex = q.nextIndex := by
        unfold Ctx.ageInflight at ha ⊢
        split_ifs at ha ⊢ with hnone
        · exact ⟨ha, rfl⟩
        · exact ⟨ha, rfl⟩
      obtain ⟨r, hr, hsent⟩ := h.launched leader ht s q a hq hold.1
      exact ⟨r, { hr with next := hold.2.trans hr.next }, hsent⟩
    · rw [OrdMap.find_mapValues, Option.isSome_map]
      exact h.peered leader s hs hne
  | _ => exact h.congr (fun hl => hl) rfl rfl rfl heffects

theorem InFlight.intake {token : ClientToken} {command : ClientCommand}
    (hin : Intake token command c c') (h : InFlight T sent c) : InFlight T sent c' := by
  cases hin with
  | refuse status value index =>
    refine h.congr (fun hl => hl) rfl rfl rfl ?_
    simp [Ctx.emitReply, Ctx.emit, Ctx.trace]
  | join index p session found | enroll leader ready session =>
    exact h.congr (fun hl => hl) rfl rfl rfl (List.Subset.refl _)

end Reaction

/-! ### Steps -/

section Step

variable {n : RaftNode} {e : RaftEvent} {d : RecoveredState} {got : Set RaftEvent} {c : Ctx}
  {T : ℕ} {sent : List MessageEnvelope}

/-- **A node that leads after a step has not changed its term.** -/
theorem Coherent.leader_term (hco : Coherent d got n) (hl : (n.step e).node.role = .leader) :
    (n.step e).node.currentTerm = n.currentTerm := by
  cases hco.turned e with
  | steady memory => exact congrArg (fun s => s.hardState.currentTerm) memory
  | planned n₁ cause m batch k steady taken plan memory role room =>
    have hold : n₁.hardState = n.hardState := congrArg RecoveredState.hardState steady.memory
    have hnew : (n.step e).node.currentTerm = m.currentTerm :=
      congrArg (fun s => s.hardState.currentTerm) memory
    have hm : m.role = .leader := by
      rcases role with heq | hdown
      · exact heq ▸ hl
      · simp [hl] at hdown
    refine hnew.trans (Eq.trans ?_ (congrArg HardState.currentTerm hold))
    cases plan with
    | campaign hs new core role | adopt term k higher core role
    | accept s request heard named fits keeps core role => simp [hm] at role
    | grant candidate request w heard pos named term_le free fresh core role =>
      -- A leader has voted for itself, so it grants nothing without stepping down.
      rcases role with role | ⟨hnone, role⟩
      · simp [hm] at role
      · have hvote := hco.vote (Or.inr (steady.lead (role ▸ hm)))
        rw [← hold, hnone] at hvote
        cases hvote
    | lead wins bound core => exact core.currentTerm
    | propose token command asked old ready acceptable admits bound room core =>
      exact core.currentTerm
    | commit target old core => exact core.currentTerm

theorem Aside.inFlight (ha : Aside n e c) (h : InFlight T sent { node := n }) :
    InFlight T sent c := by
  cases ha with
  | failed p error pending => exact InFlight.failStorage (h.congr id rfl rfl rfl (by simp)) _
  | _ => exact h.congr id rfl rfl rfl (by simp)

/-- **Every step keeps the appends in flight.** -/
theorem InFlight.step (h : InFlight T sent { node := n }) (hco : Coherent d got n) (ht : Tidy n)
    (e : RaftEvent) : InFlight T sent (n.step e) := by
  suffices hboth : Tidy (n.step e).node ∧ InFlight T sent (n.step e) from hboth.2
  refine TurnRule.step (I := fun c => Tidy c.node ∧ InFlight T sent c) ?_ hco
  refine ⟨fun c ha => ⟨ha.tidy ht hco, ha.inFlight h⟩, fun _ => ⟨ht, h⟩,
    fun p _ => ⟨ht.marked p, h.congr id rfl rfl rfl (by simp)⟩, ?_, fun r hc => ?_⟩
  · rintro c x rest hq idle ⟨htidy, hin⟩
    refine ⟨⟨htidy.peers, htidy.durable_le, htidy.filable, ?_, fun hr => absurd hr idle.available⟩,
      hin.congr id rfl rfl rfl (List.Subset.refl _)⟩
    have hle := htidy.queue.length_le
    rw [hq, List.length_cons] at hle
    exact Nat.le_of_succ_le hle
  · refine ⟨hc.1.react r, (r.keeps (I := fun c => PeersOk c.node ∧ InFlight T sent c)
      (fun _ _ m h => ⟨h.1.micro m, h.2.micro m h.1⟩) ?_ ?_ ⟨hc.1.peers, hc.2⟩).2⟩
    · intro token command c₁ c₂ hin hI
      refine ⟨?_, hI.2.intake hin⟩
      cases hin <;> exact hI.1
    · intro c₁ hI
      exact ⟨hI.1, hI.2.congr id rfl rfl rfl (by simp [Ctx.trace, Ctx.emit])⟩

end Step

/-! ### The cluster -/

/-- **A running node between two steps**: its volatile state is tidy, its queue is empty unless
it waits, and the appends it has in flight are on the network. -/
structure Poised (sent : List MessageEnvelope) (n : RaftNode) : Prop where
  tidy : Tidy n
  drained : n.pendingStorage = none → n.deferredEvents = []
  bounds : n.config.boundsValid = true
  inFlight : InFlight n.currentTerm sent { node := n }

section Cluster

variable {config : RaftConfig} {S S' : Cluster} {i : NodeId} {n : RaftNode} {e : RaftEvent}
  {sent sent' : List MessageEnvelope} {d : RecoveredState} {got : Set RaftEvent}

theorem Poised.mono (h : Poised sent n) (hsub : sent ⊆ sent') : Poised sent' n := by
  refine ⟨h.tidy, h.drained, h.bounds, le_rfl, fun hl ht s p a hp ha => ?_, h.inFlight.peered⟩
  obtain ⟨r, hr, hsent⟩ := h.inFlight.launched hl ht s p a hp ha
  exact ⟨r, hr, hsent.imp_left fun hm => hsub hm⟩

theorem poised_create {recovered : RecoveredState}
    (hn : RaftNode.create config recovered = .ok n) : Poised sent n := by
  have hkept := Driven.kept_create hn
  refine ⟨hkept.tidy, hkept.drained, ?_, .of_ne ?_ le_rfl⟩ <;>
    obtain ⟨hvalid, rfl⟩ := RaftNode.create_eq_ok.mp hn
  · exact hvalid.2.1
  · simp [RaftNode.ofRecovered]

theorem mem_sends_of_effects {c : Ctx} {m : MessageEnvelope} (h : .send m ∈ c.effects) :
    m ∈ c.sends := List.mem_filterMap.mpr ⟨_, h, rfl⟩

theorem Poised.step (h : Poised sent n) (hco : Coherent d got n) (e : RaftEvent) :
    Poised (sent ++ (n.step e).sends) (n.step e).node := by
  have htidy := h.tidy.step hco e
  have hin := h.inFlight.step hco h.tidy e
  refine ⟨htidy, htidy.drained, by rw [RaftNode.step_config]; exact h.bounds, le_rfl,
    fun hl _ s p a hp ha => ?_, hin.peered⟩
  obtain ⟨r, hr, hsent⟩ := hin.launched hl (hco.leader_term hl) s p a hp ha
  rw [← hco.leader_term hl] at hr
  refine ⟨r, hr, Or.inl (List.mem_append.mpr (hsent.imp_right mem_sends_of_effects))⟩

theorem Poised.start (h : Poised sent n) : Poised (sent ++ n.start.sends) n.start.node := by
  refine Poised.mono ?_ (List.subset_append_left _ _)
  rcases start_cases n with heq | heq <;> rw [heq]
  · exact h
  · exact ⟨{ h.tidy with
        queue := ⟨h.tidy.queue.length_le, h.tidy.queue.stopped⟩ }, h.drained, h.bounds,
      h.inFlight.congr (fun hl => hl) rfl rfl rfl (List.Subset.refl _)⟩

/-- **Every running node of the cluster is poised.** -/
theorem Cluster.poised (hS : Reachable config S) (hn : S.node i = some n) : Poised S.sent n := by
  have rule : NodeRule config (fun sent _ n => Poised sent n) fun _ => True := by
    refine ⟨fun hsub h => h.mono hsub, fun created => poised_create created,
      fun h => ⟨fun _ _ => trivial, h.start⟩, fun hS _ _ on h => ⟨fun _ _ => trivial, ?_⟩⟩
    obtain ⟨_, hr⟩ := exists_related hS
    exact h.step (hr.on on).coherent _
  exact (rule.reachable hS).2 i n hn

end Cluster

end DetLog
