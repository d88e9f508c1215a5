import DetLog.Refinement.Carried

/-!
# The faults a node reports

A node that finds its own state inconsistent reports a fault and stops. Two of these reports
speak about the protocol: that a leader wants to overwrite a committed entry, and that the
commit index points behind the log. A third branch raises an exception, because a batch is
handed to storage while another one is outstanding. None of them is ever taken
(`DetLog.Cluster.fault_branches_unreachable`).

The first one needs more than that committed prefixes agree. An append may be old, and the
committed prefix of the receiver may have been chosen after it was sent. What saves the
receiver is that it does not listen to terms it has left behind: what it has committed was
chosen in a term it has reached (`Consensus.SettledBy`), so the leader of the append holds it.
-/

namespace DetLog

open Consensus Consensus.History

/-! ### The reports of a reaction -/

/-- The texts of the faults that a reaction of the node `n` can report. -/
inductive Report (n : RaftNode) (cause : Cause) : String → Prop
  | exhausted {m : RaftNode} {detail : String} (counter : Exhausted m detail) :
      Report n cause detail
  | unexpected : Report n cause "unexpected storage completion"
  | overwrite (s : NodeId) (request : AppendEntries) (e : LogEntry)
      (heard : Heard n cause s (.appendEntries request)) (fits : Fits n request)
      (first : (request.entries.drop (matchingEntries n.log request.entries)).head? = some e)
      (committed : e.index ≤ n.commitIndex) :
      Report n cause "leader attempted to overwrite a committed entry"

/-- An effect whose fault, if it is one, has a text with the property `P`. -/
def Reports (P : String → Prop) : RaftEffect → Prop
  | .trace r => r.kind = .fault → P r.detail
  | _ => True

section Reports

variable {P : String → Prop} {c c' : Ctx} {n : RaftNode} {cause : Cause}

section

variable (h : Emits (Reports P) c c')
include h

theorem Emits.traceRegular {kind : TraceKind} (detail : String) (index : ℕ)
    (regular : kind ≠ .fault) : Emits (Reports P) c (c'.trace kind detail index) :=
  h.emit fun hk => absurd hk regular

theorem Emits.reply (token : ClientToken) (status : ClientStatus) (value : Bytes) (index : ℕ) :
    Emits (Reports P) c (c'.emitReply token status value index) :=
  Emits.traceRegular (h.emit (e := .clientReply _) trivial) _ _ (by simp)

theorem Emits.replies (tokens : List ClientToken) (status : ClientStatus) (value : Bytes)
    (index : ℕ) : Emits (Reports P) c (c'.emitReplies tokens status value index) :=
  Emits.foldl (fun c token => (Emits.refl c).reply token status value index) tokens h

theorem Emits.message (target : NodeId) (message : Message) :
    Emits (Reports P) c (c'.sendMessage target message) :=
  (h.traceRegular _ _ (by simp)).emit trivial

/-- A node that stops reports the reason, and nothing else. -/
theorem Emits.stop {detail : String} (hP : P detail) :
    Emits (Reports P) c (c'.failStorage detail) := by
  have hdeferred : ∀ (c : Ctx) (e : RaftEvent), Emits (Reports P) c (c.failDeferred e) := by
    intro c e
    cases e with
    | clientRequest token command => exact (Emits.refl c).reply _ _ _ _
    | _ => exact Emits.refl c
  have hreport : Emits (Reports P) c (Ctx.trace { c' with node := { c'.node with
      role := .unavailable
      leaderHint := none
      leaderReady := false
      peers := ∅
      votesReceived := ∅
      pendingStorage := none
      electionGeneration := incU64 c'.node.electionGeneration
      heartbeatGeneration := incU64 c'.node.heartbeatGeneration } } .fault detail 0) :=
    (h.setNode _).emit fun _ => hP
  exact Emits.setNode (Emits.foldl hdeferred _ (Emits.setNode (Emits.foldl
    (fun c _ => (Emits.refl c).replies _ _ _ _) _ hreport) _)) _

theorem Emits.persist (free : c'.node.pendingStorage = none)
    (hP : P "storage operation id overflow") (batch : PersistBatch) (k : Continuation) :
    Emits (Reports P) c (c'.startPersist batch k) := by
  unfold Ctx.startPersist
  simp only [free, Option.isSome_none, Bool.false_eq_true, if_false]
  split_ifs
  · exact h.stop hP
  · exact (Emits.traceRegular (h.setNode _) _ _ (by simp)).emit trivial

end

/-- **What a move reports.** -/
theorem emits_of_micro (m : Micro n cause c c') : Emits (Reports (Report n cause)) c c' := by
  have hr := Emits.refl (P := Reports (Report n cause)) c
  have hid : Report n cause "storage operation id overflow" :=
    .exhausted (m := { c.node with nextStorageOpId := 0 }) (.storage rfl)
  cases m with
  | trace kind detail index regular => exact hr.traceRegular _ _ regular
  | send target message => exact hr.message target message
  | election | heartbeat => exact (hr.setNode _).emit trivial
  | exhausted detail counter => exact hr.stop (.exhausted counter)
  | persist batch k free => exact hr.persist free hid batch k
  | commit target batch k free =>
    refine Emits.persist (hr.setNode _) ?_ hid batch k
    exact free
  | append peer progress leader free found idle id =>
    unfold Ctx.sendAppendTo
    simp only
    rw [if_neg id]
    exact Emits.message (hr.setNode _) _ _
  | apply e idle =>
    unfold Ctx.applyEntry
    simp only
    have htrace : ∀ sm detail, Emits (Reports (Report n cause)) c (Ctx.trace
        { c with node := { c.node with
          lastApplied := c.node.lastApplied + 1, stateMachine := sm } } .apply detail
        (c.node.lastApplied + 1)) := fun sm detail =>
      Emits.traceRegular (hr.setNode _) detail _ (by simp)
    split
    · exact htrace _ _
    · exact ((htrace _ _).replies _ _ _ _).setNode _
  | remove index p found => exact (hr.replies _ _ _ _).setNode _
  | overwrite s request e heard fits first committed =>
    exact hr.stop (.overwrite s request e heard fits first committed)
  | _ => exact hr.setNode _

theorem effects_subset_of_micro (m : Micro n cause c c') : c.effects ⊆ c'.effects := by
  obtain ⟨-, es, hes, -⟩ := emits_of_micro m
  rw [hes]
  exact List.subset_append_left _ _

theorem effects_subset_of_moves (h : Moves n cause c c') : c.effects ⊆ c'.effects :=
  h.keeps (I := fun c' => c.effects ⊆ c'.effects)
    (fun _ _ m hsub => List.Subset.trans hsub (effects_subset_of_micro m)) (List.Subset.refl _)

/-- **What a reaction reports.** -/
theorem Reaction.emits {n₀ : RaftNode} (r : Reaction n₀ e cause c c') :
    Emits (Reports (Report c.node cause)) c c' := by
  refine r.keeps (I := Emits (Reports (Report c.node cause)) c)
    (fun _ _ m h => h.trans (emits_of_micro m)) ?_ (fun _ h => h.emit fun _ => .unexpected)
    (Emits.refl c)
  intro token command c₁ c₂ hin h
  cases hin with
  | refuse status value index => exact h.reply _ _ _ _
  | join index p session found | enroll leader ready session => exact h.setNode _

end Reports

/-! ### What is committed was chosen in a term that is over or present -/

variable {config : RaftConfig} {S S' : Cluster} {h : Chronicle} {i : NodeId} {n : RaftNode}
  {e : RaftEvent} {cause : Cause} {c : Ctx}

/-- The committed prefix of a state was chosen by its term. -/
def CommitSettled (Q : QuorumSystem NodeId) (h : Chronicle) (s : RecoveredState) : Prop :=
  SettledBy Q h s.hardState.currentTerm (s.log.take s.commitIndex)

/-- What an append calls committed was chosen by its term. -/
def AppendSettled (Q : QuorumSystem NodeId) (h : Chronicle) (r : AppendEntries) : Prop :=
  SettledBy Q h r.term ((h.leaderLog r.term).take r.leaderCommit)

theorem carries_settled (config : RaftConfig) :
    Carries config (CommitSettled (quorums config)) (AppendSettled (quorums config)) where
  empty h := Or.inl (by simp)
  mono hg hs := hg.settledBy hs
  append_mono {h h' m r} ht hm hg hr := by
    obtain ⟨sender, target, message⟩ := m
    obtain rfl : message = _ := hm
    obtain ⟨-, -, -, -, hle, -⟩ := ht
    rw [AppendSettled, take_eq_of_isPrefix (hg.leaderLog_le _) hle]
    exact hg.settledBy hr
  plan {h n m cause batch k} _ known plan hs := by
    have hterm := plan.forward.1
    -- A plan that leaves the commit index alone keeps the committed prefix.
    have hkeep : m.log.take n.commitIndex = n.log.take n.commitIndex →
        m.commitIndex = n.commitIndex → CommitSettled (quorums config) h m.memory := by
      intro hlog hcommit
      rw [CommitSettled, RaftNode.memory_log, RaftNode.memory_commitIndex, hcommit, hlog]
      exact SettledBy.mono hs hterm
    have happend : ∀ e, (n.log ++ [e]).take n.commitIndex = n.log.take n.commitIndex :=
      fun e => List.take_append_of_le_length known.formed.commit_le
    cases plan with
    | campaign hs new core | adopt term k higher core =>
      exact hkeep (by rw [core.log]) core.commitIndex
    | grant candidate request w heard pos named term_le free fresh core =>
      exact hkeep (by rw [core.log]) core.commitIndex
    | lead wins bound core => exact hkeep (by rw [core.log, happend]) core.commitIndex
    | propose token command asked old ready acceptable admits bound room core =>
      exact hkeep (by rw [core.log, happend]) core.commitIndex
    | commit target old core role peers above =>
      have hchosen := known.chosen role (by rw [core.commitIndex]; exact above.ne')
      exact Or.inr ⟨_, _, le_rfl, hchosen, List.prefix_rfl⟩
    | accept s request heard named fits keeps core =>
      obtain ⟨ht, hr⟩ := known.heard s request heard
      have hsplice := acceptedLog_of_truthful known.inv known.traces fits ht
      have hle : Ctx.appendMatchIndex request ≤ (h.leaderLog request.term).length := by
        rw [fits.matchIndex]
        exact ht.2.1
      rw [CommitSettled, core.memory]
      simp only [currentTerm_followed fits.term_le]
      rcases committed_acceptedLog known.formed.commit_le keeps hsplice hle with heq | hpre
      · rw [heq]
        exact SettledBy.mono hs fits.term_le
      · exact SettledBy.of_isPrefix hr hpre
  send {h n r} hlog hterm _ hcommit hle hs := by
    rw [AppendSettled, hterm, hcommit, take_eq_of_isPrefix hlog hle]
    exact hs

/-- **An append never reaches into the committed prefix**: its leader holds the prefix, so
the entries match there. -/
theorem keeps_of_settled {Q : QuorumSystem NodeId} (inv : Inv Q h)
    (hs : CommitSettled Q h n.memory) (hcommit : n.commitIndex ≤ n.log.length)
    {request : AppendEntries} (fits : Fits n request) {s target : NodeId}
    (ht : Truthful Q h { sender := s, target, message := .appendEntries request })
    {x : LogEntry}
    (first : (request.entries.drop (matchingEntries n.log request.entries)).head? = some x) :
    n.commitIndex < x.index := by
  obtain ⟨hled, -, -, hentries, -, -⟩ := ht
  obtain ⟨-, -, hnext⟩ := matchingEntries_spec n.log fits.indexed
  set m := matchingEntries n.log request.entries
  have hget : request.entries[m]? = some x := by rwa [List.head?_drop] at first
  have hidx : x.index = request.prevLogIndex + m + 1 := fits.indexed m x hget
  by_contra hle
  -- The leader holds the committed prefix, and with it this very entry.
  have hpre : n.log.take n.commitIndex <+: h.leaderLog request.term :=
    SettledBy.prefix_leaderLog inv (SettledBy.mono hs fits.term_le) (by simp [hled])
  have hleader : (h.leaderLog request.term)[request.prevLogIndex + m]? = some x := by
    rw [hentries] at hget
    rw [List.getElem?_take] at hget
    split_ifs at hget
    rwa [List.getElem?_drop] at hget
  refine hnext x hget ?_
  obtain ⟨l, hl⟩ := hpre
  rw [← hl, List.getElem?_append_left, List.getElem?_take, if_pos] at hleader
  · exact hleader
  · omega
  · rw [List.length_take]
    omega

/-! ### No fault of the protocol -/

/-- A fault that speaks about the protocol. -/
def ProtocolFault (detail : String) : Prop :=
  detail = "leader attempted to overwrite a committed entry" ∨
    detail = "commit index references a missing log entry"

theorem Exhausted.not_protocolFault {m : RaftNode} {detail : String} (h : Exhausted m detail) :
    ¬ProtocolFault detail := by
  unfold ProtocolFault
  cases h <;> decide

theorem not_protocolFault_unexpected : ¬ProtocolFault "unexpected storage completion" := by
  unfold ProtocolFault
  decide

/-- An event that is put aside reports no fault of the protocol. -/
theorem Aside.quiet (ha : Aside n e c) (hfail : ∀ p, ¬Completes n e p false) :
    Emits (Reports fun detail => ¬ProtocolFault detail) { node := n } c := by
  have hr := Emits.refl (P := Reports fun detail => ¬ProtocolFault detail) { node := n }
  cases ha with
  | unexpected => exact hr.emit fun _ => not_protocolFault_unexpected
  | failed p error pending => exact absurd ⟨pending, error, rfl⟩ (hfail p)
  | invalid => exact hr.reply _ _ _ _
  | oversized => exact hr.traceRegular _ _ (by simp)
  | busy => exact (hr.traceRegular _ _ (by simp)).reply _ _ _ _
  | dropped => exact hr.traceRegular _ _ (by simp)
  | deferred => exact hr.setNode _
  | stopped => exact hr.reply _ _ _ _
  | ignored => exact hr

section

variable {d : RecoveredState} {disk : Disk} (hr : Related config S h)
    (hC : Carried (CommitSettled (quorums config)) (AppendSettled (quorums config)) h S)
    (hon : S.node i = some n) (hn : Running config S h i d disk n)
    (he : ∀ m, e = .messageReceived m → m ∈ S.sent)
include hr hC hon hn he

/-- **No reaction of a running node reports a fault of the protocol.** -/
theorem Running.report {c' : Ctx} (r : Reaction n e cause c c') {detail : String}
    (hreport : Report c.node cause detail) : ¬ProtocolFault detail := by
  cases hreport with
  | exhausted counter => exact counter.not_protocolFault
  | unexpected => exact not_protocolFault_unexpected
  | overwrite s request x heard fits first committed =>
    -- The one report that the state of the cluster rules out.
    have hmem : (⟨s, c.node.config.nodeId, .appendEntries request⟩ : MessageEnvelope) ∈
        S.sent := by
      rcases r.taken _ heard.1 with hnew | hd
      · exact he _ hnew.symm
      · exact hn.coherent.deferred _ hd
    have hsettled := hC.memory i n hon
    have hcommit := hn.coherent.formed.commit_le
    rw [← r.steady.memory] at hsettled hcommit
    exact absurd committed (not_le.mpr (keeps_of_settled hr.chronicled.inv hsettled hcommit fits
      (hr.truthful _ hmem) first))

/-- **A running node reports no fault of the protocol**, whatever it is fed. -/
theorem Running.quiet (hfail : ∀ p, ¬Completes n e p false) :
    Emits (Reports fun detail => ¬ProtocolFault detail) { node := n } (n.step e) := by
  refine TurnRule.step (I := fun c => Emits (Reports fun detail => ¬ProtocolFault detail)
    { node := n } c) ?_ hn.coherent
  refine ⟨fun c ha => ha.quiet hfail, fun _ => Emits.refl _, fun p _ => ?_, fun _ _ _ _ _ h => h,
    ?_⟩
  · exact Emits.traceRegular ((Emits.refl _).setNode _) _ _ (by simp)
  · intro cause c c' r hI
    refine hI.trans (r.emits.mono fun x hx => ?_)
    cases x with
    | trace report => exact fun hk => hn.report hr hC hon he r (hx hk)
    | persist p | send m | scheduleTimer t | clientReply a => trivial

end

/-- **The fault branches are unreachable.** No action but the report of a storage failure
makes a node report that a leader wants to overwrite a committed entry or that the commit
index points behind the log, and no step of a node raises an exception. -/
theorem Cluster.fault_branches_unreachable (hS : Reachable config S) :
    (∀ a S' effects, S.step config a = some (S', effects) → (∀ j error, a ≠ .fail j error) →
      ∀ r, .trace r ∈ effects → r.kind = .fault →
        r.detail ≠ "leader attempted to overwrite a committed entry" ∧
          r.detail ≠ "commit index references a missing log entry") ∧
    ∀ j m event, S.node j = some m → (m.step event).thrown = none := by
  obtain ⟨h, hr, hC⟩ := (carries_settled config).reachable hS
  refine ⟨fun a S' effects hstep hnofail r htrace hfault => ?_, fun j m event hm => ?_⟩
  · rcases Cluster.effects_of_step hstep hnofail with
      rfl | ⟨i, n, hon, rfl⟩ | ⟨i, e, host, S₀, n, hf, hon, rfl, hcomplete⟩
    · simp at htrace
    · -- A start arms a timer and reports nothing.
      rcases start_cases n with heq | heq <;> simp [heq] at htrace
    · have he : ∀ m, e = .messageReceived m → m ∈ S.sent := by
        rintro m rfl
        obtain ⟨hm, hsent, -⟩ := Cluster.feeds_mem hf
        exact hsent ▸ hm
      obtain ⟨-, es, hes, hok⟩ := (hr.on hon).quiet hr hC hon he fun p hp => by
        obtain ⟨-, error, rfl⟩ := hp
        exact hcomplete _ _ rfl
      rw [hes] at htrace
      have hquiet : r.kind = .fault → ¬ProtocolFault r.detail :=
        hok (.trace r) (by simpa using htrace)
      exact not_or.mp (hquiet hfault)
  · exact ((hr.on hm).coherent.stepRule event).step.thrown

/-- After its election the leader hears that its readiness entry has been accepted: it raises
its commit index and reports no fault. -/
theorem Cluster.fault_branches_unreachable_elect :
    Reachable Sample.config (after Sample.config Sample.elect) ∧
    (∀ a S' effects, (after Sample.config Sample.elect).step Sample.config a = some (S', effects) →
      (∀ j error, a ≠ .fail j error) → ∀ r, .trace r ∈ effects → r.kind = .fault →
        r.detail ≠ "leader attempted to overwrite a committed entry" ∧
          r.detail ≠ "commit index references a missing log entry") ∧
    ∀ j m event, (after Sample.config Sample.elect).node j = some m →
      (m.step event).thrown = none :=
  have hS := reachable_after (by decide +kernel)
  ⟨hS, Cluster.fault_branches_unreachable hS⟩

end DetLog
