import DetLog.Raft.Outcome

/-!
# Every handler has an outcome

The case analysis behind `DetLog.outcome_dispatch` and `DetLog.outcome_resume`. The
functions that only emit, send or apply keep `DetLog.Held`; the handlers end in one of
them or in `DetLog.Ctx.startPersist`, which turns a plan into an outcome
(`DetLog.Outcome.startPersist`).
-/

namespace DetLog

open Consensus

/-! ### What keeps the protected state -/

section Frame

variable {n m m' : RaftNode} {cause : Cause} {c₀ c c' : Ctx} {request : AppendEntries}
  {batch : PersistBatch} {s : NodeId} {progress : PeerProgress} {command : ClientCommand}
  {token : ClientToken} {candidate : NodeId} {k : Continuation} {peer : NodeId} {term : ℕ}

theorem SameCore.refl (n : RaftNode) : SameCore n n :=
  ⟨rfl, rfl, rfl, rfl, rfl, rfl, rfl, Or.inl rfl⟩

theorem Becomes.same {hs : HardState} {l : List LogEntry} {k : ℕ} (h : Becomes n m hs l k)
    (h' : SameCore m m') : Becomes n m' hs l k where
  config := h'.config.trans h.config
  durableHardState := h'.durableHardState.trans h.durableHardState
  durableLastLogIndex := h'.durableLastLogIndex.trans h.durableLastLogIndex
  durableCommitIndex := h'.durableCommitIndex.trans h.durableCommitIndex
  hardState := h'.hardState.trans h.hardState
  log := h'.log.trans h.log
  commitIndex := h'.commitIndex.trans h.commitIndex
  deferred := by
    rcases h'.deferred with h' | h'
    · rw [h']
      exact h.deferred
    · exact Or.inr h'

theorem SameCore.currentTerm (h : SameCore n m) : m.currentTerm = n.currentTerm :=
  congrArg HardState.currentTerm h.hardState

/-- What the outcomes mention of a node. -/
def RaftNode.visible (n : RaftNode) :=
  (n.config, n.hardState, n.durableHardState, n.log, n.durableLastLogIndex, n.commitIndex,
    n.durableCommitIndex, n.deferredEvents, n.pendingStorage, n.role, n.votesReceived, n.peers)

/-- A change that none of the outcomes mentions. -/
def Quiet (n m : RaftNode) : Prop := m.visible = n.visible

theorem Quiet.refl (n : RaftNode) : Quiet n n := rfl

theorem Quiet.core (h : Quiet n m) : SameCore n m := by
  simp only [Quiet, RaftNode.visible, Prod.mk.injEq] at h
  obtain ⟨h₁, h₂, h₃, h₄, h₅, h₆, h₇, h₈, -⟩ := h
  exact ⟨h₁, h₃, h₅, h₇, h₂, h₄, h₆, Or.inl h₈⟩

theorem Quiet.volatile (h : Quiet n m) :
    m.pendingStorage = n.pendingStorage ∧ m.role = n.role ∧
      m.votesReceived = n.votesReceived ∧ m.peers = n.peers := by
  simp only [Quiet, RaftNode.visible, Prod.mk.injEq] at h
  exact h.2.2.2.2.2.2.2.2

theorem Status.quiet (h : Status n cause m) (hq : Quiet m m') : Status n cause m' := by
  obtain ⟨-, hrole, hvotes, hpeers⟩ := hq.volatile
  cases h with
  | same role votes peers =>
    exact .same (hrole.trans role) (hvotes.trans votes) (by rwa [PeersAcked, hpeers])
  | tally s r heard term granted old role votes =>
    exact .tally s r heard term granted old (hrole.trans role) (hvotes.trans votes)
  | follower role => exact .follower (hrole.trans role)
  | unavailable role => exact .unavailable (hrole.trans role)

theorem peersAcked_refl (n : RaftNode) (cause : Cause) : PeersAcked n cause n :=
  fun _ progress h => Or.inl ⟨progress, h, le_rfl⟩

/-- A node that gives up keeps all that elections and the log rest on. -/
theorem SameCore.failStorage (c : Ctx) (detail : String) :
    SameCore c.node (c.failStorage detail).node := by
  rw [Ctx.failStorage_node]
  exact ⟨rfl, rfl, rfl, rfl, rfl, rfl, rfl, Or.inr rfl⟩

namespace Held

theorem refl (cause : Cause) (hp : c.node.pendingStorage = none) : Held c.node cause c c :=
  ⟨Emits.refl c, SameCore.refl _, hp, .same rfl rfl (peersAcked_refl _ _)⟩

variable (h : Held n cause c₀ c)
include h

theorem quiet (he : Emits (EffectOk n cause) c c') (hq : Quiet c.node c'.node) :
    Held n cause c₀ c' :=
  ⟨h.emits.trans he, h.core.same hq.core, hq.volatile.1.trans h.pending, h.status.quiet hq⟩

theorem trace {kind : TraceKind} {detail : String} {index : ℕ}
    (hk : kind = .roleChange → detail ≠ "became leader") :
    Held n cause c₀ (c.trace kind detail index) :=
  h.quiet ((tolerant_effectOk n cause).traced (Emits.refl c) hk) (Quiet.refl _)

theorem emitReply (token : ClientToken) (status : ClientStatus) (value : Bytes) (index : ℕ) :
    Held n cause c₀ (c.emitReply token status value index) :=
  h.quiet ((tolerant_effectOk n cause).traced ((Emits.refl c).emit (by simp [EffectOk])) (by simp))
    (Quiet.refl _)

theorem emitReplies (tokens : List ClientToken) (status : ClientStatus) (value : Bytes)
    (index : ℕ) :
    Held n cause c₀ (c.emitReplies tokens status value index) := by
  induction tokens generalizing c with
  | nil => exact h
  | cons token rest ih => exact ih (h.emitReply token status value index)

theorem scheduleElection : Held n cause c₀ c.scheduleElection :=
  h.quiet ((tolerant_effectOk n cause).election (Emits.refl c)) rfl

theorem scheduleHeartbeat : Held n cause c₀ c.scheduleHeartbeat :=
  h.quiet ((tolerant_effectOk n cause).heartbeat (Emits.refl c)) rfl

theorem sendMessage {target : NodeId} {message : Message}
    (hs : SendOk n cause { sender := n.config.nodeId, target, message })
    (hw : Worded n cause message) : Held n cause c₀ (c.sendMessage target message) := by
  refine h.quiet ((tolerant_effectOk n cause).sent (Emits.refl c) ?_) (Quiet.refl _)
  rw [h.core.config]
  exact ⟨hs, hw⟩

theorem setNode (hq : Quiet c.node m) : Held n cause c₀ { c with node := m } :=
  h.quiet ((Emits.refl c).setNode m) hq

theorem failStorage (detail : String) : Held n cause c₀ (c.failStorage detail) where
  emits := (tolerant_effectOk n cause).failed h.emits
  core := h.core.same (SameCore.failStorage c detail)
  pending := by rw [Ctx.failStorage_node]
  status := .unavailable (by rw [Ctx.failStorage_node])

/-- Only a node that led before the reaction leads while its protected state holds. -/
theorem leader (hl : c.node.role = .leader) :
    n.role = .leader ∧ c.node.votesReceived = n.votesReceived ∧ PeersAcked n cause c.node := by
  cases h.status with
  | same role votes peers => exact ⟨role.symm.trans hl, votes, peers⟩
  | tally s r _ _ _ _ role _ | follower role | unavailable role =>
    exact absurd (role.symm.trans hl) (by decide)

end Held

theorem PeersAcked.insert (h : PeersAcked n cause m)
    (hpeers : m'.peers = m.peers.insert peer progress)
    (hp : Acked n cause peer progress.matchIndex) : PeersAcked n cause m' := by
  intro q p' hq
  rw [hpeers, OrdMap.find_insert] at hq
  split_ifs at hq with hqp
  · obtain rfl : progress = p' := by simpa using hq
    rwa [hqp]
  · exact h q p' hq

/-! ### Replication -/

/-- The clamp of `send_append` keeps the previous index within the durable log. -/
theorem sendAppend_prev_le (next last : ℕ) :
    (if next < 1 then 1 else if last + 1 < next then last + 1 else next) - 1 ≤ last := by
  split_ifs <;> omega

theorem Held.sendAppendTo (h : Held n cause c₀ c) (hl : c.node.role = .leader)
    (hp : c.node.peers.find peer = some progress) :
    Held n cause c₀ (c.sendAppendTo peer progress) := by
  obtain ⟨hrole, hvotes, hpeers⟩ := h.leader hl
  have hacked : Acked n cause peer progress.matchIndex := hpeers peer progress hp
  unfold Ctx.sendAppendTo
  simp only
  by_cases hrpc : c.node.nextRpcId = 0
  · rw [if_pos hrpc]
    refine Held.failStorage ?_ _
    exact ⟨h.emits, h.core.same ⟨rfl, rfl, rfl, rfl, rfl, rfl, rfl, Or.inl rfl⟩, h.pending,
      .same (hl.trans hrole.symm) hvotes (hpeers.insert rfl hacked)⟩
  · rw [if_neg hrpc]
    refine Held.sendMessage (n := n) ?_ ?_ ?_
    · exact ⟨h.emits, h.core.same ⟨rfl, rfl, rfl, rfl, rfl, rfl, rfl, Or.inl rfl⟩, h.pending,
        .same (hl.trans hrole.symm) hvotes (hpeers.insert rfl hacked)⟩
    swap
    · refine ⟨hrpc, ?_, ?_⟩ <;> rw [← h.core.config]
      · exact (packEntries_isPrefix _ _ _).length_le.trans ((List.length_take_le _ _).trans
          (min_le_right _ _))
      · exact packEntries_packEntries _ _ _
    -- What goes out are consecutive durable entries behind the previous one.
    generalize hprev : (if progress.nextIndex < 1 then 1
      else if c.node.durableLastLogIndex + 1 < progress.nextIndex
        then c.node.durableLastLogIndex + 1 else progress.nextIndex) - 1 = prev
    have hle : prev ≤ c.node.durableLastLogIndex := hprev ▸ sendAppend_prev_le _ _
    have hpack := packEntries_isPrefix c.node.config.maxAppendBytesPerRpc
      ((c.node.log.drop prev).take
        (min (c.node.durableLastLogIndex - prev) c.node.config.maxAppendEntriesPerRpc))
      kAppendRpcOverhead
    have hlen := hpack.length_le
    have hsub := List.prefix_iff_eq_take.mp (hpack.trans <| List.take_prefix _ _)
    rw [List.length_take] at hlen
    refine ⟨rfl, hrole, h.core.currentTerm, by rw [h.core.config], by rw [h.core.log], ?_, ?_,
      h.core.commitIndex⟩
    · rw [← h.core.log]
      exact hsub
    · rw [← h.core.durableLastLogIndex]
      simp only
      omega

theorem Held.sendAppend (h : Held n cause c₀ c) (peer : NodeId) :
    Held n cause c₀ (c.sendAppend peer) := by
  unfold Ctx.sendAppend
  split_ifs with hl
  · exact h
  · push Not at hl
    split
    · exact h
    · next progress hp =>
      split_ifs
      · exact h
      · exact h.sendAppendTo hl.1 hp

theorem Held.sendAllAppends (h : Held n cause c₀ c) : Held n cause c₀ c.sendAllAppends := by
  have hfold : ∀ (peers : List NodeId) (c : Ctx), Held n cause c₀ c →
      Held n cause c₀ (peers.foldl Ctx.sendAppend c) := by
    intro peers
    induction peers with
    | nil => exact fun c h => h
    | cons peer rest ih => exact fun c h => ih _ (h.sendAppend peer)
  unfold Ctx.sendAllAppends
  split_ifs
  · exact h
  · exact hfold _ c h

/-! ### Applying -/

theorem Held.applyEntry (h : Held n cause c₀ c) (index : ℕ) (entry : LogEntry) :
    Held n cause c₀ (c.applyEntry index entry) := by
  unfold Ctx.applyEntry
  simp only
  split
  · refine Held.trace ?_ (by simp)
    exact h.setNode rfl
  · refine Held.setNode (Held.emitReplies (Held.trace ?_ (by simp)) _ _ _ _) rfl
    exact h.setNode rfl

theorem Held.applyRounds (h : Held n cause c₀ c) (fuel : ℕ) :
    Held n cause c₀ (c.applyRounds fuel) := by
  induction fuel generalizing c with
  | zero => exact h
  | succ fuel ih =>
    rw [Ctx.applyRounds]
    split_ifs
    · simp only
      split
      · refine Held.failStorage ?_ _
        exact h.setNode rfl
      · refine ih (Held.applyEntry ?_ _ _)
        exact h.setNode rfl
    · exact h

theorem Held.applyCommitted (h : Held n cause c₀ c) : Held n cause c₀ c.applyCommitted :=
  h.applyRounds _

/-! ### Persisting -/

theorem Plan.quiet (h : Plan n cause m batch k) (hcore : SameCore m m') (hrole : m'.role = m.role)
    (hvotes : m'.votesReceived = m.votesReceived) (hpeers : m'.peers = m.peers) :
    Plan n cause m' batch k := by
  cases h with
  | campaign hs new core role votes bound =>
    exact .campaign hs new (core.same hcore) (hrole.trans role) (hvotes.trans votes) bound
  | adopt term k higher core role plain repeats =>
    exact .adopt term k higher (core.same hcore) (hrole.trans role) plain repeats
  | grant candidate request w heard pos named term_le free fresh core role =>
    exact .grant candidate request w heard pos named term_le free fresh (core.same hcore)
      (by rwa [hrole])
  | lead wins bound core role peers fits =>
    exact .lead wins bound (core.same hcore) (hrole.trans role) (by rwa [hpeers]) fits
  | accept s request heard named fits keeps core role nonempty =>
    exact .accept s request heard named fits keeps (core.same hcore) (hrole.trans role) nonempty
  | propose token command asked old ready acceptable admits bound room core role peers =>
    exact .propose token command asked old ready acceptable admits bound room (core.same hcore)
      (hrole.trans role) (hpeers.trans peers)
  | commit target old core role peers above durable current quorum =>
    exact .commit target old (core.same hcore) (hrole.trans role) (by rwa [PeersAcked, hpeers])
      above durable current (by rwa [RaftNode.replicas, hpeers])

/-- A plan that storage never gets, because the node gives up first. -/
theorem Outcome.failStorage (he : Emits (EffectOk n cause) c₀ c)
    (plan : Plan n cause c.node batch k) (detail : String) :
    Outcome n cause c₀ (c.failStorage detail) :=
  .fails c.node batch k plan ((tolerant_effectOk n cause).failed he)
    (SameCore.failStorage c detail) (by rw [Ctx.failStorage_node]) (by rw [Ctx.failStorage_node])

/-- **A plan that goes to storage is an outcome.** -/
theorem Outcome.startPersist (hp : c.node.pendingStorage = none)
    (he : Emits (EffectOk n cause) c₀ c) (plan : Plan n cause c.node batch k) :
    Outcome n cause c₀ (c.startPersist batch k) := by
  unfold Ctx.startPersist
  rw [if_neg (by simp [hp])]
  by_cases hop : c.node.nextStorageOpId = 0
  · rw [if_pos hop]
    exact Outcome.failStorage he plan _
  · rw [if_neg hop]
    have hbegin : Emits (EffectOk n cause) c₀
        (c.trace .storageBegin "storage operation started" 0) :=
      (tolerant_effectOk n cause).traced he (by simp)
    obtain ⟨ht, es, hes, hok⟩ := hbegin
    refine .waits batch k c.node.nextStorageOpId (plan.quiet ?_ rfl rfl rfl) rfl ht ⟨es, ?_, hok⟩
    · exact ⟨rfl, rfl, rfl, rfl, rfl, rfl, rfl, Or.inl rfl⟩
    · rw [← List.append_assoc, ← hes]
      rfl

/-! ### Commitment -/

theorem Held.maybeAdvanceCommit (h : Held n cause c₀ c) :
    Outcome n cause c₀ c.maybeAdvanceCommit := by
  unfold Ctx.maybeAdvanceCommit
  split_ifs with hl
  · exact .held h
  · push Not at hl
    obtain ⟨hrole, -, hpeers⟩ := h.leader hl.1
    simp only
    rcases c.node.commitTarget_cases c.node.durableLastLogIndex with heq | ⟨hlt, hle, hterm, hq⟩
    · rw [if_pos heq]
      exact .held h
    · rw [if_neg hlt.ne']
      refine Outcome.startPersist h.pending (h.emits.setNode _) ?_
      refine .commit _ hrole ?_ hl.1 hpeers ?_ ?_ ?_ ?_
      · exact { h.core with commitIndex := rfl }
      · rwa [← h.core.commitIndex]
      · rwa [← h.core.durableLastLogIndex]
      · rwa [← h.core.log, ← h.core.currentTerm]
      · rwa [RaftNode.quorumSize, ← h.core.config]

/-! ### Continuations -/

theorem Held.requestVotes (h : Held n cause c₀ c) (hc : c.node.role = .candidate)
    (hk : cause = .resumed .campaign) : Held n cause c₀ c.requestVotes := by
  have hold : n.role = .candidate := by
    cases h.status with
    | same role _ _ => exact role.symm.trans hc
    | tally _ _ _ _ _ old _ _ => exact old
    | follower role | unavailable role => exact absurd (role.symm.trans hc) (by decide)
  unfold Ctx.requestVotes
  simp only
  generalize hreq : (RequestVote.mk _ _ _ _) = request
  have hok : ∀ target,
      SendOk n cause { sender := n.config.nodeId, target, message := .requestVote request } := by
    intro target
    subst hreq
    refine ⟨rfl, hold, hk, h.core.currentTerm, ?_, h.core.durableLastLogIndex, ?_⟩
    · rw [h.core.config]
    · rw [h.core.log, h.core.durableLastLogIndex]
  clear hreq hc
  generalize c.node.config.members = members
  induction members generalizing c with
  | nil => exact h
  | cons member rest ih =>
    rw [List.foldl_cons]
    split_ifs
    · exact ih (h.sendMessage (hok member) trivial)
    · exact ih h

theorem Held.resume_voteReply (h : Held n cause c₀ c) {grant w : Bool}
    (hg : grant = true → n.hardState.votedFor = some candidate ∨
      cause = .resumed (.voteReply candidate grant w))
    (hw : n.currentTerm ≠ 0 ∨ ∃ c g w, cause = .resumed (.voteReply c g w)) :
    Held n cause c₀ (c.resume (.voteReply candidate grant w)) := by
  have hsend : ∀ {c : Ctx}, Held n cause c₀ c → Held n cause c₀ (c.sendMessage candidate
      (.requestVoteResponse { term := c.node.currentTerm, voteGranted := grant })) := by
    intro c h
    refine h.sendMessage ⟨rfl, h.core.currentTerm, fun hgrant => ?_⟩ hw
    obtain rfl : grant = true := hgrant
    exact (hg rfl).imp_right fun h => ⟨w, h⟩
  unfold Ctx.resume
  cases grant with
  | false =>
    cases w with
    | false => exact hsend h
    | true => exact hsend h.scheduleElection
  | true => exact hsend (Held.scheduleElection (h.trace (by simp)))

theorem Held.resume_appendReject (h : Held n cause c₀ c) (leader : NodeId)
    (rpcId conflictIndex conflictTerm : ℕ)
    (hw : (n.currentTerm ≠ 0 ∧ ∃ s request, Heard n cause s (.appendEntries request) ∧
      request.rpcId = rpcId) ∨ ∃ l i t, cause = .resumed (.appendReject l rpcId i t)) :
    Held n cause c₀ (c.resume (.appendReject leader rpcId conflictIndex conflictTerm)) := by
  unfold Ctx.resume
  refine h.scheduleElection.sendMessage ⟨rfl, ?_, by simp⟩ (hw.imp_right Or.inr)
  exact h.scheduleElection.core.currentTerm

theorem Held.resume_appendAccept (h : Held n cause c₀ c) {leader : NodeId}
    {rpcId matchIndex : ℕ} {apply : Bool}
    (hok : (∃ request, Heard n cause leader (.appendEntries request) ∧
        request.term = n.currentTerm ∧ Fits n request ∧
        acceptedLog n.log request.entries = n.log ∧ rpcId = request.rpcId ∧
        matchIndex = Ctx.appendMatchIndex request) ∨
      cause = .resumed (.appendAccept leader rpcId matchIndex apply)) :
    Held n cause c₀ (c.resume (.appendAccept leader rpcId matchIndex apply)) := by
  have hsend : ∀ {c : Ctx}, Held n cause c₀ c → Held n cause c₀ (c.scheduleElection.sendMessage
      leader (.appendEntriesResponse
        { term := c.scheduleElection.node.currentTerm, rpcId, success := true, matchIndex,
          conflictIndex := 0, conflictTerm := 0 })) := by
    intro c h
    refine h.scheduleElection.sendMessage ⟨rfl, h.scheduleElection.core.currentTerm, fun _ => ?_⟩
      (hok.imp ?_ fun h => Or.inl ⟨_, _, _, h⟩)
    · exact hok.imp_right fun h => ⟨apply, h⟩
    · rintro ⟨request, heard, hterm, fits, -, hid, -⟩
      exact ⟨hterm ▸ fits.term_pos, _, request, heard, hid.symm⟩
  unfold Ctx.resume
  cases apply with
  | false => exact hsend h
  | true => exact hsend (Held.applyCommitted (h.trace (by simp)))

/-- **The continuation of a completed batch has an outcome.** -/
theorem outcome_resume (c : Ctx) (hp : c.node.pendingStorage = none) (k : Continuation) :
    Outcome c.node (.resumed k) c (c.resume k) := by
  have h : Held c.node (.resumed k) c c := Held.refl _ hp
  cases k with
  | campaign =>
    simp only [Ctx.resume]
    split_ifs with hrole
    · exact .held h
    · push Not at hrole
      exact .held (h.scheduleElection.requestVotes hrole rfl)
  | voteReply candidate grant w =>
    exact .held (h.resume_voteReply (fun _ => Or.inr rfl) (Or.inr ⟨_, _, _, rfl⟩))
  | rearm => exact .held h.scheduleElection
  | leaderEstablished =>
    simp only [Ctx.resume]
    split_ifs
    · exact .held h
    · exact h.sendAllAppends.scheduleHeartbeat.maybeAdvanceCommit
  | appendReject leader rpcId ci ct =>
    exact .held (h.resume_appendReject leader rpcId ci ct (Or.inr ⟨_, _, _, rfl⟩))
  | appendAccept leader rpcId mi apply => exact .held (h.resume_appendAccept (Or.inr rfl))
  | clientAppended =>
    simp only [Ctx.resume]
    split_ifs
    · exact .held h
    · exact h.sendAllAppends.maybeAdvanceCommit
  | commitAdvanced =>
    simp only [Ctx.resume]
    refine .held (Held.sendAllAppends ?_)
    have happly : Held c.node (.resumed .commitAdvanced) c
        (c.trace .commit "leader durably advanced commit index"
          c.node.commitIndex).applyCommitted :=
      Held.applyCommitted (h.trace (by simp))
    split_ifs
    · exact happly.setNode rfl
    · exact happly

/-! ### Elections -/

theorem Ctx.stepDown_node (c : Ctx) (term : ℕ) (leaderHint : Option NodeId) :
    (c.stepDown term leaderHint false).node =
      { c.node with
        hardState := followed c.node term
        role := .follower
        leaderHint
        leaderReady := false
        readinessIndex := 0
        votesReceived := ∅
        peers := ∅
        heartbeatGeneration := incU64 c.node.heartbeatGeneration } := by
  unfold Ctx.stepDown followed
  by_cases ht : c.node.currentTerm < term
  · by_cases hr : c.node.role = .follower <;> simp [ht, hr, Ctx.trace, Ctx.emit]
  · by_cases hr : c.node.role = .follower <;> simp [ht, hr, Ctx.trace, Ctx.emit]

theorem Tolerant.steppedDown {P : RaftEffect → Prop} (hP : Tolerant P) (h : Emits P c₀ c)
    {leaderHint : Option NodeId} : Emits P c₀ (c.stepDown term leaderHint false) := by
  have hrole : ∀ {c : Ctx}, Emits P c₀ c → Emits P c₀ (c.trace .roleChange "became follower" 0) :=
    fun h => hP.traced h (by simp)
  have hterm : ∀ {c : Ctx}, Emits P c₀ c →
      Emits P c₀ (c.trace .termChange "observed a higher term" 0) :=
    fun h => hP.traced h (by simp)
  unfold Ctx.stepDown
  simp only [Bool.false_eq_true, if_false]
  by_cases ht : c.node.currentTerm < term
  · rw [if_pos ht]
    split_ifs
    · exact hrole (hterm (h.setNode _))
    · exact hterm (h.setNode _)
  · rw [if_neg ht]
    split_ifs
    · exact hrole (h.setNode _)
    · exact h.setNode _

/-- A node on its way to follow the given term: nothing but the hard state has moved. -/
structure Following (n : RaftNode) (cause : Cause) (term : ℕ) (c₀ c : Ctx) : Prop where
  emits : Emits (EffectOk n cause) c₀ c
  core : Becomes n c.node (followed n term) n.log n.commitIndex
  pending : c.node.pendingStorage = none
  role : c.node.role = .follower

theorem Held.stepDown (h : Held n cause c₀ c) (term : ℕ) (leaderHint : Option NodeId) :
    Following n cause term c₀ (c.stepDown term leaderHint false) where
  emits := (tolerant_effectOk n cause).steppedDown h.emits
  core := by
    rw [Ctx.stepDown_node]
    refine { h.core with hardState := ?_ }
    simp only [followed, h.core.hardState, h.core.currentTerm]
  pending := by
    rw [Ctx.stepDown_node]
    exact h.pending
  role := by rw [Ctx.stepDown_node]

/-- In its own term the node has merely become a follower. -/
theorem Following.held (h : Following n cause term c₀ c) (ht : ¬n.currentTerm < term) :
    Held n cause c₀ c where
  emits := h.emits
  core := by
    have := h.core
    rwa [followed, if_neg ht] at this
  pending := h.pending
  status := .follower h.role

/-- A higher term goes to storage before anything else happens. -/
theorem Following.adopt (h : Following n cause term c₀ c) (ht : n.currentTerm < term) (hk : k.Plain)
    (hid : ∀ l r i t, k = .appendReject l r i t →
      ∃ s request, Heard n cause s (.appendEntries request) ∧ request.rpcId = r) :
    Outcome n cause c₀ (c.startPersist (hardStateBatch ⟨term, none⟩) k) := by
  refine Outcome.startPersist h.pending h.emits (.adopt term k ht ?_ h.role hk hid)
  have := h.core
  rwa [followed, if_pos ht] at this

theorem Held.adoptTerm (h : Held n cause c₀ c) (ht : n.currentTerm < term) :
    Outcome n cause c₀ (c.adoptTerm term) := by
  have hf := h.stepDown term none
  have hhs : (c.stepDown term none false).node.hardState = ⟨term, none⟩ := by
    rw [hf.core.hardState, followed, if_pos ht]
  simp only [Ctx.adoptTerm, Ctx.beginPersist, PersistBatch.isEmpty, Option.isNone_some,
    Bool.false_and, Bool.false_eq_true, if_false, hhs]
  exact hf.adopt ht (Or.inl rfl) (by simp)

theorem Held.beginElection (h : Held n cause c₀ c) : Outcome n cause c₀ c.beginElection := by
  unfold Ctx.beginElection
  by_cases hmax : c.node.currentTerm = maxU64
  · rw [if_pos hmax]
    exact .held (h.failStorage _)
  · rw [if_neg hmax]
    simp only [Ctx.beginPersist, PersistBatch.isEmpty, Option.isNone_some, Bool.false_and,
      Bool.false_eq_true, if_false]
    have hT := tolerant_effectOk n cause
    refine Outcome.startPersist h.pending (hT.traced (hT.traced (hT.traced (h.emits.setNode _)
      (by simp)) (by simp)) (by simp)) ?_
    refine .campaign _ ?_ ?_ rfl ?_ ?_
    · rw [h.core.currentTerm, h.core.config]
    · exact { h.core with hardState := rfl }
    · rw [← h.core.config]
      rfl
    · rwa [← h.core.currentTerm]

/-- The decision on a vote, for a node that has just adopted the candidate's term. -/
theorem Following.decideVote {request : RequestVote} {w : Bool}
    (h : Following n cause request.term c₀ c) (ht : n.currentTerm < request.term)
    (heard : Heard n cause candidate (.requestVote request)) (hpos : request.term ≠ 0)
    (hnamed : request.candidateId = candidate) :
    Outcome n cause c₀ (c.decideVote candidate request true w) := by
  have hhs : c.node.hardState = ⟨request.term, none⟩ := by
    rw [h.core.hardState, followed, if_pos ht]
  unfold Ctx.decideVote
  simp only [hhs, if_true, true_or, decide_true, Bool.true_and, ne_eq, reduceCtorEq,
    not_false_eq_true, Bool.and_true, h.core.log, hnamed]
  cases hfresh : candidateIsUpToDate n.log request.lastLogIndex request.lastLogTerm with
  | false =>
    simp only [Ctx.beginPersist, PersistBatch.isEmpty, Bool.false_eq_true, if_false,
      Option.isNone_some, Bool.false_and]
    exact h.adopt ht (Or.inr (Or.inl ⟨_, _, rfl⟩)) (by simp)
  | true =>
    simp only [Ctx.beginPersist, PersistBatch.isEmpty, Bool.false_eq_true, if_false,
      Option.isNone_some, Bool.false_and, if_true]
    refine Outcome.startPersist h.pending (h.emits.setNode _) (.grant candidate request w heard
      hpos hnamed ht.le (Or.inl ht) hfresh ?_ (Or.inl h.role))
    exact { h.core with hardState := rfl, log := rfl }

/-- The decision on a vote in the node's own term. -/
theorem Held.decideVote {request : RequestVote} {w : Bool} (h : Held n cause c₀ c)
    (hrole : c.node.role = n.role) (ht : n.currentTerm = request.term)
    (heard : Heard n cause candidate (.requestVote request)) (hpos : request.term ≠ 0)
    (hnamed : request.candidateId = candidate) :
    Outcome n cause c₀ (c.decideVote candidate request false w) := by
  unfold Ctx.decideVote
  simp only [h.core.hardState, h.core.log, hnamed, Bool.false_eq_true, if_false]
  cases hfresh : candidateIsUpToDate n.log request.lastLogIndex request.lastLogTerm with
  | false =>
    simp only [Bool.and_false, Bool.false_and, Bool.false_eq_true, if_false,
      PersistBatch.isEmpty, Option.isNone_none, List.isEmpty_nil, Bool.and_self, if_true]
    exact .held (h.resume_voteReply (by simp) (Or.inl (ht.trans_ne hpos)))
  | true =>
    by_cases hv : n.hardState.votedFor = none
    · simp only [hv, true_or, decide_true, Bool.and_self, ne_eq, reduceCtorEq, not_false_eq_true,
        if_true, PersistBatch.isEmpty, Option.isNone_some, Bool.false_and, Bool.false_eq_true,
        if_false, Ctx.beginPersist]
      have hhs : ({ currentTerm := n.hardState.currentTerm, votedFor := some candidate } :
          HardState) = ⟨request.term, some candidate⟩ := by rw [← ht]; rfl
      rw [hhs]
      refine Outcome.startPersist h.pending (h.emits.setNode _) (.grant candidate request w heard
        hpos hnamed ht.le (Or.inr hv) hfresh ?_ (Or.inr ⟨hv, hrole⟩))
      exact { h.core with hardState := rfl, log := rfl }
    · by_cases hc : n.hardState.votedFor = some candidate
      · simp only [hc, or_true, decide_true, Bool.and_self, ne_eq, not_true_eq_false, decide_false,
          Bool.and_false, Bool.false_eq_true, if_false, PersistBatch.isEmpty, Option.isNone_none,
          List.isEmpty_nil, if_true]
        exact .held (h.resume_voteReply (fun _ => Or.inl hc) (Or.inl (ht.trans_ne hpos)))
      · simp only [hv, hc, or_false, decide_false, Bool.false_and, Bool.false_eq_true, if_false,
          PersistBatch.isEmpty, Option.isNone_none, List.isEmpty_nil, Bool.and_self, if_true]
        exact .held (h.resume_voteReply (by simp) (Or.inl (ht.trans_ne hpos)))

theorem outcome_onRequestVote (hp : c.node.pendingStorage = none) {request : RequestVote}
    (heard : Heard c.node cause s (.requestVote request)) :
    Outcome c.node cause c (c.onRequestVote s request) := by
  have h : Held c.node cause c c := Held.refl _ hp
  unfold Ctx.onRequestVote
  by_cases hbad : request.term = 0 ∨ request.candidateId ≠ s
  · rw [if_pos hbad]
    exact .held h
  · rw [if_neg hbad]
    push Not at hbad
    by_cases hlt : request.term < c.node.currentTerm
    · rw [if_pos hlt]
      exact .held (h.sendMessage ⟨rfl, rfl, by simp⟩ (Or.inl (Nat.ne_zero_of_lt hlt)))
    · rw [if_neg hlt]
      simp only
      by_cases hhi : c.node.currentTerm < request.term
      · simp only [hhi, decide_true, if_true]
        exact (h.stepDown request.term none).decideVote hhi heard hbad.1 hbad.2
      · simp only [hhi, decide_false, Bool.false_eq_true, if_false]
        exact h.decideVote rfl (by omega) heard hbad.1 hbad.2

/-- A new leader knows the other members and nothing of their logs. -/
theorem Ctx.freshPeers_find {p : NodeId} : (Ctx.freshPeers n).find p = some progress ↔
    progress = { nextIndex := n.durableLastLogIndex + 1 } ∧ p ∈ n.config.members ∧
      p ≠ n.config.nodeId := by
  rw [Ctx.freshPeers, OrdMap.find_foldl_insert (· ≠ n.config.nodeId)]
  split_ifs with hp
  · simp [hp, eq_comm]
  · simp [hp]

theorem SameCore.nextEntry (h : SameCore n m) (command : Option ClientCommand) :
    m.nextEntry command = n.nextEntry command := by
  simp only [RaftNode.nextEntry, RaftNode.lastLogIndex, h.log, h.currentTerm]

/-- The readiness entry of a node that has just won: a plan to append it, or the end of
its leadership. -/
theorem outcome_appendReadiness (hwins : Wins n cause) (hemits : Emits (EffectOk n cause) c₀ c)
    (hcore : SameCore n c.node) (hp : c.node.pendingStorage = none) (hrole : c.node.role = .leader)
    (hpeers : ∀ p progress, c.node.peers.find p = some progress →
      progress.matchIndex = 0 ∧ p ∈ n.config.members ∧ p ≠ n.config.nodeId) :
    Outcome n cause c₀ c.appendReadiness := by
  have hT := tolerant_effectOk n cause
  unfold Ctx.appendReadiness
  by_cases hmax : c.node.lastLogIndex = maxU64
  · rw [if_pos hmax]
    refine .held ⟨hT.failed hemits, hcore.same (SameCore.failStorage c _), ?_, .unavailable ?_⟩
    · rw [Ctx.failStorage_node]
    · rw [Ctx.failStorage_node]
  · rw [if_neg hmax]
    simp only [hcore.nextEntry]
    split_ifs with hroom
    · -- Without room for the entry the node gives its leadership up at once.
      refine .held ⟨hT.election ((hT.traced hemits (by simp)).setNode _), ?_, hp, .follower rfl⟩
      exact hcore.same ⟨rfl, rfl, rfl, rfl, rfl, rfl, rfl, Or.inl rfl⟩
    · refine Outcome.startPersist hp (hT.traced (hemits.setNode _) (by simp)) ?_
      refine .lead hwins (by rwa [← hcore.log]) ?_ hrole hpeers ?_
      · exact { hcore with log := congrArg (· ++ _) hcore.log }
      · rw [← hcore.config]
        by_contra hbig
        exact hroom (if_pos (by simpa [entryBytes, RaftNode.nextEntry] using hbig))

theorem Held.becomeLeader (h : Held n cause c₀ c) (hwins : Wins n cause) :
    Outcome n cause c₀ c.becomeLeader := by
  unfold Ctx.becomeLeader
  refine outcome_appendReadiness hwins ((h.emits.setNode _).emit fun _ _ =>
    ⟨hwins, congrArg RaftConfig.nodeId h.core.config, h.core.currentTerm⟩) ?_ h.pending rfl ?_
  · exact h.core.same ⟨rfl, rfl, rfl, rfl, rfl, rfl, rfl, Or.inl rfl⟩
  · intro p progress hp
    obtain ⟨rfl, hmem⟩ := Ctx.freshPeers_find.mp hp
    rw [← h.core.config]
    exact ⟨rfl, hmem⟩

theorem Ctx.recordVote_node (c : Ctx) (s : NodeId) :
    (c.recordVote s).node = { c.node with votesReceived := insert s c.node.votesReceived } := by
  simp only [Ctx.recordVote]
  split_ifs <;> rfl

section

variable (hp : c.node.pendingStorage = none) {response : RequestVoteResponse}
    (heard : Heard c.node cause s (.requestVoteResponse response))
include hp heard

theorem held_recordVote (hrole : c.node.role = .candidate)
    (hterm : response.term = c.node.currentTerm) (hgrant : response.voteGranted = true) :
    Held c.node cause c (c.recordVote s) where
  emits := by
    simp only [Ctx.recordVote]
    split_ifs
    · exact (tolerant_effectOk _ _).traced ((Emits.refl c).setNode _) (by simp)
    · exact (Emits.refl c).setNode _
  core := by
    rw [Ctx.recordVote_node]
    exact ⟨rfl, rfl, rfl, rfl, rfl, rfl, rfl, Or.inl rfl⟩
  pending := by
    rw [Ctx.recordVote_node]
    exact hp
  status := by
    rw [Ctx.recordVote_node]
    exact .tally s response heard hterm hgrant hrole hrole rfl

theorem outcome_onRequestVoteResponse :
    Outcome c.node cause c (c.onRequestVoteResponse s response) := by
  have h : Held c.node cause c c := Held.refl _ hp
  unfold Ctx.onRequestVoteResponse
  by_cases hhi : c.node.currentTerm < response.term
  · rw [if_pos hhi]
    exact h.adoptTerm hhi
  · rw [if_neg hhi]
    by_cases hskip : c.node.role ≠ .candidate ∨ response.term ≠ c.node.currentTerm ∨
        response.voteGranted = false
    · rw [if_pos hskip]
      exact .held h
    · rw [if_neg hskip]
      push Not at hskip
      obtain ⟨hrole, hterm, hgrant⟩ := hskip
      rw [ne_eq, Bool.not_eq_false] at hgrant
      have hcount := held_recordVote hp heard hrole hterm hgrant
      by_cases hquorum : (c.recordVote s).node.quorumSize ≤ (c.recordVote s).node.votesReceived.card
      · simp only [if_pos hquorum]
        rw [Ctx.recordVote_node] at hquorum
        exact hcount.becomeLeader ⟨hrole, s, response, heard, hterm, hgrant, hquorum⟩
      · simp only [if_neg hquorum]
        exact .held hcount

end

/-! ### Appends -/

theorem quiet_removePendingFrom (c : Ctx) (index : ℕ) :
    Quiet c.node (c.removePendingFrom index).node := by
  have hfold : ∀ (l : List (ℕ × PendingClientEntry)) (c : Ctx),
      Quiet c.node (l.foldl Ctx.removePending c).node := by
    intro l
    induction l with
    | nil => exact fun c => Quiet.refl _
    | cons e l ih =>
      intro c
      refine (ih (c.removePending e)).trans ?_
      simp [Ctx.removePending, RaftNode.visible]
  exact hfold _ c

/-- The continuation of a refused append. -/
theorem Following.rejectAppend {conflictIndex ct : ℕ} (h : Following n cause request.term c₀ c)
    (heard : Heard n cause s (.appendEntries request)) (hpos : request.term ≠ 0)
    (hb : batch = { hardState := if n.currentTerm < request.term then some ⟨request.term, none⟩
      else none }) :
    Outcome n cause c₀ (c.rejectAppend s request batch conflictIndex ct) := by
  subst hb
  unfold Ctx.rejectAppend
  by_cases ht : n.currentTerm < request.term
  · simp only [if_pos ht, PersistBatch.isEmpty, Option.isNone_some, Bool.false_and,
      Bool.false_eq_true, if_false, Ctx.beginPersist]
    refine h.adopt ht (Or.inr (Or.inr ⟨_, _, _, _, rfl⟩)) fun l r i t hk => ⟨s, request, heard, ?_⟩
    exact (Continuation.appendReject.inj hk).2.1
  · simp only [if_neg ht, PersistBatch.isEmpty, Option.isNone_none, List.isEmpty_nil,
      Bool.and_self, if_true]
    exact .held ((h.held ht).resume_appendReject _ _ _ _
      (Or.inl ⟨by omega, s, request, heard, rfl⟩))

/-- The end of an accepted append, once the log is the accepted one. -/
theorem outcome_finishAppend (heard : Heard n cause s (.appendEntries request))
    (named : request.leaderId = s) (fits : Fits n request)
    (keeps : ∀ e, (request.entries.drop (matchingEntries n.log request.entries)).head? = some e →
      n.commitIndex < e.index) (hemits : Emits (EffectOk n cause) c₀ c)
    (hcore : Becomes n c.node (followed n request.term) (acceptedLog n.log request.entries)
      n.commitIndex) (hp : c.node.pendingStorage = none) (hrole : c.node.role = .follower) :
    Outcome n cause c₀
      (c.finishAppend s request { acceptBatch n request with commitIndex := none }) := by
  unfold Ctx.finishAppend
  simp only [hcore.commitIndex]
  -- A commit index that rises is part of the batch, so the batch is not empty.
  by_cases hadv : n.commitIndex < min request.leaderCommit (Ctx.appendMatchIndex request)
  · have hcommit : (acceptBatch n request).commitIndex =
        some (min request.leaderCommit (Ctx.appendMatchIndex request)) := if_pos hadv
    have hne : (acceptBatch n request).isEmpty = false := by
      simp [PersistBatch.isEmpty, hcommit]
    simp only [hadv, decide_true, if_true, ← hcommit, hne, Bool.false_eq_true, if_false,
      Ctx.beginPersist]
    refine Outcome.startPersist hp (hemits.setNode _) ?_
    refine .accept s request heard named fits keeps ?_ hrole hne
    exact { hcore with commitIndex := (max_eq_right hadv.le).symm }
  · have hbatch : ({ acceptBatch n request with commitIndex := none } : PersistBatch) =
        acceptBatch n request := by
      rw [← show (acceptBatch n request).commitIndex = none from if_neg hadv]
    have hcore' : Becomes n c.node (followed n request.term) (acceptedLog n.log request.entries)
        (max n.commitIndex (min request.leaderCommit (Ctx.appendMatchIndex request))) := by
      rwa [max_eq_left (by omega)]
    simp only [hadv, decide_false, Bool.false_eq_true, if_false, hbatch]
    by_cases hempty : (acceptBatch n request).isEmpty = true
    · rw [if_pos hempty]
      -- An empty batch means that neither the term nor the log has moved.
      simp only [acceptBatch, PersistBatch.isEmpty, Bool.and_eq_true, List.isEmpty_iff,
        Option.isNone_iff_eq_none] at hempty
      obtain ⟨⟨⟨hterm, -⟩, hsuffix⟩, -⟩ := hempty
      have ht : ¬n.currentTerm < request.term := fun ht => by simp [if_pos ht] at hterm
      have hlog : acceptedLog n.log request.entries = n.log := by
        unfold acceptedLog
        rw [hsuffix]
      have hheld : Held n cause c₀ c :=
        Following.held ⟨hemits, by rwa [hlog] at hcore, hp, hrole⟩ ht
      exact .held (hheld.resume_appendAccept (Or.inl ⟨request, heard,
        le_antisymm (not_lt.mp ht) fits.term_le, fits, hlog, rfl, rfl⟩))
    · simp only [hempty, Bool.false_eq_true, if_false, Ctx.beginPersist]
      exact Outcome.startPersist hp hemits (.accept s request heard named fits keeps hcore' hrole
        (by simpa using hempty))

section

variable (h : Following n cause request.term c₀ c)
    (heard : Heard n cause s (.appendEntries request)) (named : request.leaderId = s)
include h heard named

theorem Following.acceptAppend (fits : Fits n request)
    (hb : batch = { hardState :=
      if n.currentTerm < request.term then some ⟨request.term, none⟩ else none }) :
    Outcome n cause c₀ (c.acceptAppend s request batch) := by
  have hT := tolerant_effectOk n cause
  unfold Ctx.acceptAppend
  simp only [h.core.log]
  rcases hsuffix : request.entries.drop (matchingEntries n.log request.entries) with _ | ⟨e, rest⟩
  · have hbatch : batch = { acceptBatch n request with commitIndex := none } := by
      rw [hb, acceptBatch, hsuffix]
      rfl
    have hlog : acceptedLog n.log request.entries = n.log := by
      unfold acceptedLog
      rw [hsuffix]
    simp only [hbatch]
    refine outcome_finishAppend heard named fits ?_ h.emits (by rw [hlog]; exact h.core) h.pending
      h.role
    rw [hsuffix]
    simp
  · simp only [h.core.commitIndex]
    by_cases hcommitted : e.index ≤ n.commitIndex
    · rw [if_pos hcommitted]
      -- The node stops; of the change only the term may have reached its memory.
      by_cases ht : n.currentTerm < request.term
      · have hcore := h.core
        rw [followed, if_pos ht] at hcore
        exact Outcome.failStorage (k := .rearm) h.emits
          (.adopt _ _ ht hcore h.role (Or.inl rfl) (by simp)) _
      · exact .held ((h.held ht).failStorage _)
    · rw [if_neg hcommitted]
      have keeps : ∀ x, (request.entries.drop (matchingEntries n.log request.entries)).head? =
          some x → n.commitIndex < x.index := by
        rw [hsuffix]
        rintro x hx
        obtain rfl : e = x := by simpa using hx
        omega
      have hlog : acceptedLog n.log request.entries = n.log.take (e.index - 1) ++ e :: rest := by
        unfold acceptedLog
        rw [hsuffix]
      simp only [RaftNode.lastLogIndex, h.core.log]
      -- A conflicting suffix is cut and its waiting clients are answered; a log that ends
      -- before the entry has nothing to cut.
      by_cases htrunc : e.index ≤ n.log.length
      · have hq := quiet_removePendingFrom c e.index
        have hcore := h.core.same hq.core
        have hbatch : ({ batch with truncateFrom := some e.index, entries := e :: rest } :
            PersistBatch) = { acceptBatch n request with commitIndex := none } := by
          rw [hb, acceptBatch, hsuffix]
          simp [Option.filter, htrunc]
        simp only [htrunc, decide_true, if_true, hbatch]
        refine outcome_finishAppend heard named fits keeps
          (hT.traced (((hT.removed h.emits).setNode _).setNode _) (by simp)) ?_
          (hq.volatile.1.trans h.pending) (hq.volatile.2.1.trans h.role)
        exact { hcore with log := by rw [hlog]; simp only [Ctx.trace_node, hcore.log] }
      · have hbatch : ({ batch with entries := e :: rest } : PersistBatch) =
            { acceptBatch n request with commitIndex := none } := by
          rw [hb, acceptBatch, hsuffix]
          simp [Option.filter, htrunc]
        simp only [htrunc, decide_false, Bool.false_eq_true, if_false, hbatch]
        refine outcome_finishAppend heard named fits keeps (hT.traced (h.emits.setNode _) (by simp))
          ?_ h.pending h.role
        refine { h.core with log := ?_ }
        rw [hlog, List.take_of_length_le (by omega)]
        exact congrArg (· ++ _) h.core.log

theorem Following.examineAppend (hpos : request.term ≠ 0) (hle : n.currentTerm ≤ request.term)
    (hb : batch = { hardState :=
      if n.currentTerm < request.term then some ⟨request.term, none⟩ else none }) :
    Outcome n cause c₀ (c.examineAppend s request batch) := by
  unfold Ctx.examineAppend
  simp only [h.core.log, h.core.config, RaftNode.lastLogIndex]
  split_ifs with hvalid hprev hterm
  · exact h.rejectAppend heard hpos hb
  · exact h.rejectAppend heard hpos hb
  · exact h.rejectAppend heard hpos hb
  · rw [Bool.not_eq_false, Bool.and_eq_true] at hvalid
    exact h.acceptAppend heard named
      ⟨hpos, hle, of_decide_eq_true hvalid.1, hvalid.2, not_lt.mp hprev, not_not.mp hterm⟩ hb

end

theorem outcome_onAppendEntries (hp : c.node.pendingStorage = none)
    (heard : Heard c.node cause s (.appendEntries request)) :
    Outcome c.node cause c (c.onAppendEntries s request) := by
  have h : Held c.node cause c c := Held.refl _ hp
  unfold Ctx.onAppendEntries
  by_cases hbad : request.term = 0 ∨ request.leaderId ≠ s
  · rw [if_pos hbad]
    exact .held h
  · rw [if_neg hbad]
    push Not at hbad
    by_cases hlt : request.term < c.node.currentTerm
    · rw [if_pos hlt]
      exact .held (h.sendMessage ⟨rfl, rfl, by simp⟩
        (Or.inl ⟨Nat.ne_zero_of_lt hlt, s, request, heard, rfl⟩))
    · rw [if_neg hlt]
      have hle := not_lt.mp hlt
      have hdown := h.stepDown request.term (some s)
      simp only
      by_cases hhi : c.node.currentTerm < request.term
      · simp only [hhi, decide_true, Bool.true_or, if_true]
        refine hdown.examineAppend heard hbad.2 hbad.1 hle ?_
        rw [hdown.core.hardState, followed, if_pos hhi, if_pos hhi]
      · have hhs : followed c.node request.term = c.node.hardState := if_neg hhi
        by_cases hrole : c.node.role = .follower
        · simp only [hhi, hrole, decide_false, ne_eq, not_true_eq_false, Bool.or_self,
            Bool.false_eq_true, if_false]
          refine Following.examineAppend ?_ heard hbad.2 hbad.1 hle (by rw [if_neg hhi])
          refine ⟨(Emits.refl c).setNode _, ?_, hp, rfl⟩
          rw [hhs]
          exact ⟨rfl, rfl, rfl, rfl, rfl, rfl, rfl, Or.inl rfl⟩
        · simp only [hhi, hrole, decide_false, ne_eq, not_false_eq_true, decide_true, Bool.or_true,
            if_true, Bool.false_eq_true, if_false]
          exact hdown.examineAppend heard hbad.2 hbad.1 hle (by rw [if_neg hhi])

/-- What a leader notes of an answered append: that it is no longer in flight, and either
nothing else, or how far the peer has come, or where to resume. -/
inductive Noted (n : RaftNode) (progress : PeerProgress) (sent : InflightAppend)
    (response : AppendEntriesResponse) : PeerProgress → Prop
  | short (success : response.success = true) (below : response.matchIndex < sent.lastIndex) :
      Noted n progress sent response { progress with inflight := none, inflightHeartbeatAge := 0 }
  | matched (success : response.success = true) (reached : sent.lastIndex ≤ response.matchIndex) :
      Noted n progress sent response
        { progress with
          inflight := none
          inflightHeartbeatAge := 0
          matchIndex := max progress.matchIndex sent.lastIndex
          nextIndex := max progress.matchIndex sent.lastIndex + 1 }
  | retried (failure : response.success = false) :
      Noted n progress sent response
        { progress with
          inflight := none
          inflightHeartbeatAge := 0
          nextIndex := Ctx.retryIndex n progress response }

/-- The end of `on_append_entries_response`: a leader that did not start to persist its
commit index sends the peer what it lacks. -/
def Ctx.sendRest (c : Ctx) (sender : NodeId) : Ctx :=
  if c.node.role = .leader ∧ c.node.pendingStorage = none then
    match c.node.peers.find sender with
    | some current =>
      if current.matchIndex < c.node.durableLastLogIndex then c.sendAppend sender else c
    | none => c
  else c

/-- **What a leader makes of an answer**: it adopts a higher term, and of the other answers it notes
only the one to the append in flight. -/
theorem Ctx.onAppendEntriesResponse_rule {I : Ctx → Prop} {response : AppendEntriesResponse}
    (adopt : c.node.currentTerm < response.term → I (c.adoptTerm response.term)) (skip : I c)
    (note : ∀ progress sent progress', c.node.role = .leader →
      response.term = c.node.currentTerm → c.node.peers.find s = some progress →
      progress.inflight = some sent → sent.rpcId = response.rpcId →
      Noted c.node progress sent response progress' →
      let c' := { c with node := { c.node with peers := c.node.peers.insert s progress' } }
      I c' ∧ I (c'.sendAppend s) ∧ I (c'.maybeAdvanceCommit.sendRest s)) :
    I (c.onAppendEntriesResponse s response) := by
  unfold Ctx.onAppendEntriesResponse
  by_cases hhi : c.node.currentTerm < response.term
  · rw [if_pos hhi]
    exact adopt hhi
  rw [if_neg hhi]
  by_cases hskip : c.node.role ≠ .leader ∨ response.term ≠ c.node.currentTerm
  · rw [if_pos hskip]
    exact skip
  rw [if_neg hskip]
  push Not at hskip
  cases hfind : c.node.peers.find s with
  | none => exact skip
  | some progress =>
    simp only
    cases hsent : progress.inflight with
    | none => exact skip
    | some sent =>
      simp only
      by_cases hid : sent.rpcId = response.rpcId
      swap
      · rw [if_pos hid]
        exact skip
      rw [if_neg (not_not.mpr hid)]
      have hnote := fun progress' => note progress sent progress' hskip.1 hskip.2 hfind hsent hid
      by_cases hsuccess : response.success = true
      · rw [if_pos hsuccess]
        by_cases hshort : response.matchIndex < sent.lastIndex
        · rw [if_pos hshort]
          exact (hnote _ (.short hsuccess hshort)).1
        · rw [if_neg hshort]
          exact (hnote _ (.matched hsuccess (not_lt.mp hshort))).2.2
      · rw [if_neg hsuccess]
        exact (hnote _ (.retried (by simpa using hsuccess))).2.1

/-- The next append is the only thing that may follow. -/
theorem Ctx.sendRest_rule {I : Ctx → Prop} {peer : NodeId} (stay : I c)
    (send : c.node.role = .leader → c.node.pendingStorage = none → I (c.sendAppend peer)) :
    I (c.sendRest peer) := by
  unfold Ctx.sendRest
  split_ifs with hl
  · split
    · split_ifs
      · exact send hl.1 hl.2
      · exact stay
    · exact stay
  · exact stay

/-- A leader's update of what it knows of one peer. -/
theorem Held.setProgress (h : Held n cause c₀ c) (hl : c.node.role = .leader)
    (hp : Acked n cause peer progress.matchIndex) :
    Held n cause c₀ { c with node := { c.node with
      peers := c.node.peers.insert peer progress } } := by
  obtain ⟨hrole, hvotes, hpeers⟩ := h.leader hl
  exact ⟨h.emits, h.core.same ⟨rfl, rfl, rfl, rfl, rfl, rfl, rfl, Or.inl rfl⟩, h.pending,
    .same (hl.trans hrole.symm) hvotes (hpeers.insert rfl hp)⟩

/-- The commit search of an acknowledged append, and the next append to the same peer. -/
theorem Outcome.sendRest (h : Outcome n cause c₀ c) (peer : NodeId) :
    Outcome n cause c₀ (c.sendRest peer) := by
  refine Ctx.sendRest_rule h fun hl free => ?_
  cases h with
  | held h => exact .held (h.sendAppend peer)
  | waits batch k opId plan pending => exact absurd (free.symm.trans pending) (by simp)
  | fails m batch k plan emits core pending role => exact absurd (hl.symm.trans role) (by decide)

theorem outcome_onAppendEntriesResponse (hp : c.node.pendingStorage = none)
    {response : AppendEntriesResponse}
    (heard : Heard c.node cause s (.appendEntriesResponse response)) :
    Outcome c.node cause c (c.onAppendEntriesResponse s response) := by
  have h : Held c.node cause c c := Held.refl _ hp
  refine Ctx.onAppendEntriesResponse_rule h.adoptTerm (.held h)
    fun progress sent progress' hrole hterm hfind _ _ noted => ?_
  have hknown : Acked c.node cause s progress.matchIndex := Or.inl ⟨progress, hfind, le_rfl⟩
  have hacked : Acked c.node cause s progress'.matchIndex := by
    cases noted with
    | short | retried => exact hknown
    | matched success reached =>
      -- The known index rises to what the answered request carried, never past what the
      -- answer confirms.
      rcases le_total sent.lastIndex progress.matchIndex with hle | hle
      · simpa only [max_eq_left hle] using hknown
      · simp only [max_eq_right hle]
        exact Or.inr ⟨progress, response, hfind, heard, success, hterm, reached⟩
  have hnoted := h.setProgress hrole hacked
  exact ⟨.held hnoted, .held (hnoted.sendAppend s), hnoted.maybeAdvanceCommit.sendRest s⟩

/-! ### Clients and timers -/

theorem SameCore.canAppendClient (h : SameCore n m) (e : LogEntry) :
    m.canAppendClient e = n.canAppendClient e := by
  obtain ⟨hconfig, -, -, -, -, hlog, hcommit, -⟩ := h
  cases n
  cases m
  subst hconfig hlog hcommit
  rfl

/-- The admission of a command by a ready leader. -/
theorem Held.admitClient (h : Held n cause c₀ c)
    (asked : cause = .event (.clientRequest token command)) (hrole : n.role = .leader)
    (hready : n.leaderReady = true) (hacc : commandAcceptable n.config command = true)
    (hadmits : Admits n command) (hl : c.node.role = .leader) (hpeers : c.node.peers = n.peers) :
    Outcome n cause c₀ (c.admitClient token command) := by
  unfold Ctx.admitClient
  by_cases hmax : c.node.lastLogIndex = maxU64
  · rw [if_pos hmax]
    exact .held (h.emitReply _ _ _ _)
  · rw [if_neg hmax]
    simp only [h.core.nextEntry, h.core.canAppendClient]
    split_ifs with hroom
    · exact .held (Held.emitReply (h.trace (by simp)) _ _ _ _)
    · refine Outcome.startPersist h.pending ((tolerant_effectOk n cause).traced
        (h.emits.setNode _) (by simp)) ?_
      refine .propose token command asked hrole hready hacc hadmits (by rwa [← h.core.log])
        (by simpa using hroom) ?_ hl hpeers
      exact { h.core with log := congrArg (· ++ _) h.core.log }

theorem outcome_joinPending (hp : c.node.pendingStorage = none)
    (asked : cause = .event (.clientRequest token command)) (hrole : c.node.role = .leader)
    (hready : c.node.leaderReady = true) (hacc : commandAcceptable c.node.config command = true)
    (hnext : match c.node.stateMachine.session command.session with
      | some applied => applied.sequence ≠ maxU64 ∧ command.sequence = applied.sequence + 1
      | none => command.sequence = 1) :
    Outcome c.node cause c (c.joinPending token command) := by
  have h : Held c.node cause c c := Held.refl _ hp
  unfold Ctx.joinPending
  split
  · next hnone =>
    exact h.admitClient asked hrole hready hacc ⟨hnext, by simp [hnone]⟩ hrole rfl
  · next index hsome =>
    split
    · next hgone =>
      refine Held.admitClient ?_ asked hrole hready hacc ⟨hnext, ?_⟩ hrole rfl
      · exact h.setNode rfl
      · rintro i hi
        obtain rfl : index = i := by simpa [hsome] using hi
        exact hgone
    · split_ifs
      · exact .held (h.emitReply _ _ _ _)
      · exact .held (h.emitReply _ _ _ _)
      · exact .held (h.emitReply _ _ _ _)
      · exact .held (h.setNode rfl)

theorem outcome_onClientRequest (hp : c.node.pendingStorage = none)
    (asked : cause = .event (.clientRequest token command)) :
    Outcome c.node cause c (c.onClientRequest token command) := by
  have h : Held c.node cause c c := Held.refl _ hp
  have hreply : ∀ status value index,
      Outcome c.node cause c (c.emitReply token status value index) :=
    fun _ _ _ => .held (h.emitReply _ _ _ _)
  unfold Ctx.onClientRequest
  by_cases hdown : c.node.role = .unavailable
  · rw [if_pos hdown]
    exact hreply _ _ _
  rw [if_neg hdown]
  by_cases hl : c.node.role = .leader
  swap
  · rw [if_pos hl]
    exact hreply _ _ _
  rw [if_neg (not_not.mpr hl)]
  cases hready : c.node.leaderReady with
  | false => exact hreply _ _ _
  | true =>
    cases hacc : commandAcceptable c.node.config command with
    | false => exact hreply _ _ _
    | true =>
      have hjoin := outcome_joinPending hp asked hl hready hacc
      simp only [Bool.true_eq_false, if_false]
      split
      · next applied happlied =>
        split_ifs with hstale hsame hdigest hgap
        · exact hreply _ _ _
        · exact hreply _ _ _
        · exact hreply _ _ _
        · exact hreply _ _ _
        · push Not at hgap
          exact hjoin (by simpa [happlied] using hgap)
      · next hnone =>
        split_ifs with hgap
        · exact hreply _ _ _
        · exact hjoin (by simpa [hnone] using hgap)

theorem ageInflight_matchIndex (config : RaftConfig) (progress : PeerProgress) :
    (Ctx.ageInflight config progress).matchIndex = progress.matchIndex := by
  unfold Ctx.ageInflight
  split_ifs <;> rfl

theorem outcome_onTimer (hp : c.node.pendingStorage = none) (kind : TimerKind) (generation : ℕ) :
    Outcome c.node cause c (c.onTimer kind generation) := by
  have h : Held c.node cause c c := Held.refl _ hp
  unfold Ctx.onTimer
  cases kind with
  | election =>
    simp only
    split_ifs
    · exact .held h
    · exact h.beginElection
  | heartbeat =>
    simp only
    split_ifs with hstale
    · exact .held h
    · push Not at hstale
      refine .held (Held.scheduleHeartbeat (Held.sendAllAppends ?_))
      refine ⟨(Emits.refl c).setNode _, ⟨rfl, rfl, rfl, rfl, rfl, rfl, rfl, Or.inl rfl⟩, hp,
        .same rfl rfl ?_⟩
      intro peer progress hfind
      rw [OrdMap.find_mapValues, Option.map_eq_some_iff] at hfind
      obtain ⟨old, hold, rfl⟩ := hfind
      exact Or.inl ⟨old, hold, (ageInflight_matchIndex _ _).le⟩

/-! ### Dispatch -/

theorem Outcome.of_quiet (he : Emits (EffectOk c.node cause) c c')
    (hn : c'.node = c.node) {c'' : Ctx} (h : Outcome c'.node cause c' c'') :
    Outcome c.node cause c c'' := by
  rw [hn] at h
  cases h with
  | held h => exact .held ⟨he.trans h.emits, h.core, h.pending, h.status⟩
  | waits batch k opId plan pending thrown effects =>
    obtain ⟨ht, es, hes, hok⟩ := he
    obtain ⟨es', hes', hok'⟩ := effects
    refine .waits batch k opId plan pending (thrown.trans ht) ⟨es ++ es', ?_, ?_⟩
    · rw [hes', hes]
      simp only [List.append_assoc]
    · intro e hmem
      rcases List.mem_append.mp hmem with hmem | hmem
      · exact hok e hmem
      · exact hok' e hmem
  | fails m batch k plan emits core pending role =>
    exact .fails m batch k plan (he.trans emits) core pending role

theorem outcome_onMessage (hp : c.node.pendingStorage = none) (envelope : MessageEnvelope) :
    Outcome c.node (.event (.messageReceived envelope)) c (c.onMessage envelope) := by
  have h : Held c.node (.event (.messageReceived envelope)) c c := Held.refl _ hp
  unfold Ctx.onMessage
  split_ifs with hskip
  · exact .held h
  · push Not at hskip
    obtain ⟨htarget, hself, hmember⟩ := hskip
    have hheard : ∀ m, envelope.message = m →
        Heard c.node (.event (.messageReceived envelope)) envelope.sender m := by
      rintro m rfl
      refine ⟨?_, hself, by simpa [RaftNode.isMember] using hmember⟩
      rw [← htarget]
    simp only
    generalize hc' : c.trace .receive "protocol message received" 0 = c'
    have hemits : Emits (EffectOk c.node (.event (.messageReceived envelope))) c c' :=
      hc' ▸ (h.trace (by simp)).emits
    have hnode : c'.node = c.node := hc' ▸ rfl
    refine Outcome.of_quiet hemits hnode ?_
    rw [← hnode] at hp hheard
    split
    · next m hm => exact outcome_onRequestVote hp (hheard _ hm)
    · next m hm => exact outcome_onRequestVoteResponse hp (hheard _ hm)
    · next m hm => exact outcome_onAppendEntries hp (hheard _ hm)
    · next m hm => exact outcome_onAppendEntriesResponse hp (hheard _ hm)

/-- **A dispatched event has an outcome**, in a node with no batch outstanding. -/
theorem outcome_dispatch (c : Ctx) (hp : c.node.pendingStorage = none) (event : RaftEvent) :
    Outcome c.node (.event event) c (c.dispatch event) := by
  cases event with
  | timerFired kind generation => exact outcome_onTimer hp kind generation
  | messageReceived envelope => exact outcome_onMessage hp envelope
  | storageComplete opId success error =>
    have h : Held c.node (.event (.storageComplete opId success error)) c c := Held.refl _ hp
    simp only [Ctx.dispatch, Ctx.onStorageComplete, hp]
    exact .held (h.trace (by simp))
  | clientRequest token command => exact outcome_onClientRequest hp rfl

end Frame

/-! ### One step -/

/-- The event reports the outcome of the outstanding batch. -/
def Completes (n : RaftNode) (e : RaftEvent) (p : PendingStorage) (success : Bool) : Prop :=
  n.pendingStorage = some p ∧ ∃ error, e = .storageComplete p.opId success error

/-- **The obligations behind a step.** A property of transitions in progress holds after
a step if it holds of a step that changes nothing and emits only traces and refusals,
of a deferral, of both outcomes of the outstanding batch, and is kept by every
dispatch of an idle node. -/
structure StepRule (I : Ctx → Prop) (n : RaftNode) (e : RaftEvent) : Prop where
  noise : (∀ p success, ¬Completes n e p success) → ∀ c : Ctx, c.node = n →
    (∀ P, Tolerant P → Emits P { node := n } c) → I c
  defers : (∀ p success, ¬Completes n e p success) → n.pendingStorage.isSome →
    I { node := { n with deferredEvents := n.deferredEvents ++ [e] } }
  fails : ∀ p, Completes n e p false → ∀ detail,
    I (Ctx.failStorage { node := { n with pendingStorage := none } } detail)
  completes : ∀ p, Completes n e p true →
    I (((Ctx.markDurable { node := { n with pendingStorage := none } } p.batch).trace
      .storageComplete "storage operation completed" 0).resume p.afterSuccess)
  dispatches : n.pendingStorage = none → n.role ≠ .unavailable → I (Ctx.dispatch { node := n } e)
  pops : ∀ (c : Ctx) (e' : RaftEvent) (rest : List RaftEvent), I c →
    c.node.pendingStorage = none → c.node.role ≠ .unavailable →
    c.node.deferredEvents = e' :: rest →
    I ((c.pop rest).dispatch e')

namespace StepRule

variable {I : Ctx → Prop} {n : RaftNode} {e : RaftEvent}

theorem drain (h : StepRule I n e) (fuel : ℕ) {c : Ctx} (hc : I c) : I (c.drain fuel) := by
  induction fuel generalizing c with
  | zero => exact hc
  | succ fuel ih =>
    rw [Ctx.drain]
    split_ifs with hbusy
    · exact hc
    · push Not at hbusy
      split
      · exact hc
      · next e' rest hrest =>
        exact ih (h.pops c e' rest hc (by simpa using hbusy.1) hbusy.2 hrest)

theorem storageComplete {opId : ℕ} {success : Bool} {error : String}
    (h : StepRule I n (.storageComplete opId success error)) :
    I (Ctx.onStorageComplete { node := n } opId success error) := by
  have hnoise : (∀ p success', ¬Completes n (.storageComplete opId success error) p success') →
      I (Ctx.trace { node := n } .fault "unexpected storage completion" 0) := fun hno =>
    h.noise hno _ rfl fun P hP => hP.traced (Emits.refl _) (by simp)
  unfold Ctx.onStorageComplete
  simp only
  cases hp : n.pendingStorage with
  | none =>
    refine hnoise fun p success' hc => ?_
    exact absurd (hp.symm.trans hc.1) (by simp)
  | some p =>
    simp only
    by_cases hop : p.opId = opId
    · subst hop
      rw [if_neg (by simp)]
      cases success with
      | false => exact h.fails p ⟨hp, error, rfl⟩ _
      | true => exact h.completes p ⟨hp, error, rfl⟩
    · rw [if_pos hop]
      refine hnoise fun p' success' hc => ?_
      obtain ⟨hp', error', he⟩ := hc
      obtain rfl : p = p' := by simpa [hp] using hp'
      simp only [RaftEvent.storageComplete.injEq] at he
      exact hop he.1.symm

section

variable (h : StepRule I n e) (hne : ∀ p success, ¬Completes n e p success)
include h hne

theorem defer (hp : n.pendingStorage.isSome) : I (n.defer e) := by
  unfold RaftNode.defer
  simp only
  split_ifs
  · split
    · exact h.noise hne _ rfl fun P hP => hP.replied (hP.traced (Emits.refl _) (by simp)) (by simp)
    · exact h.noise hne _ rfl fun P hP => hP.traced (Emits.refl _) (by simp)
  · exact h.defers hne hp

theorem deferFiltered (hp : n.pendingStorage.isSome) : I (n.deferFiltered e) := by
  unfold RaftNode.deferFiltered
  split
  · split_ifs
    · exact h.noise hne _ rfl fun P hP => hP.replied (Emits.refl _) (by simp)
    · exact h.defer hne hp
  · split_ifs
    · exact h.defer hne hp
    · exact h.noise hne _ rfl fun P hP => hP.traced (Emits.refl _) (by simp)
  · exact h.defer hne hp

/-- An event other than a completion is deferred, refused or processed. -/
theorem accepted {refused : Ctx} (hrefused : I refused) :
    I (if n.pendingStorage.isSome then n.deferFiltered e
      else if n.role = .unavailable then refused else n.process e) := by
  split_ifs with hp hr
  · exact h.deferFiltered hne hp
  · exact hrefused
  · exact h.drain _ (h.dispatches (by simpa using hp) hr)

end

/-- **The rule for one step of a node.** -/
theorem step (h : StepRule I n e) : I (n.step e) := by
  have hidle : (∀ p success, ¬Completes n e p success) → I { node := n } := fun hne =>
    h.noise hne _ rfl fun P _ => Emits.refl _
  cases e with
  | storageComplete opId success error => exact h.drain _ h.storageComplete
  | timerFired kind generation =>
    have hne : ∀ p success, ¬Completes n (.timerFired kind generation) p success := by
      simp [Completes]
    exact h.accepted hne (hidle hne)
  | messageReceived envelope =>
    have hne : ∀ p success, ¬Completes n (.messageReceived envelope) p success := by
      simp [Completes]
    exact h.accepted hne (hidle hne)
  | clientRequest token command =>
    have hne : ∀ p success, ¬Completes n (.clientRequest token command) p success := by
      simp [Completes]
    exact h.accepted hne (h.noise hne _ rfl fun P hP => hP.replied (Emits.refl _) (by simp))

end StepRule

end DetLog
