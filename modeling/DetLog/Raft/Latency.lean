import DetLog.Raft.Driven
import DetLog.Raft.Turn

/-!
# Storage latency

While a batch is outstanding a node puts its events into a queue and takes them out, in
order, when the storage is done. How long that takes should not matter: a node whose storage
answers at once and a node whose storage answers late, given the same events, end in the same
state and emit the same effects in the same order.

The comparison goes through `DetLog.Tick`, the node with its queue and its future events as
one list: it completes an outstanding batch, or else takes the next event. A tick is
deterministic, and every run of the node, whatever its schedule, is a sequence of ticks
(`DetLog.ticks_feed`). Two things make that true. No handler reads the queue or the
effects before it, unless it stops the node (`DetLog.Trails.dispatch`), and the queue
followed by the events to come is the same list before and after an event is deferred.
-/

namespace DetLog

variable {c : Ctx}

/-! ### The queue is not read -/

/-- The same transition with another queue, and with other effects before it. -/
def Ctx.behind (c : Ctx) (es : List RaftEffect) (q : List RaftEvent) : Ctx :=
  { c with node := { c.node with deferredEvents := q }, effects := es ++ c.effects }

/-- Two transitions that differ in the queue and in what was emitted before them. -/
def Lags (es : List RaftEffect) (q : List RaftEvent) (c c' : Ctx) : Prop := c' = c.behind es q

/-- The same, or both have stopped the node. -/
def Trails (es : List RaftEffect) (q : List RaftEvent) (c c' : Ctx) : Prop :=
  Lags es q c c' ∨ c.node.role = .unavailable ∧ c'.node.role = .unavailable

@[simp] theorem Ctx.behind_node (c : Ctx) (es : List RaftEffect) (q : List RaftEvent) :
    (c.behind es q).node = { c.node with deferredEvents := q } := rfl

/-! A node that is not a leader sends no append and commits nothing. -/

theorem Ctx.sendAppend_of_ne (h : c.node.role ≠ .leader) (peer : NodeId) :
    c.sendAppend peer = c := if_pos (Or.inl h)

theorem Ctx.sendAllAppends_of_ne (h : c.node.role ≠ .leader) : c.sendAllAppends = c :=
  if_pos (Or.inl h)

theorem Ctx.maybeAdvanceCommit_of_ne (h : c.node.role ≠ .leader) :
    c.maybeAdvanceCommit = c := if_pos (Or.inl h)

section Lags

variable {es : List RaftEffect} {q : List RaftEvent} {c c' : Ctx}

namespace Lags

theorem refl (c : Ctx) : Lags es q c (c.behind es q) := rfl

theorem setNode (h : Lags es q c c') (m m' : RaftNode)
    (hm : m' = { m with deferredEvents := q }) :
    Lags es q { c with node := m } { c' with node := m' } := by
  obtain rfl := h
  rw [hm]
  rfl

theorem ite {d d' : Ctx} {p p' : Prop} [Decidable p] [Decidable p'] (hp : p ↔ p')
    (h : Lags es q c c') (h' : Lags es q d d') :
    Lags es q (if p then c else d) (if p' then c' else d') := by
  by_cases hc : p
  · rwa [if_pos hc, if_pos (hp.mp hc)]
  · rwa [if_neg hc, if_neg fun h => hc (hp.mpr h)]

theorem emit (h : Lags es q c c') (e : RaftEffect) : Lags es q (c.emit e) (c'.emit e) := by
  obtain rfl := h
  simp [Lags, Ctx.emit, Ctx.behind]

theorem trace (h : Lags es q c c') (kind : TraceKind) (detail : String) (index : ℕ) :
    Lags es q (c.trace kind detail index) (c'.trace kind detail index) := by
  obtain rfl := h
  exact (refl c).emit _

theorem emitReply (h : Lags es q c c') (token : ClientToken) (status : ClientStatus)
    (value : Bytes) (index : ℕ) :
    Lags es q (c.emitReply token status value index) (c'.emitReply token status value index) := by
  obtain rfl := h
  exact ((refl c).emit _).trace _ _ _

theorem foldl {α : Type*} {f f' : Ctx → α → Ctx}
    (hf : ∀ c c' a, Lags es q c c' → Lags es q (f c a) (f' c' a)) (l : List α)
    (h : Lags es q c c') : Lags es q (l.foldl f c) (l.foldl f' c') := by
  induction l generalizing c c' with
  | nil => exact h
  | cons a l ih => exact ih (hf c c' a h)

variable (h : Lags es q c c')
include h

theorem emitReplies (tokens : List ClientToken) (status : ClientStatus) (value : Bytes)
    (index : ℕ) :
    Lags es q (c.emitReplies tokens status value index)
      (c'.emitReplies tokens status value index) :=
  foldl (fun _ _ token h => h.emitReply token status value index) tokens h

theorem scheduleElection : Lags es q c.scheduleElection c'.scheduleElection := by
  obtain rfl := h
  exact ((refl c).setNode _ _ rfl).emit _

theorem scheduleHeartbeat : Lags es q c.scheduleHeartbeat c'.scheduleHeartbeat := by
  obtain rfl := h
  exact ((refl c).setNode _ _ rfl).emit _

theorem sendMessage (target : NodeId) (message : Message) :
    Lags es q (c.sendMessage target message) (c'.sendMessage target message) := by
  obtain rfl := h
  exact ((refl c).trace _ _ _).emit _

theorem requestVotes : Lags es q c.requestVotes c'.requestVotes := by
  obtain rfl := h
  refine foldl (fun c c' member h => ?_) _ (refl c)
  obtain rfl := h
  exact ite Iff.rfl ((refl c).sendMessage _ _) (refl c)

theorem applyEntry (index : ℕ) (e : LogEntry) :
    Lags es q (c.applyEntry index e) (c'.applyEntry index e) := by
  obtain rfl := h
  unfold Ctx.applyEntry
  simp only [Ctx.trace_node, Ctx.emitReplies_node, Ctx.behind_node]
  cases c.node.pendingClients.find index with
  | none => exact ((refl c).setNode _ _ rfl).trace _ _ _
  | some p => exact ((((refl c).setNode _ _ rfl).trace _ _ _).emitReplies _ _ _ _).setNode _ _ rfl

theorem stepDown (term : ℕ) (hint : Option NodeId) :
    Lags es q (c.stepDown term hint false) (c'.stepDown term hint false) := by
  obtain rfl := h
  unfold Ctx.stepDown
  simp only [Bool.false_eq_true, if_false]
  by_cases ht : c.node.currentTerm < term
  · have ht' : (c.behind es q).node.currentTerm < term := ht
    rw [if_pos ht, if_pos ht']
    refine ite Iff.rfl (trace (setNode ?_ _ _ rfl) _ _ _) (setNode ?_ _ _ rfl) <;>
      exact ((refl c).setNode _ _ rfl).trace _ _ _
  · have ht' : ¬(c.behind es q).node.currentTerm < term := ht
    rw [if_neg ht, if_neg ht']
    exact ite Iff.rfl (((refl c).setNode _ _ rfl).trace _ _ _) ((refl c).setNode _ _ rfl)

theorem recordVote (sender : NodeId) : Lags es q (c.recordVote sender) (c'.recordVote sender) := by
  obtain rfl := h
  exact ite Iff.rfl (((refl c).setNode _ _ rfl).trace _ _ _) ((refl c).setNode _ _ rfl)

theorem removePending (e : ℕ × PendingClientEntry) :
    Lags es q (c.removePending e) (c'.removePending e) := by
  obtain rfl := h
  unfold Ctx.removePending
  simp only [Ctx.emitReplies_node, Ctx.behind_node]
  exact ((refl c).emitReplies _ _ _ _).setNode _ _ rfl

theorem removePendingFrom (index : ℕ) :
    Lags es q (c.removePendingFrom index) (c'.removePendingFrom index) := by
  obtain rfl := h
  exact foldl (fun _ _ e h => h.removePending e) _ (refl c)

end Lags

/-! ### What may stop the node -/

namespace Trails

theorem of_stopped (h : c.node.role = .unavailable) (h' : c'.node.role = .unavailable) :
    Trails es q c c' := Or.inr ⟨h, h'⟩

/-- A further part of a handler, if it does not bring a stopped node back. -/
theorem bind (h : Trails es q c c') {f : Ctx → Ctx}
    (hf : ∀ c c', Lags es q c c' → Trails es q (f c) (f c'))
    (sticks : ∀ c, c.node.role = .unavailable → (f c).node.role = .unavailable) :
    Trails es q (f c) (f c') := by
  rcases h with h | ⟨hc, hc'⟩
  · exact hf c c' h
  · exact Or.inr ⟨sticks c hc, sticks c' hc'⟩

theorem ite {d d' : Ctx} {p p' : Prop} [Decidable p] [Decidable p'] (hp : p ↔ p')
    (h : p → Trails es q c c') (h' : ¬p → Trails es q d d') :
    Trails es q (if p then c else d) (if p' then c' else d') := by
  by_cases hc : p
  · rw [if_pos hc, if_pos (hp.mp hc)]
    exact h hc
  · rw [if_neg hc, if_neg fun h => hc (hp.mpr h)]
    exact h' hc

theorem failStorage (c c' : Ctx) (detail : String) :
    Trails es q (c.failStorage detail) (c'.failStorage detail) := by
  refine of_stopped ?_ ?_ <;> rw [Ctx.failStorage_node]

theorem startPersist (h : Lags es q c c') (batch : PersistBatch) (k : Continuation) :
    Trails es q (c.startPersist batch k) (c'.startPersist batch k) := by
  obtain rfl := h
  refine ite Iff.rfl (fun _ => Or.inl rfl) fun _ =>
    ite Iff.rfl (fun _ => failStorage _ _ _) fun _ => Or.inl ?_
  exact ((((Lags.refl c).setNode _ _ rfl).trace _ _ _)).emit _

theorem sendAppendTo (h : Lags es q c c') (peer : NodeId) (progress : PeerProgress) :
    Trails es q (c.sendAppendTo peer progress) (c'.sendAppendTo peer progress) := by
  obtain rfl := h
  refine ite Iff.rfl (fun _ => failStorage _ _ _) fun _ => Or.inl ?_
  exact ((Lags.refl c).setNode _ _ rfl).sendMessage _ _

theorem sendAppend (h : Lags es q c c') (peer : NodeId) :
    Trails es q (c.sendAppend peer) (c'.sendAppend peer) := by
  obtain rfl := h
  refine ite Iff.rfl (fun _ => Or.inl rfl) fun _ => ?_
  simp only [Ctx.behind_node]
  cases c.node.peers.find peer with
  | none => exact Or.inl rfl
  | some progress =>
    exact ite Iff.rfl (fun _ => Or.inl rfl) fun _ => sendAppendTo (Lags.refl c) peer progress

theorem foldl {α : Type*} {f : Ctx → α → Ctx}
    (hf : ∀ c c' a, Lags es q c c' → Trails es q (f c a) (f c' a))
    (sticks : ∀ c a, c.node.role = .unavailable → (f c a).node.role = .unavailable) (l : List α)
    (h : Trails es q c c') : Trails es q (l.foldl f c) (l.foldl f c') := by
  induction l generalizing c c' with
  | nil => exact h
  | cons a l ih => exact ih (h.bind (fun c c' => hf c c' a) fun c => sticks c a)

theorem sendAllAppends (h : Lags es q c c') :
    Trails es q c.sendAllAppends c'.sendAllAppends := by
  obtain rfl := h
  refine ite Iff.rfl (fun _ => Or.inl rfl) fun _ => ?_
  refine foldl (fun _ _ peer h => sendAppend h peer) (fun c peer hr => ?_) _ (Or.inl rfl)
  rwa [Ctx.sendAppend_of_ne (by simp [hr])]

theorem applyRounds (h : Lags es q c c') (fuel : ℕ) :
    Trails es q (c.applyRounds fuel) (c'.applyRounds fuel) := by
  induction fuel generalizing c c' with
  | zero => exact Or.inl h
  | succ fuel ih =>
    obtain rfl := h
    rw [Ctx.applyRounds, Ctx.applyRounds]
    refine ite Iff.rfl (fun _ => ?_) fun _ => Or.inl rfl
    simp only [Ctx.behind_node]
    cases entryAt c.node.log (c.node.lastApplied + 1) with
    | none => exact failStorage _ _ _
    | some e => exact ih (((Lags.refl c).setNode _ _ rfl).applyEntry _ e)

theorem maybeAdvanceCommit (h : Lags es q c c') :
    Trails es q c.maybeAdvanceCommit c'.maybeAdvanceCommit := by
  obtain rfl := h
  have htarget : ∀ k, (c.behind es q).node.commitTarget k = c.node.commitTarget k := by
    intro k
    induction k with
    | zero => rfl
    | succ k ih => simp only [RaftNode.commitTarget, ih]; rfl
  unfold Ctx.maybeAdvanceCommit
  refine ite Iff.rfl (fun _ => Or.inl rfl) fun _ => ?_
  simp only [htarget]
  refine ite Iff.rfl (fun _ => Or.inl rfl) fun _ => startPersist ?_ _ _
  exact (Lags.refl c).setNode _ _ rfl

/-! ### Continuations -/

theorem resume (h : Lags es q c c') (k : Continuation) :
    Trails es q (c.resume k) (c'.resume k) := by
  obtain rfl := h
  have hl : Lags es q c (c.behind es q) := rfl
  cases k with
  | campaign =>
    exact ite Iff.rfl (fun _ => Or.inl hl) fun _ => Or.inl hl.scheduleElection.requestVotes
  | voteReply candidate grant wasLeader =>
    have hgrant : Lags es q (if grant then c.trace .vote "granted vote" 0 else c)
        (if grant then (c.behind es q).trace .vote "granted vote" 0 else c.behind es q) :=
      Lags.ite Iff.rfl (hl.trace _ _ _) hl
    refine bind (Or.inl (Lags.ite Iff.rfl hgrant.scheduleElection hgrant)) (f := fun c =>
      c.sendMessage candidate (.requestVoteResponse
        { term := c.node.currentTerm, voteGranted := grant })) ?_ fun _ hr => hr
    rintro c _ rfl
    exact Or.inl ((Lags.refl c).sendMessage _ _)
  | rearm => exact Or.inl hl.scheduleElection
  | leaderEstablished =>
    refine ite Iff.rfl (fun _ => Or.inl hl) fun _ => ?_
    refine ((sendAllAppends hl).bind (fun _ _ h => Or.inl h.scheduleHeartbeat) ?_).bind
      (fun _ _ h => maybeAdvanceCommit h) ?_
    · exact fun _ h => h
    · intro c hr
      rwa [Ctx.maybeAdvanceCommit_of_ne (by simp [hr])]
  | appendReject leader rpcId conflictIndex conflictTerm =>
    exact Or.inl (hl.scheduleElection.sendMessage _ _)
  | appendAccept leader rpcId matchIndex apply =>
    have happly : Trails es q (if apply then (c.trace .commit "learned committed prefix from leader"
        c.node.commitIndex).applyCommitted else c)
        (if apply then ((c.behind es q).trace .commit "learned committed prefix from leader"
          c.node.commitIndex).applyCommitted else c.behind es q) :=
      ite Iff.rfl (fun _ => applyRounds (hl.trace _ _ _) _) fun _ => Or.inl hl
    refine bind happly (f := fun c => c.scheduleElection.sendMessage leader
      (.appendEntriesResponse
        { term := c.node.currentTerm, rpcId, success := true, matchIndex, conflictIndex := 0,
          conflictTerm := 0 })) ?_ fun _ hr => hr
    rintro c _ rfl
    exact Or.inl ((Lags.refl c).scheduleElection.sendMessage _ _)
  | clientAppended =>
    refine ite Iff.rfl (fun _ => Or.inl hl) fun _ => ?_
    refine (sendAllAppends hl).bind (fun _ _ h => maybeAdvanceCommit h) ?_
    intro c hr
    rwa [Ctx.maybeAdvanceCommit_of_ne (by simp [hr])]
  | commitAdvanced =>
    refine bind (applyRounds (hl.trace .commit "leader durably advanced commit index"
      c.node.commitIndex) (c.node.commitIndex - c.node.lastApplied)) (f := fun c =>
        Ctx.sendAllAppends (if c.node.role = .leader ∧ c.node.readinessIndex ≠ 0 ∧
            c.node.readinessIndex ≤ c.node.lastApplied then
          { c with node := { c.node with leaderReady := true } }
        else c)) ?_ fun c hr => ?_
    · rintro c _ rfl
      exact sendAllAppends (Lags.ite Iff.rfl ((Lags.refl c).setNode _ _ rfl) (Lags.refl c))
    · simp only
      rw [if_neg (by simp [hr]), Ctx.sendAllAppends_of_ne (by simp [hr])]
      exact hr

theorem beginPersist (h : Lags es q c c') (batch : PersistBatch) (k : Continuation) :
    Trails es q (c.beginPersist batch k) (c'.beginPersist batch k) :=
  ite Iff.rfl (fun _ => resume h k) fun _ => startPersist h batch k

/-! ### Elections -/

section

variable (h : Lags es q c c')
include h

theorem beginElection : Trails es q c.beginElection c'.beginElection := by
  obtain rfl := h
  refine ite Iff.rfl (fun _ => failStorage _ _ _) fun _ => beginPersist ?_ _ _
  exact ((((Lags.refl c).setNode _ _ rfl).trace _ _ _).trace _ _ _).trace _ _ _

theorem adoptTerm (term : ℕ) : Trails es q (c.adoptTerm term) (c'.adoptTerm term) := by
  have hdown : c'.stepDown term none false = _ := h.stepDown term none
  unfold Ctx.adoptTerm
  rw [hdown]
  exact beginPersist (Lags.refl _) _ _

theorem decideVote (sender : NodeId) (request : RequestVote) (observed wasLeader : Bool) :
    Trails es q (c.decideVote sender request observed wasLeader)
      (c'.decideVote sender request observed wasLeader) := by
  obtain rfl := h
  unfold Ctx.decideVote
  have hl : Lags es q c (c.behind es q) := rfl
  have hvote := fun p : Bool => Lags.ite (Iff.refl (p = true))
    (hl.setNode { c.node with
      hardState := { c.node.hardState with votedFor := some request.candidateId } } _ rfl)
    (Lags.refl c)
  exact ite Iff.rfl (fun _ => resume (hvote _) _) fun _ => beginPersist (hvote _) _ _

theorem onRequestVote (sender : NodeId) (request : RequestVote) :
    Trails es q (c.onRequestVote sender request) (c'.onRequestVote sender request) := by
  obtain rfl := h
  refine ite Iff.rfl (fun _ => Or.inl rfl) fun _ =>
    ite Iff.rfl (fun _ => Or.inl ((Lags.refl c).sendMessage _ _)) fun _ => ?_
  exact decideVote (Lags.ite Iff.rfl ((Lags.refl c).stepDown _ _) (Lags.refl c)) _ _ _ _

theorem becomeLeader : Trails es q c.becomeLeader c'.becomeLeader := by
  obtain rfl := h
  have hlead : Lags es q _ _ := ((Lags.refl c).setNode { c.node with
    role := .leader
    leaderHint := some c.node.config.nodeId
    leaderReady := false
    readinessIndex := 0
    votesReceived := ∅
    electionGeneration := incU64 c.node.electionGeneration
    peers := Ctx.freshPeers c.node } _ rfl).trace .roleChange "became leader" 0
  refine ite Iff.rfl (fun _ => failStorage _ _ _) fun _ => ite Iff.rfl (fun _ => Or.inl ?_)
    fun _ => beginPersist ?_ _ _
  · exact ((hlead.trace _ _ _).setNode _ _ rfl).scheduleElection
  · exact (hlead.setNode _ _ rfl).trace _ _ _

theorem onRequestVoteResponse (sender : NodeId) (response : RequestVoteResponse) :
    Trails es q (c.onRequestVoteResponse sender response)
      (c'.onRequestVoteResponse sender response) := by
  have hvote : c'.recordVote sender = _ := h.recordVote sender
  unfold Ctx.onRequestVoteResponse
  rw [hvote]
  obtain rfl := h
  refine ite Iff.rfl (fun _ => adoptTerm (Lags.refl c) _) fun _ =>
    ite Iff.rfl (fun _ => Or.inl rfl) fun _ => ite Iff.rfl (fun _ => becomeLeader rfl)
      fun _ => Or.inl rfl

end

/-! ### Appends -/

section

variable (h : Lags es q c c') (sender : NodeId) (request : AppendEntries)
include h sender request

theorem finishAppend (batch : PersistBatch) :
    Trails es q (c.finishAppend sender request batch) (c'.finishAppend sender request batch) := by
  obtain rfl := h
  have hl : Lags es q c (c.behind es q) := rfl
  have hcommit := fun p : Bool => Lags.ite (Iff.refl (p = true))
    (hl.setNode { c.node with
      commitIndex := min request.leaderCommit (Ctx.appendMatchIndex request) } _ rfl) (Lags.refl c)
  exact ite Iff.rfl (fun _ => resume (hcommit _) _) fun _ => beginPersist (hcommit _) _ _

theorem rejectAppend (batch : PersistBatch) (conflictIndex conflictTerm : ℕ) :
    Trails es q (c.rejectAppend sender request batch conflictIndex conflictTerm)
      (c'.rejectAppend sender request batch conflictIndex conflictTerm) :=
  ite Iff.rfl (fun _ => resume h _) fun _ => beginPersist h _ _

theorem acceptAppend (batch : PersistBatch) :
    Trails es q (c.acceptAppend sender request batch) (c'.acceptAppend sender request batch) := by
  obtain rfl := h
  unfold Ctx.acceptAppend
  simp only [Ctx.behind_node]
  cases request.entries.drop (matchingEntries c.node.log request.entries) with
  | nil => exact finishAppend (Lags.refl c) sender request batch
  | cons e rest =>
    have hcut : ∀ c c', Lags es q c c' → Lags es q
        { c with node := { c.node with log := c.node.log.take (e.index - 1) } }
        { c' with node := { c'.node with log := c'.node.log.take (e.index - 1) } } := by
      rintro c _ rfl
      exact (Lags.refl c).setNode _ _ rfl
    have hextend : ∀ c c' batch, Lags es q c c' → Trails es q
        ((Ctx.trace { c with node := { c.node with log := c.node.log ++ e :: rest } } .logChange
          "accepted replicated log suffix" e.index).finishAppend sender request batch)
        ((Ctx.trace { c' with node := { c'.node with log := c'.node.log ++ e :: rest } } .logChange
          "accepted replicated log suffix" e.index).finishAppend sender request batch) := by
      rintro c _ batch rfl
      refine finishAppend (Lags.trace ?_ _ _ _) _ _ _
      exact (Lags.refl c).setNode _ _ rfl
    exact ite Iff.rfl (fun _ => failStorage _ _ _) fun _ => hextend _ _ _
      (Lags.ite Iff.rfl (hcut _ _ ((Lags.refl c).removePendingFrom e.index)) rfl)

theorem examineAppend (batch : PersistBatch) : Trails es q (c.examineAppend sender request batch)
      (c'.examineAppend sender request batch) := by
  obtain rfl := h
  have hl : Lags es q c (c.behind es q) := rfl
  exact ite Iff.rfl (fun _ => rejectAppend hl _ _ _ _ _) fun _ =>
    ite Iff.rfl (fun _ => rejectAppend hl _ _ _ _ _) fun _ =>
      ite Iff.rfl (fun _ => rejectAppend hl _ _ _ _ _) fun _ => acceptAppend hl _ _ _

theorem onAppendEntries :
    Trails es q (c.onAppendEntries sender request) (c'.onAppendEntries sender request) := by
  have hdown : c'.stepDown request.term (some sender) false = _ :=
    h.stepDown request.term (some sender)
  unfold Ctx.onAppendEntries
  rw [hdown]
  obtain rfl := h
  refine ite Iff.rfl (fun _ => Or.inl rfl) fun _ =>
    ite Iff.rfl (fun _ => Or.inl ((Lags.refl c).sendMessage _ _)) fun _ => ?_
  have hexamine : ∀ (observed : Bool) c c', Lags es q c c' → Trails es q
      (c.examineAppend sender request
        { hardState := if observed then some c.node.hardState else none })
      (c'.examineAppend sender request
        { hardState := if observed then some c'.node.hardState else none }) := by
    rintro observed c _ rfl
    exact examineAppend (Lags.refl c) sender request _
  refine hexamine _ _ _ (Lags.ite Iff.rfl rfl ?_)
  exact (Lags.refl c).setNode _ _ rfl

end

theorem onAppendEntriesResponse (h : Lags es q c c') (sender : NodeId)
    (response : AppendEntriesResponse) :
    Trails es q (c.onAppendEntriesResponse sender response)
      (c'.onAppendEntriesResponse sender response) := by
  obtain rfl := h
  refine ite Iff.rfl (fun _ => adoptTerm (Lags.refl c) _) fun _ =>
    ite Iff.rfl (fun _ => Or.inl rfl) fun _ => ?_
  simp only [Ctx.behind_node]
  cases c.node.peers.find sender with
  | none => exact Or.inl rfl
  | some progress =>
    simp only
    cases progress.inflight with
    | none => exact Or.inl rfl
    | some sent =>
      have hl : Lags es q c (c.behind es q) := rfl
      have hset := fun p => hl.setNode { c.node with
        peers := c.node.peers.insert sender p } _ rfl
      refine ite Iff.rfl (fun _ => Or.inl rfl) fun _ => ite Iff.rfl (fun _ => ?_)
        fun _ => sendAppend (hset _) sender
      refine ite Iff.rfl (fun _ => Or.inl (hset _)) fun _ => ?_
      refine bind (maybeAdvanceCommit (hset _)) (f := fun c => c.sendRest sender) ?_ fun c hr => ?_
      · rintro c _ rfl
        refine ite Iff.rfl (fun _ => ?_) fun _ => Or.inl rfl
        simp only [Ctx.behind_node]
        cases c.node.peers.find sender with
        | none => exact Or.inl rfl
        | some current => exact ite Iff.rfl (fun _ => sendAppend rfl sender) fun _ => Or.inl rfl
      · rwa [Ctx.sendRest, if_neg (by simp [hr])]

/-! ### Client requests -/

section

variable (h : Lags es q c c') (token : ClientToken) (command : ClientCommand)
include h token command

theorem admitClient : Trails es q (c.admitClient token command) (c'.admitClient token command) := by
  obtain rfl := h
  have hl : Lags es q c (c.behind es q) := rfl
  refine ite Iff.rfl (fun _ => Or.inl (hl.emitReply _ _ _ _)) fun _ => ite Iff.rfl
    (fun _ => Or.inl ((hl.trace _ _ _).emitReply _ _ _ _)) fun _ => beginPersist ?_ _ _
  exact (hl.setNode _ _ rfl).trace _ _ _

theorem joinPending : Trails es q (c.joinPending token command) (c'.joinPending token command) := by
  obtain rfl := h
  have hl : Lags es q c (c.behind es q) := rfl
  unfold Ctx.joinPending
  simp only [Ctx.behind_node]
  cases c.node.pendingSessions.find command.session with
  | none => exact admitClient hl token command
  | some index =>
    simp only
    cases c.node.pendingClients.find index with
    | none =>
      refine admitClient ?_ token command
      exact hl.setNode _ _ rfl
    | some p =>
      exact ite Iff.rfl (fun _ => Or.inl (hl.emitReply _ _ _ _)) fun _ =>
        ite Iff.rfl (fun _ => Or.inl (hl.emitReply _ _ _ _)) fun _ =>
          ite Iff.rfl (fun _ => Or.inl (hl.emitReply _ _ _ _)) fun _ =>
            Or.inl (hl.setNode _ _ rfl)

theorem onClientRequest :
    Trails es q (c.onClientRequest token command) (c'.onClientRequest token command) := by
  have hjoin := joinPending h token command
  have hreply : ∀ status value index, Trails es q (c.emitReply token status value index)
      (c'.emitReply token status value index) :=
    fun status value index => Or.inl (h.emitReply token status value index)
  obtain rfl := h
  refine ite Iff.rfl (fun _ => hreply _ _ _) fun _ => ite Iff.rfl (fun _ => hreply _ _ _) fun _ =>
    ite Iff.rfl (fun _ => hreply _ _ _) fun _ => ite Iff.rfl (fun _ => hreply _ _ _) fun _ => ?_
  simp only [Ctx.behind_node]
  cases c.node.stateMachine.session command.session with
  | none => exact ite Iff.rfl (fun _ => hreply _ _ _) fun _ => hjoin
  | some applied =>
    refine ite Iff.rfl (fun _ => hreply _ _ _) fun _ => ite Iff.rfl (fun _ => ?_) fun _ => ?_
    · exact ite Iff.rfl (fun _ => hreply _ _ _) fun _ => hreply _ _ _
    · exact ite Iff.rfl (fun _ => hreply _ _ _) fun _ => hjoin

end

/-! ### Events -/

theorem onTimer (h : Lags es q c c') (kind : TimerKind) (generation : ℕ) :
    Trails es q (c.onTimer kind generation) (c'.onTimer kind generation) := by
  obtain rfl := h
  cases kind with
  | election =>
    exact ite Iff.rfl (fun _ => Or.inl rfl) fun _ => beginElection rfl
  | heartbeat =>
    refine ite Iff.rfl (fun _ => Or.inl rfl) fun _ => ?_
    refine (sendAllAppends ?_).bind (fun _ _ h => Or.inl h.scheduleHeartbeat) fun _ hr => hr
    exact (Lags.refl c).setNode _ _ rfl

theorem onMessage (h : Lags es q c c') (envelope : MessageEnvelope) :
    Trails es q (c.onMessage envelope) (c'.onMessage envelope) := by
  obtain rfl := h
  have hl : Lags es q _ _ := (Lags.refl c).trace .receive "protocol message received" 0
  refine ite Iff.rfl (fun _ => Or.inl rfl) fun _ => ?_
  cases envelope.message with
  | requestVote m => exact onRequestVote hl _ m
  | requestVoteResponse m => exact onRequestVoteResponse hl _ m
  | appendEntries m => exact onAppendEntries hl _ m
  | appendEntriesResponse m => exact onAppendEntriesResponse hl _ m

theorem onStorageComplete (h : Lags es q c c') (opId : ℕ) (success : Bool) (error : String) :
    Trails es q (c.onStorageComplete opId success error)
      (c'.onStorageComplete opId success error) := by
  obtain rfl := h
  unfold Ctx.onStorageComplete
  simp only [Ctx.behind_node]
  cases c.node.pendingStorage with
  | none => exact Or.inl ((Lags.refl c).trace _ _ _)
  | some p =>
    refine ite Iff.rfl (fun _ => Or.inl ((Lags.refl c).trace _ _ _)) fun _ =>
      ite Iff.rfl (fun _ => failStorage _ _ _) fun _ => resume (Lags.trace ?_ _ _ _) _
    exact (Lags.refl c).setNode _ _ rfl

/-- **No reaction reads the queue**, or what was emitted before it, unless it stops the
node. -/
theorem dispatch (h : Lags es q c c') (e : RaftEvent) :
    Trails es q (c.dispatch e) (c'.dispatch e) := by
  cases e with
  | timerFired kind generation => exact onTimer h kind generation
  | messageReceived envelope => exact onMessage h envelope
  | storageComplete opId success error => exact onStorageComplete h opId success error
  | clientRequest token command => exact onClientRequest h token command

/-- What does not read the queue does not change it. -/
theorem queue (h : Trails [] q c c) :
    c.node.deferredEvents = q ∨ c.node.role = .unavailable := by
  rcases h with h | ⟨-, h⟩
  · exact Or.inl (congrArg (fun c : Ctx => c.node.deferredEvents) h)
  · exact Or.inr h

end Trails

end Lags

/-! ### Ticks -/

/-- The outstanding batch is durable. -/
def Ctx.completed (c : Ctx) (p : PendingStorage) : Ctx :=
  ((Ctx.markDurable { c with node := { c.node with pendingStorage := none } } p.batch).trace
    .storageComplete "storage operation completed" 0).resume p.afterSuccess

theorem Trails.completed {es : List RaftEffect} {q : List RaftEvent} {c c' : Ctx}
    (h : Lags es q c c') (p : PendingStorage) :
    Trails es q (c.completed p) (c'.completed p) := by
  obtain rfl := h
  refine Trails.resume (Lags.trace ?_ _ _ _) _
  exact (Lags.refl c).setNode _ _ rfl

/-- **One tick** of a node whose events form one list: the storage completes the outstanding
batch, or the node takes the next event. -/
inductive Tick : Ctx × List RaftEvent → Ctx × List RaftEvent → Prop
  | complete (c : Ctx) (todo : List RaftEvent) (p : PendingStorage)
      (pending : c.node.pendingStorage = some p) (available : c.node.role ≠ .unavailable) :
      Tick (c, todo) (c.completed p, todo)
  | take (c : Ctx) (e : RaftEvent) (todo : List RaftEvent) (idle : c.node.Idle) :
      Tick (c, e :: todo) (c.dispatch e, todo)

/-- Tick after tick. -/
abbrev Ticks := Relation.ReflTransGen Tick

theorem tick_unique : Relator.RightUnique Tick := by
  intro s t u ht hu
  cases ht with
  | complete c todo p pending =>
    cases hu with
    | complete _ _ p' pending' =>
      obtain rfl : p = p' := Option.some.inj (pending.symm.trans pending')
      rfl
    | take _ e todo idle => exact absurd (idle.free.symm.trans pending) (by simp)
  | take c e todo idle =>
    cases hu with
    | complete _ _ p' pending' => exact absurd (idle.free.symm.trans pending') (by simp)
    | take => rfl

/-- The end of all ticks: nothing is outstanding and nothing is left to do, or the node has
stopped. -/
def Finished (s : Ctx × List RaftEvent) : Prop :=
  s.1.node.pendingStorage = none ∧ s.2 = [] ∨ s.1.node.role = .unavailable

theorem Finished.no_tick {s t : Ctx × List RaftEvent} (h : Finished s) : ¬Tick s t := by
  intro ht
  cases ht with
  | complete c todo p pending available =>
    rcases h with ⟨hp, -⟩ | hr
    · exact absurd (hp.symm.trans pending) (by simp)
    · exact available hr
  | take c e todo idle =>
    rcases h with ⟨-, htodo⟩ | hr
    · cases htodo
    · exact idle.available hr

/-- **There is one end.** -/
theorem Finished.unique {s t u : Ctx × List RaftEvent} (ht : Finished t) (hu : Finished u)
    (hst : Ticks s t) (hsu : Ticks s u) : t = u := by
  have hstuck : ∀ {a b}, Finished a → Ticks a b → a = b := by
    intro a b ha hab
    rcases hab.cases_head with h | ⟨x, hx, -⟩
    · exact h
    · exact absurd hx ha.no_tick
  rcases Relation.ReflTransGen.total_of_right_unique tick_unique hst hsu with h | h
  · exact hstuck ht h
  · exact (hstuck hu h).symm

/-! ### A step as ticks -/

/-- Where the ticks stand after a step: at the same transition, with what is left of the
queue before the events to come, or at a stopped node. -/
inductive Stands (es : List RaftEffect) (todo : List RaftEvent) (c : Ctx) :
    Ctx × List RaftEvent → Prop
  | there (thrown : c.thrown = none)
      (drained : c.node.pendingStorage = none → c.node.deferredEvents = []) :
      Stands es todo c (c.behind es [], c.node.deferredEvents ++ todo)
  | stopped {s : Ctx × List RaftEvent} (down : c.node.role = .unavailable)
      (down' : s.1.node.role = .unavailable) : Stands es todo c s

section Stands

variable {es : List RaftEffect} {todo : List RaftEvent} {c c' : Ctx} {n : RaftNode} {e : RaftEvent}

theorem Outcome.thrown_eq {cause : Cause} (o : Outcome n cause c c') : c'.thrown = c.thrown := by
  cases o with
  | held hh => exact hh.emits.1
  | waits batch k opId plan pending thrown => exact thrown
  | fails m batch k plan emits => exact emits.1

/-- A reaction to which the loop over the queue is added. -/
theorem Stands.react {r r' : Ctx} {q : List RaftEvent} {fuel : ℕ} (htrails : Trails es [] r r')
    (hqueue : Trails [] q r r)
    (drains : r.node.deferredEvents = q → ∃ s,
      Ticks (r.behind es [], r.node.deferredEvents ++ todo) s ∧ Stands es todo (r.drain fuel) s) :
    ∃ s, Ticks (r', q ++ todo) s ∧ Stands es todo (r.drain fuel) s := by
  rcases htrails with rfl | ⟨hdown, hdown'⟩
  · rcases hqueue.queue with hq | hdown
    · have h := drains hq
      rwa [hq] at h
    · rw [drain_of_busy (Or.inr hdown)]
      exact ⟨_, .refl, .stopped hdown hdown⟩
  · rw [drain_of_busy (Or.inr hdown)]
    exact ⟨_, .refl, .stopped hdown hdown'⟩

/-- The loop over the queue takes its events as ticks. -/
theorem ticks_drain (fuel : ℕ) (c : Ctx) (hlen : c.node.deferredEvents.length ≤ fuel)
    (hthrown : c.thrown = none) : ∃ s,
      Ticks (c.behind es [], c.node.deferredEvents ++ todo) s ∧
        Stands es todo (c.drain fuel) s := by
  induction fuel generalizing c with
  | zero =>
    have hq := List.eq_nil_of_length_eq_zero (Nat.le_zero.mp hlen)
    exact ⟨_, .refl, .there hthrown fun _ => hq⟩
  | succ fuel ih =>
    by_cases hr : c.node.role = .unavailable
    · rw [drain_of_busy (Or.inr hr)]
      exact ⟨_, .refl, .stopped hr hr⟩
    by_cases hp : c.node.pendingStorage = none
    swap
    · rw [drain_of_busy (Or.inl hp)]
      exact ⟨_, .refl, .there hthrown fun h => absurd h hp⟩
    have idle : c.node.Idle := ⟨hp, hr⟩
    cases hq : c.node.deferredEvents with
    | nil =>
      have hstands : Stands es todo c (_, c.node.deferredEvents ++ todo) :=
        .there hthrown fun _ => hq
      rw [hq] at hstands
      rw [Ctx.drain, hq]
      simp only [ite_self]
      exact ⟨_, .refl, hstands⟩
    | cons e rest =>
      rw [drain_succ_of_idle idle hq]
      have htick : Tick (c.behind es [], e :: rest ++ todo)
          ((c.behind es []).dispatch e, rest ++ todo) := .take _ _ _ ⟨hp, hr⟩
      have hlag : Lags es [] (c.pop rest) (c.behind es []) := rfl
      have hsame : Lags [] rest (c.pop rest) (c.pop rest) := rfl
      have hthrown' := (outcome_dispatch (c.pop rest) hp e).thrown_eq.trans hthrown
      obtain ⟨s, hs, hstands⟩ := Stands.react (Trails.dispatch hlag e)
        (Trails.dispatch hsame e) fun hrest => ih _ (by
          rw [hrest]
          rw [hq] at hlen
          exact Nat.le_of_succ_le_succ hlen) hthrown'
      exact ⟨s, hs.head htick, hstands⟩

/-- A stopped node stays stopped. -/
theorem role_resume (h : c.node.role = .unavailable) (k : Continuation) :
    (c.resume k).node.role = .unavailable := by
  have hrounds : ∀ fuel (c : Ctx), c.node.role = .unavailable →
      (c.applyRounds fuel).node.role = .unavailable := by
    intro fuel
    induction fuel with
    | zero => exact fun c h => h
    | succ fuel ih =>
      intro c h
      rw [Ctx.applyRounds]
      split_ifs
      · simp only
        split
        · rw [Ctx.failStorage_node]
        · obtain ⟨machine, clients, sessions, hnode⟩ := applyEntry_node
            { c with node := { c.node with lastApplied := c.node.lastApplied + 1 } } _ _
          exact ih _ (by rw [hnode]; exact h)
      · exact h
  cases k with
  | campaign | leaderEstablished | clientAppended =>
    simp only [Ctx.resume]
    rwa [if_pos (by simp [h])]
  | voteReply candidate grant wasLeader =>
    simp only [Ctx.resume, Ctx.sendMessage_node]
    split_ifs <;> exact h
  | rearm => exact h
  | appendReject leader rpcId conflictIndex conflictTerm => exact h
  | appendAccept leader rpcId matchIndex apply =>
    simp only [Ctx.resume, Ctx.sendMessage_node]
    split_ifs
    · exact hrounds _ _ h
    · exact h
  | commitAdvanced =>
    have hready : ∀ d : Ctx, d.node.role = .unavailable → (Ctx.sendAllAppends
        (if d.node.role = .leader ∧ d.node.readinessIndex ≠ 0 ∧
            d.node.readinessIndex ≤ d.node.lastApplied then
          { d with node := { d.node with leaderReady := true } }
        else d)).node.role = .unavailable := by
      intro d hd
      rw [if_neg (by simp [hd]), Ctx.sendAllAppends_of_ne (by simp [hd])]
      exact hd
    exact hready _ (hrounds _ _ h)

theorem role_step (h : n.role = .unavailable) (e : RaftEvent) :
    (n.step e).node.role = .unavailable := by
  obtain ⟨c, hc, hstep⟩ := n.step_eq_drain e
  have hr : c.node.role = .unavailable := by
    cases hc with
    | aside ha =>
      cases ha with
      | failed p error pending => rw [Ctx.failStorage_node]
      | _ => exact h
    | completed p error pending => exact role_resume h _
    | dispatched e event idle => exact absurd h idle.available
  rw [hstep, drain_of_busy (Or.inr hr)]
  exact hr

end Stands

/-! ### Schedules -/

/-- The events that `step` defers without objection: the commands are valid, and the appends
pass its filter. -/
def RaftEvent.Deferrable (config : RaftConfig) : RaftEvent → Prop
  | .clientRequest _ command => commandAcceptable config command = true
  | .messageReceived envelope =>
    match envelope.message with
    | .appendEntries append =>
      append.entries.length ≤ config.maxAppendEntriesPerRpc ∧
        deferrableFrom config append.entries kAppendRpcOverhead = true
    | _ => True
  | _ => True

instance (config : RaftConfig) : DecidablePred (RaftEvent.Deferrable config)
  | .clientRequest _ command =>
    inferInstanceAs (Decidable (commandAcceptable config command = true))
  | .messageReceived ⟨_, _, .appendEntries append⟩ =>
    inferInstanceAs (Decidable (append.entries.length ≤ config.maxAppendEntriesPerRpc ∧
      deferrableFrom config append.entries kAppendRpcOverhead = true))
  | .messageReceived ⟨_, _, .requestVote _⟩
  | .messageReceived ⟨_, _, .requestVoteResponse _⟩
  | .messageReceived ⟨_, _, .appendEntriesResponse _⟩
  | .timerFired _ _ | .storageComplete _ _ _ => inferInstanceAs (Decidable True)

/-- The events of a schedule that are no completions. -/
def requests : List RaftEvent → List RaftEvent
  | [] => []
  | .storageComplete _ _ _ :: rest => requests rest
  | e :: rest => e :: requests rest

/-- A successful completion of the outstanding batch. -/
def RaftNode.Succeeds (n : RaftNode) (opId : ℕ) (success : Bool) : Prop :=
  success = true ∧ n.pendingStorage.map PendingStorage.opId = some opId

instance (n : RaftNode) (opId : ℕ) (success : Bool) : Decidable (n.Succeeds opId success) :=
  inferInstanceAs (Decidable (_ ∧ _))

/-- **A prompt storage**: it completes every batch before the next event comes. -/
def RaftNode.Prompt (n : RaftNode) : RaftEvent → Prop
  | .storageComplete opId success _ => n.Succeeds opId success
  | _ => n.pendingStorage = none

/-- **A late storage**: events may come while a batch is outstanding, as long as there is room
for them in the queue. -/
def RaftNode.Late (n : RaftNode) : RaftEvent → Prop
  | .storageComplete opId success _ => n.Succeeds opId success
  | _ => n.pendingStorage.isSome → n.deferredEvents.length < n.config.maxDeferredEvents

instance (n : RaftNode) : DecidablePred n.Prompt
  | .storageComplete opId success _ => inferInstanceAs (Decidable (n.Succeeds opId success))
  | .timerFired _ _ | .messageReceived _ | .clientRequest _ _ =>
    inferInstanceAs (Decidable (n.pendingStorage = none))

instance (n : RaftNode) : DecidablePred n.Late
  | .storageComplete opId success _ => inferInstanceAs (Decidable (n.Succeeds opId success))
  | .timerFired _ _ | .messageReceived _ | .clientRequest _ _ =>
    inferInstanceAs (Decidable (_ → _))

/-- The node after an event. -/
def RaftNode.next (n : RaftNode) (e : RaftEvent) : RaftNode := (n.step e).node

/-- The node after one more event, and all effects so far. -/
def Ctx.feed (c : Ctx) (e : RaftEvent) : Ctx where
  node := (c.node.step e).node
  effects := c.effects ++ (c.node.step e).effects

/-- The node after a schedule, and all effects in order. -/
def RaftNode.feed (n : RaftNode) (inputs : List RaftEvent) : Ctx :=
  inputs.foldl Ctx.feed { node := n }

section Schedules

variable {n : RaftNode} {e : RaftEvent} {inputs : List RaftEvent} {c : Ctx}

theorem RaftNode.Prompt.late (h : n.Prompt e) : n.Late e := by
  cases e with
  | storageComplete opId success error => exact h
  | _ => exact fun hp => by simp [show n.pendingStorage = none from h] at hp

theorem requests_cons (he : ¬e.IsCompletion) : requests (e :: inputs) = e :: requests inputs := by
  cases e with
  | storageComplete opId success error => exact absurd trivial he
  | _ => rfl

/-! The three kinds of events of a schedule. -/

theorem step_of_deferrable (waits : n.pendingStorage.isSome) (he : ¬e.IsCompletion)
    (hd : e.Deferrable n.config) (room : n.deferredEvents.length < n.config.maxDeferredEvents) :
    n.step e = { node := { n with deferredEvents := n.deferredEvents ++ [e] } } := by
  have hdefer : n.defer e = { node := { n with deferredEvents := n.deferredEvents ++ [e] } } :=
    if_neg (not_le.mpr room)
  have hfilter : n.deferFiltered e = n.defer e := by
    unfold RaftNode.deferFiltered
    split
    · exact if_neg (by simp [show commandAcceptable n.config _ = true from hd])
    · exact if_pos hd
    · rfl
  cases e with
  | storageComplete opId success error => exact absurd trivial he
  | _ =>
    simp only [RaftNode.step]
    rw [if_pos waits, hfilter, hdefer]

theorem step_of_idle (idle : n.Idle) (he : ¬e.IsCompletion) :
    n.step e = (Ctx.dispatch { node := n } e).drain
      (Ctx.dispatch { node := n } e).node.deferredEvents.length := by
  cases e with
  | storageComplete opId success error => exact absurd trivial he
  | _ =>
    simp only [RaftNode.step]
    rw [if_neg (by simp [idle.free]), if_neg idle.available]
    rfl

theorem step_of_completes {p : PendingStorage} (pending : n.pendingStorage = some p)
    (error : String) : n.step (.storageComplete p.opId true error) =
      (Ctx.completed { node := n } p).drain
        (Ctx.completed { node := n } p).node.deferredEvents.length := by
  have hcomplete : Ctx.onStorageComplete { node := n } p.opId true error =
      Ctx.completed { node := n } p := by
    simp [Ctx.onStorageComplete, pending, Ctx.completed]
  simp only [RaftNode.step, RaftNode.process, Ctx.dispatch, hcomplete]

/-- **A step is a sequence of ticks.** -/
theorem ticks_step (todo : List RaftEvent) (hthrown : c.thrown = none)
    (hdrained : c.node.pendingStorage = none → c.node.deferredEvents = [])
    (available : c.node.role ≠ .unavailable) (hlate : c.node.Late e)
    (hdefer : ∀ x ∈ requests [e], x.Deferrable c.node.config) : ∃ s,
      Ticks (c.behind [] [], c.node.deferredEvents ++ (requests [e] ++ todo)) s ∧
        Stands c.effects todo (c.node.step e) s := by
  have hlag : Lags c.effects [] { node := c.node } (c.behind [] []) := by
    simp [Lags, Ctx.behind, hthrown]
  have hsame : Lags [] c.node.deferredEvents { node := c.node } { node := c.node } := rfl
  by_cases he : e.IsCompletion
  · cases e with
    | storageComplete opId success error =>
      obtain ⟨rfl, hid⟩ := hlate
      obtain ⟨p, hp, rfl⟩ := Option.map_eq_some_iff.mp hid
      rw [step_of_completes hp]
      obtain ⟨s, hs, hstands⟩ := Stands.react (Trails.completed hlag p)
        (Trails.completed hsame p) fun _ =>
          ticks_drain _ _ le_rfl ((outcome_resume (c.node.marked p) rfl p.afterSuccess).thrown_eq)
      exact ⟨s, hs.head (.complete _ _ p hp available), hstands⟩
    | _ => exact he.elim
  rw [requests_cons he] at hdefer ⊢
  have hnow : c.node.pendingStorage.isSome →
      c.node.deferredEvents.length < c.node.config.maxDeferredEvents := by
    cases e with
    | storageComplete opId success error => exact absurd trivial he
    | _ => exact hlate
  by_cases hp : c.node.pendingStorage = none
  · have idle : c.node.Idle := ⟨hp, available⟩
    rw [step_of_idle idle he, hdrained hp]
    obtain ⟨s, hs, hstands⟩ := Stands.react (Trails.dispatch hlag e)
      (Trails.dispatch hsame e) fun _ =>
        ticks_drain _ _ le_rfl (outcome_dispatch { node := c.node } hp e).thrown_eq
    rw [hdrained hp] at hs
    exact ⟨s, hs.head (.take _ _ _ ⟨hp, available⟩), hstands⟩
  · -- The event goes to the end of the queue: the list of events to come is the same.
    have waits := Option.isSome_iff_ne_none.mpr hp
    rw [step_of_deferrable waits he (hdefer e (by simp)) (hnow waits)]
    refine ⟨_, .refl, ?_⟩
    have hstands : Stands c.effects todo
        { node := { c.node with deferredEvents := c.node.deferredEvents ++ [e] } } _ :=
      .there rfl fun h => absurd h hp
    rw [List.append_assoc] at hstands
    rw [hlag]
    exact hstands

theorem role_feed (inputs : List RaftEvent) (h : c.node.role = .unavailable) :
    (inputs.foldl Ctx.feed c).node.role = .unavailable := by
  induction inputs generalizing c with
  | nil => exact h
  | cons e rest ih => exact ih (role_step h e)

/-- **Every schedule is a sequence of ticks**: from the node with its queue and all events to
come, to the node at its end. -/
theorem ticks_feed (inputs : List RaftEvent) (c : Ctx) (hthrown : c.thrown = none)
    (hdrained : c.node.pendingStorage = none → c.node.deferredEvents = [])
    (hlate : Along RaftNode.next RaftNode.Late c.node inputs)
    (hdefer : ∀ e ∈ requests inputs, e.Deferrable c.node.config) : ∃ s,
      Ticks (c.behind [] [], c.node.deferredEvents ++ requests inputs) s ∧
        Stands [] [] (inputs.foldl Ctx.feed c) s := by
  induction inputs generalizing c with
  | nil => exact ⟨_, .refl, .there hthrown hdrained⟩
  | cons e rest ih =>
    obtain ⟨hnow, hlater⟩ := hlate
    by_cases available : c.node.role = .unavailable
    · exact ⟨_, .refl, .stopped (role_feed (e :: rest) available) available⟩
    have hsplit : requests (e :: rest) = requests [e] ++ requests rest := by cases e <;> rfl
    rw [hsplit] at hdefer ⊢
    obtain ⟨s, hs, hstands⟩ := ticks_step (requests rest) hthrown hdrained available hnow
      fun x hx => hdefer x (List.mem_append_left _ hx)
    cases hstands with
    | there hthrown hdrained =>
      have hnext := ih (c.feed e) rfl hdrained hlater fun x hx => by
        rw [show (c.feed e).node.config = c.node.config from c.node.step_config e]
        exact hdefer x (List.mem_append_right _ hx)
      have hcore : (c.feed e).behind [] [] = (c.node.step e).behind c.effects [] := by
        simp only [Ctx.behind, Ctx.feed, hthrown, List.nil_append]
      rw [hcore] at hnext
      obtain ⟨t, ht, hend⟩ := hnext
      exact ⟨t, hs.trans ht, hend⟩
    | stopped down down' => exact ⟨s, hs, .stopped (role_feed rest down) down'⟩

/-- Where a schedule ends that leaves nothing outstanding. -/
theorem Stands.finished {s : Ctx × List RaftEvent} (h : Stands [] [] c s)
    (free : c.node.pendingStorage = none) : Finished s := by
  cases h with
  | there hthrown hdrained => exact Or.inl ⟨free, by simp [hdrained free]⟩
  | stopped down down' => exact Or.inr down'

/-- At a node that runs and waits for nothing the ticks have reached the node itself. -/
theorem Stands.reached {s : Ctx × List RaftEvent} (h : Stands [] [] c s)
    (available : s.1.node.role ≠ .unavailable) (free : c.node.pendingStorage = none) :
    s.1.node = c.node ∧ s.1.effects = c.effects := by
  cases h with
  | there hthrown hdrained =>
    refine ⟨?_, rfl⟩
    rw [Ctx.behind_node, ← hdrained free]
  | stopped down down' => exact absurd down' available

/-- Two schedules with the same events, from a node whose queue is drained. -/
theorem feed_eq_of_requests {prompt late : List RaftEvent} (hthrown : c.thrown = none)
    (hdrained : c.node.pendingStorage = none → c.node.deferredEvents = [])
    (hsame : requests prompt = requests late)
    (hdefer : ∀ e ∈ requests late, e.Deferrable c.node.config)
    (hprompt : Along RaftNode.next RaftNode.Late c.node prompt)
    (hlate : Along RaftNode.next RaftNode.Late c.node late)
    (hfree : (prompt.foldl Ctx.feed c).node.pendingStorage = none)
    (hrole : (prompt.foldl Ctx.feed c).node.role ≠ .unavailable)
    (hfree' : (late.foldl Ctx.feed c).node.pendingStorage = none) :
    (late.foldl Ctx.feed c).node = (prompt.foldl Ctx.feed c).node ∧
      (late.foldl Ctx.feed c).effects = (prompt.foldl Ctx.feed c).effects := by
  obtain ⟨s, hs, hstands⟩ := ticks_feed prompt c hthrown hdrained hprompt (hsame ▸ hdefer)
  obtain ⟨t, ht, hstands'⟩ := ticks_feed late c hthrown hdrained hlate hdefer
  rw [hsame] at hs
  obtain rfl := (hstands.finished hfree).unique (hstands'.finished hfree') hs ht
  have available : s.1.node.role ≠ .unavailable := by
    cases hstands with
    | there => exact hrole
    | stopped down => exact absurd down hrole
  obtain ⟨hnode, heffects⟩ := hstands.reached available hfree
  obtain ⟨hnode', heffects'⟩ := hstands'.reached available hfree'
  exact ⟨hnode'.symm.trans hnode, heffects'.symm.trans heffects⟩

/-- With nothing outstanding a schedule begins with an event. -/
theorem not_completion_of_late {rest : List RaftEvent} (free : n.pendingStorage = none)
    (h : Along RaftNode.next RaftNode.Late n (e :: rest)) : ¬e.IsCompletion := by
  intro he
  cases e with
  | storageComplete opId success error =>
    obtain ⟨-, hid⟩ := h.1
    rw [free] at hid
    cases hid
  | _ => exact he

/-- **Storage latency is invisible to the protocol.** From any node with nothing outstanding,
a storage that completes every batch at once and a storage that takes its time, with the
same events and room for them in the queue, lead to the same node and the same effects. -/
theorem latency_invisible {prompt late : List RaftEvent} (free : n.pendingStorage = none)
    (hsame : requests prompt = requests late) (hdefer : ∀ e ∈ requests late, e.Deferrable n.config)
    (hprompt : Along RaftNode.next RaftNode.Prompt n prompt)
    (hlate : Along RaftNode.next RaftNode.Late n late)
    (hfree : (n.feed prompt).node.pendingStorage = none)
    (hrole : (n.feed prompt).node.role ≠ .unavailable)
    (hfree' : (n.feed late).node.pendingStorage = none) :
    (n.feed late).node = (n.feed prompt).node ∧
      (n.feed late).effects = (n.feed prompt).effects := by
  replace hprompt := hprompt.mono fun _ _ => RaftNode.Prompt.late
  -- An arbitrary node may have a queue although nothing is outstanding; the first event, the
  -- same in both schedules, drains it.
  cases prompt with
  | nil =>
    cases late with
    | nil => exact ⟨rfl, rfl⟩
    | cons e rest =>
      rw [requests_cons (not_completion_of_late free hlate)] at hsame
      cases hsame
  | cons e rest =>
    have he := not_completion_of_late free hprompt
    cases late with
    | nil =>
      rw [requests_cons he] at hsame
      cases hsame
    | cons e' rest' =>
      have he' := not_completion_of_late free hlate
      rw [requests_cons he, requests_cons he', List.cons.injEq] at hsame
      obtain ⟨rfl, hsame⟩ := hsame
      have idle : n.Idle := ⟨free, fun h => hrole (role_feed (e :: rest) h)⟩
      have hdrained : (n.step e).node.pendingStorage = none →
          (n.step e).node.deferredEvents = [] := by
        obtain ⟨s, -, hstands⟩ : ∃ s, Ticks _ s ∧ Stands [] [] (n.step e) s := by
          rw [step_of_idle idle he]
          exact ticks_drain _ _ le_rfl (outcome_dispatch { node := n } free e).thrown_eq
        cases hstands with
        | there hthrown hdrained => exact hdrained
        | stopped down => exact absurd (role_feed (c := Ctx.feed { node := n } e) rest down) hrole
      refine feed_eq_of_requests (c := Ctx.feed { node := n } e) rfl hdrained hsame ?_ hprompt.2
        hlate.2 hfree hrole hfree'
      intro x hx
      rw [show (Ctx.feed { node := n } e).node.config = n.config from n.step_config e]
      exact hdefer x (by simp [requests_cons he, hx])


/-- An election whose batches are completed after all events, and the same at once. -/
theorem latency_invisible_election :
    let n : RaftNode := (RaftNode.ofRecovered { nodeId := 1, members := [1, 2, 3] } {}).start.node
    let vote : RaftEvent := .messageReceived ⟨2, 1, .requestVoteResponse ⟨1, true⟩⟩
    let ask : RaftEvent := .messageReceived ⟨3, 1, .requestVote ⟨2, 3, 5, 1⟩⟩
    let fire : RaftEvent := .timerFired .election 1
    let done : ℕ → RaftEvent := fun opId => .storageComplete opId true ""
    let late := n.feed [fire, vote, ask, done 1, done 2, done 3]
    let prompt := n.feed [fire, done 1, vote, done 2, ask, done 3]
    late.node.currentTerm = 2 ∧ late.node = prompt.node ∧ late.effects = prompt.effects := by
  intro n vote ask fire done late prompt
  exact ⟨by decide +kernel, latency_invisible (by decide +kernel) rfl (by decide +kernel)
    (by decide +kernel) (by decide +kernel) (by decide +kernel) (by decide +kernel)
    (by decide +kernel)⟩

end Schedules

end DetLog
