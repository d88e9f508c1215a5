import DetLog.Raft.Log

/-!
# What one reaction of a node can do

The handlers are unfolded here once. `DetLog.Outcome` describes everything a node can
do in reaction to one cause: to an event it dispatches, or to the completion of its
outstanding batch (`DetLog.Cause`). Either it *holds* (`DetLog.Held`): hard state, log
and commit index stay as they are, and only its role, its vote count and what it knows
of its peers move. Or it *plans* a change (`DetLog.Plan`): it mutates its state
speculatively and hands the change to storage as a batch, and then every message that
depends on the change waits for the continuation.

All messages it emits are described relative to the state before the reaction
(`DetLog.SendOk`), because no handler sends after it has changed what is durable. The
two results are `DetLog.outcome_dispatch` and `DetLog.outcome_resume`; the invariants of
later modules are case analyses over them.
-/

namespace DetLog

open Consensus

/-- What a node reacts to. -/
inductive Cause where
  | event (e : RaftEvent)
  | resumed (k : Continuation)

/-! ### The vocabulary of outcomes -/

/-- A message that passes the filter of `on_message`. -/
def Heard (n : RaftNode) (cause : Cause) (s : NodeId) (m : Message) : Prop :=
  cause = .event (.messageReceived { sender := s, target := n.config.nodeId, message := m }) ∧
    s ≠ n.config.nodeId ∧ s ∈ n.config.members

/-- An append of a term the node has not left behind, whose entries are valid and whose
previous entry the log holds. -/
structure Fits (n : RaftNode) (request : AppendEntries) : Prop where
  term_pos : request.term ≠ 0
  term_le : n.currentTerm ≤ request.term
  count : request.entries.length ≤ n.config.maxAppendEntriesPerRpc
  valid : entriesValidFrom n.config request.term request.entries request.prevLogIndex
    kAppendRpcOverhead = true
  prev_le : request.prevLogIndex ≤ n.log.length
  prev_term : termAt n.log request.prevLogIndex = request.prevLogTerm

/-- A peer is known to have acknowledged the leader's log up to an index: the leader
knew it before, or the cause says so. -/
def Acked (n : RaftNode) (cause : Cause) (peer : NodeId) (index : ℕ) : Prop :=
  (∃ progress, n.peers.find peer = some progress ∧ index ≤ progress.matchIndex) ∨
    ∃ progress response, n.peers.find peer = some progress ∧
      Heard n cause peer (.appendEntriesResponse response) ∧ response.success = true ∧
      response.term = n.currentTerm ∧ index ≤ response.matchIndex

/-- What a leader counts was acknowledged. -/
def PeersAcked (n : RaftNode) (cause : Cause) (m : RaftNode) : Prop :=
  ∀ peer progress, m.peers.find peer = some progress → Acked n cause peer progress.matchIndex

/-- A vote that gives the candidate `n` a quorum. -/
def Wins (n : RaftNode) (cause : Cause) : Prop :=
  n.role = .candidate ∧ ∃ s response, Heard n cause s (.requestVoteResponse response) ∧
    response.term = n.currentTerm ∧ response.voteGranted = true ∧
    n.quorumSize ≤ (insert s n.votesReceived).card

/-- **What a node may send**, in terms of its state before the reaction. -/
def SendOk (n : RaftNode) (cause : Cause) (envelope : MessageEnvelope) : Prop :=
  envelope.sender = n.config.nodeId ∧
    match envelope.message with
    | .requestVote r =>
      n.role = .candidate ∧ cause = .resumed .campaign ∧ r.term = n.currentTerm ∧
        r.candidateId = n.config.nodeId ∧ r.lastLogIndex = n.durableLastLogIndex ∧
        r.lastLogTerm = termAt n.log n.durableLastLogIndex
    | .requestVoteResponse r =>
      r.term = n.currentTerm ∧ (r.voteGranted = true →
        n.hardState.votedFor = some envelope.target ∨
          ∃ w, cause = .resumed (.voteReply envelope.target true w))
    | .appendEntries r =>
      n.role = .leader ∧ r.term = n.currentTerm ∧ r.leaderId = n.config.nodeId ∧
        r.prevLogTerm = termAt n.log r.prevLogIndex ∧
        r.entries = (n.log.drop r.prevLogIndex).take r.entries.length ∧
        r.prevLogIndex + r.entries.length ≤ n.durableLastLogIndex ∧
        r.leaderCommit = n.commitIndex
    | .appendEntriesResponse r =>
      r.term = n.currentTerm ∧ (r.success = true →
        (∃ request, Heard n cause envelope.target (.appendEntries request) ∧
          request.term = n.currentTerm ∧ Fits n request ∧
          acceptedLog n.log request.entries = n.log ∧ r.rpcId = request.rpcId ∧
          r.matchIndex = Ctx.appendMatchIndex request) ∨
        ∃ b, cause = .resumed (.appendAccept envelope.target r.rpcId r.matchIndex b))

/-- **How a message is worded**: an append has an identifier and fits, an answer to an append
repeats its identifier, and an answer is of a positive term, unless it was put off. -/
def Worded (n : RaftNode) (cause : Cause) : Message → Prop
  | .requestVote _ => True
  | .requestVoteResponse _ => n.currentTerm ≠ 0 ∨ ∃ c g w, cause = .resumed (.voteReply c g w)
  | .appendEntries r => r.rpcId ≠ 0 ∧ r.entries.length ≤ n.config.maxAppendEntriesPerRpc ∧
      packEntries n.config.maxAppendBytesPerRpc r.entries kAppendRpcOverhead = r.entries
  | .appendEntriesResponse r =>
      (n.currentTerm ≠ 0 ∧ ∃ s request, Heard n cause s (.appendEntries request) ∧
        request.rpcId = r.rpcId) ∨
      (∃ l m b, cause = .resumed (.appendAccept l r.rpcId m b)) ∨
        ∃ l i t, cause = .resumed (.appendReject l r.rpcId i t)

/-- The effects of a reaction, the request to its storage apart. A node announces
leadership only with a quorum of votes. -/
def EffectOk (n : RaftNode) (cause : Cause) : RaftEffect → Prop
  | .persist _ => False
  | .send envelope => SendOk n cause envelope ∧ Worded n cause envelope.message
  | .scheduleTimer _ => True
  | .clientReply _ => True
  | .trace r => r.kind = .roleChange → r.detail = "became leader" →
      Wins n cause ∧ r.node = n.config.nodeId ∧ r.term = n.currentTerm

/-- The protected state of `m`: that of `n` except for what is listed. No reaction defers
an event; a node that stops drops the deferred ones. -/
structure Becomes (n m : RaftNode) (hardState : HardState) (log : List LogEntry) (commit : ℕ) :
    Prop where
  config : m.config = n.config
  durableHardState : m.durableHardState = n.durableHardState
  durableLastLogIndex : m.durableLastLogIndex = n.durableLastLogIndex
  durableCommitIndex : m.durableCommitIndex = n.durableCommitIndex
  hardState : m.hardState = hardState
  log : m.log = log
  commitIndex : m.commitIndex = commit
  deferred : m.deferredEvents = n.deferredEvents ∨ m.deferredEvents = []

/-- Nothing that is persisted changes. -/
def SameCore (n m : RaftNode) : Prop := Becomes n m n.hardState n.log n.commitIndex

/-- How role, votes and peers move while the protected state stays. -/
inductive Status (n : RaftNode) (cause : Cause) (m : RaftNode) : Prop
  | same (role : m.role = n.role) (votes : m.votesReceived = n.votesReceived)
      (peers : PeersAcked n cause m)
  | tally (s : NodeId) (response : RequestVoteResponse)
      (heard : Heard n cause s (.requestVoteResponse response))
      (term : response.term = n.currentTerm) (granted : response.voteGranted = true)
      (old : n.role = .candidate) (role : m.role = .candidate)
      (votes : m.votesReceived = insert s n.votesReceived)
  | follower (role : m.role = .follower)
  | unavailable (role : m.role = .unavailable)

/-- The batch of an accepted append. -/
def acceptBatch (n : RaftNode) (request : AppendEntries) : PersistBatch :=
  let suffix := request.entries.drop (matchingEntries n.log request.entries)
  let commit := min request.leaderCommit (Ctx.appendMatchIndex request)
  { hardState := if n.currentTerm < request.term then some { currentTerm := request.term } else none
    truncateFrom := (suffix.head?.map LogEntry.index).filter fun i => decide (i ≤ n.log.length)
    entries := suffix
    commitIndex := if n.commitIndex < commit then some commit else none }

/-- The hard state of a node that follows a leader of the given term. -/
def followed (n : RaftNode) (term : ℕ) : HardState :=
  if n.currentTerm < term then { currentTerm := term } else n.hardState

/-- Continuations that promise nothing about the change they wait for. -/
def Continuation.Plain (k : Continuation) : Prop :=
  k = .rearm ∨ (∃ c w, k = .voteReply c false w) ∨ ∃ l r i t, k = .appendReject l r i t

/-- The admission test for a command: it is the next one of its session, and nothing of
the session is pending. -/
def Admits (n : RaftNode) (command : ClientCommand) : Prop :=
  (match n.stateMachine.session command.session with
    | some applied => applied.sequence ≠ maxU64 ∧ command.sequence = applied.sequence + 1
    | none => command.sequence = 1) ∧
  ∀ index, n.pendingSessions.find command.session = some index → n.pendingClients.find index = none

/-- The batch that records a hard state. -/
abbrev hardStateBatch (hs : HardState) : PersistBatch := { hardState := some hs }

/-- The batch that appends an entry. -/
abbrev entryBatch (e : LogEntry) : PersistBatch := { entries := [e] }

/-- **The changes a node can plan**: the speculative state `m`, the batch that makes it
durable, and the continuation. -/
inductive Plan (n : RaftNode) (cause : Cause) (m : RaftNode) : PersistBatch → Continuation → Prop
  | campaign (hs : HardState) (new : hs = ⟨n.currentTerm + 1, some n.config.nodeId⟩)
      (core : Becomes n m hs n.log n.commitIndex)
      (role : m.role = .candidate) (votes : m.votesReceived = {n.config.nodeId})
      (bound : n.currentTerm ≠ maxU64) : Plan n cause m (hardStateBatch hs) .campaign
  | adopt (term : ℕ) (k : Continuation) (higher : n.currentTerm < term)
      (core : Becomes n m ⟨term, none⟩ n.log n.commitIndex)
      (role : m.role = .follower) (plain : k.Plain)
      (repeats : ∀ l r i t, k = .appendReject l r i t →
        ∃ s request, Heard n cause s (.appendEntries request) ∧ request.rpcId = r) :
      Plan n cause m (hardStateBatch ⟨term, none⟩) k
  | grant (candidate : NodeId) (request : RequestVote) (w : Bool)
      (heard : Heard n cause candidate (.requestVote request)) (pos : request.term ≠ 0)
      (named : request.candidateId = candidate) (term_le : n.currentTerm ≤ request.term)
      (free : n.currentTerm < request.term ∨ n.hardState.votedFor = none)
      (fresh : candidateIsUpToDate n.log request.lastLogIndex request.lastLogTerm = true)
      (core : Becomes n m ⟨request.term, some candidate⟩ n.log n.commitIndex)
      (role : m.role = .follower ∨ (n.hardState.votedFor = none ∧ m.role = n.role)) :
      Plan n cause m (hardStateBatch ⟨request.term, some candidate⟩) (.voteReply candidate true w)
  | lead (wins : Wins n cause) (bound : n.log.length ≠ maxU64)
      (core : Becomes n m n.hardState (n.log ++ [n.nextEntry none]) n.commitIndex)
      (role : m.role = .leader)
      (peers : ∀ p progress, m.peers.find p = some progress →
        progress.matchIndex = 0 ∧ p ∈ n.config.members ∧ p ≠ n.config.nodeId)
      (fits : kEntryOverhead ≤ n.config.maxAppendBytesPerRpc - kAppendRpcOverhead) :
      Plan n cause m (entryBatch (n.nextEntry none)) .leaderEstablished
  | accept (s : NodeId) (request : AppendEntries)
      (heard : Heard n cause s (.appendEntries request)) (named : request.leaderId = s)
      (fits : Fits n request)
      (keeps : ∀ e, (request.entries.drop (matchingEntries n.log request.entries)).head? = some e →
        n.commitIndex < e.index)
      (core : Becomes n m (followed n request.term) (acceptedLog n.log request.entries)
        (max n.commitIndex (min request.leaderCommit (Ctx.appendMatchIndex request))))
      (role : m.role = .follower) (nonempty : (acceptBatch n request).isEmpty = false) :
      Plan n cause m (acceptBatch n request)
        (.appendAccept s request.rpcId (Ctx.appendMatchIndex request)
          (acceptBatch n request).commitIndex.isSome)
  | propose (token : ClientToken) (command : ClientCommand)
      (asked : cause = .event (.clientRequest token command)) (old : n.role = .leader)
      (ready : n.leaderReady = true) (acceptable : commandAcceptable n.config command = true)
      (admits : Admits n command) (bound : n.log.length ≠ maxU64)
      (room : n.canAppendClient (n.nextEntry (some command)) = true)
      (core : Becomes n m n.hardState (n.log ++ [n.nextEntry (some command)]) n.commitIndex)
      (role : m.role = .leader) (peers : m.peers = n.peers) :
      Plan n cause m (entryBatch (n.nextEntry (some command))) .clientAppended
  | commit (target : ℕ) (old : n.role = .leader)
      (core : Becomes n m n.hardState n.log target) (role : m.role = .leader)
      (peers : PeersAcked n cause m) (above : n.commitIndex < target)
      (durable : target ≤ n.durableLastLogIndex)
      (current : ∃ e, entryAt n.log target = some e ∧ e.term = n.currentTerm)
      (quorum : n.quorumSize ≤ m.replicas target) :
      Plan n cause m { commitIndex := some target } .commitAdvanced

/-- The new effects of a reaction all satisfy `P`, and it raises no exception. -/
def Emits (P : RaftEffect → Prop) (c c' : Ctx) : Prop :=
  c'.thrown = c.thrown ∧ ∃ es, c'.effects = c.effects ++ es ∧ ∀ e ∈ es, P e

/-- The protected state holds. -/
structure Held (n : RaftNode) (cause : Cause) (c c' : Ctx) : Prop where
  emits : Emits (EffectOk n cause) c c'
  core : SameCore n c'.node
  pending : c'.node.pendingStorage = none
  status : Status n cause c'.node

/-- **Everything one reaction can do**, from the node `n`. -/
inductive Outcome (n : RaftNode) (cause : Cause) (c c' : Ctx) : Prop
  | held (h : Held n cause c c')
  | waits (batch : PersistBatch) (k : Continuation) (opId : ℕ)
      (plan : Plan n cause c'.node batch k)
      (pending : c'.node.pendingStorage = some { opId, batch, afterSuccess := k })
      (thrown : c'.thrown = c.thrown)
      (effects : ∃ es, c'.effects = c.effects ++ (es ++ [.persist { opId, batch }]) ∧
        ∀ e ∈ es, EffectOk n cause e)
  | fails (m : RaftNode) (batch : PersistBatch) (k : Continuation)
      (plan : Plan n cause m batch k) (emits : Emits (EffectOk n cause) c c')
      (core : SameCore m c'.node) (pending : c'.node.pendingStorage = none)
      (role : c'.node.role = .unavailable)

/-! ### Frames of the emitting functions -/

namespace Ctx

theorem foldl_node {α : Type*} {f : Ctx → α → Ctx} (hf : ∀ c a, (f c a).node = c.node)
    (l : List α) (c : Ctx) : (l.foldl f c).node = c.node := by
  induction l generalizing c with
  | nil => rfl
  | cons a l ih => rw [List.foldl_cons, ih, hf]

variable (c : Ctx)

@[simp] theorem emit_node (e : RaftEffect) : (c.emit e).node = c.node := rfl

@[simp] theorem trace_node (kind : TraceKind) (detail : String) (index : ℕ) :
    (c.trace kind detail index).node = c.node := rfl

@[simp] theorem emitReply_node (token : ClientToken) (status : ClientStatus) (value : Bytes)
    (index : ℕ) : (c.emitReply token status value index).node = c.node := rfl

@[simp] theorem emitReplies_node (tokens : List ClientToken) (status : ClientStatus)
    (value : Bytes) (index : ℕ) : (c.emitReplies tokens status value index).node = c.node :=
  foldl_node (f := fun c token => c.emitReply token status value index) (fun _ _ => rfl) tokens c

@[simp] theorem sendMessage_node (target : NodeId) (message : Message) :
    (c.sendMessage target message).node = c.node := rfl

@[simp] theorem failDeferred_node (event : RaftEvent) : (c.failDeferred event).node = c.node := by
  cases event <;> rfl

/-- What giving up leaves of a node. -/
theorem failStorage_node (detail : String) :
    (c.failStorage detail).node =
      { c.node with
        role := .unavailable
        leaderHint := none
        leaderReady := false
        peers := ∅
        votesReceived := ∅
        pendingStorage := none
        electionGeneration := incU64 c.node.electionGeneration
        heartbeatGeneration := incU64 c.node.heartbeatGeneration
        pendingClients := ∅
        pendingSessions := ∅
        deferredEvents := [] } := by
  simp only [failStorage, foldl_node failDeferred_node,
    foldl_node fun (c : Ctx) (e : ℕ × PendingClientEntry) =>
      c.emitReplies_node e.2.waiters .storageError [] e.1, trace_node]

end Ctx

/-! ### Effects that need no justification -/

/-- A property of effects that traces, timers and refusals have. Announcements of
leadership, messages, successful replies and batches are left to the handlers. -/
structure Tolerant (P : RaftEffect → Prop) : Prop where
  trace : ∀ r, ¬(r.kind = .roleChange ∧ r.detail = "became leader") → P (.trace r)
  timer : ∀ t, P (.scheduleTimer t)
  reply : ∀ r, r.status ≠ .ok → P (.clientReply r)

/-- The effects that need no justification are allowed under any cause. -/
theorem tolerant_effectOk (n : RaftNode) (cause : Cause) : Tolerant (EffectOk n cause) :=
  ⟨fun _ h hk hd => absurd ⟨hk, hd⟩ h, fun _ => trivial, fun _ _ => trivial⟩

section Emits

variable {P : RaftEffect → Prop} {c c' c'' : Ctx}

theorem Emits.refl (c : Ctx) : Emits P c c := ⟨rfl, [], by simp, by simp⟩

theorem Emits.mono {Q : RaftEffect → Prop} (h : Emits P c c') (hpq : ∀ e, P e → Q e) :
    Emits Q c c' := by
  obtain ⟨ht, es, hes, hok⟩ := h
  exact ⟨ht, es, hes, fun e he => hpq e (hok e he)⟩

/-- Effects add up. -/
theorem Emits.trans (h : Emits P c c') (h' : Emits P c' c'') : Emits P c c'' := by
  obtain ⟨ht, es, he, hes⟩ := h
  obtain ⟨ht', es', he', hes'⟩ := h'
  refine ⟨ht'.trans ht, es ++ es', by rw [he', he, List.append_assoc], ?_⟩
  intro e hmem
  rcases List.mem_append.mp hmem with hmem | hmem
  · exact hes e hmem
  · exact hes' e hmem

theorem Emits.emit (h : Emits P c c') {e : RaftEffect} (he : P e) : Emits P c (c'.emit e) :=
  h.trans ⟨rfl, [e], rfl, by simpa using he⟩

/-- A change of the node emits nothing. -/
theorem Emits.setNode (h : Emits P c c') (n : RaftNode) : Emits P c { c' with node := n } := h

theorem Emits.foldl {α : Type*} {f : Ctx → α → Ctx} (hf : ∀ c a, Emits P c (f c a)) (l : List α)
    (h : Emits P c c') : Emits P c (l.foldl f c') := by
  induction l generalizing c' with
  | nil => exact h
  | cons a l ih => exact ih (h.trans (hf c' a))

namespace Tolerant

variable (hP : Tolerant P) {index : ℕ}

include hP

variable (h : Emits P c c')
include h

theorem traced {kind : TraceKind} {detail : String}
    (hk : kind = .roleChange → detail ≠ "became leader") : Emits P c (c'.trace kind detail index) :=
  h.emit (hP.trace _ fun ⟨h₁, h₂⟩ => hk h₁ h₂)

theorem replied {token : ClientToken} {status : ClientStatus} {value : Bytes} (hs : status ≠ .ok) :
    Emits P c (c'.emitReply token status value index) :=
  hP.traced (h.emit (hP.reply _ hs)) (by simp)

theorem repliedAll {tokens : List ClientToken} {status : ClientStatus} {value : Bytes}
    (hs : status ≠ .ok) : Emits P c (c'.emitReplies tokens status value index) :=
  Emits.foldl (fun c _ => hP.replied (Emits.refl c) hs) tokens h

theorem election : Emits P c c'.scheduleElection :=
  (h.setNode _).emit (hP.timer _)

theorem heartbeat : Emits P c c'.scheduleHeartbeat :=
  (h.setNode _).emit (hP.timer _)

theorem sent {target : NodeId} {message : Message}
    (hs : P (.send { sender := c'.node.config.nodeId, target, message })) :
    Emits P c (c'.sendMessage target message) :=
  (hP.traced h (by simp)).emit hs

/-- A node that gives up only traces and refuses. -/
theorem failed {detail : String} : Emits P c (c'.failStorage detail) := by
  have hreplies : ∀ (c : Ctx) (e : ℕ × PendingClientEntry),
      Emits P c (c.emitReplies e.2.waiters .storageError [] e.1) :=
    fun c _ => hP.repliedAll (Emits.refl c) (by simp)
  have hdeferred : ∀ (c : Ctx) (e : RaftEvent), Emits P c (c.failDeferred e) := by
    intro c e
    cases e with
    | clientRequest token command => exact hP.replied (Emits.refl c) (by simp)
    | _ => exact Emits.refl c
  exact Emits.setNode (Emits.foldl hdeferred _ (Emits.setNode (Emits.foldl hreplies _
    (hP.traced (h.setNode _) (by simp))) _)) _

theorem removed : Emits P c (c'.removePendingFrom index) :=
  Emits.foldl (fun c _ => (hP.repliedAll (Emits.refl c) (by simp)).setNode _) _ h

end Tolerant

end Emits

end DetLog
