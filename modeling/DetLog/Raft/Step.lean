import DetLog.Raft.Node
import Mathlib.Data.List.Sort

/-!
# The transition function of a consensus node

`DetLog.RaftNode.step`, with every handler behind it, and the two entry points
`DetLog.RaftNode.create` (the constructor) and `DetLog.RaftNode.start`. The handlers
thread a `DetLog.Ctx`: the node under transformation and the effects it has emitted so
far, in order.

The source's continuations call back into the handlers, and `begin_persist` runs its
continuation at once when there is nothing to write. `DetLog.Ctx.startPersist` is the
part of `begin_persist` after that test; `maybe_advance_commit`, whose batch always
carries a commit index, goes there directly, and `DetLog.Ctx.beginPersist` is the whole
function.
-/

namespace DetLog

/-- A transition in progress. The only exception the core can raise is recorded in
`thrown`; it is raised with a batch outstanding, and then no caller does anything more
before the exception would leave `step`. -/
structure Ctx where
  node : RaftNode
  effects : List RaftEffect := []
  thrown : Option String := none
  deriving DecidableEq

namespace Ctx

/-! ### Effects -/

/-- One more effect. -/
def emit (c : Ctx) (e : RaftEffect) : Ctx := { c with effects := c.effects ++ [e] }

/-- A record of what happens. -/
def trace (c : Ctx) (kind : TraceKind) (detail : String) (index : ℕ) : Ctx :=
  c.emit (.trace
    { kind, node := c.node.config.nodeId, term := c.node.currentTerm, index, detail })

/-- An answer to a client, with its record. -/
def emitReply (c : Ctx) (token : ClientToken) (status : ClientStatus) (value : Bytes)
    (index : ℕ) : Ctx :=
  -- A leader names itself, everyone else the leader it has last heard from.
  let hint := if c.node.role = .leader then some c.node.config.nodeId else c.node.leaderHint
  (c.emit (.clientReply { token, status, leaderHint := hint, logIndex := index, value })).trace
    .clientReply "client reply emitted" index

/-- The same reply to several waiters. -/
def emitReplies (c : Ctx) (tokens : List ClientToken) (status : ClientStatus) (value : Bytes)
    (index : ℕ) : Ctx :=
  tokens.foldl (fun c token => c.emitReply token status value index) c

/-- Arms the election timer anew. -/
def scheduleElection (c : Ctx) : Ctx :=
  let generation := incU64 c.node.electionGeneration
  { c with node := { c.node with electionGeneration := generation } }.emit (.scheduleTimer
    { kind := .election, delay := c.node.config.electionTimeout, generation })

/-- Arms the heartbeat timer anew. -/
def scheduleHeartbeat (c : Ctx) : Ctx :=
  let generation := incU64 c.node.heartbeatGeneration
  { c with node := { c.node with heartbeatGeneration := generation } }.emit (.scheduleTimer
    { kind := .heartbeat, delay := c.node.config.heartbeatInterval, generation })

/-- A message, with its record. -/
def sendMessage (c : Ctx) (target : NodeId) (message : Message) : Ctx :=
  (c.trace .send "protocol message emitted" 0).emit (.send
    { sender := c.node.config.nodeId, target, message })

/-- The answer to the clients whose requests are still deferred when storage fails. -/
def failDeferred (c : Ctx) : RaftEvent → Ctx
  | .clientRequest token _ => c.emitReply token .storageError [] 0
  | _ => c

/-- The node gives up for good. -/
def failStorage (c : Ctx) (detail : String) : Ctx :=
  let c := { c with node := { c.node with
    role := .unavailable
    leaderHint := none
    leaderReady := false
    peers := ∅
    votesReceived := ∅
    pendingStorage := none
    electionGeneration := incU64 c.node.electionGeneration
    heartbeatGeneration := incU64 c.node.heartbeatGeneration } }
  let c := c.trace .fault detail 0
  let c := c.node.pendingClients.entries.foldl
    (fun c e => c.emitReplies e.2.waiters .storageError [] e.1) c
  let c := { c with node := { c.node with pendingClients := ∅, pendingSessions := ∅ } }
  -- Only clients are waiting for an answer to what was deferred.
  let c := c.node.deferredEvents.foldl failDeferred c
  { c with node := { c.node with deferredEvents := [] } }

/-! ### Persistence -/

/-- `begin_persist` once the batch is known not to be empty. -/
def startPersist (c : Ctx) (batch : PersistBatch) (afterSuccess : Continuation) : Ctx :=
  if c.node.pendingStorage.isSome then
    { c with thrown := some "only one Raft storage operation may be outstanding" }
  -- Identifiers start at one, so zero means that the counter has wrapped around.
  else if c.node.nextStorageOpId = 0 then c.failStorage "storage operation id overflow"
  else
    let opId := c.node.nextStorageOpId
    let c := { c with node := { c.node with
      nextStorageOpId := incU64 opId
      pendingStorage := some { opId, batch, afterSuccess } } }
    (c.trace .storageBegin "storage operation started" 0).emit (.persist { opId, batch })

/-! ### Replication -/

/-- The append to one peer, once it is known that the leader may send one. -/
def sendAppendTo (c : Ctx) (peer : NodeId) (progress : PeerProgress) : Ctx :=
  let n := c.node
  -- `std::clamp` to the durable log and the index after it.
  let nextIndex :=
    if progress.nextIndex < 1 then 1
    else if n.durableLastLogIndex + 1 < progress.nextIndex then n.durableLastLogIndex + 1
    else progress.nextIndex
  let prev := nextIndex - 1
  let available := n.durableLastLogIndex - prev
  let candidateCount := min available n.config.maxAppendEntriesPerRpc
  let entries := packEntries n.config.maxAppendBytesPerRpc
    ((n.log.drop prev).take candidateCount) kAppendRpcOverhead
  if n.nextRpcId = 0 then
    -- The source has clamped the index of the peer in place by now.
    { c with node := { n with
      peers := n.peers.insert peer { progress with nextIndex } } }.failStorage "RPC id overflow"
  else
    let rpcId := n.nextRpcId
    let inflight := { rpcId, prevIndex := prev, lastIndex := prev + entries.length }
    let c := { c with node := { n with
      nextRpcId := incU64 rpcId
      peers := n.peers.insert peer
        { progress with nextIndex, inflight := some inflight, inflightHeartbeatAge := 0 } } }
    c.sendMessage peer (.appendEntries
      { term := n.currentTerm, leaderId := n.config.nodeId, rpcId, prevLogIndex := prev,
        prevLogTerm := termAt n.log prev, entries, leaderCommit := n.commitIndex })

/-- At most one append to a peer is under way. -/
def sendAppend (c : Ctx) (peer : NodeId) : Ctx :=
  if c.node.role ≠ .leader ∨ c.node.pendingStorage.isSome then c
  else
    match c.node.peers.find peer with
    | none => c
    | some progress => if progress.inflight.isSome then c else c.sendAppendTo peer progress

/-- An append to every idle peer. -/
def sendAllAppends (c : Ctx) : Ctx :=
  if c.node.role ≠ .leader ∨ c.node.pendingStorage.isSome then c
  else c.node.peers.keys.foldl sendAppend c

/-! ### Applying committed entries -/

/-- One round of `apply_committed`, for the entry it has found. -/
def applyEntry (c : Ctx) (index : ℕ) (entry : LogEntry) : Ctx :=
  let applied : KvStateMachine × ApplyResult :=
    match entry.command with
    | some command => c.node.stateMachine.apply command
    | none => (c.node.stateMachine, {})
  let c := { c with node := { c.node with stateMachine := applied.1 } }
  let c := c.trace .apply
    (if entry.command.isSome then "applied client command" else "applied no-op") index
  match c.node.pendingClients.find index with
  | none => c
  | some pending =>
    let c := c.emitReplies pending.waiters applied.2.status applied.2.value index
    -- The session may have moved on to a later entry.
    { c with node := { c.node with
      pendingSessions :=
        if c.node.pendingSessions.find pending.command.session = some index then
          c.node.pendingSessions.erase pending.command.session
        else c.node.pendingSessions
      pendingClients := c.node.pendingClients.erase index } }

/-- The loop of `apply_committed`; `fuel` bounds the number of rounds. -/
def applyRounds (c : Ctx) : ℕ → Ctx
  | 0 => c
  | fuel + 1 =>
    if c.node.lastApplied < c.node.commitIndex then
      let index := c.node.lastApplied + 1
      let c := { c with node := { c.node with lastApplied := index } }
      match entryAt c.node.log index with
      | none => c.failStorage "commit index references a missing log entry"
      | some entry => (c.applyEntry index entry).applyRounds fuel
    else c

/-- Every round raises `lastApplied` by one, so the distance to the commit index is
enough fuel. -/
def applyCommitted (c : Ctx) : Ctx := c.applyRounds (c.node.commitIndex - c.node.lastApplied)

/-! ### Commitment and continuations -/

/-- A new commit index is applied once it is durable. -/
def maybeAdvanceCommit (c : Ctx) : Ctx :=
  if c.node.role ≠ .leader ∨ c.node.pendingStorage.isSome then c
  else
    let target := c.node.commitTarget c.node.durableLastLogIndex
    if target = c.node.commitIndex then c
    else
      -- The commit index moves before the batch is durable.
      { c with node := { c.node with commitIndex := target } }.startPersist
        { commitIndex := some target } .commitAdvanced

/-- The vote requests of `begin_election`. -/
def requestVotes (c : Ctx) : Ctx :=
  let request : RequestVote :=
    { term := c.node.currentTerm
      candidateId := c.node.config.nodeId
      lastLogIndex := c.node.durableLastLogIndex
      lastLogTerm := termAt c.node.log c.node.durableLastLogIndex }
  c.node.config.members.foldl
    (fun c member =>
      if member ≠ c.node.config.nodeId then c.sendMessage member (.requestVote request) else c) c

/-- **The continuations**: what runs when the outstanding batch is durable. -/
def resume (c : Ctx) : Continuation → Ctx
  | .campaign => if c.node.role ≠ .candidate then c else c.scheduleElection.requestVotes
  | .voteReply candidate grant wasLeader =>
    let c := if grant then c.trace .vote "granted vote" 0 else c
    -- A leader invalidates its election timer, so a denying leader arms a new one too.
    let c := if grant || wasLeader then c.scheduleElection else c
    c.sendMessage candidate (.requestVoteResponse
      { term := c.node.currentTerm, voteGranted := grant })
  | .rearm => c.scheduleElection
  | .leaderEstablished =>
    if c.node.role ≠ .leader then c
    else c.sendAllAppends.scheduleHeartbeat.maybeAdvanceCommit
  | .appendReject leader rpcId conflictIndex conflictTerm =>
    let c := c.scheduleElection
    c.sendMessage leader (.appendEntriesResponse
      { term := c.node.currentTerm, rpcId, success := false, matchIndex := 0,
        conflictIndex, conflictTerm })
  | .appendAccept leader rpcId matchIndex apply =>
    let c :=
      if apply then
        (c.trace .commit "learned committed prefix from leader" c.node.commitIndex).applyCommitted
      else c
    let c := c.scheduleElection
    c.sendMessage leader (.appendEntriesResponse
      { term := c.node.currentTerm, rpcId, success := true, matchIndex, conflictIndex := 0,
        conflictTerm := 0 })
  | .clientAppended =>
    if c.node.role ≠ .leader then c else c.sendAllAppends.maybeAdvanceCommit
  | .commitAdvanced =>
    let c := (c.trace .commit "leader durably advanced commit index"
      c.node.commitIndex).applyCommitted
    let c :=
      if c.node.role = .leader ∧ c.node.readinessIndex ≠ 0 ∧
          c.node.readinessIndex ≤ c.node.lastApplied then
        { c with node := { c.node with leaderReady := true } }
      else c
    c.sendAllAppends

/-- An empty batch needs no storage. -/
def beginPersist (c : Ctx) (batch : PersistBatch) (afterSuccess : Continuation) : Ctx :=
  if batch.isEmpty then c.resume afterSuccess else c.startPersist batch afterSuccess

/-! ### Elections -/

/-- A follower again, in a term that is not older. -/
def stepDown (c : Ctx) (term : ℕ) (leaderHint : Option NodeId) (emitTimer : Bool) : Ctx :=
  let oldRole := c.node.role
  let c :=
    if c.node.currentTerm < term then
      { c with node := { c.node with
        hardState := { currentTerm := term, votedFor := none } } }.trace .termChange
          "observed a higher term" 0
    else c
  let c := { c with node := { c.node with
    role := .follower
    leaderHint
    leaderReady := false
    readinessIndex := 0
    votesReceived := ∅
    peers := ∅
    heartbeatGeneration := incU64 c.node.heartbeatGeneration } }
  let c := if oldRole ≠ .follower then c.trace .roleChange "became follower" 0 else c
  if emitTimer then c.scheduleElection else c

/-- A new term, and a vote for itself. -/
def beginElection (c : Ctx) : Ctx :=
  if c.node.currentTerm = maxU64 then c.failStorage "term counter overflow"
  else
    let self := c.node.config.nodeId
    let hardState : HardState :=
      { currentTerm := c.node.currentTerm + 1, votedFor := some self }
    let c := { c with node := { c.node with
      role := .candidate
      hardState
      leaderHint := none
      leaderReady := false
      readinessIndex := 0
      peers := ∅
      votesReceived := {self}
      heartbeatGeneration := incU64 c.node.heartbeatGeneration } }
    let c := c.trace .termChange "started election" 0
    let c := c.trace .roleChange "became candidate" 0
    let c := c.trace .vote "recorded self vote" 0
    c.beginPersist { hardState := some hardState } .campaign

/-- The second half of `on_request_vote`: decide on the vote, record it, and answer. -/
def decideVote (c : Ctx) (sender : NodeId) (request : RequestVote)
    (observedHigherTerm wasLeader : Bool) : Ctx :=
  let hardState := if observedHigherTerm then some c.node.hardState else none
  let canVote :=
    decide (c.node.hardState.votedFor = none ∨
      c.node.hardState.votedFor = some request.candidateId)
  let grant :=
    canVote && candidateIsUpToDate c.node.log request.lastLogIndex request.lastLogTerm
  -- A vote repeated for the same candidate needs no new hard state.
  let records := grant && decide (c.node.hardState.votedFor ≠ some request.candidateId)
  let voted := { c.node.hardState with votedFor := some request.candidateId }
  let c := if records then { c with node := { c.node with hardState := voted } } else c
  let batch : PersistBatch := { hardState := if records then some voted else hardState }
  if batch.isEmpty then c.resume (.voteReply sender grant wasLeader)
  else c.beginPersist batch (.voteReply sender grant wasLeader)

/-- A stale request is refused at once. -/
def onRequestVote (c : Ctx) (sender : NodeId) (request : RequestVote) : Ctx :=
  if request.term = 0 ∨ request.candidateId ≠ sender then c
  else if request.term < c.node.currentTerm then
    c.sendMessage sender (.requestVoteResponse
      { term := c.node.currentTerm, voteGranted := false })
  else
    let wasLeader := decide (c.node.role = .leader)
    let observedHigherTerm := decide (c.node.currentTerm < request.term)
    let c := if observedHigherTerm then c.stepDown request.term none false else c
    c.decideVote sender request observedHigherTerm wasLeader

/-- The peers of a new leader, none of which has acknowledged anything. -/
def freshPeers (n : RaftNode) : OrdMap NodeId PeerProgress :=
  n.config.members.foldl
    (fun peers member =>
      if member ≠ n.config.nodeId then
        peers.insert member { nextIndex := n.durableLastLogIndex + 1 }
      else peers) ∅

/-- The second half of `become_leader`: the entry whose commitment makes the leader
ready. -/
def appendReadiness (c : Ctx) : Ctx :=
  if c.node.lastLogIndex = maxU64 then c.failStorage "log index overflow"
  else
    let noOp := c.node.nextEntry none
    if c.node.canAppend noOp = false then
      -- Without room for its entry the new leader steps back at once, in the same term.
      let c := c.trace .queueSaturated "no room for leader readiness entry" 0
      { c with node := { c.node with
        role := .follower, leaderHint := none, peers := ∅ } }.scheduleElection
    else
      let c := { c with node := { c.node with
        log := c.node.log ++ [noOp], readinessIndex := noOp.index } }
      let c := c.trace .logChange "appended leader readiness no-op" noOp.index
      c.beginPersist { entries := [noOp] } .leaderEstablished

/-- The winner announces itself and appends its readiness entry. -/
def becomeLeader (c : Ctx) : Ctx :=
  let c := { c with node := { c.node with
    role := .leader
    leaderHint := some c.node.config.nodeId
    leaderReady := false
    readinessIndex := 0
    votesReceived := ∅
    electionGeneration := incU64 c.node.electionGeneration
    peers := freshPeers c.node } }
  (c.trace .roleChange "became leader" 0).appendReadiness

/-- A response with a higher term makes the node a follower of that term. -/
def adoptTerm (c : Ctx) (term : ℕ) : Ctx :=
  let c := c.stepDown term none false
  c.beginPersist { hardState := some c.node.hardState } .rearm

/-- A vote is counted once; only the first one is traced. -/
def recordVote (c : Ctx) (sender : NodeId) : Ctx :=
  let fresh := decide (sender ∉ c.node.votesReceived)
  let c := { c with node := { c.node with
    votesReceived := insert sender c.node.votesReceived } }
  if fresh then c.trace .vote "received vote" 0 else c

/-- A vote is counted once for each sender. -/
def onRequestVoteResponse (c : Ctx) (sender : NodeId) (response : RequestVoteResponse) : Ctx :=
  if c.node.currentTerm < response.term then c.adoptTerm response.term
  else if c.node.role ≠ .candidate ∨ response.term ≠ c.node.currentTerm ∨
      response.voteGranted = false then c
  else
    let c := c.recordVote sender
    if c.node.quorumSize ≤ c.node.votesReceived.card then c.becomeLeader else c

/-! ### Appends -/

/-- The reply to one waiter of each removed entry, then the removal itself. -/
def removePending (c : Ctx) (e : ℕ × PendingClientEntry) : Ctx :=
  let c := c.emitReplies e.2.waiters .unavailable [] e.1
  { c with node := { c.node with
    pendingSessions :=
      if c.node.pendingSessions.find e.2.command.session = some e.1 then
        c.node.pendingSessions.erase e.2.command.session
      else c.node.pendingSessions
    pendingClients := c.node.pendingClients.erase e.1 } }

/-- The requests from an index on are given up. -/
def removePendingFrom (c : Ctx) (index : ℕ) : Ctx :=
  (c.node.pendingClients.entries.filter fun e => decide (index ≤ e.1)).foldl removePending c

/-- The index an accepted append reaches. -/
def appendMatchIndex (request : AppendEntries) : ℕ :=
  match request.entries.getLast? with
  | none => request.prevLogIndex
  | some entry => entry.index

/-- The end of `on_append_entries`: learn the leader's commit index and answer. -/
def finishAppend (c : Ctx) (sender : NodeId) (request : AppendEntries) (batch : PersistBatch) :
    Ctx :=
  let matchIndex := appendMatchIndex request
  let newCommit := min request.leaderCommit matchIndex
  -- Beyond what this append has confirmed the log may still differ from the leader's.
  let advances := decide (c.node.commitIndex < newCommit)
  let c := if advances then { c with node := { c.node with commitIndex := newCommit } } else c
  let batch := if advances then { batch with commitIndex := some newCommit } else batch
  let accept := Continuation.appendAccept sender request.rpcId matchIndex batch.commitIndex.isSome
  if batch.isEmpty then c.resume accept else c.beginPersist batch accept

/-- The part of `on_append_entries` after the previous entry has been found: keep
what matches, replace the rest. -/
def acceptAppend (c : Ctx) (sender : NodeId) (request : AppendEntries) (batch : PersistBatch) :
    Ctx :=
  let suffix := request.entries.drop (matchingEntries c.node.log request.entries)
  match suffix with
  | [] => c.finishAppend sender request batch
  | entry :: _ =>
    let replacementIndex := entry.index
    if replacementIndex ≤ c.node.commitIndex then
      c.failStorage "leader attempted to overwrite a committed entry"
    else
      let truncates := decide (replacementIndex ≤ c.node.lastLogIndex)
      let batch := if truncates then { batch with truncateFrom := some replacementIndex } else batch
      -- Clients that wait for a replaced entry get `unavailable`.
      let c :=
        if truncates then
          let c := c.removePendingFrom replacementIndex
          { c with node := { c.node with log := c.node.log.take (replacementIndex - 1) } }
        else c
      let c := { c with node := { c.node with log := c.node.log ++ suffix } }
      let c := c.trace .logChange "accepted replicated log suffix" replacementIndex
      c.finishAppend sender request { batch with entries := suffix }

/-- The refusals of `on_append_entries`. -/
def rejectAppend (c : Ctx) (sender : NodeId) (request : AppendEntries) (batch : PersistBatch)
    (conflictIndex conflictTerm : ℕ) : Ctx :=
  let reject := Continuation.appendReject sender request.rpcId conflictIndex conflictTerm
  if batch.isEmpty then c.resume reject else c.beginPersist batch reject

/-- The part of `on_append_entries` after the node has taken the sender for its leader. -/
def examineAppend (c : Ctx) (sender : NodeId) (request : AppendEntries) (batch : PersistBatch) :
    Ctx :=
  let entriesValid :=
    decide (request.entries.length ≤ c.node.config.maxAppendEntriesPerRpc) &&
      entriesValidFrom c.node.config request.term request.entries request.prevLogIndex
        kAppendRpcOverhead
  if entriesValid = false then
    c.rejectAppend sender request batch (c.node.lastLogIndex + 1) 0
  else if c.node.lastLogIndex < request.prevLogIndex then
    c.rejectAppend sender request batch (c.node.lastLogIndex + 1) 0
  else if termAt c.node.log request.prevLogIndex ≠ request.prevLogTerm then
    c.rejectAppend sender request batch (firstIndexOfTerm c.node.log request.prevLogIndex)
      (termAt c.node.log request.prevLogIndex)
  else c.acceptAppend sender request batch

/-- A stale request is refused at once. -/
def onAppendEntries (c : Ctx) (sender : NodeId) (request : AppendEntries) : Ctx :=
  if request.term = 0 ∨ request.leaderId ≠ sender then c
  else if request.term < c.node.currentTerm then
    c.sendMessage sender (.appendEntriesResponse
      { term := c.node.currentTerm, rpcId := request.rpcId, success := false, matchIndex := 0,
        conflictIndex := c.node.lastLogIndex + 1, conflictTerm := 0 })
  else
    let observedHigherTerm := decide (c.node.currentTerm < request.term)
    let c :=
      if observedHigherTerm || decide (c.node.role ≠ .follower) then
        c.stepDown request.term (some sender) false
      else { c with node := { c.node with leaderHint := some sender } }
    c.examineAppend sender request
      { hardState := if observedHigherTerm then some c.node.hardState else none }

/-- Where a leader resumes after a rejected append: the follower's hint, corrected by
the leader's own entries of the conflicting term, within the bounds it knows. -/
def retryIndex (n : RaftNode) (progress : PeerProgress) (response : AppendEntriesResponse) :
    ℕ :=
  let next :=
    if response.conflictTerm ≠ 0 then
      match lastIndexOfTerm n.log response.conflictTerm with
      | some matching => matching + 1
      | none => response.conflictIndex
    else response.conflictIndex
  let next :=
    if next = 0 then (if 1 < progress.nextIndex then progress.nextIndex - 1 else 1) else next
  max (min next (n.durableLastLogIndex + 1)) (progress.matchIndex + 1)

/-- Only the answer to the append under way counts. -/
def onAppendEntriesResponse (c : Ctx) (sender : NodeId) (response : AppendEntriesResponse) :
    Ctx :=
  if c.node.currentTerm < response.term then c.adoptTerm response.term
  else if c.node.role ≠ .leader ∨ response.term ≠ c.node.currentTerm then c
  else
    match c.node.peers.find sender with
    | none => c
    | some progress =>
      match progress.inflight with
      | none => c
      | some sent =>
        -- Only the answer to the append in flight counts; older ones are dropped.
        if sent.rpcId ≠ response.rpcId then c
        else
          let progress := { progress with inflight := none, inflightHeartbeatAge := 0 }
          let setProgress (p : PeerProgress) : Ctx :=
            { c with node := { c.node with peers := c.node.peers.insert sender p } }
          if response.success then
            if response.matchIndex < sent.lastIndex then setProgress progress
            else
              -- What was sent is recorded, not what the response claims.
              let matchIndex := max progress.matchIndex sent.lastIndex
              let c := (setProgress { progress with
                matchIndex, nextIndex := matchIndex + 1 }).maybeAdvanceCommit
              if c.node.role = .leader ∧ c.node.pendingStorage = none then
                match c.node.peers.find sender with
                | some current =>
                  if current.matchIndex < c.node.durableLastLogIndex then c.sendAppend sender
                  else c
                | none => c
              else c
          else
            (setProgress { progress with
              nextIndex := retryIndex c.node progress response }).sendAppend sender

/-! ### Client requests -/

/-- The admission of a command whose session has nothing pending. -/
def admitClient (c : Ctx) (token : ClientToken) (command : ClientCommand) : Ctx :=
  if c.node.lastLogIndex = maxU64 then c.emitReply token .busy [] 0
  else
    let entry := c.node.nextEntry (some command)
    if c.node.canAppendClient entry = false then
      (c.trace .queueSaturated "uncommitted log admission bound reached" 0).emitReply token .busy
        [] 0
    else
      let c := { c with node := { c.node with
        log := c.node.log ++ [entry]
        pendingSessions := c.node.pendingSessions.insert command.session entry.index
        pendingClients := c.node.pendingClients.insert entry.index
          { command, digest := KvStateMachine.commandDigest command, waiters := [token] } } }
      let c := c.trace .logChange "appended client command" entry.index
      c.beginPersist { entries := [entry] } .clientAppended

/-- A request whose session has a pending entry joins it or is refused. -/
def joinPending (c : Ctx) (token : ClientToken) (command : ClientCommand) : Ctx :=
  match c.node.pendingSessions.find command.session with
  | none => c.admitClient token command
  | some index =>
    match c.node.pendingClients.find index with
    | none =>
      -- A session that points to no pending entry is forgotten.
      { c with node := { c.node with
        pendingSessions := c.node.pendingSessions.erase command.session } }.admitClient token
          command
    | some pending =>
      if pending.command.sequence ≠ command.sequence then c.emitReply token .sequenceGap [] 0
      else if pending.digest ≠ KvStateMachine.commandDigest command then
        c.emitReply token .requestIdConflict [] 0
      else if c.node.config.maxWaitersPerRequest ≤ pending.waiters.length then
        c.emitReply token .busy [] 0
      else
        { c with node := { c.node with
          pendingClients := c.node.pendingClients.insert index
            { pending with waiters := pending.waiters ++ [token] } } }

/-- Refused, answered from the session, or joined to what is pending. -/
def onClientRequest (c : Ctx) (token : ClientToken) (command : ClientCommand) : Ctx :=
  if c.node.role = .unavailable then c.emitReply token .unavailable [] 0
  else if c.node.role ≠ .leader then c.emitReply token .notLeader [] 0
  else if c.node.leaderReady = false then c.emitReply token .leaderNotReady [] 0
  else if commandAcceptable c.node.config command = false then
    c.emitReply token .invalidRequest [] 0
  else
    match c.node.stateMachine.session command.session with
    | some applied =>
      if command.sequence < applied.sequence then c.emitReply token .staleSequence [] 0
      else if command.sequence = applied.sequence then
        if KvStateMachine.commandDigest command ≠ applied.commandDigest then
          c.emitReply token .requestIdConflict [] 0
        else c.emitReply token applied.status applied.result c.node.lastApplied
      else if applied.sequence = maxU64 ∨ command.sequence ≠ applied.sequence + 1 then
        c.emitReply token .sequenceGap [] 0
      else c.joinPending token command
    | none =>
      if command.sequence ≠ 1 then c.emitReply token .sequenceGap [] 0
      else c.joinPending token command

/-! ### Events -/

/-- The heartbeat ages an unanswered append and gives it up after a few rounds. -/
def ageInflight (config : RaftConfig) (progress : PeerProgress) : PeerProgress :=
  if progress.inflight.isNone then progress
  else if config.appendRetryHeartbeats ≤ progress.inflightHeartbeatAge + 1 then
    { progress with inflight := none, inflightHeartbeatAge := 0 }
  else { progress with inflightHeartbeatAge := progress.inflightHeartbeatAge + 1 }

/-- A timer of an old generation does nothing. -/
def onTimer (c : Ctx) (kind : TimerKind) (generation : ℕ) : Ctx :=
  match kind with
  | .election =>
    if generation ≠ c.node.electionGeneration ∨ c.node.role = .leader ∨
        c.node.role = .unavailable then c
    else c.beginElection
  | .heartbeat =>
    if generation ≠ c.node.heartbeatGeneration ∨ c.node.role ≠ .leader then c
    else
      { c with node := { c.node with
        peers := c.node.peers.mapValues
          (ageInflight c.node.config) } }.sendAllAppends.scheduleHeartbeat

/-- Only messages between members are handled. -/
def onMessage (c : Ctx) (envelope : MessageEnvelope) : Ctx :=
  if envelope.target ≠ c.node.config.nodeId ∨ envelope.sender = c.node.config.nodeId ∨
      c.node.isMember envelope.sender = false then c
  else
    let c := c.trace .receive "protocol message received" 0
    match envelope.message with
    | .requestVote m => c.onRequestVote envelope.sender m
    | .requestVoteResponse m => c.onRequestVoteResponse envelope.sender m
    | .appendEntries m => c.onAppendEntries envelope.sender m
    | .appendEntriesResponse m => c.onAppendEntriesResponse envelope.sender m

/-- What a successful completion makes durable. -/
def markDurable (c : Ctx) (batch : PersistBatch) : Ctx :=
  { c with node := { c.node with
    durableHardState := batch.hardState.getD c.node.durableHardState
    -- The log cannot have changed since the batch was built.
    durableLastLogIndex :=
      if batch.truncateFrom.isSome || !batch.entries.isEmpty then c.node.lastLogIndex
      else c.node.durableLastLogIndex
    durableCommitIndex := batch.commitIndex.getD c.node.durableCommitIndex } }

/-- A failure is final; a success goes on where the node waited. -/
def onStorageComplete (c : Ctx) (opId : ℕ) (success : Bool) (error : String) : Ctx :=
  match c.node.pendingStorage with
  | none => c.trace .fault "unexpected storage completion" 0
  | some pending =>
    if pending.opId ≠ opId then c.trace .fault "unexpected storage completion" 0
    else
      let c := { c with node := { c.node with pendingStorage := none } }
      if success = false then
        c.failStorage (if error.isEmpty then "storage operation failed" else error)
      else
        let c := c.markDurable pending.batch
        (c.trace .storageComplete "storage operation completed" 0).resume pending.afterSuccess

/-- One event. -/
def dispatch (c : Ctx) : RaftEvent → Ctx
  | .timerFired kind generation => c.onTimer kind generation
  | .messageReceived envelope => c.onMessage envelope
  | .storageComplete opId success error => c.onStorageComplete opId success error
  | .clientRequest token command => c.onClientRequest token command

/-- The queue after its first event has been taken. -/
def pop (c : Ctx) (rest : List RaftEvent) : Ctx :=
  { c with node := { c.node with deferredEvents := rest } }

/-- The loop at the end of `step`: deferred events run until one of them waits for
storage or makes the node unavailable. No handler defers an event, so the length of the
queue is enough fuel. -/
def drain (c : Ctx) : ℕ → Ctx
  | 0 => c
  | fuel + 1 =>
    if c.node.pendingStorage.isSome ∨ c.node.role = .unavailable then c
    else
      match c.node.deferredEvents with
      | [] => c
      | event :: rest => ((c.pop rest).dispatch event).drain fuel

end Ctx

/-- The deferral of an event while a batch is outstanding. -/
def RaftNode.defer (n : RaftNode) (event : RaftEvent) : Ctx :=
  let c : Ctx := { node := n }
  if n.config.maxDeferredEvents ≤ n.deferredEvents.length then
    let c := c.trace .queueSaturated "deferred event queue is full" 0
    match event with
    | .clientRequest token _ => c.emitReply token .busy [] 0
    | _ => c
  else { c with node := { n with deferredEvents := n.deferredEvents ++ [event] } }

/-- The filter of `step` on what it defers. -/
def RaftNode.deferFiltered (n : RaftNode) (event : RaftEvent) : Ctx :=
  let c : Ctx := { node := n }
  match event with
  | .clientRequest token command =>
    if commandAcceptable n.config command = false then c.emitReply token .invalidRequest [] 0
    else n.defer event
  | .messageReceived { message := .appendEntries append, .. } =>
    if append.entries.length ≤ n.config.maxAppendEntriesPerRpc ∧
        deferrableFrom n.config append.entries kAppendRpcOverhead = true then n.defer event
    else c.trace .queueSaturated "rejected oversized deferred protocol event" 0
  | _ => n.defer event

/-- Dispatch an event, then the events that were deferred before it. -/
def RaftNode.process (n : RaftNode) (event : RaftEvent) : Ctx :=
  let c := Ctx.dispatch { node := n } event
  c.drain c.node.deferredEvents.length

/-- **One transition of a node.** -/
def RaftNode.step (n : RaftNode) (event : RaftEvent) : Ctx :=
  match event with
  | .storageComplete .. => n.process event
  | _ =>
    if n.pendingStorage.isSome then n.deferFiltered event
    -- A stopped node still answers its clients.
    else if n.role = .unavailable then
      match event with
      | .clientRequest token _ => Ctx.emitReply { node := n } token .unavailable [] 0
      | _ => { node := n }
    else n.process event

/-- A node starts once. -/
def RaftNode.start (n : RaftNode) : Ctx :=
  if n.started ∨ n.role = .unavailable then { node := n }
  else Ctx.scheduleElection { node := { n with started := true } }

/-! ### Construction -/

/-- The state machine after the commands of a list of entries. -/
def replay (log : List LogEntry) : KvStateMachine :=
  log.foldl
    (fun m entry =>
      match entry.command with
      | some command => (m.apply command).1
      | none => m) {}

/-- The checks of the constructor on the entries of a recovered log, with the index
before the entry. -/
def recoveredLogValid (config : RaftConfig) (term : ℕ) : List LogEntry → ℕ → Bool
  | [], _ => true
  | entry :: rest, expected =>
    if entry.index ≠ expected + 1 ∨ entry.term = 0 ∨ term < entry.term ∨
        entryAcceptable config entry = false ∨
        config.maxAppendBytesPerRpc - kAppendRpcOverhead < entryBytes entry then false
    else recoveredLogValid config term rest (expected + 1)

/-- The bounds of the constructor. -/
def RaftConfig.boundsValid (config : RaftConfig) : Bool :=
  decide (config.electionTimeout ≠ 0 ∧ config.heartbeatInterval ≠ 0 ∧
    config.maxDeferredEvents ≠ 0 ∧ config.maxUncommittedEntries ≠ 0 ∧
    kEntryOverhead ≤ config.maxUncommittedBytes ∧ config.maxCommandBytes ≠ 0 ∧
    config.maxKeyBytes ≠ 0 ∧ config.maxAppendEntriesPerRpc ≠ 0 ∧
    kAppendRpcOverhead < config.maxAppendBytesPerRpc ∧ config.appendRetryHeartbeats ≠ 0 ∧
    config.maxWaitersPerRequest ≠ 0)

/-- The membership rule of the constructor, for a sorted member list. -/
def RaftConfig.membershipValid (config : RaftConfig) : Bool :=
  decide ((config.members.length = 3 ∨ config.members.length = 5) ∧
    config.members.IsChain (· ≠ ·) ∧ config.nodeId ∈ config.members)

/-- The member list is kept sorted. -/
def RaftConfig.sorted (config : RaftConfig) : RaftConfig :=
  { config with members := config.members.insertionSort (· ≤ ·) }

/-- The members a constructor initializes from a recovered state; the committed prefix
is replayed. -/
def RaftNode.ofRecovered (config : RaftConfig) (recovered : RecoveredState) : RaftNode where
  config := config.sorted
  hardState := recovered.hardState
  durableHardState := recovered.hardState
  log := recovered.log
  durableLastLogIndex := recovered.log.length
  commitIndex := recovered.commitIndex
  durableCommitIndex := recovered.commitIndex
  lastApplied := recovered.commitIndex
  stateMachine := replay (recovered.log.take recovered.commitIndex)

/-- **The constructor**: it sorts the members and checks the configuration and the
recovered state. -/
def RaftNode.create (config : RaftConfig) (recovered : RecoveredState) : Except String RaftNode :=
  let hardState := recovered.hardState
  if config.sorted.membershipValid = false then
    .error "Raft membership must contain this node and exactly 3 or 5 unique nodes"
  else if (hardState.votedFor.any fun vote =>
      decide (hardState.currentTerm = 0 ∨ vote ∉ config.sorted.members)) = true then
    .error "Recovered vote is not valid membership state"
  else if config.sorted.boundsValid = false then
    .error "Raft bounds and timer durations must be non-zero"
  else if maxU64 < recovered.log.length then .error "Recovered log is too large"
  else if hardState.currentTerm = 0 ∧ hardState.votedFor.isSome then
    .error "term-zero hard state cannot contain a vote"
  else if recoveredLogValid config.sorted hardState.currentTerm recovered.log 0 = false then
    .error "Recovered log is not a valid consecutive Raft log"
  else if recovered.log.length < recovered.commitIndex then
    .error "Recovered commit index is beyond the log"
  else .ok (RaftNode.ofRecovered config recovered)

end DetLog
