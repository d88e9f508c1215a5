import DetLog.Raft.Gate

/-!
# The elementary moves of the handlers

`DetLog.Outcome` says what a whole reaction does to the protected state of a node. The
invariants about everything else, its books, its peers, its counters and the faults it
reports, need a finer reading, and this module gives it once: `DetLog.Micro` lists the
assignments that the handlers make, each with the guard under which it is made, and
`DetLog.moves_dispatch` and `DetLog.moves_resume` say that a reaction is a sequence of
them. What every move keeps, every reaction keeps.

The one thing a reaction does exactly once is to take in a client request
(`DetLog.Intake`): it is refused, joins a pending entry, or gets an entry of its own.
-/

namespace DetLog

/-- The continuations that apply what is committed. -/
def Continuation.Applies (k : Continuation) : Prop :=
  k = .commitAdvanced ∨ ∃ l r i, k = .appendAccept l r i true

/-- A node that waits for nothing and has not stopped. -/
structure RaftNode.Idle (n : RaftNode) : Prop where
  free : n.pendingStorage = none
  available : n.role ≠ .unavailable

/-! ### The moves -/

/-- The counters that run out, with the texts of the reports. -/
inductive Exhausted (n : RaftNode) : String → Prop
  | term (bound : n.currentTerm = maxU64) : Exhausted n "term counter overflow"
  | index (bound : n.lastLogIndex = maxU64) : Exhausted n "log index overflow"
  | storage (bound : n.nextStorageOpId = 0) : Exhausted n "storage operation id overflow"
  | rpc (bound : n.nextRpcId = 0) : Exhausted n "RPC id overflow"

/-- **One elementary move of a handler**, with its guard, in a reaction of the node `n`. -/
inductive Micro (n : RaftNode) (cause : Cause) (c : Ctx) : Ctx → Prop
  | trace (kind : TraceKind) (detail : String) (index : ℕ) (regular : kind ≠ .fault) :
      Micro n cause c (c.trace kind detail index)
  | send (target : NodeId) (message : Message) : Micro n cause c (c.sendMessage target message)
  | election : Micro n cause c c.scheduleElection
  | heartbeat : Micro n cause c c.scheduleHeartbeat
  | exhausted (detail : String) (counter : Exhausted c.node detail) :
      Micro n cause c (c.failStorage detail)
  | persist (batch : PersistBatch) (k : Continuation) (free : c.node.pendingStorage = none)
      (unchanged : batch.commitIndex = none) (waits : ¬k.Applies) :
      Micro n cause c (c.startPersist batch k)
  | commit (target : ℕ) (batch : PersistBatch) (k : Continuation)
      (free : c.node.pendingStorage = none) (above : c.node.commitIndex < target)
      (raised : batch.commitIndex = some target) (applies : k.Applies) :
      Micro n cause c
        (Ctx.startPersist { c with node := { c.node with commitIndex := target } } batch k)
  | append (peer : NodeId) (progress : PeerProgress) (leader : c.node.role = .leader)
      (free : c.node.pendingStorage = none) (found : c.node.peers.find peer = some progress)
      (idle : progress.inflight = none) (id : c.node.nextRpcId ≠ 0) :
      Micro n cause c (c.sendAppendTo peer progress)
  | apply (e : LogEntry) (idle : c.node.Idle) (behind : c.node.lastApplied < c.node.commitIndex)
      (found : entryAt c.node.log (c.node.lastApplied + 1) = some e) :
      Micro n cause c (Ctx.applyEntry
        { c with node := { c.node with lastApplied := c.node.lastApplied + 1 } }
        (c.node.lastApplied + 1) e)
  | ready (leader : c.node.role = .leader) (index : c.node.readinessIndex ≠ 0)
      (reached : c.node.readinessIndex ≤ c.node.lastApplied) :
      Micro n cause c { c with node := { c.node with leaderReady := true } }
  | term (t : ℕ) (higher : c.node.currentTerm < t) :
      Micro n cause c { c with node := { c.node with hardState := ⟨t, none⟩ } }
  | retire (hint : Option NodeId) (available : c.node.role ≠ .unavailable) :
      Micro n cause c { c with node := { c.node with
        role := .follower
        leaderHint := hint
        leaderReady := false
        readinessIndex := 0
        votesReceived := ∅
        peers := ∅
        heartbeatGeneration := incU64 c.node.heartbeatGeneration } }
  | campaign (available : c.node.role ≠ .unavailable) (bound : c.node.currentTerm ≠ maxU64) :
      Micro n cause c { c with node := { c.node with
        role := .candidate
        hardState := ⟨c.node.currentTerm + 1, some c.node.config.nodeId⟩
        leaderHint := none
        leaderReady := false
        readinessIndex := 0
        peers := ∅
        votesReceived := {c.node.config.nodeId}
        heartbeatGeneration := incU64 c.node.heartbeatGeneration } }
  | vote (candidate : NodeId) :
      Micro n cause c { c with node := { c.node with
        hardState := { c.node.hardState with votedFor := some candidate } } }
  | tally (s : NodeId) (candidate : c.node.role = .candidate) :
      Micro n cause c { c with node := { c.node with
        votesReceived := insert s c.node.votesReceived } }
  | lead (candidate : c.node.role = .candidate) :
      Micro n cause c { c with node := { c.node with
        role := .leader
        leaderHint := some c.node.config.nodeId
        leaderReady := false
        readinessIndex := 0
        votesReceived := ∅
        electionGeneration := incU64 c.node.electionGeneration
        peers := Ctx.freshPeers c.node } }
  | readiness (leader : c.node.role = .leader) (unready : c.node.leaderReady = false)
      (bound : c.node.lastLogIndex ≠ maxU64)
      (room : c.node.canAppend (c.node.nextEntry none) = true) :
      Micro n cause c { c with node := { c.node with
        log := c.node.log ++ [c.node.nextEntry none]
        readinessIndex := (c.node.nextEntry none).index } }
  | abort (leader : c.node.role = .leader)
      (full : c.node.canAppend (c.node.nextEntry none) = false) :
      Micro n cause c { c with node := { c.node with
        role := .follower, leaderHint := none, peers := ∅ } }
  | follow (sender : NodeId) :
      Micro n cause c { c with node := { c.node with leaderHint := some sender } }
  | remove (index : ℕ) (p : PendingClientEntry)
      (found : c.node.pendingClients.find index = some p) (follower : c.node.role = .follower) :
      Micro n cause c (c.removePending (index, p))
  | cut (index : ℕ) (follower : c.node.role = .follower) (above : c.node.commitIndex < index)
      (cleared : ∀ k p, c.node.pendingClients.find k = some p → k < index) :
      Micro n cause c { c with node := { c.node with log := c.node.log.take (index - 1) } }
  | extend (entries : List LogEntry) (follower : c.node.role = .follower) :
      Micro n cause c { c with node := { c.node with log := c.node.log ++ entries } }
  | overwrite (s : NodeId) (request : AppendEntries) (e : LogEntry)
      (heard : Heard n cause s (.appendEntries request)) (fits : Fits n request)
      (first : (request.entries.drop (matchingEntries n.log request.entries)).head? = some e)
      (committed : e.index ≤ n.commitIndex) :
      Micro n cause c (c.failStorage "leader attempted to overwrite a committed entry")
  | note (s : NodeId) (progress progress' : PeerProgress) (sent : InflightAppend)
      (response : AppendEntriesResponse)
      (heard : Heard n cause s (.appendEntriesResponse response))
      (leader : c.node.role = .leader) (term : response.term = c.node.currentTerm)
      (found : c.node.peers.find s = some progress) (inflight : progress.inflight = some sent)
      (id : sent.rpcId = response.rpcId) (noted : Noted c.node progress sent response progress') :
      Micro n cause c { c with node := { c.node with peers := c.node.peers.insert s progress' } }
  | age (leader : c.node.role = .leader) :
      Micro n cause c { c with node := { c.node with
        peers := c.node.peers.mapValues (Ctx.ageInflight c.node.config) } }
  | forget (session : SessionId) (index : ℕ)
      (found : c.node.pendingSessions.find session = some index)
      (absent : c.node.pendingClients.find index = none) :
      Micro n cause c { c with node := { c.node with
        pendingSessions := c.node.pendingSessions.erase session } }

/-- **A sequence of moves.** -/
def Moves (n : RaftNode) (cause : Cause) : Ctx → Ctx → Prop :=
  Relation.ReflTransGen (Micro n cause)

/-- How a client request is taken in. -/
inductive Intake (token : ClientToken) (command : ClientCommand) (c : Ctx) : Ctx → Prop
  | refuse (status : ClientStatus) (value : Bytes) (index : ℕ) :
      Intake token command c (c.emitReply token status value index)
  | join (index : ℕ) (p : PendingClientEntry)
      (session : c.node.pendingSessions.find command.session = some index)
      (found : c.node.pendingClients.find index = some p) :
      Intake token command c { c with node := { c.node with
        pendingClients := c.node.pendingClients.insert index
          { p with waiters := p.waiters ++ [token] } } }
  | enroll (leader : c.node.role = .leader) (ready : c.node.leaderReady = true)
      (session : c.node.pendingSessions.find command.session = none) :
      Intake token command c { c with node := { c.node with
        log := c.node.log ++ [c.node.nextEntry (some command)]
        pendingSessions := c.node.pendingSessions.insert command.session
          (c.node.nextEntry (some command)).index
        pendingClients := c.node.pendingClients.insert (c.node.nextEntry (some command)).index
          { command, digest := KvStateMachine.commandDigest command, waiters := [token] } } }

/-! ### The handlers as sequences of moves -/

section Moves

variable {n : RaftNode} {cause : Cause} {c c₁ c₂ : Ctx} {batch : PersistBatch}
  {request : AppendEntries} {sender : NodeId}

namespace Moves

theorem refl (c : Ctx) : Moves n cause c c := Relation.ReflTransGen.refl

theorem move (h : Moves n cause c c₁) (m : Micro n cause c₁ c₂) : Moves n cause c c₂ :=
  Relation.ReflTransGen.tail h m

theorem trans (h : Moves n cause c c₁) (h' : Moves n cause c₁ c₂) : Moves n cause c c₂ :=
  Relation.ReflTransGen.trans h h'

theorem trace (h : Moves n cause c c₁) {kind : TraceKind} {detail : String} {index : ℕ}
    (regular : kind ≠ .fault) : Moves n cause c (c₁.trace kind detail index) :=
  h.move (.trace kind detail index regular)

/-- **What every move keeps, a sequence of moves keeps.** -/
theorem keeps {I : Ctx → Prop} (hI : ∀ c c', Micro n cause c c' → I c → I c')
    (h : Moves n cause c c₁) (hc : I c) : I c₁ := by
  induction h with
  | refl => exact hc
  | tail _ m ih => exact hI _ _ m ih

end Moves

theorem startPersist_of_free (free : c.node.pendingStorage = none)
    (hid : c.node.nextStorageOpId ≠ 0) (batch : PersistBatch) (k : Continuation) :
    (c.startPersist batch k).node = { c.node with
      nextStorageOpId := incU64 c.node.nextStorageOpId
      pendingStorage := some ⟨c.node.nextStorageOpId, batch, k⟩ } := by
  unfold Ctx.startPersist
  rw [if_neg (by simp [free]), if_neg hid]
  rfl

theorem startPersist_of_overflow (free : c.node.pendingStorage = none)
    (hid : c.node.nextStorageOpId = 0) (batch : PersistBatch) (k : Continuation) :
    c.startPersist batch k = c.failStorage "storage operation id overflow" := by
  unfold Ctx.startPersist
  rw [if_neg (by simp [free]), if_pos hid]

/-- A handler's own test for an empty batch is the one `begin_persist` makes. -/
theorem beginPersist_of_test (c : Ctx) (batch : PersistBatch) (k : Continuation) :
    (if batch.isEmpty then c.resume k else c.beginPersist batch k) = c.beginPersist batch k := by
  unfold Ctx.beginPersist
  split_ifs <;> rfl

/-- **A decision on a vote**: the vote is recorded or not, and the answer waits for what there is to
write. -/
theorem decideVote_eq (c : Ctx) (sender : NodeId) (request : RequestVote)
    (observed wasLeader : Bool) : ∃ m batch grant,
      c.decideVote sender request observed wasLeader =
        Ctx.beginPersist { c with node := m } batch (.voteReply sender grant wasLeader) ∧
      batch.commitIndex = none ∧ (m = c.node ∨ m = { c.node with
        hardState := { c.node.hardState with votedFor := some request.candidateId } }) := by
  unfold Ctx.decideVote
  simp only [beginPersist_of_test]
  split_ifs
  · exact ⟨_, _, _, rfl, rfl, Or.inr rfl⟩
  all_goals exact ⟨c.node, _, _, rfl, rfl, Or.inl rfl⟩

/-- **A batch goes to storage, or the node gives up.** -/
theorem startPersist_rule {I : RaftNode → Prop} {batch : PersistBatch} {k : Continuation}
    (free : c.node.pendingStorage = none)
    (fails : c.node.nextStorageOpId = 0 → I (c.failStorage "storage operation id overflow").node)
    (waits : c.node.nextStorageOpId ≠ 0 → I { c.node with
      nextStorageOpId := incU64 c.node.nextStorageOpId
      pendingStorage := some ⟨c.node.nextStorageOpId, batch, k⟩ }) :
    I (c.startPersist batch k).node := by
  by_cases hid : c.node.nextStorageOpId = 0
  · rw [startPersist_of_overflow free hid]
    exact fails hid
  · rw [startPersist_of_free free hid]
    exact waits hid

theorem failStorage_setPeers (c : Ctx) (peers : OrdMap NodeId PeerProgress) (detail : String) :
    Ctx.failStorage { c with node := { c.node with peers := peers } } detail =
      c.failStorage detail := rfl

/-- An append goes to a peer with none in flight; without an id for it the node stops. -/
theorem moves_sendAppend (c : Ctx) (peer : NodeId) : Moves n cause c (c.sendAppend peer) := by
  unfold Ctx.sendAppend
  split_ifs with hbusy
  · exact .refl c
  · push Not at hbusy
    have free : c.node.pendingStorage = none := by simpa using hbusy.2
    split
    · exact .refl c
    · next progress hfind =>
      split_ifs with hinflight
      · exact .refl c
      · by_cases hid : c.node.nextRpcId = 0
        · have hfail : c.sendAppendTo peer progress = c.failStorage "RPC id overflow" := by
            unfold Ctx.sendAppendTo
            simp only
            rw [if_pos hid]
            exact failStorage_setPeers c _ _
          rw [hfail]
          exact (Moves.refl c).move (.exhausted _ (.rpc hid))
        · exact (Moves.refl c).move
            (.append peer progress hbusy.1 free hfind (by simpa using hinflight) hid)

theorem moves_foldl {α : Type*} {f : Ctx → α → Ctx} (hf : ∀ c a, Moves n cause c (f c a))
    (l : List α) (c : Ctx) : Moves n cause c (l.foldl f c) := by
  induction l generalizing c with
  | nil => exact .refl c
  | cons a l ih => exact (hf c a).trans (ih (f c a))

theorem moves_sendAllAppends (c : Ctx) : Moves n cause c c.sendAllAppends := by
  unfold Ctx.sendAllAppends
  split_ifs
  · exact .refl c
  · exact moves_foldl moves_sendAppend _ c

/-- One round of `apply_committed` leaves alone what does not belong to the books. -/
theorem applyEntry_node (c : Ctx) (index : ℕ) (e : LogEntry) : ∃ machine clients sessions,
    (c.applyEntry index e).node =
      { c.node with
        stateMachine := machine, pendingClients := clients, pendingSessions := sessions } := by
  unfold Ctx.applyEntry
  simp only [Ctx.trace_node]
  cases hp : c.node.pendingClients.find index with
  | none => exact ⟨_, c.node.pendingClients, c.node.pendingSessions, rfl⟩
  | some p =>
    simp only [Ctx.emitReplies_node, Ctx.trace_node]
    exact ⟨_, _, _, rfl⟩

/-- The committed entries are applied one by one. -/
theorem moves_applyRounds (fuel : ℕ) (c : Ctx) (idle : c.node.Idle)
    (hlen : c.node.commitIndex ≤ c.node.log.length) : Moves n cause c (c.applyRounds fuel) := by
  induction fuel generalizing c with
  | zero => exact .refl c
  | succ fuel ih =>
    rw [Ctx.applyRounds]
    split_ifs with hbehind
    · simp only
      split
      · next habsent =>
        -- The committed prefix is part of the log.
        rw [entryAt_succ, List.getElem?_eq_none_iff] at habsent
        omega
      · next e hfound =>
        refine ((Moves.refl c).move (.apply e idle hbehind hfound)).trans (ih _ ?_ ?_) <;>
          obtain ⟨machine, clients, sessions, hnode⟩ := applyEntry_node _ _ _ <;> rw [hnode]
        · exact ⟨idle.free, idle.available⟩
        · exact hlen
    · exact .refl c

theorem moves_maybeAdvanceCommit (c : Ctx) : Moves n cause c c.maybeAdvanceCommit := by
  unfold Ctx.maybeAdvanceCommit
  split_ifs with hbusy
  · exact .refl c
  · push Not at hbusy
    have free : c.node.pendingStorage = none := by simpa using hbusy.2
    simp only
    rcases c.node.commitTarget_cases c.node.durableLastLogIndex with heq | ⟨hlt, -⟩
    · rw [if_pos heq]
      exact .refl c
    · rw [if_neg hlt.ne']
      exact (Moves.refl c).move (.commit _ _ _ free hlt rfl (Or.inl rfl))

theorem moves_requestVotes (c : Ctx) : Moves n cause c c.requestVotes := by
  refine moves_foldl (fun c member => ?_) _ c
  split_ifs
  · exact (Moves.refl c).move (.send _ _)
  · exact .refl c

/-- A continuation that applies does so before anything else. -/
theorem moves_resume_of_applies {k : Continuation} (hk : k.Applies) : ∃ detail,
    Moves n cause (c.trace .commit detail c.node.commitIndex).applyCommitted (c.resume k) := by
  rcases hk with rfl | ⟨leader, rpcId, matchIndex, rfl⟩
  · refine ⟨"leader durably advanced commit index", ?_⟩
    simp only [Ctx.resume]
    refine Moves.trans ?_ (moves_sendAllAppends _)
    split_ifs with hready
    · exact (Moves.refl _).move (.ready hready.1 hready.2.1 hready.2.2)
    · exact .refl _
  · exact ⟨"learned committed prefix from leader",
      ((Moves.refl _).move .election).move (.send _ _)⟩

/-- **A continuation is a sequence of moves.** -/
theorem moves_resume (idle : c.node.Idle) (k : Continuation)
    (hk : k.Applies → c.node.commitIndex ≤ c.node.log.length) :
    Moves n cause c (c.resume k) := by
  have happlies : k.Applies → Moves n cause c (c.resume k) := by
    intro happ
    obtain ⟨detail, hrest⟩ : ∃ detail, Moves n cause
        (c.trace .commit detail c.node.commitIndex).applyCommitted (c.resume k) :=
      moves_resume_of_applies happ
    exact (((Moves.refl c).trace (by simp)).trans
      (moves_applyRounds _ _ idle (hk happ))).trans hrest
  cases k with
  | campaign =>
    simp only [Ctx.resume]
    split_ifs
    · exact .refl c
    · exact ((Moves.refl c).move .election).trans (moves_requestVotes _)
  | voteReply candidate grant wasLeader =>
    simp only [Ctx.resume]
    refine Moves.move ?_ (.send _ _)
    have hgrant : Moves n cause c (if grant then c.trace .vote "granted vote" 0 else c) := by
      split_ifs
      · exact (Moves.refl c).trace (by simp)
      · exact .refl c
    split_ifs at hgrant ⊢ <;> first | exact hgrant.move .election | exact hgrant
  | rearm => exact (Moves.refl c).move .election
  | leaderEstablished =>
    simp only [Ctx.resume]
    split_ifs
    · exact .refl c
    · exact ((moves_sendAllAppends c).move .heartbeat).trans (moves_maybeAdvanceCommit _)
  | appendReject leader rpcId conflictIndex conflictTerm =>
    exact ((Moves.refl c).move .election).move (.send _ _)
  | appendAccept leader rpcId matchIndex apply =>
    cases apply with
    | true => exact happlies (Or.inr ⟨_, _, _, rfl⟩)
    | false => exact ((Moves.refl c).move .election).move (.send _ _)
  | clientAppended =>
    simp only [Ctx.resume]
    split_ifs
    · exact .refl c
    · exact (moves_sendAllAppends c).trans (moves_maybeAdvanceCommit _)
  | commitAdvanced => exact happlies (Or.inl rfl)

theorem Moves.beginPersist (h : Moves n cause c c₁) (idle : c₁.node.Idle) {k : Continuation}
    (unchanged : batch.commitIndex = none) (waits : ¬k.Applies) :
    Moves n cause c (c₁.beginPersist batch k) := by
  unfold Ctx.beginPersist
  split_ifs
  · exact h.trans (moves_resume idle k fun hk => absurd hk waits)
  · exact h.move (.persist batch k idle.free unchanged waits)

/-! ### Elections -/

section

variable (idle : c.node.Idle)
include idle

theorem moves_stepDown (term : ℕ) (hint : Option NodeId) :
    Moves n cause c (c.stepDown term hint false) := by
  have hterm : Moves n cause c (if c.node.currentTerm < term then
      Ctx.trace { c with node := { c.node with hardState := ⟨term, none⟩ } } .termChange
        "observed a higher term" 0 else c) := by
    split_ifs with hlt
    · exact ((Moves.refl c).move (.term term hlt)).trace (by simp)
    · exact .refl c
  have hretire := hterm.move (.retire hint (by split_ifs <;> exact idle.available))
  simp only [Ctx.stepDown, Bool.false_eq_true, if_false]
  by_cases hrole : c.node.role = .follower
  · rw [if_neg (not_not.2 hrole)]
    exact hretire
  · rw [if_pos hrole]
    exact hretire.trace (by simp)

theorem idle_stepDown (term : ℕ) (hint : Option NodeId) :
    (c.stepDown term hint false).node.Idle := by
  rw [Ctx.stepDown_node]
  exact ⟨idle.free, by simp⟩

theorem moves_adoptTerm (term : ℕ) : Moves n cause c (c.adoptTerm term) := by
  unfold Ctx.adoptTerm
  exact (moves_stepDown idle term none).beginPersist (idle_stepDown idle term none) rfl
    (by simp [Continuation.Applies])

theorem moves_beginElection : Moves n cause c c.beginElection := by
  unfold Ctx.beginElection
  split_ifs with hmax
  · exact (Moves.refl c).move (.exhausted _ (.term hmax))
  · have hcampaign : Moves n cause c _ :=
      (((Moves.refl c).move (.campaign idle.available hmax)).move
      (.trace .termChange "started election" 0 (by simp))).move
      (.trace .roleChange "became candidate" 0 (by simp))
    exact (hcampaign.move (.trace .vote "recorded self vote" 0 (by simp))).beginPersist
      ⟨idle.free, by simp⟩ rfl (by simp [Continuation.Applies])

theorem moves_decideVote (sender : NodeId) (request : RequestVote) (observed wasLeader : Bool) :
    Moves n cause c (c.decideVote sender request observed wasLeader) := by
  obtain ⟨m, batch, grant, heq, hcommit, hm⟩ := decideVote_eq c sender request observed wasLeader
  have hvote : Moves n cause c { c with node := m } ∧ m.Idle := by
    rcases hm with rfl | rfl
    · exact ⟨.refl c, idle⟩
    · exact ⟨(Moves.refl c).move (.vote _), idle.free, idle.available⟩
  rw [heq]
  exact hvote.1.beginPersist hvote.2 hcommit (by simp [Continuation.Applies])

theorem moves_onRequestVote (sender : NodeId) (request : RequestVote) :
    Moves n cause c (c.onRequestVote sender request) := by
  unfold Ctx.onRequestVote
  split_ifs with hbad hold
  · exact .refl c
  · exact (Moves.refl c).move (.send _ _)
  · simp only
    split_ifs
    · exact (moves_stepDown idle _ _).trans (moves_decideVote (idle_stepDown idle _ _) _ _ _ _)
    · exact moves_decideVote idle _ _ _ _

end

theorem moves_appendReadiness (free : c.node.pendingStorage = none) (hl : c.node.role = .leader)
    (hr : c.node.leaderReady = false) : Moves n cause c c.appendReadiness := by
  unfold Ctx.appendReadiness
  split_ifs with hmax
  · exact (Moves.refl c).move (.exhausted _ (.index hmax))
  · simp only
    split_ifs with hroom
    · have htrace : Moves n cause c
          (c.trace .queueSaturated "no room for leader readiness entry" 0) :=
        (Moves.refl c).trace (by simp)
      exact (htrace.move (.abort hl hroom)).move .election
    · have hentry : Moves n cause c _ := ((Moves.refl c).move
        (.readiness hl hr hmax (by simpa using hroom))).move
        (.trace .logChange "appended leader readiness no-op" (c.node.nextEntry none).index
          (by simp))
      exact hentry.beginPersist ⟨free, by simp [hl]⟩ rfl (by simp [Continuation.Applies])

theorem moves_becomeLeader (free : c.node.pendingStorage = none) (hc : c.node.role = .candidate) :
    Moves n cause c c.becomeLeader := by
  have hlead : Moves n cause c _ := ((Moves.refl c).move (.lead hc)).move
    (.trace .roleChange "became leader" 0 (by simp))
  exact hlead.trans (moves_appendReadiness free rfl rfl)

theorem moves_recordVote (hc : c.node.role = .candidate) (sender : NodeId) :
    Moves n cause c (c.recordVote sender) := by
  unfold Ctx.recordVote
  simp only
  split_ifs
  · exact ((Moves.refl c).move (.tally sender hc)).trace (by simp)
  · exact (Moves.refl c).move (.tally sender hc)

theorem moves_onRequestVoteResponse (idle : c.node.Idle) (sender : NodeId)
    (response : RequestVoteResponse) :
    Moves n cause c (c.onRequestVoteResponse sender response) := by
  unfold Ctx.onRequestVoteResponse
  split_ifs with hhi hskip
  · exact moves_adoptTerm idle _
  · exact .refl c
  · push Not at hskip
    have hnode := c.recordVote_node sender
    simp only
    split_ifs
    · refine (moves_recordVote hskip.1 sender).trans (moves_becomeLeader ?_ ?_)
      · rw [hnode]
        exact idle.free
      · rw [hnode]
        exact hskip.1
    · exact moves_recordVote hskip.1 sender

/-! ### Appends -/

/-- Pending entries leave one by one; each is still there when its turn comes, since no
index occurs twice. -/
theorem moves_foldl_removePending (l : List (ℕ × PendingClientEntry)) (c : Ctx)
    (hnd : (l.map Prod.fst).Nodup)
    (hl : ∀ e ∈ l, c.node.pendingClients.find e.1 = some e.2) :
    (c.node.role = .follower → Moves n cause c (l.foldl Ctx.removePending c)) ∧
      ∃ clients sessions, (l.foldl Ctx.removePending c).node =
        { c.node with pendingClients := clients, pendingSessions := sessions } ∧
      ∀ k p, clients.find k = some p → c.node.pendingClients.find k = some p ∧
        ∀ e ∈ l, e.1 ≠ k := by
  induction l generalizing c with
  | nil => exact ⟨fun _ => .refl c, _, _, rfl, fun k p h => ⟨h, by simp⟩⟩
  | cons e l ih =>
    rw [List.map_cons, List.nodup_cons] at hnd
    have hrole : (c.removePending e).node.role = c.node.role := by simp [Ctx.removePending]
    have hclients : (c.removePending e).node.pendingClients = c.node.pendingClients.erase e.1 := by
      simp [Ctx.removePending]
    have hl' : ∀ x ∈ l, (c.removePending e).node.pendingClients.find x.1 = some x.2 := by
      intro x hx
      rw [hclients, OrdMap.find_erase, if_neg, hl x (by simp [hx])]
      exact fun heq => hnd.1 (heq ▸ List.mem_map_of_mem hx)
    obtain ⟨hmoves, clients, sessions, hnode, hfind⟩ := ih (c.removePending e) hnd.2 hl'
    refine ⟨fun hf => ((Moves.refl c).move (.remove e.1 e.2 (hl e (by simp)) hf)).trans
      (hmoves (hrole.trans hf)), clients, sessions, ?_, fun k p hp => ?_⟩
    · rw [List.foldl_cons, hnode]
      simp [Ctx.removePending]
    · obtain ⟨hk, hne⟩ := hfind k p hp
      rw [hclients, OrdMap.find_erase] at hk
      split_ifs at hk with hke
      refine ⟨hk, fun x hx => ?_⟩
      rcases List.mem_cons.mp hx with rfl | hx
      · exact Ne.symm hke
      · exact hne x hx

theorem moves_removePendingFrom (c : Ctx) (index : ℕ) :
    (c.node.role = .follower → Moves n cause c (c.removePendingFrom index)) ∧
      ∃ clients sessions, (c.removePendingFrom index).node =
        { c.node with pendingClients := clients, pendingSessions := sessions } ∧
      ∀ k p, clients.find k = some p → k < index := by
  obtain ⟨hmoves, clients, sessions, hnode, hfind⟩ := moves_foldl_removePending
    (c.node.pendingClients.entries.filter fun e => decide (index ≤ e.1)) c
    (c.node.pendingClients.nodup_keys.sublist (List.filter_sublist.map _))
    (fun e he => OrdMap.mem_entries_iff.mp (List.mem_of_mem_filter he))
  refine ⟨hmoves, clients, sessions, hnode, fun k p hp => ?_⟩
  obtain ⟨hk, hne⟩ := hfind k p hp
  refine not_le.mp fun hle => hne (k, p) ?_ rfl
  simpa [hle] using OrdMap.mem_entries_iff.mpr hk

theorem Moves.finishAppend (h : Moves n cause c c₁) (idle : c₁.node.Idle) (sender : NodeId)
    (request : AppendEntries) (unchanged : batch.commitIndex = none) :
    Moves n cause c (c₁.finishAppend sender request batch) := by
  refine h.trans ?_
  unfold Ctx.finishAppend
  simp only [beginPersist_of_test]
  by_cases hadv : c₁.node.commitIndex < min request.leaderCommit (Ctx.appendMatchIndex request)
  · -- A batch that carries a commit index is not empty.
    simp only [hadv, decide_true, if_true, PersistBatch.isEmpty, Option.isNone_some,
      Bool.and_false, Bool.false_eq_true, if_false, Ctx.beginPersist, Option.isSome_some]
    exact (Moves.refl c₁).move (.commit _ _ _ idle.free hadv rfl (Or.inr ⟨_, _, _, rfl⟩))
  · simp only [hadv, decide_false, Bool.false_eq_true, if_false, unchanged, Option.isSome_none]
    exact (Moves.refl c₁).beginPersist idle unchanged (by simp [Continuation.Applies])

theorem moves_rejectAppend (idle : c.node.Idle) (sender : NodeId) (request : AppendEntries)
    (unchanged : batch.commitIndex = none) (conflictIndex ct : ℕ) :
    Moves n cause c (c.rejectAppend sender request batch conflictIndex ct) := by
  simp only [Ctx.rejectAppend, beginPersist_of_test]
  exact (Moves.refl c).beginPersist idle unchanged (by simp [Continuation.Applies])

theorem moves_acceptAppend (free : c.node.pendingStorage = none) (hf : c.node.role = .follower)
    (hlog : c.node.log = n.log) (hcommit : c.node.commitIndex = n.commitIndex)
    (heard : Heard n cause sender (.appendEntries request)) (fits : Fits n request)
    (unchanged : batch.commitIndex = none) :
    Moves n cause c (c.acceptAppend sender request batch) := by
  unfold Ctx.acceptAppend
  generalize hsuffix : request.entries.drop (matchingEntries c.node.log request.entries) = suffix
  simp only
  cases suffix with
  | nil => exact (Moves.refl c).finishAppend ⟨free, by simp [hf]⟩ sender request unchanged
  | cons e rest =>
    simp only
    split_ifs with hcommitted htrunc
    · exact (Moves.refl c).move (.overwrite sender request e heard fits
        (by rw [← hlog, hsuffix]; rfl) (hcommit ▸ hcommitted))
    · -- The waiting clients of the replaced suffix are answered before it is cut.
      obtain ⟨hremove, clients, sessions, hnode, hbelow⟩ : (_ → Moves n cause c _) ∧ _ :=
        moves_removePendingFrom c e.index
      have hcut := (hremove hf).move (.cut e.index (by rw [hnode]; exact hf)
        (by rw [hnode]; exact not_le.mp hcommitted) (by rw [hnode]; exact hbelow))
      have hextend := (hcut.move (.extend (e :: rest) (by rw [hnode]; exact hf))).move
        (.trace .logChange "accepted replicated log suffix" e.index (by simp))
      refine hextend.finishAppend ?_ sender request (by exact unchanged)
      simp only [Ctx.trace_node, hnode]
      exact ⟨free, by simp [hf]⟩
    · have hextend : Moves n cause c _ := ((Moves.refl c).move (.extend (e :: rest) hf)).move
        (.trace .logChange "accepted replicated log suffix" e.index (by simp))
      exact hextend.finishAppend ⟨free, by simp [hf]⟩ sender request (by exact unchanged)

theorem moves_examineAppend (free : c.node.pendingStorage = none) (hf : c.node.role = .follower)
    (hconfig : c.node.config = n.config) (hlog : c.node.log = n.log)
    (hcommit : c.node.commitIndex = n.commitIndex)
    (heard : Heard n cause sender (.appendEntries request)) (hpos : request.term ≠ 0)
    (hle : n.currentTerm ≤ request.term) (unchanged : batch.commitIndex = none) :
    Moves n cause c (c.examineAppend sender request batch) := by
  have idle : c.node.Idle := ⟨free, by simp [hf]⟩
  unfold Ctx.examineAppend
  simp only
  split_ifs with hvalid hshort hterm
  · exact moves_rejectAppend idle sender request unchanged _ _
  · exact moves_rejectAppend idle sender request unchanged _ _
  · exact moves_rejectAppend idle sender request unchanged _ _
  · simp only [Bool.not_eq_false, Bool.and_eq_true, decide_eq_true_eq] at hvalid
    rw [RaftNode.lastLogIndex, hlog] at hshort
    rw [hlog] at hterm
    exact moves_acceptAppend free hf hlog hcommit heard
      ⟨hpos, hle, hconfig ▸ hvalid.1, hconfig ▸ hvalid.2, not_lt.mp hshort, not_not.mp hterm⟩
      unchanged

/-- **A follower handles an append in elementary moves.** -/
theorem moves_onAppendEntries (hn : c.node = n) (idle : n.Idle)
    (heard : Heard n cause sender (.appendEntries request)) :
    Moves n cause c (c.onAppendEntries sender request) := by
  subst hn
  unfold Ctx.onAppendEntries
  split_ifs with hbad hold
  · exact .refl c
  · exact (Moves.refl c).move (.send _ _)
  · push Not at hbad
    simp only
    by_cases hdown : (decide (c.node.currentTerm < request.term) ||
        decide (c.node.role ≠ .follower)) = true
    · rw [if_pos hdown]
      have hnode := c.stepDown_node request.term (some sender)
      refine (moves_stepDown idle _ _).trans
        (moves_examineAppend ?_ ?_ ?_ ?_ ?_ heard hbad.1 (not_lt.mp hold) rfl) <;> rw [hnode]
      exact idle.free
    · rw [if_neg hdown]
      simp only [Bool.or_eq_true, decide_eq_true_eq, not_or, not_not] at hdown
      refine ((Moves.refl c).move (.follow sender)).trans
        (moves_examineAppend ?_ ?_ ?_ ?_ ?_ heard hbad.1 (not_lt.mp hold) rfl)
      · exact idle.free
      · exact hdown.2
      all_goals rfl

theorem moves_onAppendEntriesResponse (idle : c.node.Idle) {response : AppendEntriesResponse}
    (heard : Heard n cause sender (.appendEntriesResponse response)) :
    Moves n cause c (c.onAppendEntriesResponse sender response) := by
  refine Ctx.onAppendEntriesResponse_rule (fun _ => moves_adoptTerm idle _) (.refl c)
    fun progress sent progress' leader term found inflight id noted => ?_
  have hnote : Moves n cause c _ := (Moves.refl c).move
    (.note sender progress progress' sent response heard leader term found inflight id noted)
  have hcommit := hnote.trans (moves_maybeAdvanceCommit _)
  exact ⟨hnote, hnote.trans (moves_sendAppend _ sender),
    Ctx.sendRest_rule hcommit fun _ _ => hcommit.trans (moves_sendAppend _ sender)⟩

/-! ### Events -/

theorem moves_onTimer (idle : c.node.Idle) (kind : TimerKind) (generation : ℕ) :
    Moves n cause c (c.onTimer kind generation) := by
  cases kind with
  | election =>
    simp only [Ctx.onTimer]
    split_ifs
    · exact .refl c
    · exact moves_beginElection idle
  | heartbeat =>
    simp only [Ctx.onTimer]
    split_ifs with hskip
    · exact .refl c
    · push Not at hskip
      exact (((Moves.refl c).move (.age hskip.2)).trans (moves_sendAllAppends _)).move .heartbeat

/-- **Every message is handled in elementary moves.** -/
theorem moves_onMessage (idle : c.node.Idle) (envelope : MessageEnvelope) :
    Moves c.node (.event (.messageReceived envelope)) c (c.onMessage envelope) := by
  unfold Ctx.onMessage
  split_ifs with hskip
  · exact .refl c
  · push Not at hskip
    have heard : ∀ m, envelope.message = m →
        Heard c.node (.event (.messageReceived envelope)) envelope.sender m := by
      rintro m rfl
      refine ⟨?_, hskip.2.1, by simpa [RaftNode.isMember] using hskip.2.2⟩
      rw [← hskip.1]
    have htrace : Moves c.node (.event (.messageReceived envelope)) c _ :=
      (Moves.refl c).move (.trace .receive "protocol message received" 0 (by simp))
    have hidle : (c.trace .receive "protocol message received" 0).node.Idle := idle
    refine htrace.trans ?_
    simp only
    split
    · exact moves_onRequestVote hidle _ _
    · exact moves_onRequestVoteResponse hidle _ _
    · next m hm => exact moves_onAppendEntries rfl hidle (heard _ hm)
    · next m hm => exact moves_onAppendEntriesResponse hidle (heard _ hm)

/-- The events that are neither completions nor client requests. -/
def RaftEvent.IsInternal : RaftEvent → Prop
  | .timerFired _ _ | .messageReceived _ => True
  | .storageComplete _ _ _ | .clientRequest _ _ => False

/-- **The reaction to a timer or a message is a sequence of moves.** -/
theorem moves_dispatch (idle : c.node.Idle) {e : RaftEvent} (he : e.IsInternal) :
    Moves c.node (.event e) c (c.dispatch e) := by
  cases e with
  | timerFired kind generation => exact moves_onTimer idle kind generation
  | messageReceived envelope => exact moves_onMessage idle envelope
  | storageComplete opId success error | clientRequest token command => exact he.elim

/-! ### Client requests -/

/-- A request is taken in between two sequences of moves. -/
def TakesIn (n : RaftNode) (cause : Cause) (token : ClientToken) (command : ClientCommand)
    (c c' : Ctx) : Prop :=
  ∃ c₁ c₂, Moves n cause c c₁ ∧ Intake token command c₁ c₂ ∧ Moves n cause c₂ c'

theorem TakesIn.refuse (token : ClientToken) (command : ClientCommand) (status : ClientStatus)
    (value : Bytes) (index : ℕ) :
    TakesIn n cause token command c (c.emitReply token status value index) :=
  ⟨c, _, .refl c, .refuse status value index, .refl _⟩

theorem takesIn_admitClient (idle : c.node.Idle) (hl : c.node.role = .leader)
    (hr : c.node.leaderReady = true) (token : ClientToken) {command : ClientCommand}
    (hs : c.node.pendingSessions.find command.session = none) :
    TakesIn n cause token command c (c.admitClient token command) := by
  unfold Ctx.admitClient
  split_ifs with hmax
  · exact .refuse ..
  · simp only
    split_ifs with hroom
    · exact ⟨_, _, (Moves.refl c).trace (by simp), .refuse .busy [] 0, .refl _⟩
    · refine ⟨c, _, .refl c, .enroll hl hr hs, ?_⟩
      refine Moves.beginPersist (Moves.move (Moves.refl _)
        (.trace .logChange "appended client command" _ (by simp))) ?_ rfl
        (by simp [Continuation.Applies])
      exact ⟨idle.free, idle.available⟩

theorem takesIn_joinPending (idle : c.node.Idle) (hl : c.node.role = .leader)
    (hr : c.node.leaderReady = true) (token : ClientToken) (command : ClientCommand) :
    TakesIn n cause token command c (c.joinPending token command) := by
  unfold Ctx.joinPending
  cases hs : c.node.pendingSessions.find command.session with
  | none => exact takesIn_admitClient idle hl hr token hs
  | some index =>
    simp only
    cases hp : c.node.pendingClients.find index with
    | none =>
      obtain ⟨c₁, c₂, hbefore, hin, hafter⟩ : TakesIn n cause token command _ _ :=
        takesIn_admitClient (c := { c with node := { c.node with
          pendingSessions := c.node.pendingSessions.erase command.session } })
          ⟨idle.free, idle.available⟩ hl hr token (OrdMap.find_erase_self _ _)
      exact ⟨c₁, c₂, ((Moves.refl c).move (.forget _ index hs hp)).trans hbefore, hin, hafter⟩
    | some p =>
      simp only
      split_ifs
      · exact .refuse ..
      · exact .refuse ..
      · exact .refuse ..
      · exact ⟨c, _, .refl c, .join index p hs hp, .refl _⟩

/-- **The reaction to a client request takes it in once.** -/
theorem takesIn_onClientRequest (idle : c.node.Idle) (token : ClientToken)
    (command : ClientCommand) :
    TakesIn n cause token command c (c.onClientRequest token command) := by
  have hjoin : ¬c.node.role ≠ .leader → ¬c.node.leaderReady = false →
      TakesIn n cause token command c (c.joinPending token command) := fun hl hr =>
    takesIn_joinPending idle (not_not.mp hl) (by simpa using hr) token command
  unfold Ctx.onClientRequest
  cases c.node.stateMachine.session command.session with
  | none | some applied =>
    simp only
    split_ifs <;> first | exact .refuse .. | exact hjoin ‹_› ‹_›

end Moves

end DetLog
