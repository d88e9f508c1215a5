import DetLog.Cluster
import DetLog.Raft.Latency
import DetLog.Raft.Replay
import DetLog.Raft.Structure

/-!
# Replication to one peer

The two sides of an append. A leader has one append in flight to each peer
(`DetLog.RaftNode.appendTo`), notes the answer, and sends the next one. Around this it
commits, applies and sends to its other peers, and none of that touches what it knows about
the peer (`DetLog.Upheld`): it goes on, or a counter has run out and it has stopped
(`DetLog.RaftNode.Spent`). A follower of the same term rejects the append with a hint, or
takes it in and reports how far its log agrees.
-/

namespace DetLog

/-! ### What an append carries -/

section Payload

variable {limit : ℕ} {l : List LogEntry}

/-- The loop of `on_append_entries` accepts what is consecutive, acceptable and packed. -/
theorem entriesValidFrom_of_packed {g : RaftConfig} {T : ℕ} {entries : List LogEntry}
    {expected bytes : ℕ}
    (indexed : IndexedFrom expected entries)
    (ok : ∀ e ∈ entries, e.term ≠ 0 ∧ e.term ≤ T ∧ entryAcceptable g e = true)
    (bound : expected + entries.length ≤ maxU64)
    (packed : packEntries g.maxAppendBytesPerRpc entries bytes = entries) :
    entriesValidFrom g T entries expected bytes = true := by
  induction entries generalizing expected bytes with
  | nil => rfl
  | cons e rest ih =>
    obtain ⟨hidx, hrest⟩ := indexedFrom_cons.mp indexed
    obtain ⟨hpos, hle, hacc⟩ := ok e (by simp)
    rw [List.length_cons] at bound
    rw [packEntries] at packed
    split_ifs at packed with hlarge
    rw [entriesValidFrom, if_neg (by omega), if_neg hlarge, if_neg (by simp [*])]
    exact ih hrest (fun x hx => ok x (by simp [hx])) (by omega) (List.cons.inj packed).2

/-- The first entry is packed if it fits at all. -/
theorem packEntries_ne_nil (hne : l ≠ []) {encoded : ℕ}
    (fits : ∀ e ∈ l, entryBytes e ≤ limit - encoded) : packEntries limit l encoded ≠ [] := by
  cases l with
  | nil => exact absurd rfl hne
  | cons e rest =>
    rw [packEntries, if_neg (not_lt.mpr (fits e (by simp)))]
    simp

end Payload

namespace RaftNode

variable (n : RaftNode) (p : PeerProgress)

/-- The entries a leader sends to a peer. -/
def payload : List LogEntry :=
  packEntries n.config.maxAppendBytesPerRpc
    ((n.log.drop (p.nextIndex - 1)).take
      (min (n.durableLastLogIndex - (p.nextIndex - 1)) n.config.maxAppendEntriesPerRpc))
    kAppendRpcOverhead

/-- **The append to a peer** whose next index is in the leader's storage or right behind. -/
def appendTo : AppendEntries where
  term := n.currentTerm
  leaderId := n.config.nodeId
  rpcId := n.nextRpcId
  prevLogIndex := p.nextIndex - 1
  prevLogTerm := termAt n.log (p.nextIndex - 1)
  entries := n.payload p
  leaderCommit := n.commitIndex

/-- What the leader remembers of this append. -/
def launch : InflightAppend where
  rpcId := n.nextRpcId
  prevIndex := p.nextIndex - 1
  lastIndex := p.nextIndex - 1 + (n.payload p).length

/-- The leader after it has sent the append. -/
def launched (s : NodeId) : RaftNode :=
  { n with
    nextRpcId := incU64 n.nextRpcId
    peers := n.peers.insert s
      { p with inflight := some (n.launch p), inflightHeartbeatAge := 0 } }

/-- A node that has stopped because a counter ran out. -/
def Spent : Prop :=
  n.role = .unavailable ∧ n.peers = ∅ ∧ (n.nextRpcId = 0 ∨ n.nextStorageOpId = 0)

end RaftNode

/-- An append with entries, or one that covers the whole log of the leader. -/
def InflightAppend.Fresh (durable : ℕ) (a : InflightAppend) : Prop :=
  a.prevIndex < a.lastIndex ∨ a.prevIndex = durable

section SendAppend

variable {c : Ctx} {s : NodeId} {p : PeerProgress} {n : RaftNode}

theorem RaftNode.length_payload_le (n : RaftNode) (p : PeerProgress) :
    (n.payload p).length ≤ min (n.durableLastLogIndex - (p.nextIndex - 1))
      n.config.maxAppendEntriesPerRpc :=
  (packEntries_isPrefix _ _ _).length_le.trans (List.length_take_le _ _)

/-- The clamp of the source changes nothing, because the index is within bounds. -/
theorem sendAppendTo_eq (hlt : p.matchIndex < p.nextIndex)
    (hle : p.nextIndex ≤ c.node.durableLastLogIndex + 1) (id : c.node.nextRpcId ≠ 0) :
    c.sendAppendTo s p = Ctx.sendMessage { c with node := c.node.launched p s } s
      (.appendEntries (c.node.appendTo p)) := by
  have hnext : (if p.nextIndex < 1 then 1
      else if c.node.durableLastLogIndex + 1 < p.nextIndex then c.node.durableLastLogIndex + 1
      else p.nextIndex) = p.nextIndex := by
    rw [if_neg (by omega), if_neg (by omega)]
  unfold Ctx.sendAppendTo
  simp only [hnext]
  rw [if_neg id]
  rfl

/-- An index below the end of the storage leads to an append with entries. -/
theorem RaftNode.fresh_launch (n : RaftNode) (p : PeerProgress)
    (hle : p.nextIndex ≤ n.durableLastLogIndex + 1)
    (hlog : n.durableLastLogIndex ≤ n.log.length) (hmax : n.config.maxAppendEntriesPerRpc ≠ 0)
    (fits : ∀ e ∈ n.log, entryBytes e ≤ n.config.maxAppendBytesPerRpc - kAppendRpcOverhead) :
    (n.launch p).Fresh n.durableLastLogIndex := by
  by_cases hend : p.nextIndex - 1 = n.durableLastLogIndex
  · exact Or.inr hend
  · have hne : (n.log.drop (p.nextIndex - 1)).take
        (min (n.durableLastLogIndex - (p.nextIndex - 1)) n.config.maxAppendEntriesPerRpc) ≠ [] := by
      rw [Ne, ← List.length_eq_zero_iff, List.length_take, List.length_drop]
      omega
    have hsome : packEntries n.config.maxAppendBytesPerRpc _ kAppendRpcOverhead ≠ [] :=
      packEntries_ne_nil hne fun e he =>
        fits e (List.mem_of_mem_drop (List.mem_of_mem_take he))
    exact Or.inl (Nat.lt_add_of_pos_right (List.length_pos_of_ne_nil hsome))

end SendAppend

/-! ### A leader goes on -/

/-- What a leader knows of a peer stays, but an append may have been sent to it. -/
structure PeerKept (durable : ℕ) (p p' : PeerProgress) : Prop where
  matchIndex : p'.matchIndex = p.matchIndex
  nextIndex : p'.nextIndex = p.nextIndex
  inflight : p'.inflight = p.inflight ∨
    p.inflight = none ∧ ∃ a, p'.inflight = some a ∧ a.Fresh durable

/-- A node that remains in its role and its term. -/
structure Remains (n n' : RaftNode) : Prop where
  role : n'.role = n.role
  config : n'.config = n.config
  hardState : n'.hardState = n.hardState
  deferred : n'.deferredEvents = n.deferredEvents

/-- The same with its log. -/
structure GoesOn (n n' : RaftNode) : Prop extends Remains n n' where
  log : n'.log = n.log
  durable : n'.durableLastLogIndex = n.durableLastLogIndex

/-- **A leader that goes on**, with what it knows of its peers. -/
structure Upheld (n n' : RaftNode) : Prop extends GoesOn n n' where
  peers : ∀ s, Option.Rel (PeerKept n.durableLastLogIndex) (n.peers.find s) (n'.peers.find s)

/-- A leader that can send to its peers, and whose every entry fits in one append. -/
structure Prepared (n : RaftNode) : Prop where
  role : n.role = .leader
  peers : ∀ s p, n.peers.find s = some p →
    p.matchIndex < p.nextIndex ∧ p.nextIndex ≤ n.durableLastLogIndex + 1
  durable : n.durableLastLogIndex ≤ n.log.length
  batch : n.config.maxAppendEntriesPerRpc ≠ 0
  fits : ∀ e ∈ n.log, entryBytes e ≤ n.config.maxAppendBytesPerRpc - kAppendRpcOverhead

section Upheld

variable {n n' n'' : RaftNode} {c : Ctx} {s : NodeId} {p p' p'' : PeerProgress} {durable : ℕ}

theorem PeerKept.refl (durable : ℕ) (p : PeerProgress) : PeerKept durable p p :=
  ⟨rfl, rfl, Or.inl rfl⟩

theorem PeerKept.trans (h : PeerKept durable p p') (h' : PeerKept durable p' p'') :
    PeerKept durable p p'' := by
  refine ⟨h'.matchIndex.trans h.matchIndex, h'.nextIndex.trans h.nextIndex, ?_⟩
  rcases h'.inflight with heq | ⟨hnone, hnew⟩
  · rw [heq]
    exact h.inflight
  · rcases h.inflight with heq | ⟨-, a, ha, -⟩
    · exact Or.inr ⟨heq ▸ hnone, hnew⟩
    · exact absurd (hnone.symm.trans ha) (by simp)

theorem optionRel_refl (durable : ℕ) (o : Option PeerProgress) :
    Option.Rel (PeerKept durable) o o := by
  cases o with
  | none => exact .none
  | some p => exact .some (.refl durable p)

theorem optionRel_trans {o o' o'' : Option PeerProgress} (h : Option.Rel (PeerKept durable) o o')
    (h' : Option.Rel (PeerKept durable) o' o'') : Option.Rel (PeerKept durable) o o'' := by
  cases h with
  | none => exact h'
  | some kept =>
    cases h' with
    | some kept' => exact .some (kept.trans kept')

theorem Remains.trans (h : Remains n n') (h' : Remains n' n'') : Remains n n'' :=
  ⟨h'.role.trans h.role, h'.config.trans h.config, h'.hardState.trans h.hardState,
    h'.deferred.trans h.deferred⟩

theorem GoesOn.refl (n : RaftNode) : GoesOn n n := ⟨⟨rfl, rfl, rfl, rfl⟩, rfl, rfl⟩

theorem GoesOn.trans (h : GoesOn n n') (h' : GoesOn n' n'') : GoesOn n n'' :=
  ⟨h.toRemains.trans h'.toRemains, h'.log.trans h.log, h'.durable.trans h.durable⟩

theorem GoesOn.upheld (h : GoesOn n n') (peers : n'.peers = n.peers) : Upheld n n' :=
  ⟨h, fun _ => peers ▸ optionRel_refl _ _⟩

theorem Upheld.refl (n : RaftNode) : Upheld n n := (GoesOn.refl n).upheld rfl

theorem Upheld.trans (h : Upheld n n') (h' : Upheld n' n'') : Upheld n n'' := by
  refine ⟨h.toGoesOn.trans h'.toGoesOn, fun s => ?_⟩
  have hs := h'.peers s
  rw [h.durable] at hs
  exact optionRel_trans (h.peers s) hs

theorem Upheld.find (h : Upheld n n') (hp : n.peers.find s = some p) :
    ∃ p', n'.peers.find s = some p' ∧ PeerKept n.durableLastLogIndex p p' := by
  have hs := h.peers s
  rw [hp] at hs
  cases hq : n'.peers.find s <;> rw [hq] at hs <;> cases hs
  exact ⟨_, rfl, ‹_›⟩

theorem Upheld.find_back (h : Upheld n n') (hp : n'.peers.find s = some p') :
    ∃ p, n.peers.find s = some p ∧ PeerKept n.durableLastLogIndex p p' := by
  have hs := h.peers s
  rw [hp] at hs
  cases hq : n.peers.find s <;> rw [hq] at hs <;> cases hs
  exact ⟨_, rfl, ‹_›⟩

theorem Upheld.prepared (h : Upheld n n') (hp : Prepared n) : Prepared n' := by
  refine ⟨h.role.trans hp.role, fun s q hq => ?_, ?_, by rw [h.config]; exact hp.batch,
    by rw [h.log, h.config]; exact hp.fits⟩
  · obtain ⟨p, hold, kept⟩ := h.find_back hq
    rw [kept.matchIndex, kept.nextIndex, h.durable]
    exact hp.peers s p hold
  · rw [h.durable, h.log]
    exact hp.durable

theorem Prepared.upheld_launched (h : Prepared n) (hp : n.peers.find s = some p)
    (hidle : p.inflight = none) : Upheld n (n.launched p s) := by
  refine ⟨⟨⟨rfl, rfl, rfl, rfl⟩, rfl, rfl⟩, fun s' => ?_⟩
  simp only [RaftNode.launched]
  rw [OrdMap.find_insert]
  split_ifs with hs
  · subst hs
    rw [hp]
    exact .some ⟨rfl, rfl, Or.inr ⟨hidle, _, rfl,
      n.fresh_launch p (h.peers s' p hp).2 h.durable h.batch h.fits⟩⟩
  · exact optionRel_refl _ _

theorem spent_failStorage (h : c.node.nextRpcId = 0 ∨ c.node.nextStorageOpId = 0)
    (detail : String) : (c.failStorage detail).node.Spent := by
  rw [Ctx.failStorage_node]
  exact ⟨rfl, rfl, h⟩

theorem RaftNode.Spent.ne_leader (h : n.Spent) : n.role ≠ .leader := by
  rw [h.1]
  simp

/-- A leader is left to itself by `send_append`, or has an append in flight afterwards. -/
theorem Prepared.sendAppend (h : Prepared c.node) (free : c.node.pendingStorage = none)
    (s : NodeId) :
    (Upheld c.node (c.sendAppend s).node ∧ (c.sendAppend s).node.pendingStorage = none ∧
      ∀ p, (c.sendAppend s).node.peers.find s = some p → p.inflight ≠ none) ∨
      (c.sendAppend s).node.Spent := by
  unfold Ctx.sendAppend
  rw [if_neg (by simp [h.role, free])]
  cases hp : c.node.peers.find s with
  | none => exact Or.inl ⟨.refl _, free, by simp [hp]⟩
  | some p =>
    simp only
    by_cases hsent : p.inflight.isSome
    · rw [if_pos hsent]
      refine Or.inl ⟨.refl _, free, fun q hq => ?_⟩
      obtain rfl : p = q := Option.some.inj (hp.symm.trans hq)
      exact Option.isSome_iff_ne_none.mp hsent
    · rw [if_neg hsent]
      by_cases hid : c.node.nextRpcId = 0
      · right
        unfold Ctx.sendAppendTo
        simp only
        rw [if_pos hid]
        exact spent_failStorage (Or.inl hid) _
      · obtain ⟨hlt, hle⟩ := h.peers s p hp
        rw [sendAppendTo_eq hlt hle hid]
        refine Or.inl ⟨h.upheld_launched hp (by simpa using hsent), free, fun q hq => ?_⟩
        simp only [Ctx.sendMessage_node, RaftNode.launched, OrdMap.find_insert_self] at hq
        obtain rfl := Option.some.inj hq
        simp

/-- After `send_all_appends` a leader has an append in flight to every peer. -/
theorem Prepared.sendAllAppends (h : Prepared c.node) (free : c.node.pendingStorage = none) :
    (Upheld c.node c.sendAllAppends.node ∧ c.sendAllAppends.node.pendingStorage = none ∧
      ∀ s p, c.sendAllAppends.node.peers.find s = some p → p.inflight ≠ none) ∨
      c.sendAllAppends.node.Spent := by
  -- What is in flight stays in flight while the other peers have their turn.
  have hfold : ∀ (ks : List NodeId) (c : Ctx), Prepared c.node → c.node.pendingStorage = none →
      (Upheld c.node (ks.foldl Ctx.sendAppend c).node ∧
        (ks.foldl Ctx.sendAppend c).node.pendingStorage = none ∧
        ∀ s ∈ ks, ∀ p, (ks.foldl Ctx.sendAppend c).node.peers.find s = some p →
          p.inflight ≠ none) ∨ (ks.foldl Ctx.sendAppend c).node.Spent := by
    intro ks
    induction ks with
    | nil => exact fun c _ free => Or.inl ⟨.refl _, free, by simp⟩
    | cons s ks ih =>
      intro c h free
      rw [List.foldl_cons]
      rcases h.sendAppend free s with ⟨hup, hfree, hsent⟩ | hspent
      · refine (ih _ (hup.prepared h) hfree).imp_left ?_
        rintro ⟨hrest, hfree', hall⟩
        refine ⟨hup.trans hrest, hfree', fun s' hs' p hp => ?_⟩
        by_cases hin : s' ∈ ks
        · exact hall s' hin p hp
        · obtain rfl : s' = s := (List.mem_cons.mp hs').resolve_right hin
          obtain ⟨q, hq, kept⟩ := hrest.find_back hp
          rcases kept.inflight with heq | ⟨-, a, ha, -⟩
          · rw [heq]
            exact hsent q hq
          · simp [ha]
      · right
        have hstop : ∀ (ks : List NodeId) (c : Ctx), c.node.Spent →
            (ks.foldl Ctx.sendAppend c).node.Spent := by
          intro ks
          induction ks with
          | nil => exact fun c hc => hc
          | cons s ks ih =>
            intro c hc
            rw [List.foldl_cons, Ctx.sendAppend_of_ne hc.ne_leader]
            exact ih c hc
        exact hstop ks _ hspent
  unfold Ctx.sendAllAppends
  rw [if_neg (by simp [h.role, free])]
  refine (hfold c.node.peers.keys c h free).imp_left ?_
  rintro ⟨hup, hfree, hall⟩
  refine ⟨hup, hfree, fun s p hp => hall s ?_ p hp⟩
  obtain ⟨q, hq, -⟩ := hup.find_back hp
  exact List.mem_map_of_mem (OrdMap.mem_entries_iff.mpr hq)

theorem startPersist_upheld (h : Upheld n c.node) (free : c.node.pendingStorage = none)
    (batch : PersistBatch) (k : Continuation) :
    (Upheld n (c.startPersist batch k).node ∧
      ∃ q, (c.startPersist batch k).node.pendingStorage = some q ∧ q.afterSuccess = k) ∨
      (c.startPersist batch k).node.Spent :=
  startPersist_rule
    (I := fun m => (Upheld n m ∧ ∃ q, m.pendingStorage = some q ∧ q.afterSuccess = k) ∨ m.Spent)
    free (fun hid => Or.inr (spent_failStorage (Or.inr hid) _))
    fun _ => Or.inl ⟨h.trans (GoesOn.upheld ⟨⟨rfl, rfl, rfl, rfl⟩, rfl, rfl⟩ rfl), _, rfl, rfl⟩

/-- `maybe_advance_commit` leaves a leader to itself, or it waits for its commit index. -/
theorem Prepared.maybeAdvanceCommit (h : Prepared c.node) (free : c.node.pendingStorage = none) :
    (Upheld c.node c.maybeAdvanceCommit.node ∧
      (c.maybeAdvanceCommit.node.pendingStorage = none ∨
        ∃ q, c.maybeAdvanceCommit.node.pendingStorage = some q ∧
          q.afterSuccess = .commitAdvanced)) ∨ c.maybeAdvanceCommit.node.Spent := by
  unfold Ctx.maybeAdvanceCommit
  rw [if_neg (by simp [h.role, free])]
  simp only
  split_ifs with heq
  · exact Or.inl ⟨.refl _, Or.inl free⟩
  · refine (startPersist_upheld ?_ ?_ _ _).imp_left (And.imp_right Or.inr)
    · exact GoesOn.upheld ⟨⟨rfl, rfl, rfl, rfl⟩, rfl, rfl⟩ rfl
    · exact free

/-- The same for a leader that has gone on so far, or has stopped already. -/
theorem Prepared.then_maybeAdvanceCommit (h : Prepared n)
    (hc : Upheld n c.node ∧ c.node.pendingStorage = none ∨ c.node.Spent) :
    (Upheld n c.maybeAdvanceCommit.node ∧
      (c.maybeAdvanceCommit.node.pendingStorage = none ∨
        ∃ q, c.maybeAdvanceCommit.node.pendingStorage = some q ∧
          q.afterSuccess = .commitAdvanced)) ∨ c.maybeAdvanceCommit.node.Spent := by
  rcases hc with ⟨hup, free⟩ | hspent
  · exact ((hup.prepared h).maybeAdvanceCommit free).imp_left (And.imp_left hup.trans)
  · rw [Ctx.maybeAdvanceCommit_of_ne hspent.ne_leader]
    exact Or.inr hspent

/-- Applying changes the books only. -/
theorem applyCommitted_node (c : Ctx) (hlen : c.node.commitIndex ≤ c.node.log.length) :
    ∃ applied machine clients sessions, c.applyCommitted.node =
      { c.node with
        lastApplied := applied
        stateMachine := machine, pendingClients := clients, pendingSessions := sessions } := by
  unfold Ctx.applyCommitted
  rcases le_total c.node.lastApplied c.node.commitIndex with hle | hle
  · obtain ⟨machine, clients, sessions, hnode⟩ := applyRounds_node
      (c.node.commitIndex - c.node.lastApplied) c (by omega) hlen
    exact ⟨_, machine, clients, sessions, hnode⟩
  · rw [Nat.sub_eq_zero_of_le hle]
    exact ⟨_, _, _, _, rfl⟩

/-- **Continuations that only report**: whatever a node other than a candidate or a leader
resumes, and what no leader waits for. -/
theorem resume_goesOn (hc : c.node.role ≠ .candidate)
    (hlen : c.node.commitIndex ≤ c.node.log.length) (k : Continuation)
    (hk : c.node.role = .leader →
      k ≠ .leaderEstablished ∧ k ≠ .clientAppended ∧ k ≠ .commitAdvanced) :
    GoesOn c.node (c.resume k).node ∧ (c.resume k).node.peers = c.node.peers ∧
      (c.resume k).node.pendingStorage = c.node.pendingStorage := by
  have happlied : ∀ detail, ∃ applied machine clients sessions,
      (c.trace .commit detail c.node.commitIndex).applyCommitted.node = { c.node with
        lastApplied := applied
        stateMachine := machine, pendingClients := clients, pendingSessions := sessions } :=
    fun detail => applyCommitted_node (c.trace .commit detail c.node.commitIndex) hlen
  cases k with
  | campaign =>
    simp only [Ctx.resume]
    rw [if_pos hc]
    exact ⟨.refl _, rfl, rfl⟩
  | voteReply candidate grant wasLeader =>
    simp only [Ctx.resume, Ctx.sendMessage_node]
    split_ifs <;> exact ⟨⟨⟨rfl, rfl, rfl, rfl⟩, rfl, rfl⟩, rfl, rfl⟩
  | rearm => exact ⟨⟨⟨rfl, rfl, rfl, rfl⟩, rfl, rfl⟩, rfl, rfl⟩
  | leaderEstablished =>
    simp only [Ctx.resume]
    rw [if_pos fun hl => (hk hl).1 rfl]
    exact ⟨.refl _, rfl, rfl⟩
  | appendReject leader rpcId conflictIndex conflictTerm =>
    exact ⟨⟨⟨rfl, rfl, rfl, rfl⟩, rfl, rfl⟩, rfl, rfl⟩
  | appendAccept leader rpcId matchIndex apply =>
    cases apply with
    | false => exact ⟨⟨⟨rfl, rfl, rfl, rfl⟩, rfl, rfl⟩, rfl, rfl⟩
    | true =>
      obtain ⟨applied, machine, clients, sessions, hnode⟩ :=
        happlied "learned committed prefix from leader"
      refine ⟨⟨⟨?_, ?_, ?_, ?_⟩, ?_, ?_⟩, ?_, ?_⟩ <;>
        simp only [Ctx.resume, Ctx.sendMessage_node, if_true, Ctx.scheduleElection, Ctx.emit_node,
          hnode]
  | clientAppended =>
    simp only [Ctx.resume]
    rw [if_pos fun hl => (hk hl).2.1 rfl]
    exact ⟨.refl _, rfl, rfl⟩
  | commitAdvanced =>
    obtain ⟨applied, machine, clients, sessions, hnode⟩ :=
      happlied "leader durably advanced commit index"
    have hl : c.node.role ≠ .leader := fun hl => (hk hl).2.2 rfl
    simp only [Ctx.resume]
    rw [if_neg (by rw [hnode]; exact fun h => hl h.1),
      Ctx.sendAllAppends_of_ne (by rw [hnode]; exact hl), hnode]
    exact ⟨⟨⟨rfl, rfl, rfl, rfl⟩, rfl, rfl⟩, rfl, rfl⟩

/-- **A leader that resumes** goes on, and the only batch it may then wait for is the one of
its commit index. -/
theorem Prepared.resume (h : Prepared c.node) (free : c.node.pendingStorage = none)
    (hlen : c.node.commitIndex ≤ c.node.log.length) (k : Continuation) :
    (Upheld c.node (c.resume k).node ∧ ((c.resume k).node.pendingStorage = none ∨
      k ≠ .commitAdvanced ∧ ∃ q, (c.resume k).node.pendingStorage = some q ∧
        q.afterSuccess = .commitAdvanced)) ∨ (c.resume k).node.Spent := by
  have hsends : (Upheld c.node c.sendAllAppends.node ∧
      c.sendAllAppends.node.pendingStorage = none) ∨ c.sendAllAppends.node.Spent :=
    (h.sendAllAppends free).imp_left fun h => ⟨h.1, h.2.1⟩
  by_cases hk : k ≠ .leaderEstablished ∧ k ≠ .clientAppended ∧ k ≠ .commitAdvanced
  · obtain ⟨hgo, hpeers, hpending⟩ := resume_goesOn (by simp [h.role]) hlen k fun _ => hk
    exact Or.inl ⟨hgo.upheld hpeers, Or.inl (hpending.trans free)⟩
  obtain rfl | rfl | rfl : k = .leaderEstablished ∨ k = .clientAppended ∨ k = .commitAdvanced := by
    tauto
  · simp only [Ctx.resume]
    rw [if_neg (by simp [h.role])]
    refine (h.then_maybeAdvanceCommit ?_).imp_left
      (And.imp_right (Or.imp_right fun hq => ⟨by simp, hq⟩))
    exact hsends.imp_left (And.imp_left fun hup =>
      hup.trans (GoesOn.upheld ⟨⟨rfl, rfl, rfl, rfl⟩, rfl, rfl⟩ rfl))
  · simp only [Ctx.resume]
    rw [if_neg (by simp [h.role])]
    exact (h.then_maybeAdvanceCommit hsends).imp_left
      (And.imp_right (Or.imp_right fun hq => ⟨by simp, hq⟩))
  · obtain ⟨applied, machine, clients, sessions, hnode⟩ := applyCommitted_node
      (c.trace .commit "leader durably advanced commit index" c.node.commitIndex) hlen
    simp only [Ctx.resume]
    generalize (c.trace .commit "leader durably advanced commit index"
      c.node.commitIndex).applyCommitted = c₁ at hnode
    have hready : ∀ c₂ : Ctx, c₂.node = c₁.node ∨
        c₂.node = { c₁.node with leaderReady := true } →
        Upheld c.node c₂.node ∧ c₂.node.pendingStorage = none := by
      rintro c₂ (heq | heq) <;> rw [heq, hnode] <;>
        exact ⟨GoesOn.upheld ⟨⟨rfl, rfl, rfl, rfl⟩, rfl, rfl⟩ rfl, free⟩
    obtain ⟨hup, hfree⟩ := hready (if c₁.node.role = .leader ∧ c₁.node.readinessIndex ≠ 0 ∧
        c₁.node.readinessIndex ≤ c₁.node.lastApplied then
      { c₁ with node := { c₁.node with leaderReady := true } } else c₁) (by
        split_ifs
        · exact Or.inr rfl
        · exact Or.inl rfl)
    exact ((hup.prepared h).sendAllAppends hfree).imp_left fun hs =>
      ⟨hup.trans hs.1, Or.inl hs.2.1⟩

/-- A heartbeat finds a peer without an append in flight, and sends one. -/
theorem Prepared.heartbeat (h : Prepared c.node) (free : c.node.pendingStorage = none)
    (hp : c.node.peers.find s = some p) (hidle : p.inflight = none) :
    (GoesOn c.node (c.onTimer .heartbeat c.node.heartbeatGeneration).node ∧
      (c.onTimer .heartbeat c.node.heartbeatGeneration).node.pendingStorage = none ∧
      ∃ p', (c.onTimer .heartbeat c.node.heartbeatGeneration).node.peers.find s = some p' ∧
        PeerKept c.node.durableLastLogIndex p p' ∧ p'.inflight ≠ none) ∨
      (c.onTimer .heartbeat c.node.heartbeatGeneration).node.Spent := by
  have haged : ∀ s q, (c.node.peers.mapValues (Ctx.ageInflight c.node.config)).find s = some q →
      q.matchIndex < q.nextIndex ∧ q.nextIndex ≤ c.node.durableLastLogIndex + 1 := by
    intro s q hq
    rw [OrdMap.find_mapValues] at hq
    obtain ⟨q, hold, rfl⟩ := Option.map_eq_some_iff.mp hq
    unfold Ctx.ageInflight
    split_ifs <;> exact h.peers s q hold
  have hsame : (c.node.peers.mapValues (Ctx.ageInflight c.node.config)).find s = some p := by
    rw [OrdMap.find_mapValues, hp, Option.map_some, Ctx.ageInflight, if_pos (by simp [hidle])]
  simp only [Ctx.onTimer]
  rw [if_neg (by simp [h.role])]
  have hsends := Prepared.sendAllAppends (c := { c with node := { c.node with
    peers := c.node.peers.mapValues (Ctx.ageInflight c.node.config) } })
    ⟨h.role, haged, h.durable, h.batch, h.fits⟩ free
  refine hsends.imp_left fun hsent => ?_
  obtain ⟨hup, hfree, hall⟩ := hsent
  obtain ⟨p', hp', kept⟩ := hup.find hsame
  exact ⟨⟨{ hup with }, hup.log, hup.durable⟩, hfree,
    p', hp', kept, hall s p' hp'⟩

/-- What is noted of an answer keeps the bounds. -/
theorem Noted.bounds {a : InflightAppend} {r : AppendEntriesResponse}
    (noted : Noted n p a r p') (hlt : p.matchIndex < p.nextIndex)
    (hle : p.nextIndex ≤ n.durableLastLogIndex + 1) (hlast : a.lastIndex ≤ n.durableLastLogIndex) :
    p'.matchIndex < p'.nextIndex ∧ p'.nextIndex ≤ n.durableLastLogIndex + 1 := by
  cases noted with
  | short => exact ⟨hlt, hle⟩
  | matched => exact ⟨Nat.lt_succ_self _, by simp only; omega⟩
  | retried => exact ⟨by simp only [Ctx.retryIndex]; omega, by simp only [Ctx.retryIndex]; omega⟩

/-- **A leader hears the answer to its append**: it notes it and goes on. -/
theorem Prepared.answered (h : Prepared c.node) (free : c.node.pendingStorage = none)
    {a : InflightAppend} {r : AppendEntriesResponse} (hp : c.node.peers.find s = some p)
    (hsent : p.inflight = some a) (hlast : a.lastIndex ≤ c.node.durableLastLogIndex)
    (term : r.term = c.node.currentTerm) (id : a.rpcId = r.rpcId) :
    ∃ q, Noted c.node p a r q ∧
      ((GoesOn c.node (c.onAppendEntriesResponse s r).node ∧
        ((c.onAppendEntriesResponse s r).node.pendingStorage = none ∨
          ∃ b, (c.onAppendEntriesResponse s r).node.pendingStorage = some b ∧
            b.afterSuccess = .commitAdvanced) ∧
        ∃ p', (c.onAppendEntriesResponse s r).node.peers.find s = some p' ∧
          PeerKept c.node.durableLastLogIndex q p') ∨
        (c.onAppendEntriesResponse s r).node.Spent) := by
  obtain ⟨hlt, hle⟩ := h.peers s p hp
  -- The node with the note in its books, and what follows from there.
  have hnote : ∀ q, Noted c.node p a r q → Prepared { c.node with
      peers := c.node.peers.insert s q } := by
    intro q noted
    refine ⟨h.role, fun s' x hx => ?_, h.durable, h.batch, h.fits⟩
    rw [OrdMap.find_insert] at hx
    split_ifs at hx
    · obtain rfl := Option.some.inj hx
      exact noted.bounds hlt hle hlast
    · exact h.peers s' x hx
  have hends : ∀ q (c' : Ctx), Upheld { c.node with peers := c.node.peers.insert s q } c'.node →
      GoesOn c.node c'.node ∧ ∃ p', c'.node.peers.find s = some p' ∧
        PeerKept c.node.durableLastLogIndex q p' := by
    intro q c' hup
    exact ⟨⟨{ hup with }, hup.log, hup.durable⟩,
      hup.find (OrdMap.find_insert_self _ _ _)⟩
  unfold Ctx.onAppendEntriesResponse
  rw [if_neg (by simp [term]), if_neg (by simp [h.role, term]), hp]
  simp only [hsent]
  rw [if_neg (not_not.mpr id)]
  cases hsuccess : r.success with
  | false =>
    simp only [Bool.false_eq_true, if_false]
    refine ⟨_, .retried hsuccess, ?_⟩
    have hsend := Prepared.sendAppend (c := { c with node := { c.node with
      peers := c.node.peers.insert s { p with
        inflight := none, inflightHeartbeatAge := 0
        nextIndex := Ctx.retryIndex c.node p r } } }) (hnote _ (.retried hsuccess)) free s
    exact hsend.imp_left fun ⟨hup, hfree, _⟩ =>
      ⟨(hends _ _ hup).1, Or.inl hfree, (hends _ _ hup).2⟩
  | true =>
    simp only [if_true]
    by_cases hshort : r.matchIndex < a.lastIndex
    · rw [if_pos hshort]
      refine ⟨_, .short hsuccess hshort, Or.inl ?_⟩
      obtain ⟨hgo, hfind⟩ := hends _ { c with node := { c.node with
        peers := c.node.peers.insert s { p with inflight := none, inflightHeartbeatAge := 0 } } }
        (.refl _)
      exact ⟨hgo, Or.inl free, hfind⟩
    · rw [if_neg hshort]
      have noted : Noted c.node p a r _ := .matched hsuccess (not_lt.mp hshort)
      refine ⟨_, noted, ?_⟩
      have hcommit := Prepared.maybeAdvanceCommit (c := { c with node := { c.node with
        peers := c.node.peers.insert s { p with
          inflight := none, inflightHeartbeatAge := 0
          matchIndex := max p.matchIndex a.lastIndex
          nextIndex := max p.matchIndex a.lastIndex + 1 } } }) (hnote _ noted) free
      generalize Ctx.maybeAdvanceCommit _ = c₁ at hcommit ⊢
      rcases hcommit with ⟨hup, hpending⟩ | hspent
      · obtain ⟨hgo, p', hp', kept⟩ := hends _ c₁ hup
        by_cases hfree : c₁.node.pendingStorage = none
        · rw [if_pos ⟨hgo.role.trans h.role, hfree⟩, hp']
          simp only
          split_ifs
          · have hsend := (hup.prepared (hnote _ noted)).sendAppend hfree s
            refine hsend.imp_left fun ⟨hup', hfree', _⟩ => ?_
            obtain ⟨hgo', hfind⟩ := hends _ _ (hup.trans hup')
            exact ⟨hgo', Or.inl hfree', hfind⟩
          · exact Or.inl ⟨hgo, Or.inl hfree, p', hp', kept⟩
        · rw [if_neg fun hc => hfree hc.2]
          exact Or.inl ⟨hgo, hpending, p', hp', kept⟩
      · rw [if_neg fun hc => hspent.ne_leader hc.1]
        exact Or.inr hspent

end Upheld

/-! ### Steps of a node with nothing in its queue -/

section Step

variable {n : RaftNode} {c : Ctx} {e : RaftEvent}

theorem drain_of_nil (h : c.node.deferredEvents = []) (fuel : ℕ) : c.drain fuel = c := by
  cases fuel with
  | zero => rfl
  | succ fuel =>
    rw [Ctx.drain, h]
    simp

theorem drain_of_settled (h : c.node.deferredEvents = [] ∨ c.node.role = .unavailable)
    (fuel : ℕ) : c.drain fuel = c := by
  rcases h with h | h
  · exact drain_of_nil h fuel
  · exact drain_of_busy (Or.inr h) fuel

/-- A step is one reaction if nothing is left to do after it. -/
theorem step_eq_dispatch (idle : n.Idle) (he : ¬e.IsCompletion)
    (h : (Ctx.dispatch { node := n } e).node.deferredEvents = [] ∨
      (Ctx.dispatch { node := n } e).node.role = .unavailable) :
    n.step e = Ctx.dispatch { node := n } e := by
  rw [step_of_idle idle he, drain_of_settled h]

/-- A node that has stopped does nothing any more. -/
theorem step_of_down (free : n.pendingStorage = none) (down : n.role = .unavailable)
    (he : e.IsInternal) : n.step e = { node := n } := by
  cases e with
  | timerFired kind generation | messageReceived envelope =>
    simp only [RaftNode.step]
    rw [if_neg (by simp [free]), if_pos down]
  | storageComplete opId success error | clientRequest token command => exact he.elim

theorem step_eq_resume {p : PendingStorage} (pending : n.pendingStorage = some p)
    (h : ((n.marked p).resume p.afterSuccess).node.deferredEvents = [] ∨
      ((n.marked p).resume p.afterSuccess).node.role = .unavailable) (error : String) :
    n.step (.storageComplete p.opId true error) = (n.marked p).resume p.afterSuccess := by
  rw [step_of_completes pending error]
  exact drain_of_settled h _

end Step

/-! ### A follower answers -/

section Sends

variable (c : Ctx)

@[simp] theorem sends_emit_trace (r : TraceRecord) : (c.emit (.trace r)).sends = c.sends := by
  simp [Ctx.sends, Ctx.emit]

@[simp] theorem sends_trace (kind : TraceKind) (detail : String) (index : ℕ) :
    (c.trace kind detail index).sends = c.sends := by simp [Ctx.trace]

@[simp] theorem sends_setNode (n : RaftNode) : Ctx.sends { c with node := n } = c.sends := rfl

@[simp] theorem sends_emitReply (token : ClientToken) (status : ClientStatus) (value : Bytes)
    (index : ℕ) : (c.emitReply token status value index).sends = c.sends := by
  simp [Ctx.emitReply, Ctx.sends, Ctx.emit, Ctx.trace]

theorem foldl_sends {α : Type*} {f : Ctx → α → Ctx} (hf : ∀ c a, (f c a).sends = c.sends)
    (l : List α) (c : Ctx) : (l.foldl f c).sends = c.sends := by
  induction l generalizing c with
  | nil => rfl
  | cons a l ih => rw [List.foldl_cons, ih, hf]

@[simp] theorem sends_emitReplies (tokens : List ClientToken) (status : ClientStatus)
    (value : Bytes) (index : ℕ) : (c.emitReplies tokens status value index).sends = c.sends :=
  foldl_sends (f := fun c token => c.emitReply token status value index) (by simp) tokens c

@[simp] theorem sends_scheduleElection : c.scheduleElection.sends = c.sends := by
  simp [Ctx.scheduleElection, Ctx.sends, Ctx.emit]

@[simp] theorem sends_sendMessage (target : NodeId) (message : Message) :
    (c.sendMessage target message).sends = c.sends ++
      [{ sender := c.node.config.nodeId, target, message }] := by
  simp [Ctx.sendMessage, Ctx.sends, Ctx.emit, Ctx.trace]

theorem sends_removePendingFrom (index : ℕ) : (c.removePendingFrom index).sends = c.sends :=
  foldl_sends (by simp [Ctx.removePending]) _ c

theorem sends_failStorage (detail : String) : (c.failStorage detail).sends = c.sends := by
  have hdeferred : ∀ (c : Ctx) (e : RaftEvent), (c.failDeferred e).sends = c.sends := by
    intro c e
    cases e <;> simp [Ctx.failDeferred]
  have hreplies : ∀ (c : Ctx) (e : ℕ × PendingClientEntry),
      (c.emitReplies e.2.waiters .storageError [] e.1).sends = c.sends := by simp
  simp only [Ctx.failStorage, sends_setNode, foldl_sends hdeferred, foldl_sends hreplies,
    sends_trace]

theorem sends_startPersist_of_free (free : c.node.pendingStorage = none)
    (hid : c.node.nextStorageOpId ≠ 0) (batch : PersistBatch) (k : Continuation) :
    (c.startPersist batch k).sends = c.sends := by
  unfold Ctx.startPersist
  rw [if_neg (by simp [free]), if_neg hid]
  simp [Ctx.sends, Ctx.emit, Ctx.trace]

theorem sends_applyEntry (index : ℕ) (e : LogEntry) :
    (c.applyEntry index e).sends = c.sends := by
  unfold Ctx.applyEntry
  simp only
  split
  · simp
  · simp

theorem sends_applyRounds (fuel : ℕ) (c : Ctx) (hlen : c.node.commitIndex ≤ c.node.log.length) :
    (c.applyRounds fuel).sends = c.sends := by
  induction fuel generalizing c with
  | zero => rfl
  | succ fuel ih =>
    rw [Ctx.applyRounds]
    split_ifs with hbehind
    · simp only
      split
      · next habsent =>
        rw [entryAt_succ, List.getElem?_eq_none_iff] at habsent
        omega
      · next e hfound =>
        obtain ⟨machine, clients, sessions, hnode⟩ := applyEntry_node
          { c with node := { c.node with lastApplied := c.node.lastApplied + 1 } }
          (c.node.lastApplied + 1) e
        rw [ih _ (by rw [hnode]; exact hlen), sends_applyEntry]
        rfl
    · rfl

end Sends

namespace RaftNode

variable (n : RaftNode) (s : NodeId) (r : AppendEntries)

/-- The message that refuses an append, with the hint where to resume. -/
def refusal (conflictIndex conflictTerm : ℕ) : MessageEnvelope where
  sender := n.config.nodeId
  target := s
  message := .appendEntriesResponse
    { term := n.currentTerm, rpcId := r.rpcId, success := false, matchIndex := 0,
      conflictIndex, conflictTerm }

/-- The message that confirms an append. -/
def confirmation : MessageEnvelope where
  sender := n.config.nodeId
  target := s
  message := .appendEntriesResponse
    { term := n.currentTerm, rpcId := r.rpcId, success := true,
      matchIndex := Ctx.appendMatchIndex r, conflictIndex := 0, conflictTerm := 0 }

end RaftNode

/-- **How a follower answers an append of its term**: its log ends too early, or has another
term there, or the append is taken in; then the confirmation may have to wait for storage. -/
inductive Answers (n : RaftNode) (s : NodeId) (r : AppendEntries) (c : Ctx) : Prop
  | short (behind : n.log.length < r.prevLogIndex) (goes : GoesOn n c.node)
      (free : c.node.pendingStorage = none)
      (sends : c.sends = [n.refusal s r (n.log.length + 1) 0])
  | conflict (held : r.prevLogIndex ≤ n.log.length)
      (differs : termAt n.log r.prevLogIndex ≠ r.prevLogTerm) (goes : GoesOn n c.node)
      (free : c.node.pendingStorage = none)
      (sends : c.sends = [n.refusal s r (firstIndexOfTerm n.log r.prevLogIndex)
        (termAt n.log r.prevLogIndex)])
  | confirmed (remains : Remains n c.node) (free : c.node.pendingStorage = none)
      (sends : c.sends = [n.confirmation s r])
  | waits (q : PendingStorage) (apply : Bool) (remains : Remains n c.node)
      (pending : c.node.pendingStorage = some q)
      (resumes : q.afterSuccess =
        .appendAccept s r.rpcId (Ctx.appendMatchIndex r) apply) (sends : c.sends = [])
  | spent (spent : c.node.Spent) (sends : c.sends = [])

section Answers

variable {n : RaftNode} {c : Ctx} {s : NodeId} {r : AppendEntries}

/-- What the continuations of `on_append_entries` send, once they have armed the timer. -/
theorem sends_confirm (hn : Remains n c.node) (s : NodeId) (r : AppendEntries) :
    (c.scheduleElection.sendMessage s (.appendEntriesResponse
      { term := c.scheduleElection.node.currentTerm, rpcId := r.rpcId, success := true,
        matchIndex := Ctx.appendMatchIndex r, conflictIndex := 0, conflictTerm := 0 })).sends =
      c.sends ++ [n.confirmation s r] := by
  have hterm : c.scheduleElection.node.currentTerm = n.currentTerm :=
    congrArg HardState.currentTerm hn.hardState
  have hid : c.scheduleElection.node.config.nodeId = n.config.nodeId :=
    congrArg RaftConfig.nodeId hn.config
  rw [sends_sendMessage, sends_scheduleElection, hterm, hid]
  rfl

theorem sends_refuse (hn : Remains n c.node) (s : NodeId) (r : AppendEntries)
    (conflictIndex conflictTerm : ℕ) :
    (c.resume (.appendReject s r.rpcId conflictIndex conflictTerm)).sends =
      c.sends ++ [n.refusal s r conflictIndex conflictTerm] := by
  have hterm : c.scheduleElection.node.currentTerm = n.currentTerm :=
    congrArg HardState.currentTerm hn.hardState
  have hid : c.scheduleElection.node.config.nodeId = n.config.nodeId :=
    congrArg RaftConfig.nodeId hn.config
  rw [Ctx.resume, sends_sendMessage, sends_scheduleElection, hterm, hid]
  rfl

theorem sends_resume_appendAccept (hn : Remains n c.node)
    (hlen : c.node.commitIndex ≤ c.node.log.length) (s : NodeId) (r : AppendEntries)
    (apply : Bool) :
    (c.resume (.appendAccept s r.rpcId (Ctx.appendMatchIndex r) apply)).sends =
      c.sends ++ [n.confirmation s r] := by
  cases apply with
  | false => exact sends_confirm hn s r
  | true =>
    obtain ⟨applied, machine, clients, sessions, hnode⟩ := applyCommitted_node
      (c.trace .commit "learned committed prefix from leader" c.node.commitIndex) hlen
    have hsent : (c.trace .commit "learned committed prefix from leader"
        c.node.commitIndex).applyCommitted.sends = c.sends := by
      unfold Ctx.applyCommitted
      rw [sends_applyRounds _ (c.trace _ _ _) hlen, sends_trace]
    have hremains : Remains n (c.trace .commit "learned committed prefix from leader"
        c.node.commitIndex).applyCommitted.node := by
      rw [hnode]
      exact { hn with }
    rw [← hsent]
    exact sends_confirm hremains s r

/-- The end of an append that is taken in. -/
theorem answers_finishAppend (hn : Remains n c.node) (free : c.node.pendingStorage = none)
    (hsends : c.sends = []) {batch : PersistBatch} (unchanged : batch.commitIndex = none) :
    Answers n s r (c.finishAppend s r batch) := by
  -- A batch goes to storage, unless the identifiers of its operations have run out.
  have hpersist : ∀ (c' : Ctx) (b : PersistBatch) (apply : Bool), Remains n c'.node →
      c'.node.pendingStorage = none → c'.sends = [] → Answers n s r (c'.startPersist b
        (.appendAccept s r.rpcId (Ctx.appendMatchIndex r) apply)) := by
    intro c' b apply hn' free' hsends'
    by_cases hid : c'.node.nextStorageOpId = 0
    · rw [startPersist_of_overflow free' hid]
      exact .spent (spent_failStorage (Or.inr hid) _) (by rw [sends_failStorage, hsends'])
    · refine .waits ⟨c'.node.nextStorageOpId, b, _⟩ apply ?_ ?_ rfl ?_
      · rw [startPersist_of_free free' hid]
        exact { hn' with }
      · rw [startPersist_of_free free' hid]
      · rw [sends_startPersist_of_free _ free' hid, hsends']
  unfold Ctx.finishAppend
  simp only
  by_cases hadv : c.node.commitIndex < min r.leaderCommit (Ctx.appendMatchIndex r)
  · simp only [hadv, decide_true, if_true, PersistBatch.isEmpty, Option.isNone_some,
      Bool.and_false, Bool.false_eq_true, if_false, Ctx.beginPersist, Option.isSome_some]
    refine hpersist _ _ _ ?_ ?_ ?_
    · exact { hn with }
    · exact free
    · exact hsends
  · simp only [hadv, decide_false, Bool.false_eq_true, if_false, unchanged, Option.isSome_none]
    by_cases hempty : batch.isEmpty = true
    · rw [if_pos hempty]
      refine .confirmed ?_ free ?_
      · exact { hn with }
      · exact (sends_confirm hn s r).trans (by rw [hsends, List.nil_append])
    · rw [if_neg hempty, Ctx.beginPersist, if_neg hempty]
      exact hpersist c batch false hn free hsends

section

variable (hn : GoesOn n c.node) (free : c.node.pendingStorage = none) (hsends : c.sends = [])
    (hcommit : c.node.commitIndex = n.commitIndex)
include hn free hsends hcommit

theorem answers_acceptAppend
    (keeps : ∀ e, (r.entries.drop (matchingEntries n.log r.entries)).head? = some e →
      n.commitIndex < e.index)
    {batch : PersistBatch} (unchanged : batch.commitIndex = none) :
    Answers n s r (c.acceptAppend s r batch) := by
  unfold Ctx.acceptAppend
  rw [hn.log]
  generalize hsuffix : r.entries.drop (matchingEntries n.log r.entries) = suffix
  rw [hsuffix] at keeps
  simp only
  cases suffix with
  | nil => exact answers_finishAppend hn.toRemains free hsends unchanged
  | cons e rest =>
    simp only
    rw [if_neg (not_le.mpr (hcommit ▸ keeps e rfl))]
    by_cases htrunc : e.index ≤ c.node.lastLogIndex
    · simp only [htrunc, decide_true, if_true]
      obtain ⟨-, clients, sessions, hnode, -⟩ : (_ → Moves n (.resumed .rearm) c _) ∧ _ :=
        moves_removePendingFrom c e.index
      refine answers_finishAppend ?_ ?_ ?_ (by exact unchanged)
      · simp only [Ctx.trace_node, hnode]
        exact { hn with }
      · simp only [Ctx.trace_node, hnode]
        exact free
      · rw [sends_trace, sends_setNode, sends_setNode, sends_removePendingFrom, hsends]
    · simp only [htrunc, decide_false, Bool.false_eq_true, if_false]
      refine answers_finishAppend ?_ ?_ ?_ (by exact unchanged)
      · exact { hn with }
      · exact free
      · rw [sends_trace, sends_setNode, hsends]

theorem answers_examineAppend (count : r.entries.length ≤ n.config.maxAppendEntriesPerRpc)
    (valid : entriesValidFrom n.config r.term r.entries r.prevLogIndex kAppendRpcOverhead = true)
    (keeps : r.prevLogIndex ≤ n.log.length → termAt n.log r.prevLogIndex = r.prevLogTerm →
      ∀ e, (r.entries.drop (matchingEntries n.log r.entries)).head? = some e →
        n.commitIndex < e.index) :
    Answers n s r (c.examineAppend s r {}) := by
  have hrefuse : ∀ ci ct, c.rejectAppend s r {} ci ct =
      c.resume (.appendReject s r.rpcId ci ct) := fun ci ct => by
    unfold Ctx.rejectAppend
    exact if_pos rfl
  have hgo : ∀ ci ct, GoesOn n (c.resume (.appendReject s r.rpcId ci ct)).node := fun ci ct =>
    ⟨{ hn with }, hn.log, hn.durable⟩
  have hsent : ∀ ci ct, (c.resume (.appendReject s r.rpcId ci ct)).sends =
      [n.refusal s r ci ct] := fun ci ct => by
    rw [sends_refuse hn.toRemains, hsends, List.nil_append]
  unfold Ctx.examineAppend
  simp only [hn.config, hn.log, RaftNode.lastLogIndex, count, valid, decide_true, Bool.and_true,
    Bool.true_eq_false, if_false]
  split_ifs with hshort hterm
  · rw [hrefuse]
    exact .short hshort (hgo _ _) free (hsent _ _)
  · rw [hrefuse]
    exact .conflict (not_lt.mp hshort) hterm (hgo _ _) free (hsent _ _)
  · exact answers_acceptAppend hn free hsends hcommit
      (keeps (not_lt.mp hshort) (not_not.mp hterm)) rfl

end

theorem Answers.settled (h : Answers n s r c) (queue : n.deferredEvents = []) :
    c.node.deferredEvents = [] ∨ c.node.role = .unavailable := by
  cases h with
  | short _ goes | conflict _ _ goes => exact Or.inl (goes.deferred.trans queue)
  | confirmed remains | waits _ _ remains => exact Or.inl (remains.deferred.trans queue)
  | spent spent => exact Or.inr spent.1

/-- **A follower answers an append of its term.** -/
theorem answers_step (idle : n.Idle) (role : n.role = .follower) (queue : n.deferredEvents = [])
    (other : s ≠ n.config.nodeId) (member : s ∈ n.config.members) (named : r.leaderId = s)
    (pos : r.term ≠ 0) (term : r.term = n.currentTerm)
    (count : r.entries.length ≤ n.config.maxAppendEntriesPerRpc)
    (valid : entriesValidFrom n.config r.term r.entries r.prevLogIndex kAppendRpcOverhead = true)
    (keeps : r.prevLogIndex ≤ n.log.length → termAt n.log r.prevLogIndex = r.prevLogTerm →
      ∀ e, (r.entries.drop (matchingEntries n.log r.entries)).head? = some e →
        n.commitIndex < e.index) :
    Answers n s r (n.step (.messageReceived ⟨s, n.config.nodeId, .appendEntries r⟩)) := by
  have hdispatch : Ctx.dispatch { node := n }
      (.messageReceived ⟨s, n.config.nodeId, .appendEntries r⟩) =
      Ctx.examineAppend { (Ctx.trace { node := n } .receive "protocol message received" 0) with
        node := { n with leaderHint := some s } } s r {} := by
    simp only [Ctx.dispatch, Ctx.onMessage]
    rw [if_neg (by simp [other, member, RaftNode.isMember])]
    unfold Ctx.onAppendEntries
    rw [if_neg (by simp [pos, named]), if_neg (by simp [term, RaftNode.currentTerm])]
    simp [term, role, RaftNode.currentTerm]
  have hanswers : Answers n s r (Ctx.dispatch { node := n }
      (.messageReceived ⟨s, n.config.nodeId, .appendEntries r⟩)) := by
    rw [hdispatch]
    refine answers_examineAppend ?_ ?_ ?_ ?_ count valid keeps
    · exact ⟨⟨rfl, rfl, rfl, rfl⟩, rfl, rfl⟩
    · exact idle.free
    · exact sends_trace { node := n } _ _ _
    · rfl
  rw [step_eq_dispatch idle id]
  · exact hanswers
  · exact hanswers.settled queue

end Answers

end DetLog
