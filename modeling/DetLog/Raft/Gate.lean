import DetLog.Raft.Handlers
import DetLog.Wal

/-!
# The node and its storage

A node keeps its term, vote, log and commit index in memory and changes them before
storage has confirmed the change. This module relates that memory to what is durable,
for one node under arbitrary events.

`DetLog.Coherent` is the invariant. A node without an outstanding batch has exactly the
durable state in memory; a node that waits has the durable state with the outstanding
batch written on top (`DetLog.Plan.memory_eq`), and its continuation only promises what
that memory already shows (`DetLog.Promise`). It follows that every message a node
emits speaks about durable state, which is `DetLog.Gate`.

`DetLog.WellFormed` is the other half: memory always satisfies what the constructor
checks of a recovered state, the size of the entries aside.
-/

namespace DetLog

open Consensus

/-! ### Memory -/

/-- The protected state in memory, in the form in which storage keeps it. -/
def RaftNode.memory (n : RaftNode) : RecoveredState where
  hardState := n.hardState
  log := n.log
  commitIndex := n.commitIndex

@[simp] theorem RaftNode.memory_hardState (n : RaftNode) : n.memory.hardState = n.hardState := rfl

@[simp] theorem RaftNode.memory_log (n : RaftNode) : n.memory.log = n.log := rfl

@[simp] theorem RaftNode.memory_commitIndex (n : RaftNode) :
    n.memory.commitIndex = n.commitIndex := rfl

section Memory

variable {n m : RaftNode} {cause : Cause} {batch : PersistBatch} {k : Continuation}

theorem Becomes.memory {hs : HardState} {l : List LogEntry} {c : ℕ} (h : Becomes n m hs l c) :
    m.memory = ⟨hs, l, c⟩ := by
  rw [RaftNode.memory, h.hardState, h.log, h.commitIndex]

theorem SameCore.memory (h : SameCore n m) : m.memory = n.memory := Becomes.memory h

theorem getD_ite {α : Type*} (p : Prop) [Decidable p] (a b : α) :
    (if p then some a else none).getD b = if p then a else b := by
  split_ifs <;> rfl

/-- **A batch writes exactly the planned change.** -/
theorem Plan.memory_eq (plan : Plan n cause m batch k) : m.memory = n.memory.write batch := by
  cases plan with
  | campaign hs _ core | adopt term k _ core | grant candidate request w _ _ _ _ _ _ core
  | lead _ _ core | propose _ _ _ _ _ _ _ _ _ core | commit target _ core =>
    simpa [RecoveredState.write] using core.memory
  | accept s request _ _ _ _ core =>
    rw [core.memory]
    simp only [RecoveredState.write, acceptBatch, getD_ite, RecoveredState.mk.injEq]
    refine ⟨rfl, ?_, ?_⟩
    · unfold acceptedLog
      rcases request.entries.drop (matchingEntries n.log request.entries) with _ | ⟨e, rest⟩
      · simp
      · by_cases htrunc : e.index ≤ n.log.length
        · simp [Option.filter, htrunc]
        · simp only [List.head?_cons, Option.map_some, Option.filter, htrunc, decide_false,
            Bool.false_eq_true, if_false]
          rw [List.take_of_length_le (by omega)]
          rfl
    · rw [RaftNode.memory_commitIndex]
      split_ifs <;> omega

end Memory

/-! ### Well-formed states -/

/-- What the constructor checks of a recovered state, the size of the entries aside. -/
structure WellFormed (config : RaftConfig) (s : RecoveredState) : Prop where
  vote : ∀ v, s.hardState.votedFor = some v → s.hardState.currentTerm ≠ 0 ∧ v ∈ config.members
  length_le : s.log.length ≤ maxU64
  indexed : IndexedFrom 0 s.log
  entries : ∀ e ∈ s.log, e.term ≠ 0 ∧ e.term ≤ s.hardState.currentTerm ∧
    entryAcceptable config e = true
  commit_le : s.commitIndex ≤ s.log.length

section WellFormed

variable {n m : RaftNode} {cause : Cause} {batch : PersistBatch} {k : Continuation}
  {request : AppendEntries}

/-- A new entry at the end of the log of a leader. -/
theorem WellFormed.append (h : WellFormed n.config n.memory) (hmax : n.log.length ≠ maxU64)
    (hterm : n.currentTerm ≠ 0) {command : Option ClientCommand}
    (hacc : entryAcceptable n.config (n.nextEntry command) = true) :
    WellFormed n.config ⟨n.hardState, n.log ++ [n.nextEntry command], n.commitIndex⟩ where
  vote := h.vote
  length_le := by
    have : n.log.length ≤ maxU64 := h.length_le
    simp only [List.length_append, List.length_cons, List.length_nil]
    omega
  indexed := indexedFrom_append.mpr ⟨h.indexed, indexedFrom_singleton.mpr (by
    simp [RaftNode.nextEntry, RaftNode.lastLogIndex])⟩
  entries := by
    intro e he
    rcases List.mem_append.mp he with he | he
    · exact h.entries e he
    · obtain rfl : e = n.nextEntry command := by simpa using he
      exact ⟨hterm, le_rfl, hacc⟩
  commit_le := by
    have : n.commitIndex ≤ n.log.length := h.commit_le
    simp only [List.length_append]
    omega

/-- The validation loop keeps the indexes within 64 bits. -/
theorem entriesValidFrom_le {config : RaftConfig} {term : ℕ} {entries : List LogEntry}
    {expected bytes : ℕ} (hle : expected ≤ maxU64)
    (h : entriesValidFrom config term entries expected bytes = true) :
    expected + entries.length ≤ maxU64 := by
  induction entries generalizing expected bytes with
  | nil => simpa using hle
  | cons e rest ih =>
    rw [entriesValidFrom] at h
    split_ifs at h with h₁ h₂ h₃
    have := ih (by omega) h
    rw [List.length_cons]
    omega

theorem Fits.indexed (h : Fits n request) :
    IndexedFrom request.prevLogIndex request.entries :=
  (of_entriesValidFrom le_rfl h.valid).1

theorem Fits.matchIndex (h : Fits n request) :
    Ctx.appendMatchIndex request = request.prevLogIndex + request.entries.length :=
  appendMatchIndex_eq h.indexed

theorem length_acceptedLog_le (h : Fits n request) (hlen : n.log.length ≤ maxU64) :
    (acceptedLog n.log request.entries).length ≤ maxU64 := by
  rcases acceptedLog_cases n.log h.indexed with ⟨-, heq⟩ | ⟨m, e, -, -, -, -, heq⟩
  · rwa [heq]
  · rw [heq, List.length_append, List.length_take, Nat.min_eq_left h.prev_le]
    exact entriesValidFrom_le (h.prev_le.trans hlen) h.valid

/-- What an append replaces lies behind the commit index, so the log keeps it. -/
theorem commitIndex_le_acceptedLog (h : Fits n request) (hcommit : n.commitIndex ≤ n.log.length)
    (keeps : ∀ e, (request.entries.drop (matchingEntries n.log request.entries)).head? = some e →
      n.commitIndex < e.index) :
    n.commitIndex ≤ (acceptedLog n.log request.entries).length := by
  rcases acceptedLog_cases n.log h.indexed with ⟨-, heq⟩ | ⟨m, e, hget, hhead, hidx, -, -⟩
  · rwa [heq]
  · obtain ⟨hm, -⟩ := List.getElem?_eq_some_iff.mp hget
    have := keeps e hhead
    have := le_length_acceptedLog h.indexed h.prev_le
    omega

theorem mem_acceptedLog {log entries : List LogEntry} {e : LogEntry}
    (h : e ∈ acceptedLog log entries) : e ∈ log ∨ e ∈ entries := by
  unfold acceptedLog at h
  split at h
  · exact Or.inl h
  · next x rest hx =>
    rcases List.mem_append.mp h with h | h
    · exact Or.inl (List.mem_of_mem_take h)
    · exact Or.inr (List.mem_of_mem_drop (hx ▸ h))

theorem indexedFrom_acceptedLog {log entries : List LogEntry} {k : ℕ} (hlog : IndexedFrom 0 log)
    (h : IndexedFrom k entries) (hk : k ≤ log.length) :
    IndexedFrom 0 (acceptedLog log entries) := by
  rcases acceptedLog_cases log h with ⟨-, heq⟩ | ⟨m, e, -, -, -, -, heq⟩
  · rwa [heq]
  · rw [heq, indexedFrom_append, List.length_take, Nat.min_eq_left hk, Nat.zero_add]
    exact ⟨hlog.of_isPrefix <| List.take_prefix _ _, h⟩

/-- **Every plan keeps the state well formed.** -/
theorem Plan.wellFormed (plan : Plan n cause m batch k) (h : WellFormed n.config n.memory)
    (hself : n.config.nodeId ∈ n.config.members)
    (hvote : n.role = .candidate ∨ n.role = .leader →
      n.hardState.votedFor = some n.config.nodeId) : WellFormed n.config m.memory := by
  cases plan with
  | campaign hs new core =>
    rw [core.memory, new]
    refine { h with vote := ?_, entries := fun e he => ?_ }
    · rintro v hv
      obtain rfl : n.config.nodeId = v := by simpa using hv
      exact ⟨Nat.succ_ne_zero _, hself⟩
    · obtain ⟨hpos, hle, hacc⟩ := h.entries e he
      exact ⟨hpos, Nat.le_succ_of_le hle, hacc⟩
  | adopt term k higher core =>
    rw [core.memory]
    refine { h with vote := by simp, entries := fun e he => ?_ }
    obtain ⟨hpos, hle, hacc⟩ := h.entries e he
    exact ⟨hpos, hle.trans higher.le, hacc⟩
  | grant candidate request w heard pos named term_le free fresh core =>
    rw [core.memory]
    refine { h with vote := ?_, entries := fun e he => ?_ }
    · rintro v hv
      obtain rfl : candidate = v := by simpa using hv
      exact ⟨pos, heard.2.2⟩
    · obtain ⟨hpos, hle, hacc⟩ := h.entries e he
      exact ⟨hpos, hle.trans term_le, hacc⟩
  | lead wins bound core =>
    rw [core.memory]
    -- A candidate has voted for itself, so its term is not zero.
    exact h.append bound (h.vote _ (hvote (Or.inl wins.1))).1 rfl
  | propose token command asked old ready acceptable admits bound room core =>
    rw [core.memory]
    exact h.append bound (h.vote _ (hvote (Or.inr old))).1 acceptable
  | commit target old core role peers above durable current quorum =>
    rw [core.memory]
    obtain ⟨e, he, -⟩ := current
    obtain ⟨-, he⟩ := entryAt_eq_some.mp he
    obtain ⟨hlt, -⟩ := List.getElem?_eq_some_iff.mp he
    refine { h with commit_le := ?_ }
    simp only
    omega
  | accept s request heard named fits keeps core =>
    rw [core.memory]
    have hterm : n.currentTerm ≤ (followed n request.term).currentTerm ∧
        request.term ≤ (followed n request.term).currentTerm := by
      have := fits.term_le
      unfold followed
      split_ifs with ht
      · exact ⟨ht.le, le_rfl⟩
      · exact ⟨le_rfl, not_lt.mp ht⟩
    refine ⟨fun v hv => ?_, length_acceptedLog_le fits h.length_le,
      indexedFrom_acceptedLog h.indexed fits.indexed fits.prev_le, fun e he => ?_, ?_⟩
    · unfold followed at hv ⊢
      by_cases ht : n.currentTerm < request.term
      · simp [if_pos ht] at hv
      · rw [if_neg ht] at hv ⊢
        exact h.vote v hv
    · rcases mem_acceptedLog he with he | he
      · obtain ⟨hpos, hle, hacc⟩ := h.entries e he
        exact ⟨hpos, hle.trans hterm.1, hacc⟩
      · have hok := (of_entriesValidFrom le_rfl fits.valid).2 e he
        exact ⟨hok.term_pos, hok.term_le.trans hterm.2, hok.acceptable⟩
    · have h₁ := commitIndex_le_acceptedLog fits h.commit_le keeps
      have h₂ := le_length_acceptedLog fits.indexed fits.prev_le
      rw [← fits.matchIndex] at h₂
      simp only
      omega

/-! ### Plans go forward -/

theorem Plan.nonempty (plan : Plan n cause m batch k) : batch.isEmpty = false := by
  cases plan with
  | accept _ _ _ _ _ _ _ _ nonempty => exact nonempty
  | _ => rfl

theorem le_currentTerm_followed (n : RaftNode) (term : ℕ) :
    n.currentTerm ≤ (followed n term).currentTerm := by
  unfold followed
  split_ifs with h
  · exact h.le
  · exact le_rfl

/-- **A plan never goes back**: not in the term, not in a vote of the term, and not in the
commit index. -/
theorem Plan.forward (plan : Plan n cause m batch k) :
    n.currentTerm ≤ m.currentTerm ∧
      (m.currentTerm = n.currentTerm → n.hardState.votedFor.isSome →
        m.hardState.votedFor = n.hardState.votedFor) ∧
      n.commitIndex ≤ m.commitIndex := by
  unfold RaftNode.currentTerm
  cases plan with
  | campaign hs new core =>
    rw [core.hardState, core.commitIndex, new]
    simp only [RaftNode.currentTerm]
    exact ⟨Nat.le_succ _, fun h => by omega, le_rfl⟩
  | adopt term k higher core =>
    rw [core.hardState, core.commitIndex]
    exact ⟨higher.le, fun h => absurd h higher.ne', le_rfl⟩
  | grant candidate request w heard pos named term_le free fresh core =>
    rw [core.hardState, core.commitIndex]
    refine ⟨term_le, fun h hs => ?_, le_rfl⟩
    rcases free with hlt | hnone
    · exact absurd h hlt.ne'
    · simp [hnone] at hs
  | lead wins bound core
  | propose token command asked old ready acceptable admits bound room core =>
    rw [core.hardState, core.commitIndex]
    exact ⟨le_rfl, fun _ _ => rfl, le_rfl⟩
  | commit target old core role peers above =>
    rw [core.hardState, core.commitIndex]
    exact ⟨le_rfl, fun _ _ => rfl, above.le⟩
  | accept s request heard named fits keeps core =>
    rw [core.hardState, core.commitIndex]
    refine ⟨le_currentTerm_followed n _, fun h _ => ?_, le_max_left _ _⟩
    unfold followed at h ⊢
    split_ifs at h ⊢ with hlt
    · exact absurd h hlt.ne'
    · rfl

/-- What an append replaces lies behind the commit index. -/
theorem take_commitIndex_acceptedLog {entries : List LogEntry}
    (keeps : ∀ e, (entries.drop (matchingEntries n.log entries)).head? = some e →
      n.commitIndex < e.index) :
    n.log.take n.commitIndex <+: acceptedLog n.log entries := by
  unfold acceptedLog
  split
  · exact List.take_prefix _ _
  · next e rest hrest =>
    have := keeps e (by rw [hrest]; rfl)
    exact (List.take_prefix_take_left (by omega)).trans (List.prefix_append _ _)

/-- **The committed prefix stays** in every plan. -/
theorem Plan.take_commitIndex (plan : Plan n cause m batch k) :
    n.log.take n.commitIndex <+: m.log := by
  cases plan with
  | campaign hs new core | adopt term k higher core | grant _ _ _ _ _ _ _ _ _ core
  | commit target old core => rw [core.log]; exact List.take_prefix _ _
  | lead wins bound core
  | propose token command asked old ready acceptable admits bound room core =>
    rw [core.log]
    exact List.IsPrefix.trans ⟨_, List.take_append_drop _ _⟩ (List.prefix_append _ _)
  | accept s request heard named fits keeps core =>
    rw [core.log]
    exact take_commitIndex_acceptedLog keeps

/-- **Every planned batch respects the rules of the log**, given that the terms of the
new log do not decrease; the node itself cannot know that. -/
theorem Plan.writable (plan : Plan n cause m batch k) (h : WellFormed n.config m.memory)
    (hsorted : m.log.Pairwise fun e e' => e.term ≤ e'.term) : Writable n.memory batch := by
  have hmem := plan.memory_eq
  obtain ⟨hterm, hvote, hcommit⟩ := plan.forward
  refine ⟨plan.nonempty, ?_, ?_, ?_, ?_, ?_, ?_, ?_, ?_⟩ <;> try rw [← hmem]
  · exact hterm
  · exact hvote
  · intro hzero
    by_contra hne
    obtain ⟨v, hv⟩ := Option.ne_none_iff_exists'.mp hne
    exact (h.vote v hv).1 hzero
  · intro i hi
    cases plan with
    | accept s request heard named fits keeps core =>
      simp only [acceptBatch, Option.filter_eq_some_iff, Option.map_eq_some_iff,
        decide_eq_true_eq] at hi
      obtain ⟨⟨e, he, rfl⟩, hle⟩ := hi
      exact ⟨keeps e he, by simp only [RaftNode.memory_log]; omega⟩
    | _ => simp at hi
  · exact h.indexed
  · intro e he
    have hlog : e ∈ m.memory.log := by
      rw [hmem]
      simp [RecoveredState.write, he]
    obtain ⟨hpos, hle, -⟩ := h.entries e hlog
    exact ⟨hpos, hle⟩
  · exact hsorted
  · exact ⟨hcommit, h.commit_le⟩

end WellFormed

/-! ### Construction -/

/-- No entry is larger than one append can carry. -/
def Sized (config : RaftConfig) (log : List LogEntry) : Prop :=
  ∀ e ∈ log, entryBytes e ≤ config.maxAppendBytesPerRpc - kAppendRpcOverhead

/-- **What the constructor accepts.** -/
theorem RaftNode.create_eq_ok {config : RaftConfig} {s : RecoveredState} {n : RaftNode} :
    RaftNode.create config s = .ok n ↔
      (config.sorted.membershipValid = true ∧ config.sorted.boundsValid = true ∧
        WellFormed config.sorted s ∧ Sized config.sorted s.log) ∧
        n = RaftNode.ofRecovered config s := by
  -- The loop over the recovered log checks the form of the entries and their size.
  have hentries : recoveredLogValid config.sorted s.hardState.currentTerm s.log 0 = true ↔
      IndexedFrom 0 s.log ∧ (∀ e ∈ s.log, e.term ≠ 0 ∧ e.term ≤ s.hardState.currentTerm ∧
        entryAcceptable config.sorted e = true) ∧ Sized config.sorted s.log := by
    rw [recoveredLogValid_iff]
    refine and_congr_right fun _ => ⟨fun h => ⟨fun e he => ?_, fun e he => (h e he).bytes_le⟩,
      fun ⟨h, hb⟩ e he => ⟨(h e he).1, (h e he).2.1, (h e he).2.2, hb e he⟩⟩
    exact ⟨(h e he).term_pos, (h e he).term_le, (h e he).acceptable⟩
  unfold RaftNode.create
  simp only
  constructor
  · intro h
    split_ifs at h with h₁ h₂ h₃ h₄ h₅ h₆ h₇
    simp only [Bool.not_eq_false] at h₁ h₃ h₆
    obtain ⟨hidx, hok, hsized⟩ := hentries.mp h₆
    refine ⟨⟨h₁, h₃, ⟨fun v hv => ?_, not_lt.mp h₄, hidx, hok, not_lt.mp h₇⟩, hsized⟩,
      (Except.ok.inj h).symm⟩
    simp only [hv, Option.any_some, decide_eq_true_eq, not_or, not_not] at h₂
    exact h₂
  · rintro ⟨⟨h₁, h₂, hform, hsized⟩, rfl⟩
    rw [if_neg (by simp [h₁]), if_neg, if_neg (by simp [h₂]), if_neg (not_lt.mpr hform.length_le),
      if_neg, if_neg, if_neg (not_lt.mpr hform.commit_le)]
    · simp [hentries.mpr ⟨hform.indexed, hform.entries, hsized⟩]
    · rintro ⟨hzero, hsome⟩
      obtain ⟨v, hv⟩ := Option.isSome_iff_exists.mp hsome
      exact (hform.vote v hv).1 hzero
    · cases hv : s.hardState.votedFor with
      | none => simp
      | some v =>
        obtain ⟨hterm, hmem⟩ := hform.vote v hv
        simp [hterm, hmem]

/-! ### The gate -/

/-- **What a message says about durable state.** The events are the ones the node has
received. -/
def Gate (d : RecoveredState) (received : Set RaftEvent) (envelope : MessageEnvelope) : Prop :=
  match envelope.message with
  | .requestVote r =>
    d.hardState = ⟨r.term, some envelope.sender⟩ ∧ r.candidateId = envelope.sender ∧
      r.lastLogIndex = d.log.length ∧ r.lastLogTerm = termAt d.log d.log.length
  | .requestVoteResponse r =>
    d.hardState.currentTerm = r.term ∧
      (r.voteGranted = true → d.hardState = ⟨r.term, some envelope.target⟩)
  | .appendEntries r =>
    d.hardState.currentTerm = r.term ∧ r.leaderId = envelope.sender ∧
      r.prevLogIndex + r.entries.length ≤ d.log.length ∧
      r.prevLogTerm = termAt d.log r.prevLogIndex ∧
      r.entries = (d.log.drop r.prevLogIndex).take r.entries.length ∧
      r.leaderCommit ≤ d.commitIndex
  | .appendEntriesResponse r =>
    d.hardState.currentTerm = r.term ∧ (r.success = true → ∃ request,
      .messageReceived { sender := envelope.target, target := envelope.sender,
                         message := .appendEntries request } ∈ received ∧
        request.rpcId = r.rpcId ∧ r.matchIndex = request.prevLogIndex + request.entries.length ∧
        Contains d.log request)

/-- What a continuation will say about the state it waits for. -/
def Promise (received : Set RaftEvent) (n : RaftNode) : Continuation → Prop
  | .voteReply candidate true _ => n.hardState.votedFor = some candidate
  | .appendAccept leader rpcId matchIndex _ => ∃ request,
      .messageReceived { sender := leader, target := n.config.nodeId,
                         message := .appendEntries request } ∈ received ∧
        request.rpcId = rpcId ∧ matchIndex = request.prevLogIndex + request.entries.length ∧
        Contains n.log request
  | _ => True

/-- The three phases of a node: idle, waiting for storage, stopped. -/
inductive Phase (d : RecoveredState) (received : Set RaftEvent) (n : RaftNode) : Prop
  | ready (available : n.role ≠ .unavailable) (pending : n.pendingStorage = none)
      (memory : n.memory = d)
  | waiting (p : PendingStorage) (available : n.role ≠ .unavailable)
      (pending : n.pendingStorage = some p) (memory : n.memory = d.write p.batch)
      (promise : Promise received n p.afterSuccess)
  | down (stopped : n.role = .unavailable) (pending : n.pendingStorage = none)

/-- **A node and its durable state belong together.** -/
structure Coherent (d : RecoveredState) (received : Set RaftEvent) (n : RaftNode) : Prop where
  hardState : n.durableHardState = d.hardState
  lastIndex : n.durableLastLogIndex = d.log.length
  commitIndex : n.durableCommitIndex = d.commitIndex
  deferred : ∀ e ∈ n.deferredEvents, e ∈ received
  self : n.config.nodeId ∈ n.config.members
  vote : n.role = .candidate ∨ n.role = .leader → n.hardState.votedFor = some n.config.nodeId
  formed : WellFormed n.config n.memory
  phase : Phase d received n

/-- A reaction with a cause: a received event, or a continuation whose promise holds. -/
def Caused (received : Set RaftEvent) (n : RaftNode) : Cause → Prop
  | .event e => e ∈ received
  | .resumed k => Promise received n k

section Coherent

variable {d : RecoveredState} {received : Set RaftEvent} {n m : RaftNode} {cause : Cause}
  {c c' : Ctx} {batch : PersistBatch} {k : Continuation} {e : RaftEvent}

theorem Coherent.ready (h : Coherent d received n) (hr : n.role ≠ .unavailable)
    (hp : n.pendingStorage = none) : n.memory = d := by
  cases h.phase with
  | ready _ _ memory => exact memory
  | waiting p _ pending => exact absurd (hp.symm.trans pending) (by simp)
  | down stopped => exact absurd stopped hr

/-- **Every message of an idle node passes the gate.** -/
theorem Coherent.gate (h : Coherent d received n) (hmem : n.memory = d)
    (hcause : Caused received n cause) {envelope : MessageEnvelope}
    (hs : SendOk n cause envelope) : Gate d received envelope := by
  obtain ⟨sender, target, message⟩ := envelope
  obtain ⟨rfl, hs⟩ := hs
  subst hmem
  cases message with
  | requestVote r =>
    obtain ⟨hrole, -, hterm, hid, hidx, hlast⟩ := hs
    rw [h.lastIndex] at hidx hlast
    refine ⟨?_, hid, hidx, hlast⟩
    rw [hterm, ← h.vote (Or.inl hrole)]
    rfl
  | requestVoteResponse r =>
    obtain ⟨hterm, hgrant⟩ := hs
    refine ⟨hterm.symm, fun hg => ?_⟩
    have hvote : n.hardState.votedFor = some target := by
      -- A granted vote was durable before, or its write has just completed.
      rcases hgrant hg with hv | ⟨w, rfl⟩
      · exact hv
      · exact hcause
    simp only
    rw [hterm, ← hvote]
    rfl
  | appendEntries r =>
    obtain ⟨-, hterm, hid, hprev, hentries, hlen, hcommit⟩ := hs
    rw [h.lastIndex] at hlen
    exact ⟨hterm.symm, hid, hlen, hprev, hentries, hcommit.le⟩
  | appendEntriesResponse r =>
    obtain ⟨hterm, hok⟩ := hs
    refine ⟨hterm.symm, fun hsuccess => ?_⟩
    -- Success is answered at once when the log holds the append already, and after the
    -- write that makes it durable otherwise.
    rcases hok hsuccess with ⟨request, heard, -, hfits, hlog, hrpc, hmatch⟩ | ⟨b, rfl⟩
    · have hc := contains_acceptedLog hfits.indexed hfits.prev_le hfits.prev_term
      rw [hlog] at hc
      refine ⟨request, ?_, hrpc.symm, hmatch.trans hfits.matchIndex, hc⟩
      have := heard.1
      subst this
      exact hcause
    · exact hcause

/-- The durable fields and the queue are no part of a change. -/
theorem Becomes.keeps {hs : HardState} {l : List LogEntry} {i : ℕ} (hm : Becomes n m hs l i)
    (h : Coherent d received n) :
    m.durableHardState = d.hardState ∧ m.durableLastLogIndex = d.log.length ∧
      m.durableCommitIndex = d.commitIndex ∧ (∀ e ∈ m.deferredEvents, e ∈ received) ∧
      m.config.nodeId ∈ m.config.members := by
  refine ⟨hm.durableHardState.trans h.hardState, hm.durableLastLogIndex.trans h.lastIndex,
    hm.durableCommitIndex.trans h.commitIndex, fun e he => ?_, by rw [hm.config]; exact h.self⟩
  rcases hm.deferred with hd | hd
  · exact h.deferred e (hd ▸ he)
  · simp [hd] at he

section

variable (plan : Plan n cause m batch k)
include plan

theorem Plan.becomes : ∃ hs l i, Becomes n m hs l i := by
  cases plan with
  | campaign _ _ core | adopt _ _ _ core | grant _ _ _ _ _ _ _ _ _ core | lead _ _ core
  | accept _ _ _ _ _ _ core | propose _ _ _ _ _ _ _ _ _ core | commit _ _ core =>
    exact ⟨_, _, _, core⟩

theorem Plan.promise (hcause : Caused received n cause) : Promise received m k := by
  cases plan with
  | adopt term k higher core role plain =>
    rcases plain with rfl | ⟨c, w, rfl⟩ | ⟨l, r, i, t, rfl⟩ <;> trivial
  | grant candidate request w heard pos named term_le free fresh core =>
    simp only [Promise, core.hardState]
  | accept s request heard named fits keeps core =>
    refine ⟨request, ?_, rfl, fits.matchIndex, ?_⟩
    · have := heard.1
      subst this
      rw [core.config]
      exact hcause
    · rw [core.log]
      exact contains_acceptedLog fits.indexed fits.prev_le fits.prev_term
  | _ => trivial

/-- Candidates and leaders have voted for themselves. -/
theorem Plan.vote
    (hvote : n.role = .candidate ∨ n.role = .leader → n.hardState.votedFor = some n.config.nodeId)
    (hm : m.role = .candidate ∨ m.role = .leader) :
    m.hardState.votedFor = some m.config.nodeId := by
  cases plan with
  | campaign hs new core => rw [core.hardState, core.config, new]
  | adopt term k higher core role => simp [role] at hm
  | grant candidate request w heard pos named term_le free fresh core role =>
    rcases role with role | ⟨hnone, role⟩
    · simp [role] at hm
    · rw [role] at hm
      exact absurd (hnone.symm.trans (hvote hm)) (by simp)
  | lead wins bound core =>
    rw [core.hardState, core.config]
    exact hvote (Or.inl wins.1)
  | accept s request heard named fits keeps core role => simp [role] at hm
  | propose token command asked old ready acceptable admits bound room core
  | commit target old core =>
    rw [core.hardState, core.config]
    exact hvote (Or.inr old)

theorem Plan.available (hn : n.role ≠ .unavailable) : m.role ≠ .unavailable := by
  cases plan with
  | grant _ _ _ _ _ _ _ _ _ _ role =>
    rcases role with role | ⟨-, role⟩
    · simp [role]
    · rwa [role]
  | campaign _ _ _ role | adopt _ _ _ _ role | lead _ _ _ role | accept _ _ _ _ _ _ _ role
  | propose _ _ _ _ _ _ _ _ _ _ role | commit _ _ _ role => simp [role]

end

theorem Status.vote (hs : Status n cause m) (hcore : SameCore n m)
    (hvote : n.role = .candidate ∨ n.role = .leader →
      n.hardState.votedFor = some n.config.nodeId)
    (hm : m.role = .candidate ∨ m.role = .leader) :
    m.hardState.votedFor = some m.config.nodeId := by
  rw [hcore.hardState, hcore.config]
  cases hs with
  | same role => exact hvote (by rwa [role] at hm)
  | tally _ _ _ _ _ old => exact hvote (Or.inl old)
  | follower role | unavailable role => simp [role] at hm

/-- **A reaction keeps node and storage together.** -/
theorem Coherent.react (h : Coherent d received n) (hr : n.role ≠ .unavailable)
    (hp : n.pendingStorage = none) (hcause : Caused received n cause)
    (o : Outcome n cause c c') : Coherent d received c'.node := by
  have hmem := h.ready hr hp
  cases o with
  | held hh =>
    obtain ⟨h₁, h₂, h₃, h₄, h₅⟩ := hh.core.keeps h
    refine ⟨h₁, h₂, h₃, h₄, h₅, hh.status.vote hh.core h.vote, ?_, ?_⟩
    · rw [hh.core.config, hh.core.memory]
      exact h.formed
    · by_cases hdown : c'.node.role = .unavailable
      · exact .down hdown hh.pending
      · exact .ready hdown hh.pending (hh.core.memory.trans hmem)
  | waits batch k opId plan pending =>
    obtain ⟨hs, l, i, hb⟩ := plan.becomes
    obtain ⟨h₁, h₂, h₃, h₄, h₅⟩ := hb.keeps h
    refine ⟨h₁, h₂, h₃, h₄, h₅, plan.vote h.vote, ?_, ?_⟩
    · rw [hb.config]
      exact plan.wellFormed h.formed h.self h.vote
    · refine .waiting _ (plan.available hr) pending ?_ (plan.promise hcause)
      rw [plan.memory_eq, hmem]
  | fails m batch k plan emits core pending role =>
    obtain ⟨hs, l, i, hb⟩ := plan.becomes
    obtain ⟨h₁, h₂, h₃, h₄, h₅⟩ := (hb.same core).keeps h
    refine ⟨h₁, h₂, h₃, h₄, h₅, fun hm => by simp [role] at hm, ?_, .down role pending⟩
    rw [(hb.same core).config, core.memory]
    exact plan.wellFormed h.formed h.self h.vote

/-- Every effect of a reaction is justified, the request to its storage apart. -/
theorem Outcome.emitted (o : Outcome n cause c c') {e : RaftEffect} (h : e ∈ c'.effects)
    (hp : ∀ p, e ≠ .persist p) : e ∈ c.effects ∨ EffectOk n cause e := by
  have hsplit : ∀ es, (∀ x ∈ es, EffectOk n cause x) → e ∈ c.effects ++ es →
      e ∈ c.effects ∨ EffectOk n cause e := by
    intro es hes hmem
    rcases List.mem_append.mp hmem with hmem | hmem
    · exact Or.inl hmem
    · exact Or.inr (hes _ hmem)
  cases o with
  | held hh =>
    obtain ⟨-, es, hes, hok⟩ := hh.emits
    exact hsplit es hok (hes ▸ h)
  | waits batch k opId plan pending thrown effects =>
    obtain ⟨es, hes, hok⟩ := effects
    refine hsplit es hok ?_
    rw [hes, ← List.append_assoc, List.mem_append] at h
    rcases h with h | h
    · exact h
    · exact absurd (List.mem_singleton.mp h) (hp _)
  | fails m batch k plan emits core pending role =>
    obtain ⟨-, es, hes, hok⟩ := emits
    exact hsplit es hok (hes ▸ h)

/-- The messages of a reaction are among its justified effects. -/
theorem Outcome.sent (o : Outcome n cause c c') {envelope : MessageEnvelope}
    (h : .send envelope ∈ c'.effects) : .send envelope ∈ c.effects ∨ SendOk n cause envelope :=
  (o.emitted h (by simp)).imp_right And.left

/-- The batch of a reaction is planned. -/
theorem Outcome.persisted (o : Outcome n cause c c') {p : PersistEffect}
    (h : .persist p ∈ c'.effects) :
    .persist p ∈ c.effects ∨ ∃ k, Plan n cause c'.node p.batch k := by
  have hold : Emits (EffectOk n cause) c c' → .persist p ∈ c.effects := by
    rintro ⟨-, es, hes, hok⟩
    rw [hes, List.mem_append] at h
    exact h.elim id fun hp => (hok _ hp).elim
  cases o with
  | held hh => exact Or.inl (hold hh.emits)
  | waits batch k opId plan pending thrown effects =>
    obtain ⟨es, hes, hok⟩ := effects
    rw [hes, List.mem_append, List.mem_append, List.mem_singleton] at h
    rcases h with h | h | h
    · exact Or.inl h
    · exact (hok _ h).elim
    · obtain rfl := RaftEffect.persist.inj h
      exact Or.inr ⟨k, plan⟩
  | fails m batch k plan emits => exact Or.inl (hold emits)

/-! ### Whole runs of one node -/

theorem coherent_create {config : RaftConfig} {s : RecoveredState}
    (h : RaftNode.create config s = .ok n) (received : Set RaftEvent) :
    Coherent s received n := by
  obtain ⟨⟨hmem, -, hform, -⟩, rfl⟩ := RaftNode.create_eq_ok.mp h
  refine ⟨rfl, rfl, rfl, by simp [RaftNode.ofRecovered], ?_, ?_, hform,
    .ready (by simp [RaftNode.ofRecovered]) rfl rfl⟩
  · simp only [RaftConfig.membershipValid, decide_eq_true_eq] at hmem
    exact hmem.2.2
  · rintro (h | h) <;> simp [RaftNode.ofRecovered] at h

/-- The durable state after an event: a successful completion writes the batch. -/
def durableAfter (d : RecoveredState) (n : RaftNode) (e : RaftEvent) : RecoveredState :=
  match n.pendingStorage, e with
  | some p, .storageComplete opId true _ => if p.opId = opId then d.write p.batch else d
  | _, _ => d

theorem durableAfter_of_completes {p : PendingStorage} (h : Completes n e p true) :
    durableAfter d n e = d.write p.batch := by
  obtain ⟨hp, error, rfl⟩ := h
  simp [durableAfter, hp]

theorem durableAfter_of_not_completes (h : ∀ p, ¬Completes n e p true) :
    durableAfter d n e = d := by
  unfold durableAfter
  split
  · next p opId error hp =>
    rw [if_neg]
    rintro rfl
    exact h p ⟨hp, error, rfl⟩
  · rfl

theorem Coherent.mono (h : Coherent d received n) {received' : Set RaftEvent}
    (hsub : ∀ e ∈ received, e ∈ received') : Coherent d received' n := by
  refine { h with deferred := fun e he => hsub e (h.deferred e he), phase := ?_ }
  cases h.phase with
  | ready available pending memory => exact .ready available pending memory
  | down stopped pending => exact .down stopped pending
  | waiting p available pending memory promise =>
    refine .waiting p available pending memory ?_
    generalize p.afterSuccess = k at promise ⊢
    cases k with
    | appendAccept leader rpcId matchIndex apply =>
      obtain ⟨request, hreq, hrest⟩ := promise
      exact ⟨request, hsub _ hreq, hrest⟩
    | voteReply candidate grant w =>
      cases grant with
      | true => exact promise
      | false => trivial
    | _ => trivial

/-- A batch that storage confirms: what was in memory is now durable. -/
theorem Coherent.complete (h : Coherent d received n) {p : PendingStorage}
    (hp : n.pendingStorage = some p) :
    Coherent (d.write p.batch) received
      (Ctx.markDurable { node := { n with pendingStorage := none } } p.batch).node ∧
      n.role ≠ .unavailable ∧ Promise received n p.afterSuccess := by
  cases h.phase with
  | ready _ pending | down _ pending => exact absurd (hp.symm.trans pending) (by simp)
  | waiting q available pending memory promise =>
    obtain rfl : p = q := by simpa [hp] using pending
    refine ⟨⟨?_, ?_, ?_, h.deferred, h.self, h.vote, h.formed, .ready available rfl memory⟩,
      available, promise⟩
    · simp only [Ctx.markDurable, RecoveredState.write, h.hardState]
    · rw [← memory]
      simp only [Ctx.markDurable, RaftNode.memory_log, RaftNode.lastLogIndex]
      split_ifs with hlog
      · rfl
      · have hsame : n.log = d.log := by
          have := congrArg RecoveredState.log memory
          simp only [Bool.or_eq_true, not_or, Bool.not_eq_true, Option.isSome_eq_false_iff,
            Option.isNone_iff_eq_none, Bool.not_eq_false', List.isEmpty_iff] at hlog
          simpa [RecoveredState.write, hlog.1, hlog.2] using this
        rw [h.lastIndex, hsame]
    · simp only [Ctx.markDurable, RecoveredState.write, h.commitIndex]

/-- A transition in progress that has not broken the gate. -/
structure Gated (d : RecoveredState) (received : Set RaftEvent) (c : Ctx) : Prop where
  coherent : Coherent d received c.node
  thrown : c.thrown = none
  sends : ∀ envelope, .send envelope ∈ c.effects →
    envelope.sender = c.node.config.nodeId ∧ Gate d received envelope

theorem Outcome.config (o : Outcome n cause c c') : c'.node.config = n.config := by
  cases o with
  | held hh => exact hh.core.config
  | waits _ _ _ plan =>
    obtain ⟨_, _, _, hb⟩ := plan.becomes
    exact hb.config
  | fails m _ _ plan _ core =>
    obtain ⟨_, _, _, hb⟩ := plan.becomes
    exact (hb.same core).config

/-- A node keeps its configuration. -/
theorem RaftNode.step_config (n : RaftNode) (e : RaftEvent) :
    (n.step e).node.config = n.config := by
  have h : StepRule (fun c => c.node.config = n.config) n e :=
    { noise := fun _ c hc _ => by rw [hc]
      defers := fun _ _ => rfl
      fails := fun p _ detail => by rw [Ctx.failStorage_node]
      completes := fun p _ => (outcome_resume _ rfl _).config
      dispatches := fun hp _ => (outcome_dispatch _ hp e).config
      pops := fun c e' rest hc hp _ _ => (outcome_dispatch (c.pop rest) hp e').config.trans hc }
  exact h.step

theorem Outcome.upholds (o : Outcome n cause c c') : n.memory.Upholds c'.node.memory := by
  cases o with
  | held h =>
    rw [h.core.memory]
    exact .refl _
  | waits batch k opId plan => exact ⟨plan.forward.2.2, plan.take_commitIndex⟩
  | fails m batch k plan emits core =>
    rw [core.memory]
    exact ⟨plan.forward.2.2, plan.take_commitIndex⟩

/-- **A running node upholds what it has committed**, before it is durable too. -/
theorem RaftNode.step_upholds (n : RaftNode) (e : RaftEvent) :
    n.memory.Upholds (n.step e).node.memory := by
  have h : StepRule (fun c => n.memory.Upholds c.node.memory) n e :=
    { noise := fun _ c hc _ => by rw [hc]; exact .refl _
      defers := fun _ _ => .refl _
      fails := fun p _ detail => by rw [Ctx.failStorage_node]; exact .refl _
      completes := fun p _ => (outcome_resume ((Ctx.markDurable
        { node := { n with pendingStorage := none } } p.batch).trace
          .storageComplete "storage operation completed" 0) rfl _).upholds
      dispatches := fun hp _ => (outcome_dispatch { node := n } hp e).upholds
      pops := fun c e' rest hc hp _ _ => hc.trans (outcome_dispatch (c.pop rest) hp e').upholds }
  exact h.step

theorem Gated.react (h : Gated d received c) (hr : c.node.role ≠ .unavailable)
    (hp : c.node.pendingStorage = none) (o : Outcome c.node cause c c')
    (hcause : Caused received c.node cause) : Gated d received c' := by
  refine ⟨h.coherent.react hr hp hcause o, ?_, fun envelope hs => ?_⟩
  · cases o with
    | held hh => exact hh.emits.1.trans h.thrown
    | waits _ _ _ _ _ thrown => exact thrown.trans h.thrown
    | fails _ _ _ _ emits => exact emits.1.trans h.thrown
  · rw [o.config]
    rcases o.sent hs with hs | hs
    · exact h.sends envelope hs
    · exact ⟨hs.1, h.coherent.gate (h.coherent.ready hr hp) hcause hs⟩

/-- Traces, timers and refusals are no messages. -/
theorem tolerant_not_send : Tolerant fun e => ∀ envelope, e ≠ .send envelope :=
  ⟨fun _ _ _ => by simp, fun _ _ => by simp, fun _ _ _ => by simp⟩

theorem not_sent_of_emits (he : Emits (fun e => ∀ envelope, e ≠ .send envelope) { node := n } c)
    (envelope : MessageEnvelope) : .send envelope ∉ c.effects := by
  obtain ⟨-, es, hes, hok⟩ := he
  intro hmem
  rw [hes, List.nil_append] at hmem
  exact hok _ hmem envelope rfl

/-- Nor are they batches. -/
theorem tolerant_not_persist : Tolerant fun e => ∀ p, e ≠ .persist p :=
  ⟨fun _ _ _ => by simp, fun _ _ => by simp, fun _ _ _ => by simp⟩

theorem not_persist_of_emits (he : Emits (fun e => ∀ p, e ≠ .persist p) { node := n } c)
    (p : PersistEffect) : .persist p ∉ c.effects := by
  obtain ⟨-, es, hes, hok⟩ := he
  rw [hes, List.nil_append]
  exact fun hp => hok _ hp p rfl

theorem gated_failStorage (h : Coherent d received n) (detail : String) :
    Gated d received (Ctx.failStorage { node := { n with pendingStorage := none } } detail) where
  coherent := by
    rw [Ctx.failStorage_node]
    refine { h with deferred := by simp, vote := ?_, phase := .down rfl rfl }
    rintro (hr | hr) <;> simp at hr
  thrown := (tolerant_not_send.failed (Emits.refl _)).1
  sends envelope hs :=
    absurd hs (not_sent_of_emits (tolerant_not_send.failed (Emits.refl _)) envelope)

/-- An event leaves the queue. -/
theorem Gated.pop {rest : List RaftEvent} (h : Gated d received c) (hr : c.node.role ≠ .unavailable)
    (hp : c.node.pendingStorage = none) (hrest : c.node.deferredEvents = e :: rest) :
    Gated d received (c.pop rest) := by
  obtain ⟨hco, ht, hs⟩ := h
  refine ⟨{ hco with deferred := fun x hx => ?_, phase := .ready hr hp (hco.ready hr hp) }, ht, hs⟩
  exact hco.deferred x (hrest ▸ List.mem_cons_of_mem _ hx)

/-- **Every step keeps the gate.** -/
theorem Coherent.stepRule (h : Coherent d received n) (e : RaftEvent) :
    StepRule (Gated (durableAfter d n e) (insert e received)) n e where
  noise hne c hc he := by
    rw [durableAfter_of_not_completes fun p => hne p true]
    refine ⟨?_, (he _ tolerant_not_send).1, fun envelope hs => ?_⟩
    · rw [hc]
      exact h.mono fun x hx => Set.mem_insert_of_mem _ hx
    · exact absurd hs (not_sent_of_emits (he _ tolerant_not_send) envelope)
  defers hne hp := by
    rw [durableAfter_of_not_completes fun p => hne p true]
    have h' : Coherent d (insert e received) n := h.mono fun x hx => Set.mem_insert_of_mem _ hx
    refine ⟨{ h' with deferred := fun x hx => ?_, phase := ?_ }, rfl, by simp⟩
    · rcases List.mem_append.mp hx with hx | hx
      · exact h'.deferred x hx
      · obtain rfl : x = e := by simpa using hx
        exact Set.mem_insert _ _
    · cases h'.phase with
      | ready available pending memory => exact .ready available pending memory
      | waiting p available pending memory promise =>
        exact .waiting p available pending memory promise
      | down stopped pending => exact .down stopped pending
  fails p hc detail := by
    rw [durableAfter_of_not_completes]
    · exact gated_failStorage (h.mono fun x hx => Set.mem_insert_of_mem _ hx) detail
    · rintro q ⟨hq, error, he⟩
      obtain ⟨hp, error', he'⟩ := hc
      rw [he'] at he
      simp at he
  completes p hc := by
    rw [durableAfter_of_completes hc]
    have h' : Coherent d (insert e received) n := h.mono fun x hx => Set.mem_insert_of_mem _ hx
    obtain ⟨hco, hr, hpromise⟩ := h'.complete hc.1
    have hgated : Gated (d.write p.batch) (insert e received)
        ((Ctx.markDurable { node := { n with pendingStorage := none } } p.batch).trace
          .storageComplete "storage operation completed" 0) := by
      refine ⟨hco, rfl, fun envelope hs => ?_⟩
      simp [Ctx.markDurable, Ctx.trace, Ctx.emit] at hs
    exact hgated.react hr rfl (outcome_resume _ rfl _) hpromise
  dispatches hp hr := by
    have hno : ∀ p, ¬Completes n e p true := fun p hc => by simp [Completes, hp] at hc
    rw [durableAfter_of_not_completes hno]
    have hgated : Gated d (insert e received) { node := n } :=
      ⟨h.mono fun x hx => Set.mem_insert_of_mem _ hx, rfl, by simp⟩
    exact hgated.react hr hp (outcome_dispatch _ hp e) (Set.mem_insert _ _)
  pops c e' rest hc hp hr hrest := by
    exact (hc.pop hr hp hrest).react hr hp (outcome_dispatch (c.pop rest) hp e')
      (hc.coherent.deferred e' (by simp [hrest]))

end Coherent

end DetLog
