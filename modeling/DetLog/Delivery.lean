import DetLog.Codec.Roundtrip
import DetLog.InFlight
import DetLog.Raft.Proper

/-!
# What is sent can be delivered

The size of an append is computed four times, by code that is written separately: the sender
packs entries until its limit is reached, a busy receiver filters what it defers, an idle one
validates what it examines, and the wire format counts the bytes. The first three charge an
entry with `DetLog.entryBytes`, which is an upper bound for its encoding
(`DetLog.length_entryWire_le`), so what the sender packs passes the other three.

The messages on the network are sound (`DetLog.Cluster.sent_sound`): they state what
`DetLog.SendOk` says about the log of the sender, and they are proper. A sound message has an
encoding within the limits of the codec, and an append passes the checks of every receiver
(`DetLog.Cluster.sent_deliverable`). The lengths on the wire are 32-bit numbers, which the
limits of a node are not; a node that is allowed more than that emits messages that have no
encoding (`DetLog.Cluster.sent_too_wide`).
-/

namespace DetLog

open Codec Wire

/-! ### Sizes -/

section Sizes

variable {e : LogEntry} {entries : List LogEntry} {limit bytes : ℕ}

theorem length_commandWire (command : ClientCommand) :
    (commandWire command).length = 33 + command.key.length + command.value.length := by
  simp only [commandWire, stringWire, List.length_append, length_beBytes, List.length_singleton]
  omega

/-- **An entry is charged with at least its encoding**, unless the charge is saturated. -/
theorem length_entryWire_le (h : entryBytes e < maxU64) :
    (entryWire e).length ≤ entryBytes e := by
  obtain ⟨index, term, command⟩ := e
  simp only [entryWire, boolWire, List.length_append, length_beBytes, List.length_singleton]
  cases command with
  | none => simp [entryBytes, kEntryOverhead]
  | some command =>
    simp only [entryBytes] at h ⊢
    split_ifs at h ⊢
    · exact absurd h (lt_irrefl _)
    · simp only [Option.elim_some, length_commandWire, kEntryOverhead]
      omega

/-- What is packed fits. -/
theorem length_packed_le (hlimit : limit < maxU64) (hbytes : bytes ≤ limit)
    (packed : packEntries limit entries bytes = entries) :
    bytes + (entries.flatMap entryWire).length ≤ limit := by
  induction entries generalizing bytes with
  | nil => simpa using hbytes
  | cons e rest ih =>
    rw [packEntries] at packed
    split_ifs at packed with hlarge
    have hentry := length_entryWire_le (e := e) (by omega)
    have hrest : bytes + entryBytes e + (rest.flatMap entryWire).length ≤ limit :=
      ih (by omega) (List.cons.inj packed).2
    rw [List.flatMap_cons, List.length_append]
    omega

theorem length_appendEntriesWire (r : AppendEntries) :
    (appendEntriesWire r).length = 48 + (r.entries.flatMap entryWire).length := by
  simp only [appendEntriesWire, List.length_append, length_beBytes]
  omega

/-- A busy receiver defers what an idle one accepts. -/
theorem deferrableFrom_of_valid {g : RaftConfig} {T expected : ℕ}
    (h : entriesValidFrom g T entries expected bytes = true)
    (hbytes : bytes ≤ g.maxAppendBytesPerRpc) : deferrableFrom g entries bytes = true := by
  induction entries generalizing expected bytes with
  | nil => rfl
  | cons e rest ih =>
    rw [entriesValidFrom] at h
    split_ifs at h with hmax hlarge hbad
    push Not at hbad
    rw [deferrableFrom, Nat.min_eq_right hbytes, if_neg hlarge, if_neg hbad.2.2.2]
    exact ih h (by omega)

theorem consecutiveFrom_of_indexed {k : ℕ} (h : IndexedFrom k entries)
    (bound : k + entries.length ≤ maxU64) : consecutiveFrom (k + 1) entries = true := by
  induction entries generalizing k with
  | nil => rfl
  | cons e rest ih =>
    obtain ⟨hidx, hrest⟩ := indexedFrom_cons.mp h
    rw [List.length_cons] at bound
    rw [consecutiveFrom, if_neg (not_not.mpr hidx)]
    split_ifs with hmax
    · exact ih hrest (by omega)
    · obtain rfl : rest = [] := List.length_eq_zero_iff.mp (by omega)
      rfl

end Sizes

/-! ### Sound messages -/

/-- A pointer into a log: there is no term before the first entry, and there is one behind it. -/
theorem validLogPointer_termAt {log : List LogEntry} {i : ℕ} (hi : i ≤ log.length)
    (pos : ∀ e ∈ log, e.term ≠ 0) : validLogPointer i (termAt log i) = true := by
  cases i with
  | zero => rfl
  | succ i =>
    have hget : entryAt log (i + 1) = some (log.get ⟨i, hi⟩) := by
      rw [entryAt, if_neg (by omega)]
      exact List.getElem?_eq_getElem hi
    have hne : termAt log (i + 1) ≠ 0 := by
      rw [termAt, hget]
      exact pos _ (List.get_mem _ _)
    simp [validLogPointer, hne]

/-- **An append is sound**: any node with these limits can examine it. -/
structure AppendEntries.Sound (config : RaftConfig) (r : AppendEntries) : Prop where
  term : r.term ≠ 0
  leader : r.leaderId ∈ config.members
  id : r.rpcId ≠ 0
  pointer : validLogPointer r.prevLogIndex r.prevLogTerm = true
  count : r.entries.length ≤ config.maxAppendEntriesPerRpc
  packed : packEntries config.maxAppendBytesPerRpc r.entries kAppendRpcOverhead = r.entries
  indexed : IndexedFrom r.prevLogIndex r.entries
  entries : ∀ e ∈ r.entries, e.term ≠ 0 ∧ e.term ≤ r.term ∧ entryAcceptable config e = true
  bound : r.prevLogIndex + r.entries.length ≤ maxU64

/-- **A message is sound.** -/
def Message.Sound (config : RaftConfig) : Message → Prop
  | .requestVote r => r.term ≠ 0 ∧ r.candidateId ∈ config.members ∧
      validLogPointer r.lastLogIndex r.lastLogTerm = true
  | .requestVoteResponse r => r.term ≠ 0
  | .appendEntries r => r.Sound config
  | .appendEntriesResponse r => r.term ≠ 0 ∧ r.rpcId ≠ 0

/-- The limits of the codec have room for what the nodes are allowed. -/
structure Accommodates (limits : Limits) (config : RaftConfig) : Prop where
  entries : config.maxAppendEntriesPerRpc ≤ limits.maxEntriesPerAppend
  key : config.maxKeyBytes ≤ limits.maxKeyBytes
  value : config.maxValueBytes ≤ limits.maxValueBytes
  frame : config.maxAppendBytesPerRpc ≤ limits.maxFrameBytes

section Sound

variable {config : RaftConfig} {limits : Limits}

/-- The core and the codec have the same rules for a command. -/
theorem validCommandSemantics_eq (command : ClientCommand) :
    validCommandSemantics command = KvStateMachine.structurallyValid command := by
  obtain ⟨session, sequence, kind, key, value⟩ := command
  unfold validCommandSemantics KvStateMachine.structurallyValid
  cases kind <;> cases key <;> by_cases hs : sequence = 0 <;> simp [hs]

/-- An acceptable entry that is charged with less than a length on the wire can be written. -/
theorem entryOk_of_acceptable {e : LogEntry} (hroom : Accommodates limits config)
    (index : e.index ≠ 0) (term : e.term ≠ 0) (acceptable : entryAcceptable config e = true)
    (small : (entryWire e).length ≤ maxU32) : Codec.EntryOk limits e := by
  refine ⟨index, term, fun command hc => ?_⟩
  rw [entryAcceptable, hc] at acceptable
  simp only [commandAcceptable, commandSizeWithin, Bool.and_eq_true, decide_eq_true_eq]
    at acceptable
  obtain ⟨hvalid, hkey, hvalue, -⟩ := acceptable
  have hlength : command.key.length + command.value.length ≤ maxU32 := by
    simp only [entryWire, hc, Option.elim_some, List.length_append, length_commandWire] at small
    omega
  exact ⟨validCommandSemantics_eq command ▸ hvalid, ⟨hkey.trans hroom.key, by omega⟩,
    ⟨hvalue.trans hroom.value, by omega⟩⟩

/-- **A sound append can be written.** -/
theorem AppendEntries.Sound.appendEntriesOk {r : AppendEntries} (h : r.Sound config)
    (ids : 0 ∉ config.members) (hroom : Accommodates limits config)
    (hpayload : (appendEntriesWire r).length ≤ maxU32) : AppendEntriesOk limits r := by
  rw [length_appendEntriesWire] at hpayload
  have hmin := le_length_flatMap_entryWire r.entries
  rw [kMinimumEntryPayloadBytes] at hmin
  refine ⟨h.term, fun hzero => ids (hzero ▸ h.leader), h.id, h.pointer,
    ⟨h.count.trans hroom.entries, by omega⟩, ?_, ?_⟩
  · unfold consecutiveEntries
    have hbound := h.bound
    split_ifs with hempty hmax
    · rfl
    · rw [List.isEmpty_iff, ← List.length_eq_zero_iff] at hempty
      omega
    · exact consecutiveFrom_of_indexed h.indexed hbound
  · intro e he
    obtain ⟨hterm, -, hacc⟩ := h.entries e he
    have hindex : e.index ≠ 0 := by
      obtain ⟨i, hi⟩ := List.getElem?_of_mem he
      have := h.indexed i e hi
      omega
    have hle : (entryWire e).length ≤ (r.entries.flatMap entryWire).length := by
      obtain ⟨front, back, hsplit⟩ := List.append_of_mem he
      rw [hsplit, List.flatMap_append, List.flatMap_cons, List.length_append, List.length_append]
      omega
    exact entryOk_of_acceptable hroom hindex hterm hacc (by omega)

/-- The payload of a sound message, behind the header, is within the limit of an append. -/
theorem Message.Sound.length_le {m : Message} (h : m.Sound config)
    (bounds : kAppendRpcOverhead < config.maxAppendBytesPerRpc)
    (wide : config.maxAppendBytesPerRpc < maxU64) :
    kHeaderBytes + (messageWire m).length ≤ config.maxAppendBytesPerRpc := by
  have hoverhead : kAppendRpcOverhead = 64 := rfl
  have hheader : kHeaderBytes = 12 := rfl
  cases m with
  | appendEntries r =>
    have hpacked := length_packed_le wide bounds.le h.packed
    rw [messageWire, length_appendEntriesWire]
    omega
  | _ =>
    simp only [messageWire, boolWire, List.length_append, length_beBytes, List.length_singleton]
    omega

/-- **A sound message has an encoding**, and that of an append is within its limit. -/
theorem Message.Sound.encodes {m : Message} (h : m.Sound config) (ids : 0 ∉ config.members)
    (hroom : Accommodates limits config)
    (bounds : kAppendRpcOverhead < config.maxAppendBytesPerRpc)
    (wide : config.maxAppendBytesPerRpc ≤ kHeaderBytes + maxU32) :
    ∃ bytes, encodeMessage m limits = .ok bytes ∧
      bytes.length ≤ config.maxAppendBytesPerRpc := by
  have hlength := h.length_le bounds (wide.trans_lt (by decide))
  have hframe := hroom.frame
  have hpayload : (messageWire m).length ≤ maxU32 := by omega
  refine ⟨frameWire (messageType m) (messageWire m), encodeMessage_eq_ok.mpr ⟨?_, ?_, ?_, rfl⟩, ?_⟩
  · cases m with
    | requestVote r => exact ⟨h.1, fun hzero => ids (hzero ▸ h.2.1), h.2.2⟩
    | requestVoteResponse r => exact h
    | appendEntries r => exact AppendEntries.Sound.appendEntriesOk h ids hroom hpayload
    | appendEntriesResponse r => exact h
  · omega
  · rw [payloadLimit, if_neg (by omega)]
    exact le_min (by omega) hpayload
  · rw [length_frameWire]
    exact hlength

end Sound

/-! ### The cluster -/

section Cluster

variable {config : RaftConfig} {S : Cluster} {i : NodeId} {n : RaftNode} {m : MessageEnvelope}

/-- The limits of a message are those of every node. -/
theorem Message.proper_forNode {message : Message} :
    message.Proper (config.forNode i).sorted ↔ message.Proper config := by
  cases message <;> exact Iff.rfl

theorem proper_create {recovered : RecoveredState}
    (hn : RaftNode.create config recovered = .ok n) : Ctx.Proper config.sorted { node := n } := by
  obtain ⟨-, rfl⟩ := RaftNode.create_eq_ok.mp hn
  exact ⟨rfl, by simp [Ctx.sends], fun _ hp => (nomatch hp), fun _ he => (nomatch he)⟩

theorem proper_start {g : RaftConfig} (h : Ctx.Proper g { node := n }) :
    n.start.sends = [] ∧ Ctx.Proper g { node := n.start.node } := by
  rcases start_cases n with heq | heq <;> rw [heq]
  · exact ⟨rfl, h⟩
  · exact ⟨by simp [Ctx.sends], h.config, h.sent, h.owed, h.queue⟩

/-- **A proper message of a running node is sound**: it speaks about a well-formed log. -/
theorem Running.sound {h : Chronicle} {d : RecoveredState} {disk : Disk} {e : RaftEvent}
    (hn : Running config S h i d disk n) (hm : .send m ∈ (n.step e).effects)
    (hproper : m.message.Proper config) : m.message.Sound config := by
  obtain ⟨n₁, cause, steady, hsender, hok⟩ := hn.coherent.sends e hm
  have hformed := hn.coherent.formed
  have hlog : n₁.log = n.log := congrArg RecoveredState.log steady.memory
  have hterm : n₁.currentTerm = n.currentTerm :=
    congrArg (fun s => s.hardState.currentTerm) steady.memory
  have hself : n₁.config.nodeId ∈ config.members := by
    have hmem := hn.coherent.self
    rw [steady.config]
    rwa [hn.members, RaftConfig.sorted, List.mem_insertionSort] at hmem
  have hpos : ∀ e ∈ n.log, e.term ≠ 0 := fun e he => (hformed.entries e he).1
  cases hmessage : m.message with
  | requestVote r =>
    rw [hmessage] at hok hproper
    obtain ⟨-, -, -, hcandidate, hindex, hlast⟩ := hok
    refine ⟨hproper, hcandidate ▸ hself, ?_⟩
    rw [hlast, hindex, hlog]
    exact validLogPointer_termAt steady.durable hpos
  | requestVoteResponse r | appendEntriesResponse r =>
    rw [hmessage] at hproper
    exact hproper
  | appendEntries r =>
    rw [hmessage] at hok hproper
    obtain ⟨hrole, hr, hleader, hprev, hentries, hlen, -⟩ := hok
    rw [hlog] at hprev hentries
    have hbound := hlen.trans steady.durable
    have hvote := hn.coherent.vote (Or.inr (steady.lead hrole))
    refine ⟨?_, hleader ▸ hself, hproper.1, ?_, hproper.2.1, hproper.2.2, ?_, ?_,
      hbound.trans hformed.length_le⟩
    · rw [hr, hterm]
      exact (hformed.vote _ hvote).1
    · rw [hprev]
      exact validLogPointer_termAt (le_of_add_le_left hbound) hpos
    · have hdrop := hformed.indexed.drop r.prevLogIndex
      rw [Nat.zero_add] at hdrop
      rw [hentries]
      exact hdrop.of_isPrefix <| List.take_prefix _ _
    · intro e he
      rw [hentries] at he
      obtain ⟨hne, hle, hacc⟩ := hformed.entries e (List.mem_of_mem_drop (List.mem_of_mem_take he))
      rw [hn.config_eq] at hacc
      exact ⟨hne, hle.trans_eq (hterm.symm.trans hr.symm), hacc⟩

/-- **Everything that is said in the cluster is sound**, and the limits that the constructor
checks are valid if anything is said. -/
theorem Cluster.sent_sound (hS : Reachable config S) (hm : m ∈ S.sent) :
    m.message.Sound config ∧ config.boundsValid = true := by
  have rule : NodeRule config
      (fun _ i n => Ctx.Proper (config.forNode i).sorted { node := n })
      fun m => m.message.Proper config ∧ m.message.Sound config ∧ config.boundsValid = true := by
    refine ⟨fun _ h => h, fun created => proper_create created, fun h => ?_, ?_⟩
    · obtain ⟨hsends, hnext⟩ := proper_start h
      exact ⟨by simp [hsends], hnext⟩
    · intro S S₀ i n e host hS hsent feeds on h
      have he : e.Proper (config.forNode i).sorted := by
        cases feeds with
        | deliver envelope sent => exact Message.proper_forNode.mpr (hsent envelope sent).1
        | _ => trivial
      have hstep := proper_step h he
      obtain ⟨_, hr⟩ := exists_related hS
      refine ⟨fun m hm => ?_, hstep.config, by simp [Ctx.sends], hstep.owed, hstep.queue⟩
      have hproper := Message.proper_forNode.mp (hstep.sent m hm)
      refine ⟨hproper, (hr.on on).sound (mem_sends hm) hproper, ?_⟩
      have hbounds := (poised hS on).bounds
      rwa [(hr.on on).config_eq] at hbounds
  exact ((rule.reachable hS).1 m hm).2

/-- **Everything a node sends is deliverable.** If the members have identifiers other than zero,
the limits of the codec have room for those of the nodes, and an append is no longer than a
frame can be, then every message of every run has an encoding, an append is encoded within its
limit, and it passes the filter of every busy receiver and the validation of every other one. -/
theorem Cluster.sent_deliverable {limits : Limits} (ids : 0 ∉ config.members)
    (hroom : Accommodates limits config)
    (wide : config.maxAppendBytesPerRpc ≤ kHeaderBytes + maxU32) (hS : Reachable config S) :
    ∀ m ∈ S.sent, ∃ bytes, encodeMessage m.message limits = .ok bytes ∧
      ∀ r, m.message = .appendEntries r → bytes.length ≤ config.maxAppendBytesPerRpc ∧
        ∀ j n, S.node j = some n →
          (n.pendingStorage.isSome →
            n.step (.messageReceived m) = n.defer (.messageReceived m)) ∧
          (decide (r.entries.length ≤ n.config.maxAppendEntriesPerRpc) &&
            entriesValidFrom n.config r.term r.entries r.prevLogIndex kAppendRpcOverhead) =
              true := by
  intro m hm
  obtain ⟨hsound, hbounds⟩ := sent_sound hS hm
  have hoverhead : kAppendRpcOverhead < config.maxAppendBytesPerRpc := by
    simp only [RaftConfig.boundsValid, decide_eq_true_eq] at hbounds
    exact hbounds.2.2.2.2.2.2.2.2.1
  obtain ⟨bytes, hencode, hlength⟩ := hsound.encodes ids hroom hoverhead wide
  refine ⟨bytes, hencode, fun r hr => ⟨hlength, fun j n hn => ?_⟩⟩
  rw [hr] at hsound
  obtain ⟨_, hrel⟩ := exists_related hS
  have hvalid : entriesValidFrom n.config r.term r.entries r.prevLogIndex kAppendRpcOverhead =
      true := by
    rw [(hrel.on hn).config_eq]
    exact entriesValidFrom_of_packed hsound.indexed hsound.entries hsound.bound hsound.packed
  have hcount : r.entries.length ≤ n.config.maxAppendEntriesPerRpc := by
    rw [(hrel.on hn).config_eq]
    exact hsound.count
  have hdefer : deferrableFrom n.config r.entries kAppendRpcOverhead = true := by
    refine deferrableFrom_of_valid hvalid ?_
    rw [(hrel.on hn).config_eq]
    exact hoverhead.le
  refine ⟨fun waits => ?_, by rw [decide_eq_true hcount, hvalid]; rfl⟩
  obtain ⟨sender, target, message⟩ := m
  obtain rfl := hr
  show (if n.pendingStorage.isSome then _ else _) = _
  rw [if_pos waits]
  exact if_pos ⟨hcount, hdefer⟩

/-- The run that elects a leader: it has sent an append. -/
theorem Cluster.sent_deliverable_elect :
    (0 ∉ Sample.config.members ∧ Accommodates {} Sample.config) ∧
      (∃ m ∈ (after Sample.config Sample.elect).sent, ∃ r, m.message = .appendEntries r) ∧
      ∀ m ∈ (after Sample.config Sample.elect).sent,
        ∃ bytes, encodeMessage m.message {} = .ok bytes := by
  have hroom : Accommodates {} Sample.config := ⟨by decide, by decide, by decide, by decide⟩
  refine ⟨⟨by decide, hroom⟩, ⟨⟨1, 2, .appendEntries ⟨1, 1, 1, 0, 0, [⟨1, 1, none⟩], 0⟩⟩,
    by decide +kernel, _, rfl⟩, fun m hm => ?_⟩
  obtain ⟨bytes, hbytes, -⟩ := sent_deliverable (by decide) hroom (by decide)
    (reachable_after (by decide +kernel)) m hm
  exact ⟨bytes, hbytes⟩

end Cluster

/-! ### Taking a command -/

section Propose

variable {n : RaftNode} {token : ClientToken} {command : ClientCommand} {c c' : Ctx}

/-- A leader that can take a command at once. -/
structure RaftNode.Takes (n : RaftNode) (command : ClientCommand) : Prop where
  free : n.pendingStorage = none
  queue : n.deferredEvents = []
  role : n.role = .leader
  ready : n.leaderReady = true
  acceptable : commandAcceptable n.config command = true
  unknown : n.stateMachine.session command.session = none
  first : command.sequence = 1
  fresh : n.pendingSessions.find command.session = none
  bound : n.lastLogIndex ≠ maxU64
  room : n.canAppendClient (n.nextEntry (some command)) = true
  id : n.nextStorageOpId ≠ 0

/-- The leader after it has taken the command. -/
def RaftNode.proposing (n : RaftNode) (token : ClientToken) (command : ClientCommand) : RaftNode :=
  { n with
    log := n.log ++ [n.nextEntry (some command)]
    pendingSessions := n.pendingSessions.insert command.session
      (n.nextEntry (some command)).index
    pendingClients := n.pendingClients.insert (n.nextEntry (some command)).index
      { command, digest := KvStateMachine.commandDigest command, waiters := [token] }
    nextStorageOpId := incU64 n.nextStorageOpId
    pendingStorage := some
      ⟨n.nextStorageOpId, entryBatch (n.nextEntry (some command)), .clientAppended⟩ }

/-- **A command that is taken goes to storage.** -/
theorem RaftNode.Takes.step (h : n.Takes command) (token : ClientToken) :
    (n.step (.clientRequest token command)).node = n.proposing token command ∧
      (n.step (.clientRequest token command)).persisted =
        some ⟨n.nextStorageOpId, entryBatch (n.nextEntry (some command))⟩ := by
  have hdispatch : Ctx.dispatch { node := n } (.clientRequest token command) =
      (Ctx.trace { node := { n with
        log := n.log ++ [n.nextEntry (some command)]
        pendingSessions := n.pendingSessions.insert command.session
          (n.nextEntry (some command)).index
        pendingClients := n.pendingClients.insert (n.nextEntry (some command)).index
          { command, digest := KvStateMachine.commandDigest command, waiters := [token] } } }
        .logChange "appended client command" (n.nextEntry (some command)).index).startPersist
        (entryBatch (n.nextEntry (some command))) .clientAppended := by
    simp only [Ctx.dispatch, Ctx.onClientRequest, Ctx.joinPending, Ctx.admitClient]
    simp only [h.role, h.ready, h.acceptable, h.unknown, h.first, h.fresh, h.room, h.bound]
    rfl
  have hnode : (Ctx.dispatch { node := n } (.clientRequest token command)).node =
      n.proposing token command := by
    rw [hdispatch, startPersist_of_free (by exact h.free) (by exact h.id)]
    rfl
  have hstep : n.step (.clientRequest token command) =
      Ctx.dispatch { node := n } (.clientRequest token command) :=
    step_eq_dispatch ⟨h.free, by simp [h.role]⟩ (fun he => he)
      (Or.inl (by rw [hnode]; exact h.queue))
  rw [hstep]
  refine ⟨hnode, ?_⟩
  rw [hdispatch, Ctx.startPersist, if_neg (by simp [h.free]), if_neg (by exact h.id)]
  rfl

/-- **What is appended is sent**: a leader whose entry is durable sends it to its first peer. -/
theorem sends_of_clientAppended {p : PendingStorage} {s : NodeId} {rest : List NodeId}
    {q : PeerProgress} (pending : n.pendingStorage = some p)
    (waits : p.afterSuccess = .clientAppended) (queue : n.deferredEvents = [])
    (hprepared : Prepared (n.marked p).node)
    (hcommit : (n.marked p).node.commitIndex ≤ (n.marked p).node.log.length)
    (first : (n.marked p).node.peers.keys = s :: rest)
    (found : (n.marked p).node.peers.find s = some q) (idle : q.inflight = none)
    (id : n.nextRpcId ≠ 0) (error : String) :
    ({ sender := n.config.nodeId, target := s,
       message := .appendEntries ((n.marked p).node.appendTo q) } : MessageEnvelope) ∈
      (n.step (.storageComplete p.opId true error)).sends := by
  have hsettled : ((n.marked p).resume p.afterSuccess).node.deferredEvents = [] ∨
      ((n.marked p).resume p.afterSuccess).node.role = .unavailable := by
    rcases hprepared.resume rfl hcommit p.afterSuccess with ⟨hup, -⟩ | hspent
    · exact Or.inl (hup.deferred.trans queue)
    · exact Or.inr hspent.1
  rw [step_eq_resume pending hsettled error, waits]
  have hresume : (n.marked p).resume .clientAppended =
      (n.marked p).sendAllAppends.maybeAdvanceCommit := if_neg (by simp [hprepared.role])
  obtain ⟨hlt, hle⟩ := hprepared.peers s q found
  have hsend : (n.marked p).sendAppend s =
      Ctx.sendMessage { (n.marked p) with node := (n.marked p).node.launched q s } s
        (.appendEntries ((n.marked p).node.appendTo q)) := by
    rw [Ctx.sendAppend, if_neg (by simp [hprepared.role]; rfl), found]
    dsimp only
    rw [if_neg (by simp [idle]), sendAppendTo_eq hlt hle id]
  have hall : (n.marked p).sendAllAppends =
      rest.foldl Ctx.sendAppend ((n.marked p).sendAppend s) := by
    rw [Ctx.sendAllAppends, if_neg (by simp [hprepared.role]; rfl), first, List.foldl_cons]
  refine mem_sends_of_effects ?_
  rw [hresume, hall, hsend]
  have hmoves : ∀ c, Moves n (.resumed .clientAppended) c
      (rest.foldl Ctx.sendAppend c).maybeAdvanceCommit := fun c =>
    (moves_foldl moves_sendAppend rest c).trans (moves_maybeAdvanceCommit _)
  exact effects_subset_of_moves (hmoves _) (List.mem_append_right _ (List.mem_singleton.mpr rfl))

/-- A leader of the cluster takes a command. -/
theorem Cluster.exists_proposing {config : RaftConfig} {S : Cluster} {i : NodeId}
    (hS : Reachable config S) (hn : S.node i = some n) (h : n.Takes command)
    (token : ClientToken) : ∃ S', Reachable config S' ∧
      S'.node i = some (n.proposing token command) ∧ (S'.hosts i).disk =
        .writing ⟨n.nextStorageOpId, entryBatch (n.nextEntry (some command))⟩ := by
  obtain ⟨hnode, hpersist⟩ := h.step token
  have hstep : S.step config (.submit i token command) =
      some (({ S with submitted := S.submitted ++ [(i, token, command)] } : Cluster).absorb i
        (S.hosts i) (n.step (.clientRequest token command)),
        (n.step (.clientRequest token command)).effects) := by
    show Option.map _ (S.hosts i).node = _
    rw [show (S.hosts i).node = some n from hn]
    rfl
  refine ⟨_, hS.tail ⟨_, _, hstep⟩, ?_⟩
  rw [Cluster.node, hosts_absorb_self, hnode]
  refine ⟨rfl, ?_⟩
  dsimp only
  rw [Ctx.diskAfter, hpersist]
  rfl

/-- The storage of a node completes its batch. -/
theorem Cluster.exists_completed {config : RaftConfig} {S : Cluster} {i : NodeId}
    {p : PersistEffect} (hS : Reachable config S) (hn : S.node i = some n)
    (writing : (S.hosts i).disk = .writing p) : ∃ S', Reachable config S' ∧
      ∀ m ∈ (n.step (.storageComplete p.opId true "")).sends, m ∈ S'.sent := by
  have hstep : S.step config (.complete i) = some (S.absorb i
      { S.hosts i with completed := (S.hosts i).completed ++ [p.batch], disk := .idle }
      (n.step (.storageComplete p.opId true "")),
      (n.step (.storageComplete p.opId true "")).effects) := by
    simp only [step, writing]
    show Option.map _ (S.hosts i).node = _
    rw [show (S.hosts i).node = some n from hn]
    rfl
  exact ⟨_, hS.tail ⟨_, _, hstep⟩, fun m hm => List.mem_append_right _ hm⟩

end Propose

/-! ### Limits beyond the wire -/

namespace Sample

/-- A configuration that allows keys of four gigabytes. -/
def wide : RaftConfig :=
  { config with
    maxUncommittedBytes := 2 ^ 34
    maxCommandBytes := 2 ^ 32
    maxKeyBytes := 2 ^ 32
    maxAppendBytesPerRpc := 2 ^ 33 }

/-- Keys that are too long for their length field. -/
def wideLimits : Limits where
  maxFrameBytes := 2 ^ 33
  maxKeyBytes := 2 ^ 32

/-- Node 1 leads, is ready, and has nothing in flight to node 2. -/
def settle : List Action :=
  elect ++ [accepted 1 1, .complete 1, append 3 1 [] 1, .complete 2, accepted 3 1]

/-- A command with such a key. -/
def wideCommand (key : Bytes) : ClientCommand :=
  { session := ⟨0, 5⟩, sequence := 1, kind := .put, key, value := [] }

/-- The leader of this run is idle, and its first peer is idle and up to date. -/
@[mk_iff]
structure Settled (n : RaftNode) : Prop where
  free : n.pendingStorage = none
  queue : n.deferredEvents = []
  role : n.role = .leader
  ready : n.leaderReady = true
  config : n.config = wide
  session : n.stateMachine.session ⟨0, 5⟩ = none
  pending : n.pendingSessions.find ⟨0, 5⟩ = none
  log : n.log = [⟨1, 1, none⟩]
  term : n.hardState.currentTerm = 1
  commit : n.commitIndex = 1
  opId : n.nextStorageOpId ≠ 0
  rpcId : n.nextRpcId ≠ 0
  keys : n.peers.keys = [2, 3]
  peer : n.peers.find 2 = some ⟨2, 1, none, 0⟩
  peers : ∀ e ∈ n.peers.entries, e.2.matchIndex < e.2.nextIndex ∧ e.2.nextIndex ≤ 2

instance : DecidablePred Settled := fun n => decidable_of_iff _ (settled_iff n).symm

end Sample

open Cluster Sample

theorem settled_settle : ∃ n, (after wide settle).node 1 = some n ∧ Sample.Settled n := by
  obtain ⟨n, hn⟩ : ∃ n, (after wide settle).node 1 = some n :=
    Option.isSome_iff_exists.mp (by decide +kernel)
  have hsettled : ∀ n ∈ (after wide settle).node 1, Sample.Settled n := by decide +kernel
  exact ⟨n, hn, hsettled n hn⟩

section Wide

variable {n : RaftNode} {key : Bytes}

theorem entryBytes_wide (hkey : key.length = 2 ^ 32) (index term : ℕ) :
    entryBytes ⟨index, term, some (wideCommand key)⟩ = 64 + 2 ^ 32 := by
  simp only [entryBytes, wideCommand, List.length_nil, hkey, kEntryOverhead]
  decide

section

variable (h : Sample.Settled n)
include h

theorem Sample.Settled.takes (hkey : key.length = 2 ^ 32) : n.Takes (wideCommand key) := by
  refine ⟨h.free, h.queue, h.role, h.ready, ?_, h.session, rfl, h.pending, ?_, ?_, h.opId⟩
  · have hne : key ≠ [] := by
      rintro rfl
      cases hkey
    have hvalid : KvStateMachine.structurallyValid (wideCommand key) = true :=
      if_neg (by simp [wideCommand, hne])
    have hsize : commandSizeWithin (wideCommand key) wide.maxCommandBytes wide.maxKeyBytes
        wide.maxValueBytes = true := by
      simp only [commandSizeWithin, wideCommand, hkey, List.length_nil]
      decide
    rw [commandAcceptable, h.config, hvalid, hsize]
    rfl
  · rw [RaftNode.lastLogIndex, h.log]
    decide
  · have hbytes : entryBytes (n.nextEntry (some (wideCommand key))) = 64 + 2 ^ 32 :=
      entryBytes_wide hkey _ _
    simp only [RaftNode.canAppendClient, RaftNode.uncommittedEntryCount,
      RaftNode.uncommittedBytes, RaftNode.lastLogIndex, h.log, h.commit, h.config, hbytes]
    decide

/-- The batch with the wide entry. -/
def wideBatch (n : RaftNode) (key : Bytes) : PendingStorage :=
  ⟨n.nextStorageOpId, entryBatch (n.nextEntry (some (wideCommand key))), .clientAppended⟩

/-- The leader whose wide entry is durable. -/
def wideLeader (n : RaftNode) (key : Bytes) : RaftNode :=
  ((n.proposing 7 (wideCommand key)).marked (wideBatch n key)).node

theorem log_wideLeader :
    (wideLeader n key).log = [⟨1, 1, none⟩, ⟨2, 1, some (wideCommand key)⟩] := by
  show n.log ++ [n.nextEntry (some (wideCommand key))] = _
  rw [RaftNode.nextEntry, RaftNode.lastLogIndex, RaftNode.currentTerm, h.log, h.term]
  rfl

theorem durableLastLogIndex_wideLeader : (wideLeader n key).durableLastLogIndex = 2 := by
  show (wideLeader n key).log.length = 2
  rw [log_wideLeader h]
  rfl

theorem config_wideLeader : (wideLeader n key).config = wide :=
  h.config

theorem Sample.Settled.prepared (hkey : key.length = 2 ^ 32) : Prepared (wideLeader n key) := by
  refine ⟨h.role, fun s p hp => ?_, ?_, ?_, ?_⟩
  · have hpeer := h.peers (s, p) (OrdMap.mem_entries_iff.mpr hp)
    rw [durableLastLogIndex_wideLeader h]
    exact ⟨hpeer.1, hpeer.2.trans (by decide)⟩
  · rw [durableLastLogIndex_wideLeader h, log_wideLeader h]
    exact le_rfl
  · rw [config_wideLeader h]
    decide
  · rw [config_wideLeader h, log_wideLeader h, List.forall_mem_cons, List.forall_mem_singleton,
      entryBytes_wide hkey]
    decide

end

/-- **The wide entry is sent.** -/
theorem sent_wide (hkey : key.length = 2 ^ 32) : ∃ S r, Reachable wide S ∧
    ({ sender := 1, target := 2, message := .appendEntries r } : MessageEnvelope) ∈ S.sent ∧
      ∃ e ∈ r.entries, e.command = some (wideCommand key) := by
  obtain ⟨n, hn, h⟩ := settled_settle
  have hreach : Reachable wide (after wide settle) := reachable_after (by decide +kernel)
  obtain ⟨S, hS, hnode, hdisk⟩ := exists_proposing hreach hn (h.takes hkey) 7
  obtain ⟨S', hS', hsent⟩ := exists_completed hS hnode hdisk
  have hsends := sends_of_clientAppended (p := wideBatch n key) (s := 2) (q := ⟨2, 1, none, 0⟩)
    rfl rfl h.queue (h.prepared hkey) (n := n.proposing 7 (wideCommand key)) ?_ h.keys h.peer rfl
    h.rpcId ""
  · have hsender : n.config.nodeId = 1 := by
      rw [h.config]
      rfl
    refine ⟨S', (wideLeader n key).appendTo ⟨2, 1, none, 0⟩, hS', ?_,
      ⟨2, 1, some (wideCommand key)⟩, ?_, rfl⟩
    · rw [← hsender]
      exact hsent _ hsends
    · show _ ∈ RaftNode.payload _ _
      rw [RaftNode.payload, log_wideLeader h, durableLastLogIndex_wideLeader h, config_wideLeader h]
      show _ ∈ packEntries _ [_] _
      rw [packEntries, if_neg (by rw [entryBytes_wide hkey]; decide)]
      exact List.mem_cons_self
  · show n.commitIndex ≤ (wideLeader n key).log.length
    rw [h.commit, log_wideLeader h]
    exact Nat.le_succ 1

end Wide

/-- **A message may be too long for the wire** if the limits of a node exceed those of the
format, even if the limits of the codec do not. -/
theorem Cluster.sent_too_wide : ¬ ∀ (config : RaftConfig) (limits : Limits) (S : Cluster),
    0 ∉ config.members → Accommodates limits config → Reachable config S →
      ∀ m ∈ S.sent, ∃ bytes, encodeMessage m.message limits = .ok bytes := by
  intro h
  obtain ⟨S, r, hS, hm, e, he, hcommand⟩ := sent_wide (List.length_replicate (n := 2 ^ 32) (a := 0))
  obtain ⟨bytes, hbytes⟩ := h wide wideLimits S (by decide)
    ⟨by decide, by decide, by decide, by decide⟩ hS _ hm
  obtain ⟨hok, -⟩ := encodeMessage_eq_ok.mp hbytes
  have hkey := ((AppendEntriesOk.entries hok e he).command _ hcommand).key.2
  rw [wideCommand, List.length_replicate] at hkey
  exact absurd hkey (by decide)

end DetLog
