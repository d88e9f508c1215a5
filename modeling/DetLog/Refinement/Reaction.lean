import DetLog.Refinement.Relation

/-!
# Reactions in the history

One reaction of an idle node, seen in the history of the cluster. A plan corresponds to
an operation that the node now has under way (`DetLog.Plan.underway`); a new leader and a
new entry of a leader are recorded at once, before anything is durable, because other
nodes can only learn of them later. A reaction that plans nothing is silent in the
history, with two exceptions: a vote that completes a quorum makes a leader even if it
finds no room for its readiness entry, and an append whose entries are there already is
acknowledged.
-/

namespace DetLog

open Consensus Consensus.History

variable {Q : QuorumSystem NodeId} {limit : ℕ} {submitted : ClientCommand → Prop}
  {got : Set RaftEvent} {d : RecoveredState} {h h' : Chronicle} {n m : RaftNode} {cause : Cause}
  {batch : PersistBatch} {k : Continuation} {c c' : Ctx} {request : AppendEntries}
  {es : List RaftEffect} {hs : HardState} {disk : Disk} {s : NodeId}

/-- Everything known about an idle node. -/
structure AtRest (Q : QuorumSystem NodeId) (limit : ℕ) (submitted : ClientCommand → Prop)
    (got : Set RaftEvent) (d : RecoveredState) (h : Chronicle) (n : RaftNode) : Prop where
  quorum : Q = majority n.config.members.toFinset
  nodup : n.config.members.Nodup
  limit_eq : n.config.maxAppendBytesPerRpc = limit
  asked : ∀ token command, .clientRequest token command ∈ got → submitted command
  coherent : Coherent d got n
  available : n.role ≠ .unavailable
  pending : n.pendingStorage = none
  filed : Filed got n
  led : Led n
  chronicled : Chronicled Q limit submitted h
  grounded : Grounded Q h n
  agrees : Agrees h n

/-- What a cause rests on: a received event whose message is truthful, or a continuation
that reports what is recorded. -/
def Grounds (Q : QuorumSystem NodeId) (got : Set RaftEvent) (h : Chronicle) (n : RaftNode) :
    Cause → Prop
  | .event e => e ∈ got ∧ ∀ m, e = .messageReceived m → Truthful Q h m
  | .resumed k => Promise got n k ∧ Owed h n k

theorem Grounds.caused (hc : Grounds Q got h n cause) : Caused got n cause := by
  cases cause with
  | event e | resumed k => exact hc.1

theorem Grounds.truthful (hc : Grounds Q got h n cause) {message : Message}
    (hh : Heard n cause s message) :
    Truthful Q h { sender := s, target := n.config.nodeId, message } := by
  obtain ⟨rfl, -, -⟩ := hh
  exact hc.2 _ rfl

/-- **Why a commit index may rise**: the node leads its term and the prefix is chosen in it,
or another node leads the term. -/
def Certified (Q : QuorumSystem NodeId) (h : Chronicle) (m : RaftNode) : Prop :=
  (Chosen Q h m.currentTerm (m.log.take m.commitIndex) ∧
      m.commitIndex ≤ h.ack m.config.nodeId m.currentTerm) ∨
    (m.role ≠ .leader ∧ h.led m.currentTerm ≠ some m.config.nodeId ∧ h.led m.currentTerm ≠ none)

/-- **A change under way**: what has been recorded at once, and the operation that storage
still has to perform. -/
structure Underway (Q : QuorumSystem NodeId) (limit : ℕ) (submitted : ClientCommand → Prop)
    (n : RaftNode) (h : Chronicle) (m : RaftNode) (k : Continuation) (h' : Chronicle)
    (op : Operation NodeId) : Prop where
  steps : Steps Q n.config.nodeId h h'
  stores : Stores h' n.config.nodeId n.memory
  enabled : op.Enabled h' n.config.nodeId
  agrees : Agrees (op.run h' n.config.nodeId) m
  owed : Owed (op.run h' n.config.nodeId) m k
  grounded : Grounded Q h' m
  chronicled : Chronicled Q limit submitted h'
  raised : m.commitIndex = n.commitIndex ∨ Certified Q h' m

/-! ### Plans without a new entry -/

theorem Becomes.currentTerm {l : List LogEntry} {i : ℕ} (hb : Becomes n m hs l i) :
    m.currentTerm = hs.currentTerm := by
  rw [RaftNode.currentTerm, hb.hardState]

theorem Becomes.stores {l : List LogEntry} {i : ℕ} (hb : Becomes n m hs l i)
    (hterm : h.term n.config.nodeId = hs.currentTerm)
    (hvote : h.vote n.config.nodeId hs.currentTerm = hs.votedFor)
    (hlog : h.log n.config.nodeId = l) : Stores h m.config.nodeId m.memory := by
  rw [hb.memory, hb.config]
  exact ⟨hterm, hvote, hlog⟩

theorem Becomes.grounded (hb : Becomes n m hs n.log n.commitIndex) (hn : Grounded Q h n) :
    Grounded Q h m :=
  ⟨by rw [hb.log]; exact hn.traces, by rw [hb.log, hb.commitIndex]; exact hn.settled⟩

section

variable (hn : AtRest Q limit submitted got d h n)
include hn

/-- A node has not voted in a term it has not reached. -/
theorem AtRest.vote_eq_none {t : ℕ} (ht : n.currentTerm < t) : h.vote n.config.nodeId t = none := by
  rw [Option.eq_none_iff_forall_ne_some]
  intro x hx
  have := hn.chronicled.inv.vote_le hx
  rw [hn.agrees.stores.term] at this
  exact absurd this (not_le.mpr ht)

theorem AtRest.campaign (new : hs = ⟨n.currentTerm + 1, some n.config.nodeId⟩)
    (core : Becomes n m hs n.log n.commitIndex) (role : m.role = .candidate)
    (votes : m.votesReceived = {n.config.nodeId}) :
    Underway Q limit submitted n h m .campaign h (.campaign (n.currentTerm + 1)) := by
  have hterm : h.term n.config.nodeId = n.currentTerm := hn.agrees.stores.term
  have henabled : (Operation.campaign (n.currentTerm + 1)).Enabled h n.config.nodeId :=
    hterm.trans_lt (Nat.lt_succ_self _)
  refine ⟨.refl, hn.agrees.stores, henabled,
    ⟨?_, fun _ => ?_, fun hl => by simp [role] at hl⟩, trivial,
    core.grounded hn.grounded, hn.chronicled, Or.inl core.commitIndex⟩
  · refine core.stores ?_ ?_ hn.agrees.stores.log <;>
      simp [Operation.run, History.campaign, castVote, new]
  · have hcur : m.currentTerm = n.currentTerm + 1 := by rw [core.currentTerm, new]
    refine ⟨?_, fun hled => ?_, fun x hx => ?_⟩
    · rw [hcur, core.config, core.log]
      simp only [Operation.run, campaign_ballot_self]
      rw [hn.agrees.stores.log, RaftNode.memory_log]
    · -- Nobody leads a term that its leader has not reached.
      rw [Operation.run_led, hcur, core.config] at hled
      have := hn.chronicled.inv.led_le hled
      omega
    · obtain rfl : x = n.config.nodeId := by simpa [votes] using hx
      rw [core.config, hcur]
      exact ⟨hn.coherent.self, by simp [Operation.run, History.campaign, castVote]⟩

theorem AtRest.adopt {term : ℕ} (higher : n.currentTerm < term)
    (core : Becomes n m ⟨term, none⟩ n.log n.commitIndex) (role : m.role = .follower)
    (plain : k.Plain) : Underway Q limit submitted n h m k h (.observe term) := by
  have hterm : h.term n.config.nodeId = n.currentTerm := hn.agrees.stores.term
  refine ⟨.refl, hn.agrees.stores, hterm.trans_le higher.le, ⟨?_, fun hc => by simp [role] at hc,
    fun hl => by simp [role] at hl⟩, ?_, core.grounded hn.grounded, hn.chronicled,
    Or.inl core.commitIndex⟩
  · refine core.stores ?_ ?_ hn.agrees.stores.log
    · simp [Operation.run]
    · exact hn.vote_eq_none higher
  · rcases plain with rfl | ⟨_, _, rfl⟩ | ⟨_, _, _, _, rfl⟩ <;> trivial

/-- A vote goes to a candidate whose log is up to date. -/
theorem AtRest.grant {candidate : NodeId} {request : RequestVote} {w : Bool}
    (hc : Grounds Q got h n cause) (heard : Heard n cause candidate (.requestVote request))
    (term_le : n.currentTerm ≤ request.term)
    (free : n.currentTerm < request.term ∨ n.hardState.votedFor = none)
    (fresh : candidateIsUpToDate n.log request.lastLogIndex request.lastLogTerm = true)
    (core : Becomes n m ⟨request.term, some candidate⟩ n.log n.commitIndex)
    (hvote : m.role = .candidate ∨ m.role = .leader → m.hardState.votedFor = some m.config.nodeId) :
    Underway Q limit submitted n h m (.voteReply candidate true w) h
      (.grant request.term candidate) := by
  have hterm : h.term n.config.nodeId = n.currentTerm := hn.agrees.stores.term
  obtain ⟨l, hballot, hlen, hlast⟩ := hc.truthful heard
  have hnone : h.vote n.config.nodeId request.term = none := by
    rcases Nat.lt_or_ge n.currentTerm request.term with hlt | hge
    · exact hn.vote_eq_none hlt
    · have heq : request.term = n.currentTerm := le_antisymm hge term_le
      rw [heq]
      exact hn.agrees.stores.vote.trans (free.resolve_left (by omega))
  have hup : UpToDate l (h.log n.config.nodeId) := by
    rw [hn.agrees.stores.log, RaftNode.memory_log]
    rw [candidateIsUpToDate_eq_true, hlast, hlen] at fresh
    exact fresh.imp_right fun ⟨h₁, h₂⟩ => ⟨h₁.symm, h₂⟩
  -- The voter is neither candidate nor leader, for those have voted for themselves.
  have hrole : ¬(m.role = .candidate ∨ m.role = .leader) := by
    intro hr
    have := hvote hr
    rw [core.hardState, core.config] at this
    exact heard.2.1 (Option.some.inj this)
  refine ⟨.refl, hn.agrees.stores, ⟨hterm.trans_le term_le, hnone, l, hballot, hup⟩,
    ⟨?_, fun hr => absurd (Or.inl hr) hrole, fun hr => absurd (Or.inr hr) hrole⟩, trivial,
    core.grounded hn.grounded, hn.chronicled, Or.inl core.commitIndex⟩
  refine core.stores ?_ ?_ hn.agrees.stores.log <;> simp [Operation.run, castVote]

end

/-! ### Leaders -/

theorem isQuorum_of_card {members : List NodeId} (hnd : members.Nodup) {A : Finset NodeId}
    (hsub : ∀ x ∈ A, x ∈ members) (hcard : members.length / 2 + 1 ≤ A.card) :
    (majority members.toFinset).IsQuorum A := by
  refine ⟨fun x hx => List.mem_toFinset.mpr (hsub x hx), ?_⟩
  rw [List.toFinset_card_of_nodup hnd]
  omega

theorem AtRest.mono (hn : AtRest Q limit submitted got d h n)
    (hc : Chronicled Q limit submitted h') (hg : Grows h h') (ha : Agrees h' n) :
    AtRest Q limit submitted got d h' n :=
  { hn with chronicled := hc, grounded := hn.grounded.mono hg, agrees := ha }

theorem Grounds.mono (hc : Grounds Q got h n cause) (hg : Grows h h') :
    Grounds Q got h' n cause := by
  cases cause with
  | event e => exact ⟨hc.1, fun m hm => (hc.2 m hm).mono hg⟩
  | resumed k => exact ⟨hc.1, hc.2.mono hg⟩

/-- **A candidate with a quorum of votes leads its term** in the history. -/
theorem AtRest.elect (hn : AtRest Q limit submitted got d h n) (hc : Grounds Q got h n cause)
    (wins : Wins n cause) :
    ∃ h', Steps Q n.config.nodeId h h' ∧ AtRest Q limit submitted got d h' n ∧
      h'.led n.currentTerm = some n.config.nodeId := by
  obtain ⟨hrole, s, response, heard, hterm, hgranted, hquorum⟩ := wins
  obtain ⟨hballot, hlog, hvotes⟩ := hn.agrees.candidate hrole
  have hvote : h.vote s n.currentTerm = some n.config.nodeId := by
    rw [← hterm]
    exact hc.truthful heard hgranted
  have hall : ∀ x ∈ insert s n.votesReceived,
      x ∈ n.config.members ∧ h.vote x n.currentTerm = some n.config.nodeId := by
    intro x hx
    rcases Finset.mem_insert.mp hx with rfl | hx
    · exact ⟨heard.2.2, hvote⟩
    · exact hvotes x hx
  have hA : Q.IsQuorum (insert s n.votesReceived) := by
    rw [hn.quorum]
    exact isQuorum_of_card hn.nodup (fun x hx => (hall x hx).1) hquorum
  -- A second vote of the same quorum must not record the term twice: the term may be led
  -- already, and then by this node.
  cases hled : h.led n.currentTerm with
  | some j =>
    obtain rfl := hn.chronicled.inv.led_unique hled hA fun x hx => (hall x hx).2
    exact ⟨h, .refl, hn, hled⟩
  | none =>
    have hstep : Step Q n.config.nodeId h (h.lead n.config.nodeId n.currentTerm n.log) :=
      .lead _ _ _ hA (fun x hx => (hall x hx).2) hballot hled
    refine ⟨_, .single hstep, ?_, lead_led_self _ _ _ _⟩
    refine hn.mono (hn.chronicled.lead hn.grounded.traces (hstep.inv hn.chronicled.inv))
      (hstep.extends hn.chronicled.inv).toGrows ⟨?_, fun _ => ?_, fun hl => ?_⟩
    · exact { hn.agrees.stores with }
    · exact ⟨hballot, fun _ => lead_leaderLog_self _ _ _ _, hvotes⟩
    · simp [hrole] at hl

theorem splice_eq_leader {leader l : List LogEntry} (hlt : l.length < leader.length) :
    splice leader leader.length l = leader := by
  rcases splice_cases leader leader.length l with heq | ⟨-, heq⟩
  · have hp : leader.take leader.length <+: splice leader leader.length l := take_prefix_splice
    rw [List.take_length, heq] at hp
    exact absurd hp.length_le (not_le.mpr hlt)
  · rw [heq, List.take_length]

/-- A leader, or a candidate that has just been elected: the log of its term is its own. -/
structure Leading (Q : QuorumSystem NodeId) (limit : ℕ) (submitted : ClientCommand → Prop)
    (h : Chronicle) (n : RaftNode) : Prop where
  chronicled : Chronicled Q limit submitted h
  grounded : Grounded Q h n
  stores : Stores h n.config.nodeId n.memory
  led : h.led n.currentTerm = some n.config.nodeId
  log : h.leaderLog n.currentTerm = n.log

theorem AtRest.leading (hn : AtRest Q limit submitted got d h n)
    (hrole : n.role = .candidate ∨ n.role = .leader)
    (hled : h.led n.currentTerm = some n.config.nodeId) : Leading Q limit submitted h n := by
  refine ⟨hn.chronicled, hn.grounded, hn.agrees.stores, hled, ?_⟩
  rcases hrole with hc | hl
  · exact (hn.agrees.candidate hc).log hled
  · exact (hn.agrees.leader hl).log

/-- **A leader appends an entry**: the log of its term grows at once, and the operation
under way makes the entry durable. -/
theorem Leading.append (hn : Leading Q limit submitted h n) {e : LogEntry}
    (he : e.term = n.currentTerm) (hord : Orderly (n.log ++ [e]))
    (horig : Origin limit submitted e) (hcommit : n.commitIndex ≤ n.log.length)
    (core : Becomes n m n.hardState (n.log ++ [e]) n.commitIndex) (role : m.role = .leader)
    (peers : ∀ p progress, m.peers.find p = some progress →
      p ∈ n.config.members ∧ p ≠ n.config.nodeId ∧ progress.matchIndex ≤ h.ack p n.currentTerm)
    (hk : ∀ h' : Chronicle, Owed h' m k) :
    Underway Q limit submitted n h m k (h.propose n.currentTerm e)
      (.accept n.currentTerm (n.log.length + 1)) := by
  have hstep : Step Q n.config.nodeId h (h.propose n.currentTerm e) := .propose _ _ hn.led he
  have hinv := hstep.inv hn.chronicled.inv
  have hg := (hstep.extends hn.chronicled.inv).toGrows
  have hlog' : (h.propose n.currentTerm e).leaderLog n.currentTerm = n.log ++ [e] := by
    rw [propose_leaderLog_self, hn.log]
  have hlen : (n.log ++ [e]).length = n.log.length + 1 := List.length_append
  have hcur : m.currentTerm = n.currentTerm := core.currentTerm
  -- The proposal is recorded at once; the acceptance by the leader's own disk is what
  -- the write in flight still owes.
  have henabled : (Operation.accept n.currentTerm (n.log.length + 1)).Enabled
      (h.propose n.currentTerm e) n.config.nodeId := by
    refine ⟨?_, hn.stores.term.le, by rw [hlog', hlen]⟩
    rw [show (h.propose n.currentTerm e).led n.currentTerm = some n.config.nodeId from hn.led]
    simp
  have hsplice : splice (n.log ++ [e]) (n.log.length + 1) n.log = n.log ++ [e] := by
    rw [← hlen]
    exact splice_eq_leader (by rw [hlen]; exact Nat.lt_succ_self _)
  refine ⟨.single hstep, { hn.stores with }, henabled,
    ⟨?_, fun hc => by simp [role] at hc, fun _ => ?_⟩, hk _,
    ⟨?_, ?_⟩, hn.chronicled.propose hinv (by rwa [hn.log]) horig, Or.inl core.commitIndex⟩
  · refine core.stores ?_ hn.stores.vote ?_
    · simp only [Operation.run, History.accept, observe_term_self]
      rfl
    · simp only [Operation.run, accept_log_self, hlog']
      rw [show (h.propose n.currentTerm e).log n.config.nodeId = n.log from hn.stores.log, hsplice]
  · refine ⟨?_, ?_, ?_, fun p progress hp => ?_⟩
    · rw [Operation.run_led, hcur, core.config]
      exact hn.led
    · rw [Operation.run_leaderLog, hcur, hlog', core.log]
    · rw [hcur, core.config, core.log, hlen]
      simp only [Operation.run, accept_ack_self]
      exact le_max_right _ _
    · obtain ⟨hmem, hne, hmatch⟩ := peers p progress hp
      rw [core.config, hcur]
      refine ⟨hmem, hne, ?_⟩
      simp only [Operation.run]
      rw [accept_ack_of_ne _ _ _ _ (Or.inl hne)]
      exact hmatch
  · rw [core.log, ← hlog']
    exact hinv.traces_leader _
  · rw [core.log, core.commitIndex, List.take_append_of_le_length hcommit]
    exact hg.settled hn.grounded.settled

theorem AtRest.lead (hn : AtRest Q limit submitted got d h n) (hc : Grounds Q got h n cause)
    (wins : Wins n cause)
    (core : Becomes n m n.hardState (n.log ++ [n.nextEntry none]) n.commitIndex)
    (role : m.role = .leader)
    (peers : ∀ p progress, m.peers.find p = some progress →
      progress.matchIndex = 0 ∧ p ∈ n.config.members ∧ p ≠ n.config.nodeId)
    (fits : kEntryOverhead ≤ n.config.maxAppendBytesPerRpc - kAppendRpcOverhead) :
    ∃ h' op, Underway Q limit submitted n h m .leaderEstablished h' op := by
  obtain ⟨h₁, hsteps, hn₁, hled⟩ := hn.elect hc wins
  have u := (hn₁.leading (Or.inl wins.1) hled).append (e := n.nextEntry none)
    (k := .leaderEstablished) rfl
    ((hn.chronicled.orderly_of_traces hn.grounded.traces).concat_none rfl)
    (hn.limit_eq ▸ fits) hn.coherent.formed.commit_le core role
    (fun p progress hp => by
      obtain ⟨hzero, hmem, hne⟩ := peers p progress hp
      exact ⟨hmem, hne, hzero ▸ Nat.zero_le _⟩) fun _ => trivial
  exact ⟨_, _, { u with steps := hsteps.trans u.steps }⟩

theorem AtRest.propose (hn : AtRest Q limit submitted got d h n) {command : ClientCommand}
    (hsub : submitted command) (old : n.role = .leader) (ready : n.leaderReady = true)
    (admits : Admits n command)
    (core : Becomes n m n.hardState (n.log ++ [n.nextEntry (some command)]) n.commitIndex)
    (role : m.role = .leader) (peers : m.peers = n.peers) :
    ∃ h' op, Underway Q limit submitted n h m .clientAppended h' op := by
  have hord := hn.chronicled.orderly_of_traces hn.grounded.traces
  have hseq := admits.sequence_eq hn.filed hn.led old ready hn.coherent.formed hord
  refine ⟨_, _, (hn.leading (Or.inr old) (hn.agrees.leader old).led).append
    (e := n.nextEntry (some command)) (k := .clientAppended) rfl (hord.concat_some rfl hseq) hsub
    hn.coherent.formed.commit_le core role ?_ fun _ => trivial⟩
  rw [peers]
  exact (hn.agrees.leader old).peers

/-! ### Commitment -/

/-- **What the leader counts has been acknowledged.** -/
theorem Leadership.acked (hl : Leadership h n) (hc : Grounds Q got h n cause) {p : NodeId}
    {index : ℕ} (ha : Acked n cause p index) :
    p ∈ n.config.members ∧ p ≠ n.config.nodeId ∧ index ≤ h.ack p n.currentTerm := by
  rcases ha with ⟨progress, hp, hle⟩ | ⟨progress, response, hp, heard, hok, hterm, hle⟩
  · obtain ⟨hmem, hne, hmatch⟩ := hl.peers p progress hp
    exact ⟨hmem, hne, hle.trans hmatch⟩
  · obtain ⟨hmem, hne, -⟩ := hl.peers p progress hp
    refine ⟨hmem, hne, hle.trans ?_⟩
    rw [← hterm]
    exact hc.truthful heard hok

section

variable (hn : AtRest Q limit submitted got d h n) (hc : Grounds Q got h n cause) {target : ℕ}
    (old : n.role = .leader)
include hn hc old

/-- **The commit certificate**: the prefix a leader commits is chosen. -/
theorem AtRest.chosen (peers : PeersAcked n cause m)
    (current : ∃ e, entryAt n.log target = some e ∧ e.term = n.currentTerm)
    (quorum : n.quorumSize ≤ m.replicas target) : Chosen Q h n.currentTerm (n.log.take target) := by
  have hl := hn.agrees.leader old
  obtain ⟨e, he, hterm⟩ := current
  obtain ⟨hpos, hget⟩ := entryAt_eq_some.mp he
  obtain ⟨hlt, -⟩ := List.getElem?_eq_some_iff.mp hget
  have hle : target ≤ n.log.length := by omega
  have hlen : (n.log.take target).length = target := by
    rw [List.length_take]
    omega
  refine ⟨⟨?_, ?_, ?_⟩, ?_⟩
  · rw [hl.log]
    exact List.take_prefix _ _
  · intro hnil
    rw [hnil] at hlen
    exact absurd hlen hpos.ne
  · -- Only entries of the current term are counted, so the prefix ends in that term.
    rw [← termAt_eq_lastStamp hle, ← hterm]
    simp [termAt, he]
  · -- The quorum: the leader and the peers it counts.
    let counted := m.peers.entries.filter fun e => decide (target ≤ e.2.matchIndex)
    have hcounted : ∀ p ∈ (counted.map Prod.fst).toFinset,
        p ∈ n.config.members ∧ p ≠ n.config.nodeId ∧ target ≤ h.ack p n.currentTerm := by
      intro p hp
      obtain ⟨⟨q, progress⟩, hmem, rfl⟩ := List.mem_map.mp (List.mem_toFinset.mp hp)
      obtain ⟨hentry, htarget⟩ := List.mem_filter.mp hmem
      obtain ⟨h₁, h₂, h₃⟩ := hl.acked hc (peers q progress (OrdMap.mem_entries_iff.mp hentry))
      exact ⟨h₁, h₂, (of_decide_eq_true htarget).trans h₃⟩
    have hself : n.config.nodeId ∉ (counted.map Prod.fst).toFinset := fun hmem =>
      (hcounted _ hmem).2.1 rfl
    have hcard : (counted.map Prod.fst).toFinset.card = counted.length := by
      rw [List.toFinset_card_of_nodup, List.length_map]
      exact m.peers.nodup_keys.sublist (List.filter_sublist.map _)
    refine ⟨insert n.config.nodeId (counted.map Prod.fst).toFinset, ?_, fun x hx => ?_⟩
    · rw [hn.quorum]
      refine isQuorum_of_card hn.nodup (fun x hx => ?_) ?_
      · rcases Finset.mem_insert.mp hx with rfl | hx
        · exact hn.coherent.self
        · exact (hcounted x hx).1
      · rw [Finset.card_insert_of_notMem hself, hcard, Nat.add_comm counted.length]
        exact quorum
    · rw [hlen]
      rcases Finset.mem_insert.mp hx with rfl | hx
      · exact hle.trans hl.ack
      · exact (hcounted x hx).2.2

theorem AtRest.commit (core : Becomes n m n.hardState n.log target) (role : m.role = .leader)
    (peers : PeersAcked n cause m) (hle : target ≤ n.log.length)
    (chosen : Chosen Q h n.currentTerm (n.log.take target)) :
    Underway Q limit submitted n h m .commitAdvanced h
      (.observe n.currentTerm) := by
  have hl := hn.agrees.leader old
  have hcur : m.currentTerm = n.currentTerm := core.currentTerm
  refine ⟨.refl, hn.agrees.stores, hn.agrees.stores.term.le,
    ⟨?_, fun hc => by simp [role] at hc, fun _ => ?_⟩,
    trivial, ⟨?_, ?_⟩, hn.chronicled, Or.inr (Or.inl ⟨?_, ?_⟩)⟩
  · refine core.stores ?_ hn.agrees.stores.vote hn.agrees.stores.log
    simp only [Operation.run, observe_term_self]
    rfl
  · refine ⟨?_, ?_, ?_, fun p progress hp => ?_⟩
    · rw [Operation.run_led, hcur, core.config]
      exact hl.led
    · rw [Operation.run_leaderLog, hcur, core.log]
      exact hl.log
    · rw [hcur, core.config, core.log]
      exact hl.ack
    · rw [core.config, hcur]
      exact hl.acked hc (peers p progress hp)
  · rw [core.log]
    exact hn.grounded.traces
  · rw [core.log, core.commitIndex]
    exact Or.inr ⟨_, _, chosen, List.prefix_rfl⟩
  · rw [hcur, core.log, core.commitIndex]
    exact chosen
  · rw [hcur, core.commitIndex, core.config]
    exact hle.trans hl.ack

end

/-! ### Accepted appends -/

/-- The previous entry pins down the whole prefix before an append. -/
theorem take_prev (inv : Inv Q h) (traces : Traces h n.log) (fits : Fits n request)
    (hlen : request.prevLogIndex + request.entries.length ≤ (h.leaderLog request.term).length)
    (hprev : request.prevLogTerm =
      lastStamp ((h.leaderLog request.term).take request.prevLogIndex)) :
    n.log.take request.prevLogIndex = (h.leaderLog request.term).take request.prevLogIndex := by
  -- An append to the empty prefix carries no term to compare, and needs none.
  rcases Nat.eq_zero_or_pos request.prevLogIndex with hzero | hpos
  · rw [hzero, List.take_zero, List.take_zero]
  have hl : (n.log.take request.prevLogIndex).length = request.prevLogIndex :=
    List.length_take_of_le fits.prev_le
  have hl' : ((h.leaderLog request.term).take request.prevLogIndex).length =
      request.prevLogIndex := List.length_take_of_le (by omega)
  have hstamp : lastStamp (n.log.take request.prevLogIndex) =
      lastStamp ((h.leaderLog request.term).take request.prevLogIndex) := by
    rw [← termAt_eq_lastStamp fits.prev_le, fits.prev_term, hprev]
  have hpre := traces.prefix_of_lastStamp_eq (inv.traces_leader request.term)
    ⟨_, List.take_append_drop _ _⟩ ⟨_, List.take_append_drop _ _⟩
    (by rw [← List.length_pos_iff, hl]; exact hpos) hstamp (by rw [hl, hl'])
  exact hpre.eq_of_length (by rw [hl, hl'])

/-- **An append that fits takes over a prefix of its leader's log.** -/
theorem acceptedLog_of_truthful (inv : Inv Q h) (traces : Traces h n.log) (fits : Fits n request)
    {s target : NodeId}
    (ht : Truthful Q h { sender := s, target, message := .appendEntries request }) :
    acceptedLog n.log request.entries =
      splice (h.leaderLog request.term) (Ctx.appendMatchIndex request) n.log := by
  obtain ⟨-, hlen, hprev, hentries, -, -⟩ := ht
  rw [fits.matchIndex]
  exact acceptedLog_eq_splice fits.indexed fits.prev_le (take_prev inv traces fits hlen hprev)
    hentries

theorem AtRest.accepts (hn : AtRest Q limit submitted got d h n) (hc : Grounds Q got h n cause)
    (heard : Heard n cause s (.appendEntries request)) (fits : Fits n request) :
    (Operation.accept request.term (Ctx.appendMatchIndex request)).Enabled h n.config.nodeId ∧
      acceptedLog n.log request.entries =
        splice (h.leaderLog request.term) (Ctx.appendMatchIndex request) n.log := by
  have htruthful := hc.truthful heard
  refine ⟨⟨?_, hn.agrees.stores.term.trans_le fits.term_le, ?_⟩,
    acceptedLog_of_truthful hn.chronicled.inv hn.grounded.traces fits htruthful⟩
  · rw [htruthful.1]
    simp
  · rw [fits.matchIndex]
    exact htruthful.2.1

theorem currentTerm_followed {t : ℕ} (hle : n.currentTerm ≤ t) :
    (followed n t).currentTerm = t := by
  unfold followed
  split_ifs with hlt
  · rfl
  · exact le_antisymm hle (not_lt.mp hlt)

/-- **The committed prefix of an accepted log** is the old one, or lies within what the
leader has committed. -/
theorem committed_acceptedLog {leader : List LogEntry} (hcommit : n.commitIndex ≤ n.log.length)
    (keeps : ∀ e, (request.entries.drop (matchingEntries n.log request.entries)).head? = some e →
      n.commitIndex < e.index) (hsplice : acceptedLog n.log request.entries =
      splice leader (Ctx.appendMatchIndex request) n.log)
    (hle : Ctx.appendMatchIndex request ≤ leader.length) :
    (acceptedLog n.log request.entries).take
        (max n.commitIndex (min request.leaderCommit (Ctx.appendMatchIndex request))) =
          n.log.take n.commitIndex ∨
      (acceptedLog n.log request.entries).take
        (max n.commitIndex (min request.leaderCommit (Ctx.appendMatchIndex request))) <+:
          leader.take request.leaderCommit := by
  rcases le_total (min request.leaderCommit (Ctx.appendMatchIndex request)) n.commitIndex with
    hmax | hmax
  · -- The old commit index: what the append replaces lies behind it.
    refine Or.inl ?_
    have hlen : (n.log.take n.commitIndex).length = n.commitIndex := List.length_take_of_le hcommit
    rw [max_eq_left hmax, take_eq_of_isPrefix (take_commitIndex_acceptedLog keeps) hlen.ge,
      List.take_take, min_self]
  · -- A new commit index: it lies within the prefix the leader has settled.
    refine Or.inr ?_
    have hlen : (leader.take (Ctx.appendMatchIndex request)).length =
        Ctx.appendMatchIndex request := List.length_take_of_le hle
    rw [hsplice, max_eq_right hmax,
      take_eq_of_isPrefix take_prefix_splice (hlen.symm ▸ min_le_right _ _), List.take_take]
    exact List.take_prefix_take_left (by omega)

theorem AtRest.accept (hn : AtRest Q limit submitted got d h n) (hc : Grounds Q got h n cause)
    {b : Bool} (heard : Heard n cause s (.appendEntries request)) (fits : Fits n request)
    (keeps : ∀ e, (request.entries.drop (matchingEntries n.log request.entries)).head? = some e →
      n.commitIndex < e.index)
    (core : Becomes n m (followed n request.term) (acceptedLog n.log request.entries)
      (max n.commitIndex (min request.leaderCommit (Ctx.appendMatchIndex request))))
    (role : m.role = .follower) :
    Underway Q limit submitted n h m
      (.appendAccept s request.rpcId (Ctx.appendMatchIndex request) b) h
      (.accept request.term (Ctx.appendMatchIndex request)) := by
  obtain ⟨henabled, hsplice⟩ := hn.accepts hc heard fits
  obtain ⟨hled, -, -, -, hcommit, hsettled⟩ := hc.truthful heard
  have hterm := currentTerm_followed fits.term_le
  refine ⟨.refl, hn.agrees.stores, henabled,
    ⟨?_, fun hc => by simp [role] at hc, fun hl => by simp [role] at hl⟩,
    ?_, ⟨?_, ?_⟩, hn.chronicled, Or.inr (Or.inr ⟨by simp [role], ?_, ?_⟩)⟩
  · refine core.stores ?_ ?_ ?_
    · simp [Operation.run, History.accept, hterm]
    · rw [hterm]
      unfold followed
      split_ifs with hlt
      · exact hn.vote_eq_none hlt
      · rw [le_antisymm (not_lt.mp hlt) fits.term_le]
        exact hn.agrees.stores.vote
    · simp only [Operation.run, accept_log_self]
      rw [hn.agrees.stores.log, hsplice, RaftNode.memory_log]
  · simp only [Owed, core.config, core.currentTerm, hterm, Operation.run, accept_ack_self]
    exact le_max_right _ _
  · rw [core.log, hsplice]
    rcases splice_cases (h.leaderLog request.term) (Ctx.appendMatchIndex request) n.log with
      heq | ⟨-, heq⟩
    · rw [heq]
      exact hn.grounded.traces
    · rw [heq]
      exact (hn.chronicled.inv.traces_leader _).of_isPrefix <| List.take_prefix _ _
  · rw [core.commitIndex, core.log]
    rcases committed_acceptedLog hn.coherent.formed.commit_le keeps hsplice henabled.2.2 with
      heq | hpre
    · rw [heq]
      exact hn.grounded.settled
    · exact hsettled.of_isPrefix hpre
  · rw [core.currentTerm, hterm, core.config, hled]
    exact fun heq => heard.2.1 (Option.some.inj heq)
  · rw [core.currentTerm, hterm, hled]
    simp

/-- **Every plan is an operation under way.** -/
theorem AtRest.underway (hn : AtRest Q limit submitted got d h n) (hc : Grounds Q got h n cause)
    (plan : Plan n cause m batch k) :
    ∃ h' op, Underway Q limit submitted n h m k h' op := by
  cases plan with
  | campaign hs new core role votes => exact ⟨_, _, hn.campaign new core role votes⟩
  | adopt term k higher core role plain => exact ⟨_, _, hn.adopt higher core role plain⟩
  | grant candidate request w heard pos named term_le free fresh core role =>
    refine ⟨_, _, hn.grant hc heard term_le free fresh core ?_⟩
    exact (Plan.grant candidate request w heard pos named term_le free fresh core role).vote
      hn.coherent.vote
  | lead wins bound core role peers fits => exact hn.lead hc wins core role peers fits
  | accept s request heard named fits keeps core role =>
    exact ⟨_, _, hn.accept hc heard fits keeps core role⟩
  | propose token command asked old ready acceptable admits bound room core role peers =>
    subst asked
    exact hn.propose (hn.asked token command hc.1) old ready admits core role peers
  | commit target old core role peers above durable current quorum =>
    refine ⟨_, _, hn.commit hc old core role peers ?_ (hn.chosen hc old peers current quorum)⟩
    obtain ⟨e, he, -⟩ := current
    obtain ⟨hlt, -⟩ := List.getElem?_eq_some_iff.mp (entryAt_eq_some.mp he).2
    omega

/-! ### Messages -/

/-- **What an idle node sends is truthful**, once an append it has found in place is
acknowledged. -/
theorem AtRest.truthful (hn : AtRest Q limit submitted got d h n) (hc : Grounds Q got h n cause)
    (hack : ∀ s request, Heard n cause s (.appendEntries request) →
      request.term = n.currentTerm → Fits n request → acceptedLog n.log request.entries = n.log →
      Ctx.appendMatchIndex request ≤ h.ack n.config.nodeId n.currentTerm)
    {envelope : MessageEnvelope} (hs : SendOk n cause envelope) : Truthful Q h envelope := by
  have hmem := hn.coherent.ready hn.available hn.pending
  have hgate := hn.coherent.gate hmem hc.caused hs
  obtain ⟨sender, target, message⟩ := envelope
  obtain ⟨rfl, hs⟩ := hs
  cases message with
  | requestVote r =>
    obtain ⟨hrole, -, hterm, -, -, -⟩ := hs
    obtain ⟨-, -, hidx, hlast⟩ := hgate
    rw [← hmem] at hidx hlast
    refine ⟨n.log, ?_, hidx, hlast.trans (termAt_length _)⟩
    rw [hterm]
    exact (hn.agrees.candidate hrole).ballot
  | requestVoteResponse r =>
    intro hgranted
    have hvote := hn.agrees.stores.vote
    rw [hmem, hgate.2 hgranted] at hvote
    exact hvote
  | appendEntries r =>
    obtain ⟨hrole, hterm, -, hprev, hentries, hlen, hcommit⟩ := hs
    have hl := hn.agrees.leader hrole
    have hbound : n.durableLastLogIndex = n.log.length := by
      rw [hn.coherent.lastIndex, ← hmem, RaftNode.memory_log]
    simp only [Truthful, hterm, hl.log, hcommit]
    refine ⟨hl.led, by omega, ?_, hentries, hn.coherent.formed.commit_le, hn.grounded.settled⟩
    rw [hprev, termAt_eq_lastStamp (by omega)]
  | appendEntriesResponse r =>
    intro hsuccess
    obtain ⟨hterm, hok⟩ := hs
    simp only [hterm]
    rcases hok hsuccess with ⟨request, heard, hreq, fits, hlog, -, hmatch⟩ | ⟨b, rfl⟩
    · rw [hmatch]
      exact hack _ request heard hreq fits hlog
    · exact hc.2

/-! ### What is recorded before anything is sent -/

/-- An append whose entries are in place is acknowledged in the history. -/
theorem AtRest.acknowledge (hn : AtRest Q limit submitted got d h n)
    (hc : Grounds Q got h n cause) :
    ∃ h', Steps Q n.config.nodeId h h' ∧ AtRest Q limit submitted got d h' n ∧
      ∀ s request, Heard n cause s (.appendEntries request) →
        request.term = n.currentTerm → Fits n request →
        acceptedLog n.log request.entries = n.log →
        Ctx.appendMatchIndex request ≤ h'.ack n.config.nodeId n.currentTerm := by
  -- An append that changes nothing is answered without a write, so no operation records
  -- it; the acknowledgement is entered here, before the answer leaves.
  by_cases hex : ∃ s request, Heard n cause s (.appendEntries request) ∧
      request.term = n.currentTerm ∧ Fits n request ∧ acceptedLog n.log request.entries = n.log
  · obtain ⟨s, request, heard, hterm, fits, hlog⟩ := hex
    obtain ⟨henabled, hsplice⟩ := hn.accepts hc heard fits
    have hstep := henabled.step Q
    have hg := (hstep.extends hn.chronicled.inv).toGrows
    have hu : Untouched n.config.nodeId h
        ((Operation.accept request.term (Ctx.appendMatchIndex request)).run h n.config.nodeId) :=
      { term_eq := by
          simp only [Operation.run, History.accept, observe_term_self, hterm]
          exact hn.agrees.stores.term.symm
        log_eq := by
          have hstored : h.log n.config.nodeId = n.log := hn.agrees.stores.log
          simp only [Operation.run, accept_log_self, hstored, ← hsplice, hlog]
        vote_eq := rfl
        led_back := id
        leaderLog_eq := fun _ => rfl }
    refine ⟨_, .single hstep, hn.mono (hn.chronicled.run henabled) hg (hn.agrees.mono hg hu), ?_⟩
    intro s' request' heard' _ _ _
    -- A transition has one cause, so there is one such request.
    obtain ⟨rfl, rfl⟩ : s = s' ∧ request = request' := by
      simpa using heard.1.symm.trans heard'.1
    simp only [Operation.run]
    rw [← hterm, accept_ack_self]
    exact le_max_right _ _
  · exact ⟨h, .refl, hn, fun s request h₁ h₂ h₃ h₄ => absurd ⟨s, request, h₁, h₂, h₃, h₄⟩ hex⟩

/-- An effect that the history justifies: a truthful message, an announced leader. -/
def Recorded (Q : QuorumSystem NodeId) (h : Chronicle) : RaftEffect → Prop
  | .send envelope => Truthful Q h envelope
  | .trace r => r.kind = .roleChange → r.detail = "became leader" → h.led r.term = some r.node
  | _ => True

theorem Recorded.mono {e : RaftEffect} (hr : Recorded Q h e) (hg : Grows h h') :
    Recorded Q h' e := by
  cases e with
  | send envelope => exact Truthful.mono hr hg
  | trace r => exact fun hk hd => hg.led_keep (hr hk hd)
  | _ => trivial

theorem Steps.grows {i : NodeId} (hs : Steps Q i h h') (hinv : Inv Q h) : Grows h h' :=
  (Steps.extends hinv hs).toGrows

/-- **Everything a reaction emits is recorded first.** -/
theorem AtRest.prepare (hn : AtRest Q limit submitted got d h n) (hc : Grounds Q got h n cause) :
    ∃ h', Steps Q n.config.nodeId h h' ∧ AtRest Q limit submitted got d h' n ∧
      ∀ e, EffectOk n cause e → Recorded Q h' e := by
  obtain ⟨h₁, hs₁, hn₁, hack⟩ := hn.acknowledge hc
  have hg₁ := Steps.grows hs₁ hn.chronicled.inv
  have hc₁ := hc.mono hg₁
  have hsend : ∀ envelope, SendOk n cause envelope → Truthful Q h₁ envelope :=
    fun envelope hs => hn₁.truthful hc₁ hack hs
  by_cases wins : Wins n cause
  · obtain ⟨h₂, hs₂, hn₂, hled⟩ := hn₁.elect hc₁ wins
    have hg₂ := Steps.grows hs₂ hn₁.chronicled.inv
    refine ⟨h₂, hs₁.trans hs₂, hn₂, fun e he => ?_⟩
    cases e with
    | send envelope => exact (hsend envelope he.1).mono hg₂
    | trace r =>
      intro hk hd
      obtain ⟨-, hnode, hterm⟩ := he hk hd
      rw [hnode, hterm]
      exact hled
    | _ => trivial
  · refine ⟨h₁, hs₁, hn₁, fun e he => ?_⟩
    cases e with
    | send envelope => exact hsend envelope he.1
    | trace r => exact fun hk hd => absurd (he hk hd).1 wins
    | _ => trivial

/-! ### Reactions -/

/-- **A transition in progress, in the history.** -/
structure Live (Q : QuorumSystem NodeId) (limit : ℕ) (submitted : ClientCommand → Prop)
    (d : RecoveredState) (disk : Disk) (h : Chronicle) (c : Ctx) : Prop where
  chronicled : Chronicled Q limit submitted h
  stores : Stores h c.node.config.nodeId d
  grounded : Grounded Q h c.node
  recorded : ∀ e ∈ c.effects, Recorded Q h e
  stage : Stage Q h d (c.diskAfter disk) c.node

/-- Votes and acknowledgements that arrive are recorded already. -/
theorem AtRest.status (hn : AtRest Q limit submitted got d h n) (hc : Grounds Q got h n cause)
    (core : SameCore n m) (hs : Status n cause m) : Agrees h m := by
  have hcur : m.currentTerm = n.currentTerm := core.currentTerm
  refine ⟨?_, fun hr => ?_, fun hr => ?_⟩
  · rw [core.config, core.memory]
    exact hn.agrees.stores
  · have hcand : n.role = .candidate → (∀ x ∈ m.votesReceived,
        x ∈ n.config.members ∧ h.vote x n.currentTerm = some n.config.nodeId) → Candidacy h m := by
      intro hr hvotes
      obtain ⟨hballot, hlog, -⟩ := hn.agrees.candidate hr
      refine ⟨?_, ?_, ?_⟩
      · rwa [core.config, hcur, core.log]
      · rwa [core.config, hcur, core.log]
      · rwa [core.config, hcur]
    cases hs with
    | same role votes peers =>
      have hr := role.symm.trans hr
      rw [votes] at hcand
      exact hcand hr (hn.agrees.candidate hr).votes
    | tally s response heard term granted old role votes =>
      refine hcand old fun x hx => ?_
      rw [votes] at hx
      rcases Finset.mem_insert.mp hx with rfl | hx
      · refine ⟨heard.2.2, ?_⟩
        rw [← term]
        exact hc.truthful heard granted
      · exact (hn.agrees.candidate old).votes x hx
    | follower role | unavailable role => simp [role] at hr
  · cases hs with
    | same role votes peers =>
      have hl := hn.agrees.leader (role.symm.trans hr)
      refine ⟨?_, ?_, ?_, fun p progress hp => ?_⟩
      · rw [hcur, core.config]
        exact hl.led
      · rw [hcur, core.log]
        exact hl.log
      · rw [hcur, core.config, core.log]
        exact hl.ack
      · rw [core.config, hcur]
        exact hl.acked hc (peers p progress hp)
    | tally s response heard term granted old role votes | follower role | unavailable role =>
      simp [role] at hr

theorem persisted_append (hc : c.persisted = none) (he : c'.effects = c.effects ++ es) :
    c'.persisted = Ctx.persisted { c with effects := es } := by
  unfold Ctx.persisted at *
  rw [he, List.findSome?_append, hc, Option.none_or]

theorem persisted_eq_none (hes : ∀ e ∈ es, EffectOk n cause e) :
    Ctx.persisted { c with effects := es } = none := by
  unfold Ctx.persisted
  rw [List.findSome?_eq_none_iff]
  intro e he
  cases e with
  | persist p => exact absurd (hes _ he) id
  | _ => rfl

theorem diskAfter_eq_idle :
    c.diskAfter disk = .idle ↔ c.persisted = none ∧ disk = .idle := by
  unfold Ctx.diskAfter
  cases c.persisted <;> simp

/-- Effects other than a batch leave the device idle. -/
theorem diskAfter_of_effectOk (hdisk : c.diskAfter disk = .idle)
    (hes : c'.effects = c.effects ++ es) (hall : ∀ e ∈ es, EffectOk n cause e) :
    c'.diskAfter disk = .idle := by
  obtain ⟨hnone, hidle⟩ := diskAfter_eq_idle.mp hdisk
  rw [diskAfter_eq_idle, persisted_append hnone hes, persisted_eq_none hall]
  exact ⟨rfl, hidle⟩

/-- A batch after them occupies it. -/
theorem diskAfter_of_persist {p : PersistEffect} (hdisk : c.diskAfter disk = .idle)
    (hes : c'.effects = c.effects ++ (es ++ [.persist p])) (hall : ∀ e ∈ es, EffectOk n cause e) :
    c'.diskAfter disk = .writing p := by
  have hfirst := persisted_eq_none (c := c) hall
  unfold Ctx.diskAfter
  rw [persisted_append (diskAfter_eq_idle.mp hdisk).1 hes]
  unfold Ctx.persisted at hfirst ⊢
  rw [List.findSome?_append, hfirst]
  rfl

/-- The batch of a plan is what its operation writes. -/
theorem Underway.pledge {op : Operation NodeId} (u : Underway Q limit submitted n h m k h' op)
    (hn : AtRest Q limit submitted got d h n) (plan : Plan n cause m batch k) :
    Pledge Q n.config h' n.config.nodeId d batch op := by
  have hmem := hn.coherent.ready hn.available hn.pending
  have hmemory : m.memory = d.write batch := by rw [plan.memory_eq, hmem]
  have hformed := plan.wellFormed hn.coherent.formed hn.coherent.self hn.coherent.vote
  obtain ⟨_, _, _, hb⟩ := plan.becomes
  refine ⟨u.enabled, ?_, ?_, ?_, ?_⟩
  · have hstores := u.agrees.stores
    rwa [hb.config, hmemory] at hstores
  · rw [← hmemory]
    exact u.grounded.settled
  · rw [← hmem]
    exact plan.writable hformed (u.chronicled.inv.sorted u.grounded.traces)
  · rw [← hmemory]
    exact hformed

/-- A commit index that has risen in a transition, and what holds then: the node waits or
has stopped, and the rise is certified. -/
def Raised (Q : QuorumSystem NodeId) (h : Chronicle) (n m : RaftNode) : Prop :=
  m.commitIndex = n.commitIndex ∨
    ((m.pendingStorage ≠ none ∨ m.role = .unavailable) ∧ Certified Q h m)

theorem Certified.stop {m' : RaftNode} (hc : Certified Q h m) (core : SameCore m m')
    (role : m'.role = .unavailable) : Certified Q h m' := by
  rw [Certified, core.currentTerm, core.log, core.commitIndex, core.config, role]
  exact hc.imp id fun hf => ⟨by simp, hf.2⟩

/-- **One reaction of an idle node, in the history.** -/
theorem AtRest.react (hn : AtRest Q limit submitted got d h c.node)
    (hrec : ∀ e ∈ c.effects, Recorded Q h e) (hdisk : c.diskAfter disk = .idle)
    (o : Outcome c.node cause c c') (hc : Grounds Q got h c.node cause) :
    ∃ h', Steps Q c.node.config.nodeId h h' ∧ Live Q limit submitted d disk h' c' ∧
      Raised Q h' c.node c'.node := by
  obtain ⟨h₁, hs₁, hn₁, hok⟩ := hn.prepare hc
  have hg₁ := Steps.grows hs₁ hn.chronicled.inv
  have hc₁ := hc.mono hg₁
  have hmem := hn.coherent.ready hn.available hn.pending
  have hstored : Stores h₁ c.node.config.nodeId d := hmem ▸ hn₁.agrees.stores
  -- New effects are recorded in `h₁`, and so in everything after it.
  have hnew : ∀ {h₂ es}, Grows h₁ h₂ → c'.effects = c.effects ++ es →
      (∀ e ∈ es, EffectOk c.node cause e ∨ ∃ p, e = .persist p) →
      ∀ e ∈ c'.effects, Recorded Q h₂ e := by
    intro h₂ es hg hes hall e he
    rw [hes, List.mem_append] at he
    rcases he with he | he
    · exact (hrec e he).mono (hg₁.trans hg)
    · rcases hall e he with hek | ⟨p, rfl⟩
      · exact (hok e hek).mono hg
      · trivial
  cases o with
  | held hh =>
    obtain ⟨-, es, hes, hall⟩ := hh.emits
    refine ⟨h₁, hs₁, ⟨hn₁.chronicled, by rw [hh.core.config]; exact hstored,
      hh.core.grounded hn₁.grounded, hnew (Grows.refl _) hes fun e he => Or.inl (hall e he), ?_⟩,
      Or.inl hh.core.commitIndex⟩
    have hdisk' : c'.diskAfter disk = .idle := diskAfter_of_effectOk hdisk hes hall
    by_cases hdown : c'.node.role = .unavailable
    · exact .down hdown hh.pending (Or.inl hdisk')
    · exact .ready hdown hh.pending hdisk' (hn₁.status hc₁ hh.core hh.status)
  | waits batch k opId plan pending thrown effects =>
    obtain ⟨es, hes, hall⟩ := effects
    obtain ⟨h₂, op, u⟩ := hn₁.underway hc₁ plan
    have hg₂ := Steps.grows u.steps hn₁.chronicled.inv
    obtain ⟨_, _, _, hb⟩ := plan.becomes
    refine ⟨h₂, hs₁.trans u.steps, ⟨u.chronicled, by rw [hb.config, ← hmem]; exact u.stores,
      u.grounded, hnew hg₂ hes fun e he => ?_, ?_⟩,
      u.raised.imp_right fun hcert => ⟨Or.inl (by simp [pending]), hcert⟩⟩
    · rcases List.mem_append.mp he with he | he
      · exact Or.inl (hall e he)
      · exact Or.inr ⟨_, by simpa using he⟩
    · have hconf : c'.node.config = c.node.config := hb.config
      refine .waiting _ op (plan.available hn.available) pending
        (diskAfter_of_persist hdisk hes hall) ?_ ?_ ?_
      · rw [hconf]
        exact u.pledge hn₁ plan
      · rw [hconf]
        exact u.agrees
      · rw [hconf]
        exact u.owed
  | fails m batch k plan emits core pending role =>
    obtain ⟨-, es, hes, hall⟩ := emits
    obtain ⟨h₂, op, u⟩ := hn₁.underway hc₁ plan
    have hg₂ := Steps.grows u.steps hn₁.chronicled.inv
    obtain ⟨_, _, _, hb⟩ := plan.becomes
    refine ⟨h₂, hs₁.trans u.steps, ⟨u.chronicled,
      by rw [(hb.same core).config, ← hmem]; exact u.stores, core.grounded u.grounded,
      hnew hg₂ hes fun e he => Or.inl (hall e he),
      .down role pending (Or.inl (diskAfter_of_effectOk hdisk hes hall))⟩, ?_⟩
    rcases u.raised with heq | hcert
    · exact Or.inl (core.commitIndex.trans heq)
    · exact Or.inr ⟨Or.inr role, hcert.stop core role⟩

end DetLog
