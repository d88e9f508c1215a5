import DetLog.Consensus.Operation
import DetLog.Raft.Books
import DetLog.Cluster

/-!
# The history of a cluster

How a state of the cluster and a history of `Consensus.History` belong together. The
history is about stable storage, so a node that is idle agrees with it directly
(`DetLog.Agrees`), and a node that waits for its storage agrees with the history *after*
the operation it has under way (`DetLog.Stage.waiting`). That operation stays enabled
whatever the other nodes do, and it is performed when the storage answers, or when the
host crashes and the batch turns out to have survived.

Messages on the network only state recorded facts (`DetLog.Truthful`), so they may be
delivered late or twice, also to a node that has been restarted.
-/

namespace DetLog

open Consensus Consensus.History

/-- The history of a cluster. -/
abbrev Chronicle := History NodeId LogEntry

variable {Q : QuorumSystem NodeId} {h h' : Chronicle} {i : NodeId} {n : RaftNode}
  {d : RecoveredState} {m : RaftNode}

/-! ### Nodes -/

/-- The stable storage of a node, in the history. -/
structure Stores (h : Chronicle) (i : NodeId) (s : RecoveredState) : Prop where
  term : h.term i = s.hardState.currentTerm
  vote : h.vote i s.hardState.currentTerm = s.hardState.votedFor
  log : h.log i = s.log

/-- A candidate campaigns with its log; it has appended nothing as a leader of its term,
and the votes it has counted were cast. -/
structure Candidacy (h : Chronicle) (n : RaftNode) : Prop where
  ballot : h.ballot n.config.nodeId n.currentTerm = some n.log
  log : h.led n.currentTerm = some n.config.nodeId → h.leaderLog n.currentTerm = n.log
  votes : ∀ x ∈ n.votesReceived,
    x ∈ n.config.members ∧ h.vote x n.currentTerm = some n.config.nodeId

/-- A leader builds the log of its term, and what it knows of its peers they have
acknowledged. -/
structure Leadership (h : Chronicle) (n : RaftNode) : Prop where
  led : h.led n.currentTerm = some n.config.nodeId
  log : h.leaderLog n.currentTerm = n.log
  ack : n.log.length ≤ h.ack n.config.nodeId n.currentTerm
  peers : ∀ p progress, n.peers.find p = some progress →
    p ∈ n.config.members ∧ p ≠ n.config.nodeId ∧ progress.matchIndex ≤ h.ack p n.currentTerm

/-- **An idle node agrees with the history.** -/
structure Agrees (h : Chronicle) (n : RaftNode) : Prop where
  stores : Stores h n.config.nodeId n.memory
  candidate : n.role = .candidate → Candidacy h n
  leader : n.role = .leader → Leadership h n

/-- What a continuation will report. -/
def Owed (h : Chronicle) (n : RaftNode) : Continuation → Prop
  | .appendAccept _ _ matchIndex _ => matchIndex ≤ h.ack n.config.nodeId n.currentTerm
  | _ => True

/-- What holds of the memory of every node, also of one that has stopped: its log traces
the history, and its committed prefix is settled. -/
structure Grounded (Q : QuorumSystem NodeId) (h : Chronicle) (n : RaftNode) : Prop where
  traces : Traces h n.log
  settled : Settled Q h (n.log.take n.commitIndex)

/-- **A batch that storage has not confirmed** and the operation that writes it. -/
structure Pledge (Q : QuorumSystem NodeId) (config : RaftConfig) (h : Chronicle) (i : NodeId)
    (d : RecoveredState) (batch : PersistBatch) (op : Operation NodeId) : Prop where
  enabled : op.Enabled h i
  stores : Stores (op.run h i) i (d.write batch)
  settled : Settled Q h ((d.write batch).log.take (d.write batch).commitIndex)
  writable : Writable d batch
  formed : WellFormed config (d.write batch)

/-- The stages of a running node, with its storage device. -/
inductive Stage (Q : QuorumSystem NodeId) (h : Chronicle) (d : RecoveredState) (disk : Disk)
    (n : RaftNode) : Prop
  | ready (available : n.role ≠ .unavailable) (pending : n.pendingStorage = none)
      (device : disk = .idle) (agrees : Agrees h n)
  | waiting (p : PendingStorage) (op : Operation NodeId) (available : n.role ≠ .unavailable)
      (pending : n.pendingStorage = some p) (device : disk = .writing ⟨p.opId, p.batch⟩)
      (pledge : Pledge Q n.config h n.config.nodeId d p.batch op)
      (agrees : Agrees (op.run h n.config.nodeId) n)
      (owed : Owed (op.run h n.config.nodeId) n p.afterSuccess)
  | down (stopped : n.role = .unavailable) (pending : n.pendingStorage = none)
      (device : disk = .idle ∨ ∃ p op, disk = .failed p ∧
        Pledge Q n.config h n.config.nodeId d p.batch op)

/-! ### Messages and leader logs -/

/-- **A message states recorded facts.** -/
def Truthful (Q : QuorumSystem NodeId) (h : Chronicle) (m : MessageEnvelope) : Prop :=
  match m.message with
  | .requestVote r => ∃ l, h.ballot m.sender r.term = some l ∧ r.lastLogIndex = l.length ∧
      r.lastLogTerm = lastStamp l
  | .requestVoteResponse r => r.voteGranted = true → h.vote m.sender r.term = some m.target
  | .appendEntries r =>
    h.led r.term = some m.sender ∧
      r.prevLogIndex + r.entries.length ≤ (h.leaderLog r.term).length ∧
      r.prevLogTerm = lastStamp ((h.leaderLog r.term).take r.prevLogIndex) ∧
      r.entries = ((h.leaderLog r.term).drop r.prevLogIndex).take r.entries.length ∧
      r.leaderCommit ≤ (h.leaderLog r.term).length ∧
      Settled Q h ((h.leaderLog r.term).take r.leaderCommit)
  | .appendEntriesResponse r => r.success = true → r.matchIndex ≤ h.ack m.sender r.term

/-- Where an entry comes from: a readiness entry that one append can carry, or a command
that was submitted. -/
def Origin (limit : ℕ) (submitted : ClientCommand → Prop) (e : LogEntry) : Prop :=
  match e.command with
  | none => kEntryOverhead ≤ limit - kAppendRpcOverhead
  | some command => submitted command

/-- **The history is one of this system**: it keeps the invariant of a replicated log, and
the leader logs are orderly and hold what was submitted. -/
structure Chronicled (Q : QuorumSystem NodeId) (limit : ℕ) (submitted : ClientCommand → Prop)
    (h : Chronicle) : Prop where
  inv : Inv Q h
  orderly : ∀ t, Orderly (h.leaderLog t)
  origin : ∀ t, ∀ e ∈ h.leaderLog t, Origin limit submitted e

/-! ### What a node shows -/

/-- The part of a node that the relation is about. -/
def RaftNode.outline (n : RaftNode) :=
  (n.config, n.memory, n.role, n.votesReceived, n.peers)

/-- The relation reads no more of a node than its outline. -/
theorem Agrees.congr (ha : Agrees h n) (ho : m.outline = n.outline) :
    Agrees h m := by
  obtain ⟨hconfig, hmem, hrole, hvotes, hpeers⟩ := by
    simpa only [RaftNode.outline, Prod.mk.injEq] using ho
  have hlog : m.log = n.log := congrArg RecoveredState.log hmem
  have hcur : m.currentTerm = n.currentTerm :=
    congrArg (fun s => s.hardState.currentTerm) hmem
  refine ⟨by rw [hconfig, hmem]; exact ha.stores, fun hc => ?_, fun hl => ?_⟩
  · obtain ⟨h₁, h₂, h₃⟩ := ha.candidate (hrole ▸ hc)
    exact ⟨by rwa [hconfig, hcur, hlog], by rwa [hconfig, hcur, hlog],
      by rwa [hconfig, hcur, hvotes]⟩
  · obtain ⟨h₁, h₂, h₃, h₄⟩ := ha.leader (hrole ▸ hl)
    exact ⟨by rwa [hconfig, hcur], by rwa [hcur, hlog], by rwa [hconfig, hcur, hlog],
      by rwa [hconfig, hcur, hpeers]⟩

theorem Grounded.congr (hn : Grounded Q h n) (ho : m.outline = n.outline) :
    Grounded Q h m := by
  obtain ⟨-, hmem, -⟩ := by simpa only [RaftNode.outline, Prod.mk.injEq] using ho
  have hlog : m.log = n.log := congrArg RecoveredState.log hmem
  have hcommit : m.commitIndex = n.commitIndex := congrArg RecoveredState.commitIndex hmem
  exact ⟨by rw [hlog]; exact hn.traces, by rw [hlog, hcommit]; exact hn.settled⟩

theorem Owed.congr {k : Continuation} (hk : Owed h n k) (ho : m.outline = n.outline) :
    Owed h m k := by
  obtain ⟨hconfig, hmem, -⟩ := by simpa only [RaftNode.outline, Prod.mk.injEq] using ho
  have hcur : m.currentTerm = n.currentTerm :=
    congrArg (fun s => s.hardState.currentTerm) hmem
  cases k with
  | appendAccept l r i b =>
    simp only [Owed, hconfig, hcur]
    exact hk
  | _ => trivial

theorem Stage.congr {disk : Disk} (hs : Stage Q h d disk n) (ho : m.outline = n.outline)
    (hp : m.pendingStorage = n.pendingStorage) :
    Stage Q h d disk m := by
  obtain ⟨hconfig, -, hrole, -⟩ := by simpa only [RaftNode.outline, Prod.mk.injEq] using ho
  cases hs with
  | ready available pending device agrees =>
    exact .ready (by rwa [hrole]) (hp.trans pending) device (agrees.congr ho)
  | waiting p op available pending device pledge agrees owed =>
    refine .waiting p op (by rwa [hrole]) (hp.trans pending) device ?_ ?_ ?_
    · rwa [hconfig]
    · rw [hconfig]
      exact agrees.congr ho
    · rw [hconfig]
      exact owed.congr ho
  | down stopped pending device =>
    exact .down (by rwa [hrole]) (hp.trans pending) (by rwa [hconfig])

/-! ### What other nodes do -/

theorem Stores.mono {s : RecoveredState} (hs : Stores h i s) (hu : Untouched i h h') :
    Stores h' i s :=
  ⟨hu.term_eq.trans hs.term, by rw [hu.vote_eq]; exact hs.vote, hu.log_eq.trans hs.log⟩

/-- What the others do to the history leaves a node in agreement with it. -/
theorem Agrees.mono (ha : Agrees h n) (hg : Grows h h') (hu : Untouched n.config.nodeId h h') :
    Agrees h' n where
  stores := ha.stores.mono hu
  candidate hc := by
    obtain ⟨hballot, hlog, hvotes⟩ := ha.candidate hc
    refine ⟨hg.ballot_keep hballot, fun hl => ?_,
      fun x hx => ⟨(hvotes x hx).1, hg.vote_keep (hvotes x hx).2⟩⟩
    exact (hu.leaderLog_eq (hu.led_back hl)).trans (hlog (hu.led_back hl))
  leader hl := by
    obtain ⟨hled, hlog, hack, hpeers⟩ := ha.leader hl
    refine ⟨hg.led_keep hled, (hu.leaderLog_eq hled).trans hlog, hack.trans (hg.ack_le _ _), ?_⟩
    intro p progress hp
    obtain ⟨hmem, hne, hmatch⟩ := hpeers p progress hp
    exact ⟨hmem, hne, hmatch.trans (hg.ack_le _ _)⟩

theorem Owed.mono {k : Continuation} (ho : Owed h n k) (hg : Grows h h') : Owed h' n k := by
  cases k with
  | appendAccept l r m b => exact le_trans ho (hg.ack_le _ _)
  | _ => trivial

theorem Grounded.mono (hn : Grounded Q h n) (hg : Grows h h') : Grounded Q h' n :=
  ⟨hg.traces hn.traces, hg.settled hn.settled⟩

theorem Pledge.mono {config : RaftConfig} {batch : PersistBatch} {op : Operation NodeId}
    (hp : Pledge Q config h i d batch op) (hg : Grows h h') (hu : Untouched i h h') :
    Pledge Q config h' i d batch op where
  enabled := hp.enabled.mono hg hu
  stores := hp.stores.mono (hp.enabled.run_untouched hg hu)
  settled := hg.settled hp.settled
  writable := hp.writable
  formed := hp.formed

theorem Stage.mono {disk : Disk} (hs : Stage Q h d disk n) (hg : Grows h h')
    (hu : Untouched n.config.nodeId h h') : Stage Q h' d disk n := by
  cases hs with
  | ready available pending device agrees =>
    exact .ready available pending device (agrees.mono hg hu)
  | waiting p op available pending device pledge agrees owed =>
    have hg' := pledge.enabled.run_grows hg hu
    exact .waiting p op available pending device (pledge.mono hg hu)
      (agrees.mono hg' (pledge.enabled.run_untouched hg hu)) (owed.mono hg')
  | down stopped pending device =>
    refine .down stopped pending (device.imp_right ?_)
    rintro ⟨p, op, hd, hp⟩
    exact ⟨p, op, hd, hp.mono hg hu⟩

theorem take_eq_of_isPrefix {l l' : List LogEntry} {k : ℕ} (hp : l <+: l') (hk : k ≤ l.length) :
    l'.take k = l.take k := by
  obtain ⟨s, rfl⟩ := hp
  exact List.take_append_of_le_length hk

/-- A true message stays true as the history grows. -/
theorem Truthful.mono {m : MessageEnvelope} (ht : Truthful Q h m) (hg : Grows h h') :
    Truthful Q h' m := by
  obtain ⟨sender, target, message⟩ := m
  cases message with
  | requestVote r =>
    obtain ⟨l, hb, hrest⟩ := ht
    exact ⟨l, hg.ballot_keep hb, hrest⟩
  | requestVoteResponse r => exact fun hr => hg.vote_keep (ht hr)
  | appendEntries r =>
    obtain ⟨hled, hlen, hterm, hentries, hle, hsettled⟩ := ht
    have hp := hg.leaderLog_le r.term
    refine ⟨hg.led_keep hled, hlen.trans hp.length_le, ?_, ?_, hle.trans hp.length_le, ?_⟩
    · rw [take_eq_of_isPrefix hp (by omega)]
      exact hterm
    · have hdrop : ∀ (l : List LogEntry) k j, (l.drop k).take j = (l.take (k + j)).drop k := by
        intro l k j
        rw [List.drop_take, Nat.add_sub_cancel_left]
      rw [hdrop, take_eq_of_isPrefix hp hlen, ← hdrop]
      exact hentries
    · rw [take_eq_of_isPrefix hp hle]
      exact hg.settled hsettled
  | appendEntriesResponse r => exact fun hr => (ht hr).trans (hg.ack_le _ _)

theorem Origin.mono {limit : ℕ} {submitted submitted' : ClientCommand → Prop} {e : LogEntry}
    (ho : Origin limit submitted e) (hs : ∀ c, submitted c → submitted' c) :
    Origin limit submitted' e := by
  unfold Origin at *
  split at ho
  · exact ho
  · exact hs _ ho

/-! ### Logs that trace the history of this system -/

section Chronicled

variable {limit : ℕ} {submitted : ClientCommand → Prop} {l : List LogEntry}

variable (hc : Chronicled Q limit submitted h)
include hc

/-- A log that follows the history is in order. -/
theorem Chronicled.orderly_of_traces (ht : Traces h l) : Orderly l := by
  by_cases hne : l = []
  · rw [hne]
    exact orderly_nil
  · exact (hc.orderly _).of_isPrefix (ht l List.prefix_rfl hne)

theorem Chronicled.origin_of_traces (ht : Traces h l) : ∀ e ∈ l, Origin limit submitted e := by
  intro e he
  exact hc.origin _ e ((ht l List.prefix_rfl (List.ne_nil_of_mem he)).mem he)

/-- The operations of storage write no leader log. -/
theorem Chronicled.run {op : Operation NodeId} (he : op.Enabled h i) :
    Chronicled Q limit submitted (op.run h i) := by
  refine ⟨(he.step Q).inv hc.inv, fun t => ?_, fun t => ?_⟩
  · rw [Operation.run_leaderLog]
    exact hc.orderly t
  · rw [Operation.run_leaderLog]
    exact hc.origin t

/-- A leader starts from a log that follows the history. -/
theorem Chronicled.lead {t : ℕ} (ht : Traces h l) (hinv : Inv Q (h.lead i t l)) :
    Chronicled Q limit submitted (h.lead i t l) := by
  refine ⟨hinv, fun s => ?_, fun s => ?_⟩ <;> rcases eq_or_ne s t with rfl | hs
  · rw [lead_leaderLog_self]
    exact hc.orderly_of_traces ht
  · rw [lead_leaderLog_of_ne _ _ _ _ hs]
    exact hc.orderly s
  · rw [lead_leaderLog_self]
    exact hc.origin_of_traces ht
  · rw [lead_leaderLog_of_ne _ _ _ _ hs]
    exact hc.origin s

/-- A leader adds an entry in order and of known origin. -/
theorem Chronicled.propose {t : ℕ} {e : LogEntry} (hinv : Inv Q (h.propose t e))
    (hord : Orderly (h.leaderLog t ++ [e])) (horig : Origin limit submitted e) :
    Chronicled Q limit submitted (h.propose t e) := by
  refine ⟨hinv, fun s => ?_, fun s => ?_⟩ <;> rcases eq_or_ne s t with rfl | hs
  · rw [propose_leaderLog_self]
    exact hord
  · rw [propose_leaderLog_of_ne _ _ _ hs]
    exact hc.orderly s
  · rw [propose_leaderLog_self]
    intro x hx
    rcases List.mem_append.mp hx with hx | hx
    · exact hc.origin s x hx
    · obtain rfl : x = e := by simpa using hx
      exact horig
  · rw [propose_leaderLog_of_ne _ _ _ hs]
    exact hc.origin s

end Chronicled

end DetLog
