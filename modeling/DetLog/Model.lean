import DetLog.Consensus.History
import Mathlib.Data.Prod.Lex
import Mathlib.Data.List.Lex

/-!
# The shared data model

The values that the consensus core, its storage and its transport exchange: log
entries, hard states, persistence batches, the four protocol messages, client
commands and replies, timers and trace records.

Terms, indexes, identifiers and counters are unsigned 64-bit integers in the source
(32-bit for nodes). They are natural numbers here; where the source tests for the
largest value or lets a counter wrap, the model does so explicitly with
`DetLog.maxU64` and `DetLog.incU64`.
-/

namespace DetLog

/-! ### Numbers and bytes -/

/-- A member of the cluster. -/
abbrev NodeId := ℕ

/-- A request that a client waits for. -/
abbrev ClientToken := ℕ

/-- The largest unsigned 64-bit integer. -/
def maxU64 : ℕ := 2 ^ 64 - 1

/-- The increment of an unsigned 64-bit counter, which wraps. -/
def incU64 (n : ℕ) : ℕ := (n + 1) % 2 ^ 64

/-- A byte string: the contents of a `std::string`. -/
abbrev Bytes := List (Fin 256)

/-- The instance that byte literals rest on. -/
instance instNeZeroByte : NeZero 256 := ⟨by decide⟩

/-! ### Client commands and the log -/

/-- A client session: a 128-bit identity in two halves. -/
structure SessionId where
  high : ℕ
  low : ℕ
  deriving DecidableEq, Repr

/-- Sessions are ordered by their high half, then by their low half. -/
instance : LinearOrder SessionId :=
  LinearOrder.lift' (fun s => toLex (s.high, s.low)) fun s s' h => by
    have h' : (s.high, s.low) = (s'.high, s'.low) := toLex.injective h
    cases s
    cases s'
    simpa using h'

/-- What a command does. -/
inductive CommandKind where
  | put
  | erase
  | get
  deriving DecidableEq, Repr

/-- The numeric value of a command kind. -/
def CommandKind.code : CommandKind → Fin 256
  | .put => 1
  | .erase => 2
  | .get => 3

/-- A command, with its place in its session. -/
structure ClientCommand where
  session : SessionId
  sequence : ℕ
  kind : CommandKind
  key : Bytes
  value : Bytes
  deriving DecidableEq, Repr

/-- An entry of the replicated log. No command denotes the leader's current-term
readiness no-op. -/
structure LogEntry where
  index : ℕ
  term : ℕ
  command : Option ClientCommand
  deriving DecidableEq, Repr

instance : Consensus.Stamped LogEntry := ⟨LogEntry.term⟩

@[simp] theorem stamp_eq_term (e : LogEntry) : Consensus.stamp e = e.term := rfl

/-- What a node must not forget. -/
structure HardState where
  currentTerm : ℕ := 0
  votedFor : Option NodeId := none
  deriving DecidableEq, Repr

/-- One atomic write. Entries at and after `truncateFrom` become logically dead; the
batch may then append a consecutive replacement suffix. -/
structure PersistBatch where
  hardState : Option HardState := none
  truncateFrom : Option ℕ := none
  entries : List LogEntry := []
  commitIndex : Option ℕ := none
  deriving DecidableEq, Repr

/-- Whether a batch writes nothing. -/
def PersistBatch.isEmpty (b : PersistBatch) : Bool :=
  b.hardState.isNone && b.truncateFrom.isNone && b.entries.isEmpty && b.commitIndex.isNone

/-! ### Protocol messages -/

/-- A candidate asks for a vote. -/
structure RequestVote where
  term : ℕ
  candidateId : NodeId
  lastLogIndex : ℕ
  lastLogTerm : ℕ
  deriving DecidableEq, Repr

/-- A vote, or its refusal. -/
structure RequestVoteResponse where
  term : ℕ
  voteGranted : Bool
  deriving DecidableEq, Repr

/-- A leader sends entries, or none as a heartbeat. -/
structure AppendEntries where
  term : ℕ
  leaderId : NodeId
  rpcId : ℕ
  prevLogIndex : ℕ
  prevLogTerm : ℕ
  entries : List LogEntry
  leaderCommit : ℕ
  deriving DecidableEq, Repr

/-- What a follower has, or where it differs. -/
structure AppendEntriesResponse where
  term : ℕ
  rpcId : ℕ
  success : Bool
  matchIndex : ℕ
  conflictIndex : ℕ
  conflictTerm : ℕ
  deriving DecidableEq, Repr

/-- What nodes send. -/
inductive Message where
  | requestVote (m : RequestVote)
  | requestVoteResponse (m : RequestVoteResponse)
  | appendEntries (m : AppendEntries)
  | appendEntriesResponse (m : AppendEntriesResponse)
  deriving DecidableEq, Repr

/-- A message with its two ends; `sender` and `target` are the source's `from` and
`to`. -/
structure MessageEnvelope where
  sender : NodeId
  target : NodeId
  message : Message
  deriving DecidableEq, Repr

/-! ### Replies, timers and traces -/

/-- What became of a request. -/
inductive ClientStatus where
  | ok
  | notLeader
  | leaderNotReady
  | busy
  | unavailable
  | staleSequence
  | sequenceGap
  | requestIdConflict
  | invalidRequest
  | storageError
  deriving DecidableEq, Repr

/-- The answer to a request. -/
structure ClientReply where
  token : ClientToken
  status : ClientStatus
  leaderHint : Option NodeId
  logIndex : ℕ
  value : Bytes
  deriving DecidableEq, Repr

/-- A node has two timers. -/
inductive TimerKind where
  | election
  | heartbeat
  deriving DecidableEq, Repr

/-- A timer is armed; older generations are void. -/
structure TimerRequest where
  kind : TimerKind
  delay : ℕ
  generation : ℕ
  deriving DecidableEq, Repr

/-- What a record is about. -/
inductive TraceKind where
  | roleChange
  | termChange
  | vote
  | send
  | receive
  | storageBegin
  | storageComplete
  | logChange
  | commit
  | apply
  | clientReply
  | queueSaturated
  | fault
  deriving DecidableEq, Repr

/-- A line of the trace. -/
structure TraceRecord where
  kind : TraceKind
  node : NodeId
  term : ℕ
  index : ℕ
  detail : String
  deriving DecidableEq, Repr

/-! ### Ranges

The numbers of the source are unsigned integers of fixed width: 64 bits, and 32 bits for a
node. A value of the model is one of the source if its numbers are in these ranges. -/

/-- A vote within the source's types. -/
def HardState.InRange (hard : HardState) : Prop :=
  hard.currentTerm < 2 ^ 64 ∧ ∀ vote, hard.votedFor = some vote → vote < 2 ^ 32

/-- The numbers of an entry are 64-bit numbers. -/
def LogEntry.InRange (entry : LogEntry) : Prop :=
  entry.index < 2 ^ 64 ∧ entry.term < 2 ^ 64 ∧ ∀ command, entry.command = some command →
    command.session.high < 2 ^ 64 ∧ command.session.low < 2 ^ 64 ∧ command.sequence < 2 ^ 64

/-- **The numbers of a batch are within the types of the source**: 64 bits, and 32 bits for a
node. -/
structure PersistBatch.InRange (batch : PersistBatch) : Prop where
  hardState : ∀ hard, batch.hardState = some hard → hard.InRange
  truncateFrom : ∀ i, batch.truncateFrom = some i → i < 2 ^ 64
  entries : ∀ entry ∈ batch.entries, entry.InRange
  commitIndex : ∀ i, batch.commitIndex = some i → i < 2 ^ 64

/-- The numbers of a command are 64-bit numbers. -/
def ClientCommand.InRange (command : ClientCommand) : Prop :=
  command.session.high < 2 ^ 64 ∧ command.session.low < 2 ^ 64 ∧ command.sequence < 2 ^ 64

/-- The numbers of a request fit their fields. -/
structure AppendEntries.InRange (m : AppendEntries) : Prop where
  term : m.term < 2 ^ 64
  leaderId : m.leaderId < 2 ^ 32
  rpcId : m.rpcId < 2 ^ 64
  prevLogIndex : m.prevLogIndex < 2 ^ 64
  prevLogTerm : m.prevLogTerm < 2 ^ 64
  entries : ∀ entry ∈ m.entries, entry.InRange
  leaderCommit : m.leaderCommit < 2 ^ 64

/-- **The numbers of a message are within the types of the source.** -/
def Message.InRange : Message → Prop
  | .requestVote m => m.term < 2 ^ 64 ∧ m.candidateId < 2 ^ 32 ∧ m.lastLogIndex < 2 ^ 64 ∧
      m.lastLogTerm < 2 ^ 64
  | .requestVoteResponse m => m.term < 2 ^ 64
  | .appendEntries m => m.InRange
  | .appendEntriesResponse m => m.term < 2 ^ 64 ∧ m.rpcId < 2 ^ 64 ∧ m.matchIndex < 2 ^ 64 ∧
      m.conflictIndex < 2 ^ 64 ∧ m.conflictTerm < 2 ^ 64

end DetLog
