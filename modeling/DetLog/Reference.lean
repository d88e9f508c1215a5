import DetLog.Container.Attempt
import DetLog.Container.OrdMap
import DetLog.Model

/-!
# The reference model

The tests compare the implementation with a second model of what it should do. It is serial and
has no messages: a history says which votes and which copies there are, and the model checks them,
keeps the logs of the replicas, and interprets what is committed.

Everything here follows the source, `DetLog.Reference.Model.apply` in particular. An action runs
statement by statement over the model and may be rejected on the way, with a text; the replicas that
it has changed by then stay changed. So that a rejected action changes nothing
(`DetLog.Reference.Model.rejected_leaves_model`) is a matter of the order of its statements: all
checks come before the first assignment.
-/

namespace DetLog

namespace Reference

/-! ### Replicas -/

/-- What is kept of the last command of a session: the whole command. -/
structure SessionState where
  command : ClientCommand
  status : ClientStatus := .ok
  result : Bytes
  deriving DecidableEq

/-- What became of an entry when it was applied. -/
structure AppliedOutcome where
  index : ℕ := 0
  status : ClientStatus := .ok
  value : Bytes := []
  executed : Bool := false
  duplicate : Bool := false
  deriving DecidableEq

/-- A replica: its log and all that follows from it. -/
structure ReplicaState where
  id : NodeId
  alive : Bool := true
  activeLeader : Bool := false
  currentTerm : ℕ := 0
  votedFor : Option NodeId := none
  commitIndex : ℕ := 0
  lastApplied : ℕ := 0
  readyTerm : ℕ := 0
  log : List LogEntry := []
  values : OrdMap Bytes Bytes := ∅
  sessions : OrdMap SessionId SessionState := ∅
  outcomes : OrdMap ℕ AppliedOutcome := ∅
  deriving DecidableEq

/-- Only a put carries a value. -/
def structurallyValid (command : ClientCommand) : Bool :=
  if command.sequence = 0 ∨ command.key = [] then false
  else
    match command.kind with
    | .put => true
    | .erase => command.value.isEmpty
    | .get => command.value.isEmpty

/-- A retry repeats the command. -/
def sameRequest (lhs rhs : ClientCommand) : Bool :=
  decide (lhs.session = rhs.session ∧ lhs.sequence = rhs.sequence ∧ lhs.kind = rhs.kind ∧
    lhs.key = rhs.key ∧ lhs.value = rhs.value)

/-- The answer of the session table to a command, or `none` if the command is the next one. -/
def sessionAnswer (sessions : OrdMap SessionId SessionState) (command : ClientCommand) :
    Option AppliedOutcome :=
  match sessions.find command.session with
  | some session =>
    if command.sequence < session.command.sequence then some { status := .staleSequence }
    else if command.sequence = session.command.sequence then
      if sameRequest command session.command = false then some { status := .requestIdConflict }
      else some { status := session.status, value := session.result, duplicate := true }
    else if session.command.sequence = maxU64 ∨
        command.sequence ≠ session.command.sequence + 1 then
      some { status := .sequenceGap }
    else none
  | none => if command.sequence ≠ 1 then some { status := .sequenceGap } else none

namespace ReplicaState

/-- The term of the last entry, 0 for an empty log. -/
def lastTerm (r : ReplicaState) : ℕ := (r.log.getLast?.map LogEntry.term).getD 0

/-- The order of logs that votes respect. -/
def candidateIsUpToDate (candidate voter : ReplicaState) : Bool :=
  if candidate.lastTerm ≠ voter.lastTerm then decide (voter.lastTerm < candidate.lastTerm)
  else decide (voter.log.length ≤ candidate.log.length)

/-- Both logs are long enough and agree so far. -/
def equalPrefix (lhs rhs : ReplicaState) (through : ℕ) : Bool :=
  if lhs.log.length < through ∨ rhs.log.length < through then false
  else decide (lhs.log.take through = rhs.log.take through)

/-- One command is interpreted. -/
def interpret (r : ReplicaState) (index : ℕ) (command : ClientCommand) :
    ReplicaState × AppliedOutcome :=
  if structurallyValid command = false then (r, { index, status := .invalidRequest })
  else
    match sessionAnswer r.sessions command with
    | some answer => (r, { answer with index })
    | none =>
      let (values, value) :=
        match command.kind with
        | .put => (r.values.insert command.key command.value, command.value)
        | .erase =>
          match r.values.find command.key with
          | some value => (r.values.erase command.key, value)
          | none => (r.values, [])
        | .get =>
          match r.values.find command.key with
          | some value => (r.values, value)
          | none => (r.values, [])
      ({ r with
          values
          sessions := r.sessions.insert command.session
            { command, status := .ok, result := value } },
        { index, status := .ok, value, executed := true })

/-- One round of the loop of `apply_through`. -/
def applyNext (r : ReplicaState) : ReplicaState :=
  let r := { r with lastApplied := r.lastApplied + 1 }
  match (r.log[r.lastApplied - 1]?).bind LogEntry.command with
  | none => r
  | some command =>
    let (r, outcome) := r.interpret r.lastApplied command
    { r with outcomes := r.outcomes.insert r.lastApplied outcome }

/-- Applies entries one by one. -/
def applyThrough (r : ReplicaState) (through : ℕ) : ReplicaState :=
  applyNext^[through - r.lastApplied] r

/-- A replica that learns of a higher term. -/
def observe (r : ReplicaState) (term : ℕ) : ReplicaState :=
  if r.currentTerm < term then
    { r with activeLeader := false, currentTerm := term, votedFor := none }
  else r

end ReplicaState

/-! ### Actions -/

/-- A candidate and all who vote for it. -/
structure Elect where
  candidate : NodeId
  term : ℕ
  voters : List NodeId
  deriving DecidableEq

/-- A command for a leader. -/
structure Propose where
  leader : NodeId
  command : ClientCommand
  deriving DecidableEq

/-- A follower gets a prefix of the leader's log. -/
structure ReplicatePrefix where
  leader : NodeId
  follower : NodeId
  through : ℕ
  deriving DecidableEq

/-- A leader commits what others have acknowledged. -/
structure CommitPrefix where
  leader : NodeId
  through : ℕ
  acknowledgers : List NodeId
  deriving DecidableEq

/-- A follower hears what is committed. -/
structure LearnCommit where
  leader : NodeId
  follower : NodeId
  through : ℕ
  deriving DecidableEq

/-- What can happen to a cluster, each in one step. -/
inductive Action where
  | elect (action : Elect)
  | appendNoOp (leader : NodeId)
  | propose (action : Propose)
  | replicate (action : ReplicatePrefix)
  | commit (action : CommitPrefix)
  | learn (action : LearnCommit)
  | crash (node : NodeId)
  | restart (node : NodeId)
  deriving DecidableEq

/-- What a leader answers to a proposal. -/
structure ProposalOutcome where
  status : ClientStatus := .ok
  value : Bytes := []
  index : ℕ := 0
  appended : Bool := false
  duplicate : Bool := false
  deriving DecidableEq

/-- What an accepted action returns. -/
structure ActionResult where
  appendedIndex : Option ℕ := none
  proposal : Option ProposalOutcome := none
  deriving DecidableEq

/-- The replicas and the leader of each term. -/
structure Model where
  members : List NodeId
  replicas : OrdMap NodeId ReplicaState := ∅
  leaders : OrdMap ℕ NodeId := ∅
  deriving DecidableEq

namespace Model

/-- The loop of the constructor over the members. -/
def enroll : Model → List NodeId → Except String Model
  | m, [] => .ok m
  | m, member :: rest =>
    if member = 0 ∨ m.replicas.find member ≠ none then
      .error "reference model members must be unique and nonzero"
    else enroll { m with replicas := m.replicas.insert member { id := member } } rest

/-- A model of members that are distinct. -/
def create (members : List NodeId) : Except String Model :=
  if members = [] then .error "reference model requires members"
  else enroll { members } members

/-- More than half of the members. -/
def quorumSize (m : Model) : ℕ := m.members.length / 2 + 1

/-- The active leader that is on record for its term. -/
def leader (m : Model) (r : ReplicaState) : Bool :=
  r.activeLeader && decide (m.leaders.find r.currentTerm = some r.id)

/-- A replica changes. -/
def update (m : Model) (node : NodeId) (f : ReplicaState → ReplicaState) : Model :=
  match m.replicas.find node with
  | some r => { m with replicas := m.replicas.insert node (f r) }
  | none => m

/-- The statements of an action. -/
abbrev Statements := Attempt Model String

/-- A replica, or the rejection of an unknown one. -/
def member (node : NodeId) (absent : String) : Statements ReplicaState := do
  match (← get).replicas.find node with
  | some r => return r
  | none => throw absent

/-! ### Elections -/

/-- One round of the loop over the voters, with those it has seen. -/
def checkVoter (candidate : ReplicaState) (a : Elect) (seen : List NodeId) (voterId : NodeId) :
    Statements (List NodeId) := do
  let voter ← member voterId "election voter is not a member"
  rejectIf (voterId ∈ seen) "election voter is duplicated"
  rejectIf (voter.alive = false) "crashed replica cannot vote"
  rejectIf (a.term < voter.currentTerm) "voter has already observed a higher term"
  rejectIf (voter.currentTerm = a.term ∧ voter.votedFor ≠ none ∧ voter.votedFor ≠ some a.candidate)
    "voter already voted for another candidate"
  rejectIf (candidate.candidateIsUpToDate voter = false)
    "candidate log is not up to date for a voter"
  return seen ++ [voterId]

/-- A vote moves the voter to the term. -/
def castVote (a : Elect) (voter : ReplicaState) : ReplicaState :=
  { voter.observe a.term with votedFor := some a.candidate }

/-- All checks come before the first vote. -/
def elect (a : Elect) : Statements ActionResult := do
  let candidate ← member a.candidate "election candidate is not a member"
  rejectIf (candidate.alive = false) "crashed candidate cannot be elected"
  rejectIf (a.term = 0 ∨ a.term ≤ candidate.currentTerm)
    "election term must advance the candidate term"
  let uniqueVoters ← a.voters.foldlM (checkVoter candidate a) []
  rejectIf (a.candidate ∉ uniqueVoters) "candidate's self-vote is missing"
  rejectIf (uniqueVoters.length < (← get).quorumSize) "election has no quorum"
  let existing := (← get).leaders.find a.term
  rejectIf (existing ≠ none ∧ existing ≠ some a.candidate) "term already has a different leader"
  uniqueVoters.forM fun voter => modify (·.update voter (castVote a))
  modify (·.update a.candidate fun r =>
    { r with currentTerm := a.term, votedFor := some a.candidate, activeLeader := true })
  modify fun m => { m with leaders := m.leaders.insert a.term a.candidate }
  return {}

/-! ### Entries -/

/-- An entry at the end of a log. -/
def append (m : Model) (node : NodeId) (command : Option ClientCommand) : Model :=
  m.update node fun r =>
    { r with log := r.log ++ [{ index := r.log.length + 1, term := r.currentTerm, command }] }

/-- The entry that a new leader commits first. -/
def appendNoOp (leader : NodeId) : Statements ActionResult := do
  let r ← member leader "no-op leader is not a member"
  rejectIf (r.alive = false ∨ (← get).leader r = false)
    "only a live elected leader may append a no-op"
  modify (·.append leader none)
  return { appendedIndex := some (r.log.length + 1) }

/-- A proposal shows its entry only if it appended one. -/
def proposalResult (outcome : ProposalOutcome) : ActionResult where
  appendedIndex := if outcome.appended then some outcome.index else none
  proposal := some outcome

/-- A command is refused, answered from its session, or appended. -/
def propose (a : Propose) : Statements ActionResult := do
  let r ← member a.leader "proposal target is not a member"
  rejectIf (r.alive = false ∨ (← get).leader r = false)
    "proposal target is not a live elected leader"
  rejectIf (r.readyTerm ≠ r.currentTerm) "leader has not committed an entry in its current term"
  if structurallyValid a.command = false then
    return proposalResult { status := .invalidRequest }
  else
    match sessionAnswer r.sessions a.command with
    | some answer =>
      return proposalResult
        { status := answer.status, value := answer.value, duplicate := answer.duplicate }
    | none =>
      modify (·.append a.leader (some a.command))
      return proposalResult { index := r.log.length + 1, appended := true }

/-- The first index at which two logs differ, up to a limit, or zero. -/
def firstDifference (follower source : List LogEntry) (limit : ℕ) : ℕ :=
  ((List.range limit).find? fun offset => follower[offset]? ≠ source[offset]?).elim 0 (· + 1)

/-- Where the log of a follower has to change, or zero. -/
def divergence (follower source : List LogEntry) (through : ℕ) : ℕ :=
  let difference := firstDifference follower source (min through follower.length)
  if difference = 0 ∧ follower.length < through then follower.length + 1 else difference

/-- A committed entry is never replaced. -/
def replicate (a : ReplicatePrefix) : Statements ActionResult := do
  let source ← member a.leader "replication endpoint is not a member"
  let follower ← member a.follower "replication endpoint is not a member"
  rejectIf (a.leader = a.follower) "replication endpoints must differ"
  rejectIf (source.alive = false ∨ follower.alive = false ∨ (← get).leader source = false)
    "replication requires a live leader and follower"
  rejectIf (source.currentTerm < follower.currentTerm) "higher-term follower rejects replication"
  rejectIf (source.log.length < a.through) "replication exceeds the leader log"
  let d := divergence follower.log source.log a.through
  rejectIf (d ≠ 0 ∧ d ≤ follower.commitIndex) "replication would overwrite a committed entry"
  modify (·.update a.follower fun r =>
    { r with
      log :=
        if d = 0 then r.log else r.log.take (d - 1) ++ (source.log.take a.through).drop (d - 1) })
  modify (·.update a.follower (·.observe source.currentTerm))
  return {}

/-! ### Commitment -/

/-- One round of the loop over the acknowledgers, with those it has seen. -/
def checkAcknowledger (source : ReplicaState) (through : ℕ) (seen : List NodeId)
    (acknowledger : NodeId) : Statements (List NodeId) := do
  let r ← member acknowledger "commit acknowledger is not a member"
  rejectIf (acknowledger ∈ seen) "commit acknowledger is duplicated"
  rejectIf (r.alive = false) "crashed replica cannot acknowledge a commit"
  rejectIf (source.equalPrefix r through = false) "commit acknowledger lacks the leader prefix"
  return seen ++ [acknowledger]

/-- The term of the entry at an index. -/
def termAt (log : List LogEntry) (index : ℕ) : Option ℕ :=
  (log[index - 1]?).map LogEntry.term

/-- Commits only through an entry of the leader's own term. -/
def commit (a : CommitPrefix) : Statements ActionResult := do
  let source ← member a.leader "commit leader is not a member"
  rejectIf (source.alive = false ∨ (← get).leader source = false)
    "only a live elected leader may commit"
  rejectIf (a.through < source.commitIndex ∨ source.log.length < a.through)
    "commit index is outside the leader's legal range"
  let unique ← a.acknowledgers.foldlM (checkAcknowledger source a.through) []
  rejectIf (unique.length < (← get).quorumSize) "commit has no quorum"
  rejectIf (a.leader ∉ unique) "commit certificate omits the leader's durable copy"
  rejectIf (source.commitIndex < a.through ∧ a.through ≠ 0 ∧
      termAt source.log a.through ≠ some source.currentTerm)
    "leader may advance commit only through current-term entry"
  modify (·.update a.leader fun r => { r with commitIndex := a.through })
  modify (·.update a.leader (·.applyThrough a.through))
  modify (·.update a.leader fun r =>
    if a.through ≠ 0 ∧ termAt r.log a.through = some r.currentTerm then
      { r with readyTerm := r.currentTerm }
    else r)
  return {}

/-- The committed prefix has to agree first. -/
def learn (a : LearnCommit) : Statements ActionResult := do
  let source ← member a.leader "commit propagation endpoint is not a member"
  let follower ← member a.follower "commit propagation endpoint is not a member"
  rejectIf (source.alive = false ∨ follower.alive = false ∨ (← get).leader source = false)
    "commit propagation requires a live leader and follower"
  rejectIf (source.currentTerm < follower.currentTerm)
    "higher-term follower rejects commit propagation"
  rejectIf (a.through < follower.commitIndex ∨ source.commitIndex < a.through ∨
      source.equalPrefix follower a.through = false)
    "follower cannot learn the requested commit prefix"
  modify (·.update a.follower fun r => { r with commitIndex := a.through })
  modify (·.update a.follower (·.applyThrough a.through))
  modify (·.update a.follower (·.observe source.currentTerm))
  return {}

/-! ### Failures -/

/-- A crash keeps all but the leadership. -/
def crash (node : NodeId) : Statements ActionResult := do
  let r ← member node "crash target is not a member"
  rejectIf (r.alive = false) "replica is already crashed"
  modify (·.update node fun r => { r with alive := false, activeLeader := false })
  return {}

/-- A replica comes back as a follower. -/
def restart (node : NodeId) : Statements ActionResult := do
  let r ← member node "restart target is not a member"
  rejectIf (r.alive = true) "replica is already alive"
  modify (·.update node fun r => { r with alive := true, activeLeader := false })
  return {}

/-! ### Histories -/

/-- The dispatch on the kind of an action. -/
def statements : Action → Statements ActionResult
  | .elect a => elect a
  | .appendNoOp leader => appendNoOp leader
  | .propose a => propose a
  | .replicate a => replicate a
  | .commit a => commit a
  | .learn a => learn a
  | .crash node => crash node
  | .restart node => restart node

/-- One action. -/
def apply (m : Model) (a : Action) : Except String ActionResult × Model := (statements a).exec m

/-- How far a history was accepted. -/
structure HistoryResult where
  ok : Bool := true
  appliedActions : ℕ := 0
  error : String := ""
  deriving DecidableEq, Repr

/-- The loop over a history, from the action at an index on. -/
def applyFrom (index : ℕ) (m : Model) : List Action → HistoryResult × Model
  | [] => ({ appliedActions := index }, m)
  | a :: rest =>
    match m.apply a with
    | (.ok _, m) => applyFrom (index + 1) m rest
    | (.error error, m) => ({ ok := false, appliedActions := index, error }, m)

/-- A history runs up to the first rejected action. -/
def applyHistory (m : Model) (history : List Action) : HistoryResult × Model :=
  applyFrom 0 m history

/-! ### Rejected actions -/

section Rejected

open Attempt

theorem checks_member (node : NodeId) (absent : String) : (member node absent).Checks :=
  checks_get.bind fun m => by
    cases m.replicas.find node with
    | none => exact checks_throw absent
    | some r => exact checks_pure r

theorem checks_checkVoter (candidate : ReplicaState) (a : Elect) (seen : List NodeId)
    (voterId : NodeId) : (checkVoter candidate a seen voterId).Checks :=
  (checks_member _ _).bind fun _ => (checks_rejectIf _ _).bind fun _ =>
    (checks_rejectIf _ _).bind fun _ => (checks_rejectIf _ _).bind fun _ =>
    (checks_rejectIf _ _).bind fun _ => (checks_rejectIf _ _).bind fun _ => checks_pure _

theorem checks_checkAcknowledger (source : ReplicaState) (through : ℕ) (seen : List NodeId)
    (acknowledger : NodeId) : (checkAcknowledger source through seen acknowledger).Checks :=
  (checks_member _ _).bind fun _ => (checks_rejectIf _ _).bind fun _ =>
    (checks_rejectIf _ _).bind fun _ => (checks_rejectIf _ _).bind fun _ => checks_pure _

theorem atomic_elect (a : Elect) : (elect a).Atomic := by
  refine (checks_member _ _).atomic_bind fun candidate => .after_rejectIf (.after_rejectIf ?_)
  refine (checks_foldlM (checks_checkVoter candidate a) _ _).atomic_bind fun voters => ?_
  refine .after_rejectIf (.after_get fun _ => .after_rejectIf (.after_get fun _ => ?_))
  refine .after_rejectIf (Succeeds.atomic ?_)
  exact (succeeds_forM (fun _ => succeeds_modify _) _).bind fun _ =>
    (succeeds_modify _).bind fun _ => (succeeds_modify _).bind fun _ => succeeds_pure _

theorem atomic_propose (a : Propose) : (propose a).Atomic := by
  refine (checks_member _ _).atomic_bind fun r => .after_get fun _ => .after_rejectIf ?_
  refine .after_rejectIf ?_
  split_ifs
  · exact (succeeds_pure _).atomic
  · cases sessionAnswer r.sessions a.command with
    | some answer => exact (succeeds_pure _).atomic
    | none => exact ((succeeds_modify _).bind fun _ => succeeds_pure _).atomic

theorem atomic_replicate (a : ReplicatePrefix) : (replicate a).Atomic := by
  refine (checks_member _ _).atomic_bind fun source =>
    (checks_member _ _).atomic_bind fun follower =>
    .after_rejectIf (.after_get fun _ => .after_rejectIf (.after_rejectIf ?_))
  refine .after_rejectIf (.after_rejectIf (Succeeds.atomic ?_))
  exact (succeeds_modify _).bind fun _ => (succeeds_modify _).bind fun _ => succeeds_pure _

theorem atomic_commit (a : CommitPrefix) : (commit a).Atomic := by
  refine (checks_member _ _).atomic_bind fun source =>
    .after_get fun _ => .after_rejectIf (.after_rejectIf ?_)
  refine (checks_foldlM (checks_checkAcknowledger source a.through) _ _).atomic_bind
    fun unique => ?_
  refine .after_get fun _ => .after_rejectIf (.after_rejectIf (.after_rejectIf ?_))
  exact ((succeeds_modify _).bind fun _ => (succeeds_modify _).bind fun _ =>
    (succeeds_modify _).bind fun _ => succeeds_pure _).atomic

theorem atomic_learn (a : LearnCommit) : (learn a).Atomic := by
  refine (checks_member _ _).atomic_bind fun source =>
    (checks_member _ _).atomic_bind fun follower =>
    .after_get fun _ => .after_rejectIf (.after_rejectIf (.after_rejectIf ?_))
  exact ((succeeds_modify _).bind fun _ => (succeeds_modify _).bind fun _ =>
    (succeeds_modify _).bind fun _ => succeeds_pure _).atomic

/-- **Every action checks before it assigns.** -/
theorem atomic_statements (a : Action) : (statements a).Atomic := by
  -- The one assignment of the three actions that are not treated above.
  have hassigns : ∀ (g : Model → Model) (result : ActionResult),
      (do modify g; return result : Statements ActionResult).Atomic := fun g result =>
    ((succeeds_modify g).bind fun _ => succeeds_pure result).atomic
  cases a with
  | elect a => exact atomic_elect a
  | appendNoOp leader =>
    exact (checks_member _ _).atomic_bind fun _ =>
      .after_get fun _ => .after_rejectIf (hassigns _ _)
  | propose a => exact atomic_propose a
  | replicate a => exact atomic_replicate a
  | commit a => exact atomic_commit a
  | learn a => exact atomic_learn a
  | crash node | restart node =>
    exact (checks_member _ _).atomic_bind fun _ => .after_rejectIf (hassigns _ _)

/-- A history that is rejected stops where a shorter one, all of which is accepted, ends. -/
theorem applyFrom_rejected {index : ℕ} {m m' : Model} {history : List Action}
    {result : HistoryResult} (h : applyFrom index m history = (result, m'))
    (hrejected : result.ok = false) : ∃ i a, history[i]? = some a ∧
      result.appliedActions = index + i ∧ (m'.apply a).1 = .error result.error ∧
      applyFrom index m (history.take i) = ({ appliedActions := index + i }, m') := by
  induction history generalizing index m with
  | nil =>
    obtain ⟨rfl, -⟩ := Prod.mk.inj h
    simp at hrejected
  | cons a rest ih =>
    rw [applyFrom] at h
    split at h
    · next result' m₁ happly =>
      obtain ⟨i, b, hb, hi, herror, htake⟩ := ih h
      refine ⟨i + 1, b, hb, by omega, herror, ?_⟩
      rw [List.take_succ_cons, applyFrom, happly]
      dsimp only
      rw [htake, Nat.add_right_comm, Nat.add_assoc]
    · next error m₁ happly =>
      obtain ⟨rfl, rfl⟩ := Prod.mk.inj h
      -- The rejected action has left the model alone, so it would be rejected again.
      have hsame : m₁ = m := by
        have := atomic_statements a m error (by rw [← apply, happly])
        rwa [← apply, happly] at this
      subst hsame
      exact ⟨0, a, rfl, rfl, by rw [happly], rfl⟩

/-- **A rejected action changes nothing**, and a history in which one is rejected leaves the model
at which the actions before it arrive. -/
theorem rejected_leaves_model (m : Model) :
    (∀ a error, (m.apply a).1 = .error error → (m.apply a).2 = m) ∧
    ∀ history, (m.applyHistory history).1.ok = false →
      ∃ i a, history[i]? = some a ∧
        (m.applyHistory history).1.appliedActions = i ∧
        ((m.applyHistory history).2.apply a).1 = .error (m.applyHistory history).1.error ∧
        m.applyHistory (history.take i) =
          ({ appliedActions := i }, (m.applyHistory history).2) := by
  refine ⟨fun a error h => atomic_statements a m error h, fun history h => ?_⟩
  obtain ⟨i, a, ha, hi, herror, htake⟩ :=
    applyFrom_rejected (Prod.mk.eta (p := applyFrom 0 m history)).symm h
  rw [Nat.zero_add] at hi htake
  exact ⟨i, a, ha, hi, herror, htake⟩

end Rejected

end Model

end Reference

end DetLog
