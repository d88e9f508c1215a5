import DetLog.Raft.Structure

/-!
# At most once

A list of commands, from any number of sessions, with retries, conflicts and gaps, is folded
through `DetLog.KvStateMachine.apply`. What counts is which of them are *executed*
(`DetLog.KvStateMachine.executions`): in every session they are the numbers `1, 2, …, k` in this
order, and the values are what these commands alone make of the empty store, under the plain
meaning of the three kinds of commands (`DetLog.ClientCommand.effect`).

The rest changes nothing. A retry of the last command of a session gets its old answer, whatever
other sessions have done to the same key in between, because the answer is in the table and not
computed again.

A leader decides about a command before it appends it, and it decides the same
(`DetLog.admission_agrees`).
-/

namespace DetLog

/-! ### The plain meaning of commands -/

namespace ClientCommand

/-- What a command does to a store. -/
def effect (command : ClientCommand) (store : Bytes → Option Bytes) : Bytes → Option Bytes :=
  match command.kind with
  | .put => Function.update store command.key (some command.value)
  | .erase => Function.update store command.key none
  | .get => store

/-- What a command returns. A missing key reads as the empty value. -/
def outcome (command : ClientCommand) (store : Bytes → Option Bytes) : Bytes :=
  match command.kind with
  | .put => command.value
  | .erase => (store command.key).getD []
  | .get => (store command.key).getD []

end ClientCommand

namespace KvStateMachine

variable {m m' : KvStateMachine} {command : ClientCommand} {commands : List ClientCommand}
  {s : SessionId}

theorem find_perform (values : OrdMap Bytes Bytes) (command : ClientCommand) :
    (perform values command).1.find = command.effect values.find ∧
      (perform values command).2 = command.outcome values.find := by
  unfold perform ClientCommand.effect ClientCommand.outcome
  cases command.kind with
  | put =>
    refine ⟨funext fun key => ?_, rfl⟩
    simp only [OrdMap.find_insert, Function.update_apply]
    split_ifs <;> rfl
  | erase =>
    cases hfind : values.find command.key with
    | some value =>
      refine ⟨funext fun key => ?_, by simp⟩
      simp only [OrdMap.find_erase, Function.update_apply]
      split_ifs <;> rfl
    | none =>
      refine ⟨?_, by simp⟩
      simp only
      rw [← hfind, Function.update_eq_self]
  | get => cases hfind : values.find command.key <;> exact ⟨rfl, by simp⟩

/-! ### Lists of commands -/

/-- The state after a list of commands. -/
def applyAll (m : KvStateMachine) (commands : List ClientCommand) : KvStateMachine :=
  commands.foldl (fun m command => (m.apply command).1) m

/-- The results of a list of commands. -/
def results (m : KvStateMachine) : List ClientCommand → List ApplyResult
  | [] => []
  | command :: rest => (m.apply command).2 :: (m.apply command).1.results rest

/-- The commands of a list that are executed. -/
def executions (m : KvStateMachine) : List ClientCommand → List ClientCommand
  | [] => []
  | command :: rest =>
    if (m.apply command).2.executed then command :: (m.apply command).1.executions rest
    else (m.apply command).1.executions rest

theorem applyAll_append (m : KvStateMachine) (commands rest : List ClientCommand) :
    m.applyAll (commands ++ rest) = (m.applyAll commands).applyAll rest := List.foldl_append

/-- **The executed commands are numbered consecutively** in every session. -/
theorem sequences_executions (m : KvStateMachine) (s : SessionId) (commands : List ClientCommand) :
    m.lastSequence s ≤ (m.applyAll commands).lastSequence s ∧
      ((m.executions commands).filter fun c => c.session = s).map ClientCommand.sequence =
        List.range' (m.lastSequence s + 1)
          ((m.applyAll commands).lastSequence s - m.lastSequence s) := by
  induction commands generalizing m with
  | nil => simp [applyAll, executions]
  | cons command rest ih =>
    obtain ⟨hle, hrange⟩ := ih (m.apply command).1
    rw [executions]
    have hrest : m.applyAll (command :: rest) = (m.apply command).1.applyAll rest := rfl
    rw [hrest]
    split_ifs with hexecuted
    · obtain ⟨-, hnext, heq⟩ := apply_of_executed hexecuted
      rw [heq] at hle hrange ⊢
      rw [lastSequence_executing] at hle hrange
      by_cases hs : s = command.session
      · subst hs
        rw [if_pos rfl] at hle hrange
        rw [List.filter_cons_of_pos (by simp), List.map_cons, hrange, hnext]
        refine ⟨by omega, ?_⟩
        rw [← List.range'_succ]
        congr 1
        omega
      · rw [if_neg hs] at hle hrange
        rw [List.filter_cons_of_neg (by simp [Ne.symm hs])]
        exact ⟨hle, hrange⟩
    · rw [apply_of_not_executed (by simpa using hexecuted)] at hle hrange ⊢
      exact ⟨hle, hrange⟩

/-- **The values are made by the executed commands.** -/
theorem find_applyAll (m : KvStateMachine) (commands : List ClientCommand) :
    (m.applyAll commands).values.find =
      (m.executions commands).foldl (fun store command => command.effect store)
        m.values.find := by
  induction commands generalizing m with
  | nil => rfl
  | cons command rest ih =>
    have hrest : m.applyAll (command :: rest) = (m.apply command).1.applyAll rest := rfl
    rw [hrest, ih, executions]
    split_ifs with hexecuted
    · obtain ⟨-, -, heq⟩ := apply_of_executed hexecuted
      rw [heq, List.foldl_cons, ← (find_perform m.values command).1]
      rfl
    · rw [apply_of_not_executed (by simpa using hexecuted)]

/-- The record of a session stays until the next command of the session is executed. -/
theorem find_sessions_applyAll (m : KvStateMachine) (commands : List ClientCommand)
    (h : ∀ c ∈ m.executions commands, c.session ≠ s) :
    (m.applyAll commands).sessions.find s = m.sessions.find s := by
  induction commands generalizing m with
  | nil => rfl
  | cons command rest ih =>
    have hrest : m.applyAll (command :: rest) = (m.apply command).1.applyAll rest := rfl
    rw [executions] at h
    rw [hrest]
    split_ifs at h with hexecuted
    · obtain ⟨-, -, heq⟩ := apply_of_executed hexecuted
      rw [ih _ fun c hc => h c (by simp [hc]), heq]
      exact OrdMap.find_insert_of_ne _ _ (h command (by simp)).symm
    · rw [ih _ h, apply_of_not_executed (by simpa using hexecuted)]

/-- **A retry gets its old answer.** -/
theorem apply_of_find {record : SessionRecord} (hvalid : structurallyValid command = true)
    (hfind : m.sessions.find command.session = some record)
    (hsequence : record.sequence = command.sequence)
    (hdigest : record.commandDigest = commandDigest command) :
    m.apply command =
      (m, { status := record.status, value := record.result, duplicate := true }) := by
  have hverdict : m.sessionVerdict command =
      some { status := record.status, value := record.result, duplicate := true } := by
    unfold sessionVerdict
    simp [hfind, hsequence, hdigest]
  unfold apply
  simp [hvalid, hverdict]

/-- **At most once.** Whatever the commands are: what is not executed changes nothing; the executed
commands of a session carry the numbers `1, 2, …, k` in this order; a retry of the last of them
gets the status and the value of its execution; and the values are those of the executed commands
alone. -/
theorem at_most_once (commands : List ClientCommand) :
    (∀ command, ((applyAll {} commands).apply command).2.executed = false →
      ((applyAll {} commands).apply command).1 = applyAll {} commands) ∧
    (∀ s, ∃ k, ((executions {} commands).filter fun c => c.session = s).map
      ClientCommand.sequence = List.range' 1 k) ∧
    (∀ before command middle, commands = before ++ command :: middle →
      ((applyAll {} before).apply command).2.executed = true →
      (∀ c ∈ executions (applyAll {} (before ++ [command])) middle,
        c.session ≠ command.session) →
      ((applyAll {} commands).apply command).2 =
        { status := ((applyAll {} before).apply command).2.status
          value := ((applyAll {} before).apply command).2.value
          executed := false
          duplicate := true }) ∧
    (applyAll {} commands).values.find =
      (executions {} commands).foldl (fun store command => command.effect store)
        (fun _ => none) := by
  refine ⟨fun command => apply_of_not_executed, fun s => ⟨_, (sequences_executions {} s _).2⟩,
    ?_, find_applyAll {} commands⟩
  rintro before command middle rfl hexecuted hmiddle
  obtain ⟨hvalid, -, heq⟩ := apply_of_executed hexecuted
  have hstate : applyAll {} (before ++ [command]) = (applyAll {} before).executing command := by
    rw [applyAll_append]
    exact congrArg Prod.fst heq
  have hfind : (applyAll {} (before ++ command :: middle)).sessions.find command.session =
      some { sequence := command.sequence, commandDigest := commandDigest command, status := .ok,
             result := (perform (applyAll {} before).values command).2 } := by
    rw [← List.singleton_append, ← List.append_assoc, applyAll_append,
      find_sessions_applyAll _ middle hmiddle, hstate]
    exact OrdMap.find_insert_self _ _ _
  rw [apply_of_find hvalid hfind rfl rfl, heq]

end KvStateMachine

/-! ### The decision of a leader -/

section Admission

variable {c : Ctx} {token : ClientToken} {command : ClientCommand}

/-- **A ready leader answers from its session table**, and goes on with a command that the table
would execute. -/
theorem onClientRequest_eq (hleader : c.node.role = .leader) (hready : c.node.leaderReady = true)
    (hok : commandAcceptable c.node.config command = true) :
    c.onClientRequest token command =
      (c.node.stateMachine.sessionVerdict command).elim (c.joinPending token command)
        fun verdict => c.emitReply token verdict.status verdict.value
          (if verdict.duplicate then c.node.lastApplied else 0) := by
  unfold KvStateMachine.sessionVerdict Ctx.onClientRequest
  rw [if_neg (by simp [hleader]), if_neg (by simp [hleader]), if_neg (by simp [hready]),
    if_neg (by simp [hok]), KvStateMachine.session]
  -- Both compare the command with the last one of its session, in the same order.
  cases c.node.stateMachine.sessions.find command.session with
  | none =>
    simp only
    split_ifs <;> rfl
  | some record =>
    simp only [ne_comm (a := KvStateMachine.commandDigest command)]
    split_ifs <;> rfl

theorem log_startPersist (c : Ctx) (batch : PersistBatch) (k : Continuation) :
    (c.startPersist batch k).node.log = c.node.log := by
  unfold Ctx.startPersist
  split_ifs
  · rfl
  · rw [Ctx.failStorage_node]
  · rfl

/-- A command that the state machine would execute is appended, unless there is no room. -/
theorem admitClient_cases (hsize : c.node.log.length < maxU64) :
    (c.admitClient token command).node.log =
        c.node.log ++ [⟨c.node.log.length + 1, c.node.currentTerm, some command⟩] ∨
      ((c.admitClient token command).node.log = c.node.log ∧
        c.node.canAppendClient ⟨c.node.log.length + 1, c.node.currentTerm, some command⟩ = false ∧
        ∃ reply traced record, (c.admitClient token command).effects =
            c.effects ++ [.trace traced] ++ [.clientReply reply] ++ [.trace record] ∧
          reply.token = token ∧ reply.status = .busy) := by
  unfold Ctx.admitClient
  rw [if_neg (by rw [RaftNode.lastLogIndex]; omega)]
  simp only
  split_ifs with hroom
  · exact Or.inr ⟨rfl, hroom, _, _, _, rfl, rfl, rfl⟩
  · refine Or.inl ?_
    rw [Ctx.beginPersist, if_neg (by simp [PersistBatch.isEmpty]), log_startPersist]
    rfl

/-- **The leader's admission agrees with the state machine.** For a command that a ready leader
accepts, and whose session has no pending entry, let the state machine say what it would do. What
it would refuse is answered with its answer, and the node stays as it is. What it would execute is
appended as the next entry, or is answered with `busy` because of the bounds on the uncommitted
entries. -/
theorem admission_agrees {m : RaftNode} (hleader : m.role = .leader) (hready : m.leaderReady = true)
    (hok : commandAcceptable m.config command = true)
    (hfree : ∀ index, m.pendingSessions.find command.session = some index →
      m.pendingClients.find index = none)
    (hsize : m.log.length < maxU64) (token : ClientToken) :
    ((m.stateMachine.apply command).2.executed = false →
      (Ctx.onClientRequest { node := m } token command).node = m ∧
      ∃ reply record, (Ctx.onClientRequest { node := m } token command).effects =
          [.clientReply reply, .trace record] ∧ reply.token = token ∧
        reply.status = (m.stateMachine.apply command).2.status ∧
        reply.value = (m.stateMachine.apply command).2.value) ∧
    ((m.stateMachine.apply command).2.executed = true →
      (Ctx.onClientRequest { node := m } token command).node.log =
          m.log ++ [⟨m.log.length + 1, m.currentTerm, some command⟩] ∨
      ((Ctx.onClientRequest { node := m } token command).node.log = m.log ∧
        m.canAppendClient ⟨m.log.length + 1, m.currentTerm, some command⟩ = false ∧
        ∃ reply traced record, (Ctx.onClientRequest { node := m } token command).effects =
            [.trace traced, .clientReply reply, .trace record] ∧ reply.token = token ∧
          reply.status = .busy)) := by
  have hvalid : KvStateMachine.structurallyValid command = true := by
    rw [commandAcceptable, Bool.and_eq_true] at hok
    exact hok.1
  unfold KvStateMachine.apply
  rw [if_neg (by simp [hvalid])]
  cases hverdict : m.stateMachine.sessionVerdict command with
  | some verdict =>
    simp only
    rw [onClientRequest_eq hleader hready hok, hverdict,
      KvStateMachine.sessionVerdict_executed hverdict]
    exact ⟨fun _ => ⟨rfl, _, _, rfl, rfl, rfl, rfl⟩, by simp⟩
  | none =>
    rw [onClientRequest_eq hleader hready hok, hverdict]
    refine ⟨by simp, fun _ => ?_⟩
    unfold Ctx.joinPending
    cases hsession : m.pendingSessions.find command.session with
    | none => exact admitClient_cases hsize
    | some index =>
      simp only [hfree index hsession]
      exact admitClient_cases hsize

/-- The leader of the sample run refuses what its state machine refuses. -/
theorem admission_agrees_sample :
    let s : Driven := { node := RaftNode.ofRecovered Driven.sampleConfig {}, durable := {} }
    let m := (s.run (Driven.sampleInputs.take 8)).node
    let put : ClientCommand :=
      { session := ⟨0, 5⟩, sequence := 1, kind := .put, key := [107], value := [] }
    m.role = .leader ∧ m.leaderReady = true ∧
    (Ctx.onClientRequest { node := m } 7 put).node.log.length = m.log.length + 1 ∧
    (Ctx.onClientRequest { node := m } 7 { put with sequence := 2 }).node = m := by
  intro s m put
  have hleader : m.role = .leader := by decide +kernel
  have hready : m.leaderReady = true := by decide +kernel
  have hfree : m.pendingSessions.find ⟨0, 5⟩ = none := by decide +kernel
  have hput : commandAcceptable m.config put = true := by decide +kernel
  have hgap : commandAcceptable m.config { put with sequence := 2 } = true := by decide +kernel
  have hsize : m.log.length < maxU64 := by decide +kernel
  refine ⟨hleader, hready, ?_, ?_⟩
  · have hagrees := (admission_agrees hleader hready hput
      (fun index h => by simp [put, hfree] at h) hsize 7).2 (by decide +kernel)
    rcases hagrees with h | h
    · rw [h]
      simp
    · exact absurd h.2.1 (by decide +kernel)
  · exact ((admission_agrees hleader hready hgap (fun index h => by simp [put, hfree] at h)
      hsize 7).1 (by decide +kernel)).1

end Admission

end DetLog
