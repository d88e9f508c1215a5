import DetLog.Execution
import DetLog.Reference

/-!
# Three interpreters

A command is interpreted in three places that share no code: by the state machine of a node, by the
reference model, and by the observer of a cluster, which rebuilds the state from the applied part
of a log to compare it with that of the node (`DetLog.compareAppliedPrefix`).

They differ in what they remember of a session. The reference model keeps the last command, the
other two its digest. So they agree as long as no two commands with the same session and number
have the same digest (`DetLog.DigestsDistinct`); the invariant is `DetLog.Reference.Mirrors`. The
observer does not check whether a command is well formed, and never answers.
-/

namespace DetLog

/-! ### The observer -/

namespace Observer

/-- The digest as the observer computes it. -/
def digest (command : ClientCommand) : UInt64 :=
  let byte (hash : UInt64) (value : Fin 256) : UInt64 := (hash ^^^ UInt64.ofNat value) * kFnvPrime
  let u64 (hash : UInt64) (value : ℕ) : UInt64 :=
    [0, 8, 16, 24, 32, 40, 48, 56].foldl (fun h shift => byte h (Fin.ofNat 256 (value >>> shift)))
      hash
  let string (hash : UInt64) (value : Bytes) : UInt64 := value.foldl byte (u64 hash value.length)
  string (string (byte kFnvOffset command.kind.code) command.key) command.value

/-- What the observer rebuilds. -/
structure Rebuilt where
  values : OrdMap Bytes Bytes := ∅
  sessions : OrdMap SessionId SessionRecord := ∅
  deriving DecidableEq

namespace Rebuilt

/-- Whether the loop of the observer skips a command. -/
def skips (b : Rebuilt) (command : ClientCommand) : Bool :=
  match b.sessions.find command.session with
  | some existing =>
    if command.sequence < existing.sequence then true
    else if command.sequence = existing.sequence then true
    else decide (existing.sequence = maxU64 ∨ command.sequence ≠ existing.sequence + 1)
  | none => decide (command.sequence ≠ 1)

/-- One round of the loop. -/
def next (b : Rebuilt) (command : ClientCommand) : Rebuilt :=
  if b.skips command then b
  else
    let (values, result) :=
      match command.kind with
      | .put => (b.values.insert command.key command.value, command.value)
      | .erase =>
        match b.values.find command.key with
        | some value => (b.values.erase command.key, value)
        | none => (b.values, [])
      | .get =>
        match b.values.find command.key with
        | some value => (b.values, value)
        | none => (b.values, [])
    { values
      sessions := b.sessions.insert command.session
        { sequence := command.sequence, commandDigest := digest command, status := .ok, result } }

/-- What the commands of a log lead to. -/
def ofEntries (entries : List LogEntry) : Rebuilt :=
  entries.foldl
    (fun b entry =>
      match entry.command with
      | none => b
      | some command => b.next command) {}

end Rebuilt

end Observer

/-- What the observer finds wrong with the state machine of a node. -/
def compareAppliedPrefix (node : RaftNode) : Option String :=
  if node.commitIndex < node.lastApplied then some "lastApplied exceeds commitIndex"
  else if node.log.length < node.lastApplied then some "lastApplied exceeds the local log"
  else
    let rebuilt := Observer.Rebuilt.ofEntries (node.log.take node.lastApplied)
    if rebuilt.values.size ≠ node.stateMachine.values.size ∨
        rebuilt.sessions.size ≠ node.stateMachine.sessions.size then
      some "state-machine cardinality differs from applied log prefix"
    else if rebuilt.sessions.entries.any
        (fun e => some e.2 ≠ node.stateMachine.session e.1) then
      some "state-machine session differs from applied log prefix"
    else if rebuilt.values.entries.any
        (fun e => some e.2 ≠ node.stateMachine.values.find e.1) then
      some "state-machine value differs from applied log prefix"
    else none

/-! ### The observer and the state machine -/

section Observer

variable {m : KvStateMachine} {command : ClientCommand}

/-- The observer's view of a state machine. -/
def KvStateMachine.seen (m : KvStateMachine) : Observer.Rebuilt := ⟨m.values, m.sessions⟩

theorem skips_seen (m : KvStateMachine) (command : ClientCommand) :
    m.seen.skips command = (m.sessionVerdict command).isSome := by
  unfold Observer.Rebuilt.skips KvStateMachine.sessionVerdict
  simp only [KvStateMachine.seen]
  cases m.sessions.find command.session with
  | none => by_cases hfirst : command.sequence = 1 <;> simp [hfirst]
  | some record =>
    by_cases hstale : command.sequence < record.sequence
    · simp [hstale]
    · by_cases hsame : command.sequence = record.sequence
      · by_cases hconflict : record.commandDigest = KvStateMachine.commandDigest command <;>
          simp [hsame, hconflict]
      · by_cases hgap : record.sequence = maxU64 ∨ command.sequence ≠ record.sequence + 1 <;>
          simp [hstale, hsame, hgap]

theorem next_seen (hvalid : KvStateMachine.structurallyValid command = true) :
    m.seen.next command = (m.apply command).1.seen := by
  have hchecked : ¬KvStateMachine.structurallyValid command = false := by simp [hvalid]
  unfold Observer.Rebuilt.next KvStateMachine.apply
  rw [skips_seen, if_neg hchecked]
  cases m.sessionVerdict command with
  | some verdict | none => rfl

/-- **The observer rebuilds the state machine.** -/
theorem ofEntries_eq (entries : List LogEntry)
    (hvalid : ∀ entry ∈ entries, ∀ command, entry.command = some command →
      KvStateMachine.structurallyValid command = true) :
    Observer.Rebuilt.ofEntries entries =
      (KvStateMachine.applyAll {} (entries.filterMap LogEntry.command)).seen := by
  induction entries using List.reverseRecOn with
  | nil => rfl
  | append_singleton entries entry ih =>
    have ih := ih fun e he => hvalid e (by simp [he])
    rw [List.filterMap_append, KvStateMachine.applyAll_append, Observer.Rebuilt.ofEntries,
      List.foldl_append]
    change (match entry.command with
      | none => Observer.Rebuilt.ofEntries entries
      | some command => (Observer.Rebuilt.ofEntries entries).next command) = _
    rw [ih]
    cases hcommand : entry.command with
    | none => simp [hcommand, KvStateMachine.applyAll]
    | some command =>
      simp only
      rw [next_seen (hvalid entry (by simp) command hcommand)]
      simp [hcommand, KvStateMachine.applyAll]

/-- It finds nothing wrong with a state machine that it can rebuild. -/
theorem compareAppliedPrefix_eq_none {node : RaftNode}
    (hcommit : node.lastApplied ≤ node.commitIndex) (hlog : node.lastApplied ≤ node.log.length)
    (hmachine : node.stateMachine.seen =
      Observer.Rebuilt.ofEntries (node.log.take node.lastApplied)) :
    compareAppliedPrefix node = none := by
  unfold compareAppliedPrefix
  rw [if_neg (by omega), if_neg (by omega), ← hmachine]
  have hsession : ∀ e ∈ node.stateMachine.seen.sessions.entries,
      some e.2 = node.stateMachine.session e.1 := fun e he =>
    (OrdMap.mem_entries_iff.mp he).symm
  have hvalue : ∀ e ∈ node.stateMachine.seen.values.entries,
      some e.2 = node.stateMachine.values.find e.1 := fun e he =>
    (OrdMap.mem_entries_iff.mp he).symm
  dsimp only
  rw [if_neg (by simp [KvStateMachine.seen]), if_neg, if_neg]
  · simpa using hvalue
  · simpa using hsession

end Observer

/-! ### The reference model and the state machine -/

/-- No two commands with the same session and number have the same digest. -/
def DigestsDistinct (commands : List ClientCommand) : Prop :=
  ∀ a ∈ commands, ∀ b ∈ commands, a.session = b.session → a.sequence = b.sequence →
    KvStateMachine.commandDigest a = KvStateMachine.commandDigest b → a = b

instance (commands : List ClientCommand) : Decidable (DigestsDistinct commands) :=
  inferInstanceAs (Decidable (∀ a ∈ commands, ∀ b ∈ commands, _))

namespace Reference

/-- What the state machine keeps of a session. -/
def SessionState.record (s : SessionState) : SessionRecord where
  sequence := s.command.sequence
  commandDigest := KvStateMachine.commandDigest s.command
  status := s.status
  result := s.result

/-- **A replica and a state machine that have seen the same commands.** -/
structure Mirrors (commands : List ClientCommand) (r : ReplicaState) (m : KvStateMachine) :
    Prop where
  values : r.values = m.values
  sessions : ∀ s, (r.sessions.find s).map SessionState.record = m.sessions.find s
  known : ∀ s state, r.sessions.find s = some state →
    state.command ∈ commands ∧ state.command.session = s

/-- The answer without the index. -/
def AppliedOutcome.result (o : AppliedOutcome) : ApplyResult where
  status := o.status
  value := o.value
  executed := o.executed
  duplicate := o.duplicate

section Mirrors

variable {commands : List ClientCommand} {command : ClientCommand} {r : ReplicaState}
  {m : KvStateMachine}

theorem sameRequest_iff {a b : ClientCommand} : sameRequest a b = true ↔ a = b := by
  unfold sameRequest
  cases a
  cases b
  simp

/-- Both tables give the same answer. -/
theorem Mirrors.answer (h : Mirrors commands r m) (hmem : command ∈ commands)
    (hdistinct : DigestsDistinct commands) :
    (sessionAnswer r.sessions command).map AppliedOutcome.result = m.sessionVerdict command := by
  have hsession := h.sessions command.session
  unfold sessionAnswer KvStateMachine.sessionVerdict
  rw [← hsession]
  cases hstate : r.sessions.find command.session with
  | none => by_cases hfirst : command.sequence = 1 <;> simp [hfirst, AppliedOutcome.result]
  | some state =>
    obtain ⟨hknown, hs⟩ := h.known _ _ hstate
    simp only [Option.map_some, SessionState.record]
    by_cases hstale : command.sequence < state.command.sequence
    · simp [hstale, AppliedOutcome.result]
    · by_cases hsame : command.sequence = state.command.sequence
      · have hiff : KvStateMachine.commandDigest state.command =
            KvStateMachine.commandDigest command ↔ sameRequest command state.command = true := by
          rw [sameRequest_iff]
          refine ⟨fun hd => (hdistinct _ hknown _ hmem hs hsame.symm hd).symm, fun heq => ?_⟩
          rw [heq]
        by_cases hrequest : sameRequest command state.command = true
        · simp [hsame, hrequest, hiff.mpr hrequest, AppliedOutcome.result]
        · simp [hsame, hrequest, mt hiff.mp hrequest, AppliedOutcome.result]
      · by_cases hgap : state.command.sequence = maxU64 ∨
            command.sequence ≠ state.command.sequence + 1 <;>
          simp [hstale, hsame, hgap, AppliedOutcome.result]

/-- A command that is executed does to the values what it does in the state machine. -/
theorem interpret_of_none (hvalid : KvStateMachine.structurallyValid command = true)
    (hnone : sessionAnswer r.sessions command = none) (index : ℕ) :
    r.interpret index command = ({ r with
        values := (KvStateMachine.perform r.values command).1
        sessions := r.sessions.insert command.session
          { command, status := .ok, result := (KvStateMachine.perform r.values command).2 } },
      { index, status := .ok, value := (KvStateMachine.perform r.values command).2,
        executed := true }) := by
  have hchecked : ¬structurallyValid command = false := by
    rw [show structurallyValid command = KvStateMachine.structurallyValid command from rfl]
    simp [hvalid]
  unfold ReplicaState.interpret
  rw [if_neg hchecked, hnone]
  rfl

/-- **One command** keeps the replica and the state machine together, and both answer it alike. -/
theorem Mirrors.interpret (h : Mirrors commands r m) (hmem : command ∈ commands)
    (hdistinct : DigestsDistinct commands)
    (hvalid : KvStateMachine.structurallyValid command = true) (index : ℕ) :
    (r.interpret index command).2.result = (m.apply command).2 ∧
      Mirrors commands (r.interpret index command).1 (m.apply command).1 := by
  have hchecked : ¬KvStateMachine.structurallyValid command = false := by simp [hvalid]
  have hanswer := h.answer hmem hdistinct
  cases hnone : sessionAnswer r.sessions command with
  | some answer =>
    rw [hnone, Option.map_some] at hanswer
    have happly : m.apply command = (m, answer.result) := by
      unfold KvStateMachine.apply
      rw [if_neg hchecked, ← hanswer]
    have hinterpret : r.interpret index command = (r, { answer with index }) := by
      unfold ReplicaState.interpret
      rw [if_neg (by exact hchecked), hnone]
    rw [hinterpret, happly]
    exact ⟨rfl, h⟩
  | none =>
    rw [hnone, Option.map_none] at hanswer
    have happly : m.apply command = (m.executing command,
        { status := .ok, value := (KvStateMachine.perform m.values command).2,
          executed := true }) := by
      unfold KvStateMachine.apply
      rw [if_neg hchecked, ← hanswer]
      rfl
    rw [interpret_of_none hvalid hnone, happly, h.values]
    refine ⟨rfl, rfl, fun s => ?_, fun s state hstate => ?_⟩
    · rw [KvStateMachine.executing, OrdMap.find_insert, OrdMap.find_insert, ← h.sessions s]
      split_ifs <;> rfl
    · rw [OrdMap.find_insert] at hstate
      split_ifs at hstate with hs
      · cases hstate
        exact ⟨hmem, hs.symm⟩
      · exact h.known s state hstate

/-! ### Lists of commands -/

/-- The replica after a list of commands, the first of which has the given index. -/
def ReplicaState.interpretAll (r : ReplicaState) : ℕ → List ClientCommand → ReplicaState
  | _, [] => r
  | index, command :: rest => (r.interpret index command).1.interpretAll (index + 1) rest

/-- The outcomes of the commands. -/
def ReplicaState.interpretations (r : ReplicaState) :
    ℕ → List ClientCommand → List AppliedOutcome
  | _, [] => []
  | index, command :: rest =>
    (r.interpret index command).2 :: (r.interpret index command).1.interpretations (index + 1) rest

theorem Mirrors.interpretAll (h : Mirrors commands r m) (hdistinct : DigestsDistinct commands)
    {list : List ClientCommand} (hmem : ∀ c ∈ list, c ∈ commands)
    (hvalid : ∀ c ∈ list, KvStateMachine.structurallyValid c = true) (index : ℕ) :
    (r.interpretations index list).map AppliedOutcome.result = m.results list ∧
      Mirrors commands (r.interpretAll index list) (m.applyAll list) := by
  induction list generalizing r m index with
  | nil => exact ⟨rfl, h⟩
  | cons command rest ih =>
    obtain ⟨hresult, hnext⟩ :=
      h.interpret (hmem command (by simp)) hdistinct (hvalid command (by simp)) index
    obtain ⟨hresults, hend⟩ := ih hnext (fun c hc => hmem c (by simp [hc]))
      (fun c hc => hvalid c (by simp [hc])) (index + 1)
    refine ⟨?_, hend⟩
    rw [ReplicaState.interpretations, List.map_cons, hresult, hresults]
    rfl

end Mirrors

end Reference

/-- **Three interpreters agree.** Commands that are well formed, no two different ones of which have
the same session, number and digest, lead to the same values and to the same last number, status
and result of every session. The state machine and the reference model answer every command alike,
and the observer finds nothing wrong with a node whose state machine has applied them. -/
theorem interpreters_agree {commands : List ClientCommand}
    (hvalid : ∀ c ∈ commands, KvStateMachine.structurallyValid c = true)
    (hdistinct : DigestsDistinct commands) (id : NodeId) (entries : List LogEntry)
    (hentries : entries.filterMap LogEntry.command = commands) :
    let m := KvStateMachine.applyAll {} commands
    let r := Reference.ReplicaState.interpretAll { id } 1 commands
    let b := Observer.Rebuilt.ofEntries entries
    (r.values = m.values ∧ b.values = m.values) ∧
    (∀ s, (r.sessions.find s).map (fun x => (x.command.sequence, x.status, x.result)) =
        (m.sessions.find s).map (fun x => (x.sequence, x.status, x.result)) ∧
      b.sessions.find s = m.sessions.find s) ∧
    (Reference.ReplicaState.interpretations { id } 1 commands).map
        (fun o => (o.status, o.value, o.executed, o.duplicate)) =
      (KvStateMachine.results {} commands).map
        (fun o => (o.status, o.value, o.executed, o.duplicate)) ∧
    ∀ node : RaftNode, node.lastApplied ≤ node.commitIndex →
      node.lastApplied ≤ node.log.length → node.log.take node.lastApplied = entries →
      node.stateMachine = m → compareAppliedPrefix node = none := by
  intro m r b
  have hstart : Reference.Mirrors commands { id } {} :=
    ⟨rfl, fun s => rfl, fun s state hstate => by simp at hstate⟩
  obtain ⟨hresults, hmirrors⟩ := hstart.interpretAll hdistinct (fun c hc => hc) hvalid 1
  have hbuilt : b = m.seen := by
    refine (ofEntries_eq entries fun entry hentry command hcommand => ?_).trans (by rw [hentries])
    exact hvalid command (hentries ▸ List.mem_filterMap.mpr ⟨entry, hentry, hcommand⟩)
  refine ⟨⟨hmirrors.values, by rw [hbuilt]; rfl⟩, fun s => ⟨?_, by rw [hbuilt]; rfl⟩, ?_, ?_⟩
  · rw [← hmirrors.sessions s, Option.map_map]
    rfl
  · rw [← hresults, List.map_map]
    rfl
  · rintro node hcommit hlog htake hmachine
    refine compareAppliedPrefix_eq_none hcommit hlog ?_
    rw [htake, hmachine]
    exact hbuilt.symm

namespace Sample

/-- Two sessions write one key; the first one retries, contradicts itself, and skips a number. -/
def contended : List ClientCommand :=
  let put (low sequence : ℕ) (value : Bytes) : ClientCommand :=
    { session := ⟨0, low⟩, sequence, kind := .put, key := [1], value }
  [put 1 1 [5], put 2 1 [6], put 1 1 [5], put 1 1 [7], put 1 3 [8]]

end Sample

/-- The contended key keeps the value of the second session, and the observer agrees. -/
theorem interpreters_agree_contended :
    (∀ c ∈ Sample.contended, KvStateMachine.structurallyValid c = true) ∧
    DigestsDistinct Sample.contended ∧
    (KvStateMachine.applyAll {} Sample.contended).values.find [1] = some [6] ∧
    (Observer.Rebuilt.ofEntries (Sample.contended.map fun c => ⟨1, 1, some c⟩)).values.find [1] =
      some [6] := by
  have hvalid : ∀ c ∈ Sample.contended, KvStateMachine.structurallyValid c = true := by decide
  have hdistinct : DigestsDistinct Sample.contended := by decide +kernel
  have hvalue : (KvStateMachine.applyAll {} Sample.contended).values.find [1] = some [6] := by
    decide +kernel
  have hagree := interpreters_agree hvalid hdistinct 1
    (Sample.contended.map fun c => ⟨1, 1, some c⟩) (by decide)
  exact ⟨hvalid, hdistinct, hvalue, hagree.1.2 ▸ hvalue⟩

end DetLog
