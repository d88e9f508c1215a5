import DetLog.Container.OrdMap
import DetLog.Model

/-!
# The replicated key-value state machine

`DetLog.KvStateMachine.apply` interprets one client command: it executes the next
command of a session, answers a retry of the last one from the session table, and
rejects everything else without touching the state. Reads are commands as well.
-/

namespace DetLog

/-! ### Command digests -/

/-- Where the hash starts. -/
def kFnvOffset : UInt64 := 14695981039346656037

/-- The factor of the hash. -/
def kFnvPrime : UInt64 := 1099511628211

/-- The hash takes a byte. -/
def hashByte (hash : UInt64) (byte : Fin 256) : UInt64 :=
  (hash ^^^ UInt64.ofNat byte) * kFnvPrime

/-- The eight bytes of a value, least significant first. -/
def hashU64 (hash : UInt64) (value : ℕ) : UInt64 :=
  [0, 8, 16, 24, 32, 40, 48, 56].foldl
    (fun h shift => hashByte h ⟨(value >>> shift) % 256, Nat.mod_lt _ (by decide)⟩) hash

/-- The length comes first. -/
def hashString (hash : UInt64) (value : Bytes) : UInt64 :=
  value.foldl hashByte (hashU64 hash value.length)

namespace KvStateMachine

/-- The digest of what a command does; it does not depend on the session or the
sequence number. -/
def commandDigest (command : ClientCommand) : UInt64 :=
  hashString (hashString (hashByte kFnvOffset command.kind.code) command.key) command.value

/-- Only a put carries a value. -/
def structurallyValid (command : ClientCommand) : Bool :=
  if command.sequence = 0 ∨ command.key = [] then false
  else
    match command.kind with
    | .put => true
    | .erase => command.value.isEmpty
    | .get => command.value.isEmpty

end KvStateMachine

/-! ### The state machine -/

/-- What is retained of the last command of a session. -/
structure SessionRecord where
  sequence : ℕ
  commandDigest : UInt64
  status : ClientStatus
  result : Bytes
  deriving DecidableEq

/-- What became of a command. -/
structure ApplyResult where
  status : ClientStatus := .ok
  value : Bytes := []
  executed : Bool := false
  duplicate : Bool := false
  deriving DecidableEq

/-- The values and the sessions. -/
structure KvStateMachine where
  values : OrdMap Bytes Bytes := ∅
  sessions : OrdMap SessionId SessionRecord := ∅
  deriving DecidableEq

namespace KvStateMachine

/-- The last command of a session. -/
def session (m : KvStateMachine) (id : SessionId) : Option SessionRecord := m.sessions.find id

/-- Whether the session table lets a command run: `none` when it does, and the
answer to give otherwise. -/
def sessionVerdict (m : KvStateMachine) (command : ClientCommand) : Option ApplyResult :=
  match m.sessions.find command.session with
  | some record =>
    if command.sequence < record.sequence then some { status := .staleSequence }
    else if command.sequence = record.sequence then
      if record.commandDigest ≠ commandDigest command then some { status := .requestIdConflict }
      else some { status := record.status, value := record.result, duplicate := true }
    else if record.sequence = maxU64 ∨ command.sequence ≠ record.sequence + 1 then
      some { status := .sequenceGap }
    else none
  | none => if command.sequence ≠ 1 then some { status := .sequenceGap } else none

/-- The effect of a command on the values, with its result. -/
def perform (values : OrdMap Bytes Bytes) (command : ClientCommand) : OrdMap Bytes Bytes × Bytes :=
  match command.kind with
  | .put => (values.insert command.key command.value, command.value)
  | .erase =>
    match values.find command.key with
    | some value => (values.erase command.key, value)
    | none => (values, [])
  | .get =>
    match values.find command.key with
    | some value => (values, value)
    | none => (values, [])

/-- A command is refused, repeated or executed. -/
def apply (m : KvStateMachine) (command : ClientCommand) : KvStateMachine × ApplyResult :=
  if structurallyValid command = false then (m, { status := .invalidRequest })
  else
    match m.sessionVerdict command with
    | some verdict => (m, verdict)
    | none =>
      let (values, result) := perform m.values command
      ({ values
         sessions := m.sessions.insert command.session
           { sequence := command.sequence, commandDigest := commandDigest command,
             status := .ok, result } },
        { status := .ok, value := result, executed := true })

/-! ### What becomes of a command -/

variable {m : KvStateMachine} {command : ClientCommand}

/-- The number of the last command of a session that has been executed. -/
def lastSequence (m : KvStateMachine) (s : SessionId) : ℕ :=
  (m.sessions.find s).elim 0 SessionRecord.sequence

/-- The state after a command has been executed. -/
def executing (m : KvStateMachine) (command : ClientCommand) : KvStateMachine where
  values := (perform m.values command).1
  sessions := m.sessions.insert command.session
    { sequence := command.sequence
      commandDigest := commandDigest command
      status := .ok
      result := (perform m.values command).2 }

/-- **What becomes of a command.** -/
inductive Applied (m : KvStateMachine) (command : ClientCommand) :
    KvStateMachine × ApplyResult → Prop
  | refused (verdict : ApplyResult) (idle : verdict.executed = false) :
      Applied m command (m, verdict)
  | executed (valid : structurallyValid command = true)
      (next : command.sequence = m.lastSequence command.session + 1) :
      Applied m command (m.executing command,
        { status := .ok, value := (perform m.values command).2, executed := true })

theorem sessionVerdict_executed {verdict : ApplyResult}
    (h : m.sessionVerdict command = some verdict) : verdict.executed = false := by
  unfold sessionVerdict at h
  split at h
  · split_ifs at h <;> cases h <;> rfl
  · split_ifs at h
    cases h
    rfl

/-- The table lets the next command of a session run, and no other one. -/
theorem sessionVerdict_eq_none : m.sessionVerdict command = none ↔
    m.lastSequence command.session ≠ maxU64 ∧
      command.sequence = m.lastSequence command.session + 1 := by
  unfold sessionVerdict lastSequence
  cases m.sessions.find command.session with
  | none => simp [maxU64]
  | some record =>
    simp only [Option.elim_some]
    split_ifs <;> simp only [false_iff, true_iff] <;> omega

theorem applied (m : KvStateMachine) (command : ClientCommand) :
    Applied m command (m.apply command) := by
  unfold apply
  split_ifs with hvalid
  · exact .refused _ rfl
  · cases hverdict : m.sessionVerdict command with
    | some verdict => exact .refused verdict (sessionVerdict_executed hverdict)
    | none => exact .executed (by simpa using hvalid) (sessionVerdict_eq_none.mp hverdict).2

/-- The next command of a session runs. -/
theorem apply_executed (hvalid : structurallyValid command = true)
    (hmax : m.lastSequence command.session ≠ maxU64)
    (hnext : command.sequence = m.lastSequence command.session + 1) :
    (m.apply command).2.executed = true ∧ (m.apply command).2.status = .ok := by
  unfold apply
  simp [hvalid, sessionVerdict_eq_none.mpr ⟨hmax, hnext⟩]

theorem apply_of_executed (h : (m.apply command).2.executed = true) :
    structurallyValid command = true ∧ command.sequence = m.lastSequence command.session + 1 ∧
      m.apply command = (m.executing command,
        { status := .ok, value := (perform m.values command).2, executed := true }) := by
  have happlied := applied m command
  generalize m.apply command = r at happlied h ⊢
  cases happlied with
  | refused verdict idle => exact absurd (idle.symm.trans h) (by simp)
  | executed valid next => exact ⟨valid, next, rfl⟩

theorem apply_of_not_executed (h : (m.apply command).2.executed = false) :
    (m.apply command).1 = m := by
  have happlied := applied m command
  generalize m.apply command = r at happlied h ⊢
  cases happlied with
  | refused => rfl
  | executed => cases h

theorem lastSequence_executing (m : KvStateMachine) (command : ClientCommand) (s : SessionId) :
    (m.executing command).lastSequence s =
      if s = command.session then command.sequence else m.lastSequence s := by
  unfold lastSequence executing
  rw [OrdMap.find_insert]
  split_ifs <;> rfl

end KvStateMachine

end DetLog
