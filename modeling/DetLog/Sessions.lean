import DetLog.Raft.Step

/-!
# Sessions in a log

A client numbers the commands of a session. A log is *orderly* (`DetLog.Orderly`) when
the commands of every session carry the numbers `1, 2, …, k` in log order. The state
machine enforces this at the time a command is applied; the point of this module is
that over an orderly log it never has to refuse anything
(`DetLog.Orderly.apply_executed`), because its session table counts the commands of the
log (`DetLog.counts_replay`).

`DetLog.exists_of_session` goes the other way: a record of the session table comes from
the command at some position of the log and holds what applying it returned.
-/

namespace DetLog

/-! ### The numbers of a session -/

/-- The number an entry carries in a session, if it belongs to it. -/
def LogEntry.sequenceIn (s : SessionId) (e : LogEntry) : Option ℕ :=
  match e.command with
  | some command => if command.session = s then some command.sequence else none
  | none => none

/-- The numbers of the commands of a session, in log order. -/
def sequences (s : SessionId) (log : List LogEntry) : List ℕ := log.filterMap (·.sequenceIn s)

/-- **The commands of every session are numbered consecutively from one.** -/
def Orderly (log : List LogEntry) : Prop :=
  ∀ s, sequences s log = List.range' 1 (sequences s log).length

section Orderly

variable {s : SessionId} {log l : List LogEntry} {e : LogEntry} {command : ClientCommand}

@[simp] theorem sequences_nil : sequences s [] = [] := rfl

@[simp] theorem sequences_append : sequences s (log ++ l) = sequences s log ++ sequences s l :=
  List.filterMap_append

theorem sequences_length_le (s : SessionId) (log : List LogEntry) :
    (sequences s log).length ≤ log.length := List.length_filterMap_le _ _

theorem sequences_singleton_none (he : e.command = none) : sequences s [e] = [] := by
  simp [sequences, LogEntry.sequenceIn, he]

theorem sequences_singleton_some (he : e.command = some command) :
    sequences s [e] = if command.session = s then [command.sequence] else [] := by
  by_cases hs : command.session = s <;> simp [sequences, LogEntry.sequenceIn, he, hs]

theorem orderly_nil : Orderly [] := fun _ => rfl

theorem Orderly.of_isPrefix (h : Orderly log) (hp : l <+: log) : Orderly l := by
  intro s
  obtain ⟨r, rfl⟩ := hp
  have hs := h s
  rw [sequences_append, List.length_append, ← List.range'_append_1] at hs
  exact (List.append_inj hs (by simp)).1

/-- A no-op does not disturb the order. -/
theorem Orderly.concat_none (h : Orderly log) (he : e.command = none) : Orderly (log ++ [e]) := by
  intro s
  rw [sequences_append, sequences_singleton_none he, List.append_nil]
  exact h s

/-- The next command of its session keeps the order. -/
theorem Orderly.concat_some (h : Orderly log) (he : e.command = some command)
    (hseq : command.sequence = (sequences command.session log).length + 1) :
    Orderly (log ++ [e]) := by
  intro s
  rw [sequences_append, sequences_singleton_some he]
  split_ifs with hs
  · subst hs
    rw [List.length_append, List.length_singleton, ← List.range'_append_1, ← h command.session,
      hseq]
    simp [Nat.add_comm]
  · rw [List.append_nil]
    exact h s

/-- In an orderly log a command carries the number of its position in the session. -/
theorem Orderly.sequence_eq (h : Orderly (log ++ [e])) (he : e.command = some command) :
    command.sequence = (sequences command.session log).length + 1 := by
  have hs := h command.session
  rw [sequences_append, sequences_singleton_some he, if_pos rfl, List.length_append,
    List.length_singleton, ← List.range'_append_1] at hs
  have hlast := (List.append_inj hs (by simp)).2
  simp only [List.range'_one, List.cons.injEq, and_true] at hlast
  omega

/-- **An orderly log holds a command once.** -/
theorem Orderly.eq_of_command (h : Orderly log) {k k' : ℕ} {e' : LogEntry}
    (hk : log[k]? = some e) (hk' : log[k']? = some e') (he : e.command = some command)
    (he' : e'.command = some command) : k = k' := by
  have hlt : ∀ {k k' : ℕ} {e e' : LogEntry}, log[k]? = some e → log[k']? = some e' →
      e.command = some command → e'.command = some command → ¬k < k' := by
    intro k k' e e' hk hk' he he' hlt
    have hnum : ∀ {k : ℕ} {e : LogEntry}, log[k]? = some e → e.command = some command →
        command.sequence = (sequences command.session (log.take k)).length + 1 := by
      intro k e hk he
      have hsplit : log.take (k + 1) = log.take k ++ [e] := by
        rw [List.take_add_one, hk, Option.toList_some]
      have hord : Orderly (log.take (k + 1)) := h.of_isPrefix <| List.take_prefix _ _
      rw [hsplit] at hord
      exact hord.sequence_eq he
    -- The entry at `k` is counted among those before `k'`.
    obtain ⟨r, hr⟩ : log.take k ++ [e] <+: log.take k' := by
      rw [← Option.toList_some, ← hk, ← List.take_add_one]
      exact List.take_prefix_take_left hlt
    have h₁ := hnum hk he
    have h₂ := hnum hk' he'
    rw [← hr, sequences_append, sequences_append, sequences_singleton_some he, if_pos rfl,
      List.length_append, List.length_append, List.length_singleton] at h₂
    omega
  have h₁ : k ≤ k' := Nat.le_of_not_lt (hlt hk' hk he' he)
  have h₂ : k' ≤ k := Nat.le_of_not_lt (hlt hk hk' he he')
  exact Nat.le_antisymm h₁ h₂

end Orderly

/-! ### Replay -/

section Replay

variable {s : SessionId} {log l : List LogEntry} {e : LogEntry} {command : ClientCommand}

@[simp] theorem replay_nil : replay [] = {} := rfl

theorem replay_concat_none (he : e.command = none) : replay (log ++ [e]) = replay log := by
  simp [replay, he]

theorem replay_concat_some (he : e.command = some command) :
    replay (log ++ [e]) = ((replay log).apply command).1 := by
  simp [replay, he]

/-- **The session table counts**: after a log it holds, for every session, the number
of its commands. -/
def Counts (m : KvStateMachine) (log : List LogEntry) : Prop :=
  ∀ s, m.lastSequence s = (sequences s log).length

/-- Over an orderly log, the next command of a session is the one the table expects. -/
theorem Counts.apply_executed {m : KvStateMachine} (hc : Counts m log)
    (hvalid : KvStateMachine.structurallyValid command = true) (hlen : log.length < maxU64)
    (hseq : command.sequence = (sequences command.session log).length + 1) :
    (m.apply command).2.executed = true ∧ (m.apply command).2.status = .ok := by
  have hle := sequences_length_le command.session log
  refine KvStateMachine.apply_executed hvalid ?_ ?_ <;> rw [hc command.session]
  · omega
  · exact hseq

section

variable (h : Orderly log) (hlen : log.length ≤ maxU64)
    (hvalid : ∀ e ∈ log, ∀ command, e.command = some command →
      KvStateMachine.structurallyValid command = true)
include h hlen hvalid

theorem counts_replay : Counts (replay log) log := by
  induction log using List.reverseRecOn with
  | nil => exact fun s => rfl
  | append_singleton log e ih =>
    have hlog := h.of_isPrefix (List.prefix_append log [e])
    have hlen' : log.length < maxU64 := by simpa using hlen
    have ih := ih hlog hlen'.le fun x hx => hvalid x (by simp [hx])
    intro s
    rw [sequences_append]
    cases he : e.command with
    | none =>
      rw [replay_concat_none he, sequences_singleton_none he, List.append_nil]
      exact ih s
    | some command =>
      have hseq := h.sequence_eq he
      have hrun := ih.apply_executed (hvalid e (by simp) command he) hlen' hseq
      rw [replay_concat_some he, sequences_singleton_some he,
        (KvStateMachine.apply_of_executed hrun.1).2.2, KvStateMachine.lastSequence_executing]
      split_ifs with hs hs' hs'
      · rw [hs, hseq, List.length_append, List.length_singleton]
      · exact absurd hs.symm hs'
      · exact absurd hs'.symm hs
      · rw [List.append_nil]
        exact ih s

/-- **Nothing in an orderly log is refused**: every command runs when its turn comes. -/
theorem Orderly.apply_executed {k : ℕ} (hk : log[k]? = some e) (he : e.command = some command) :
    ((replay (log.take k)).apply command).2.executed = true ∧
      ((replay (log.take k)).apply command).2.status = .ok := by
  obtain ⟨hlt, rfl⟩ := List.getElem?_eq_some_iff.mp hk
  have hsplit : log.take (k + 1) = log.take k ++ [log[k]] := by
    rw [List.take_add_one, hk, Option.toList_some]
  have htake : Orderly (log.take k ++ [log[k]]) := by
    rw [← hsplit]
    exact h.of_isPrefix <| List.take_prefix _ _
  have hcounts : Counts (replay (log.take k)) (log.take k) :=
    counts_replay (h.of_isPrefix <| List.take_prefix _ _) ((List.length_take_le' _ _).trans hlen)
      fun x hx => hvalid x (List.mem_of_mem_take hx)
  refine hcounts.apply_executed (hvalid _ (List.getElem_mem hlt) command he) ?_
    (htake.sequence_eq he)
  rw [List.length_take]
  omega

end

/-- **A record comes from a command of the log** and holds what applying it returned. -/
theorem exists_of_session {record : SessionRecord} (h : (replay log).session s = some record) :
    ∃ k e command, log[k]? = some e ∧ e.command = some command ∧ command.session = s ∧
      command.sequence = record.sequence ∧
      KvStateMachine.commandDigest command = record.commandDigest ∧
      ((replay (log.take k)).apply command).2.status = record.status ∧
      ((replay (log.take k)).apply command).2.value = record.result := by
  induction log using List.reverseRecOn with
  | nil => simp [replay, KvStateMachine.session] at h
  | append_singleton log e ih =>
    -- A record that was there before stays where it came from.
    have hold : (replay log).session s = some record → ∃ k e' command,
        (log ++ [e])[k]? = some e' ∧ e'.command = some command ∧ command.session = s ∧
        command.sequence = record.sequence ∧
        KvStateMachine.commandDigest command = record.commandDigest ∧
        ((replay ((log ++ [e]).take k)).apply command).2.status = record.status ∧
        ((replay ((log ++ [e]).take k)).apply command).2.value = record.result := by
      intro hrecord
      obtain ⟨k, e', command, hk, hrest⟩ := ih hrecord
      obtain ⟨hlt, -⟩ := List.getElem?_eq_some_iff.mp hk
      refine ⟨k, e', command, by rwa [List.getElem?_append_left hlt], ?_⟩
      rwa [List.take_append_of_le_length hlt.le]
    cases he : e.command with
    | none =>
      rw [replay_concat_none he] at h
      exact hold h
    | some command =>
      rw [replay_concat_some he] at h
      have happlied := (replay log).applied command
      generalize hr : (replay log).apply command = r at happlied h
      cases happlied with
      | refused => exact hold h
      | executed =>
        unfold KvStateMachine.session KvStateMachine.executing at h
        rw [OrdMap.find_insert] at h
        split_ifs at h with hs
        · obtain rfl := Option.some.inj h
          refine ⟨log.length, e, command, by simp, he, hs.symm, rfl, rfl, ?_, ?_⟩ <;> simp [hr]
        · exact hold h

end Replay

end DetLog
