import DetLog.Container.Wire
import DetLog.Raft.Log

/-!
# The write-ahead log

The logical half of the WAL: `DetLog.ValidationView` checks a batch against the state of
the log before a byte is written, and the same check runs on every frame at recovery.
Its view of the entries is split into a kept prefix of the old list and a new suffix, so
that a batch costs what it changes.

`DetLog.RecoveredState.write` says what a batch means, without a check and on plain lists;
it is the storage a node of the cluster model has. `DetLog.Writable` lists the rules a
batch has to respect, and `DetLog.ValidationView.stage_of_writable` shows that the view
accepts every such batch and then materializes exactly what `write` says, unless a
configured limit of the WAL stops it.
-/

namespace DetLog

variable {b : PersistBatch}

open Consensus

/-! ### What a batch means -/

/-- **The meaning of a batch**: replace the hard state, cut the log, append, and move
the commit index, each if the batch says so. -/
def RecoveredState.write (s : RecoveredState) (b : PersistBatch) : RecoveredState where
  hardState := b.hardState.getD s.hardState
  log := (match b.truncateFrom with
    | some i => s.log.take (i - 1)
    | none => s.log) ++ b.entries
  commitIndex := b.commitIndex.getD s.commitIndex

/-! ### The view -/

/-- What went wrong. -/
inductive WalErrorCode where
  | io
  | format
  | checksum
  | identityMismatch
  | invariantViolation
  | boundsExceeded
  | failed
  deriving DecidableEq, Repr

/-- An error and its text. -/
structure WalError where
  code : WalErrorCode
  message : String
  deriving DecidableEq, Repr

/-- The limits a batch is checked against. -/
structure WalOptions where
  maxEntriesPerFrame : ℕ := 65536
  maxKeyBytes : ℕ := 1024 * 1024
  maxValueBytes : ℕ := 8 * 1024 * 1024
  maxLogEntries : ℕ := 10000000
  deriving DecidableEq, Repr

/-- The logical state of the WAL. -/
structure WalState where
  hardState : HardState := {}
  entries : List LogEntry := []
  commitIndex : ℕ := 0
  deriving DecidableEq, Repr

/-- A state under a batch, without a copy of the log. -/
structure ValidationView where
  hardState : HardState
  commitIndex : ℕ
  baseEntries : List LogEntry
  baseKeep : ℕ
  suffix : List LogEntry
  deriving DecidableEq, Repr

namespace ValidationView

/-- The view before a batch. -/
def ofState (state : WalState) : ValidationView where
  hardState := state.hardState
  commitIndex := state.commitIndex
  baseEntries := state.entries
  baseKeep := state.entries.length
  suffix := []

/-- The last entry of the view. -/
def lastIndex (v : ValidationView) : ℕ := v.baseKeep + v.suffix.length

/-- The term of that entry. -/
def lastTerm (v : ValidationView) : ℕ :=
  match v.suffix.getLast? with
  | some entry => entry.term
  | none =>
    if v.baseKeep ≠ 0 then (v.baseEntries[v.baseKeep - 1]?.map LogEntry.term).getD 0 else 0

/-- A batch that no node writes. -/
def violation {α : Type} (message : String) : Except WalError α :=
  .error { code := .invariantViolation, message }

/-- A batch beyond the limits. -/
def exceeded {α : Type} (message : String) : Except WalError α :=
  .error { code := .boundsExceeded, message }

/-- The hard-state part of `stage`. -/
def stageHardState (v : ValidationView) (next : HardState) : Except WalError ValidationView :=
  if next.currentTerm = 0 ∧ next.votedFor.isSome then
    violation "term-zero hard state cannot contain a vote"
  else if next.currentTerm < v.hardState.currentTerm then
    violation "hard-state term would decrease"
  else if next.currentTerm = v.hardState.currentTerm ∧ v.hardState.votedFor.isSome ∧
      next.votedFor ≠ v.hardState.votedFor then
    violation "vote would change or clear within one term"
  else .ok { v with hardState := next }

/-- The truncation of `stage`. -/
def stageTruncate (v : ValidationView) (index : ℕ) : Except WalError ValidationView :=
  if index = 0 then violation "truncate_from index zero is invalid"
  else if index ≤ v.commitIndex then violation "cannot truncate a committed log entry"
  else if v.lastIndex + 1 < index then violation "truncate_from is beyond the end of the log"
  else
    let wanted := index - 1
    if wanted ≤ v.baseKeep then .ok { v with baseKeep := wanted, suffix := [] }
    else .ok { v with suffix := v.suffix.take (wanted - v.baseKeep) }

/-- One round of the loop of `stage` over the new entries. The command kind is one of
three by its type. -/
def stageEntry (options : WalOptions) (v : ValidationView) (entry : LogEntry) :
    Except WalError ValidationView :=
  if options.maxLogEntries ≤ v.lastIndex then exceeded "logical WAL exceeds max_log_entries"
  else if entry.index ≠ v.lastIndex + 1 then violation "log entries are not consecutive"
  else if entry.term = 0 ∨ v.hardState.currentTerm < entry.term then
    violation "log entry term is zero or exceeds current term"
  else if 1 < entry.index ∧ entry.term < v.lastTerm then
    violation "log entry terms decrease with index"
  else if (entry.command.any fun command =>
      decide (options.maxKeyBytes < command.key.length ∨
        options.maxValueBytes < command.value.length)) = true then
    exceeded "command field exceeds configured size bound"
  else .ok { v with suffix := v.suffix ++ [entry] }

/-- The commit part of `stage`. -/
def stageCommit (v : ValidationView) (index : ℕ) : Except WalError ValidationView :=
  if index < v.commitIndex then violation "commit index would decrease"
  else if v.lastIndex < index then violation "commit index exceeds the end of the log"
  else .ok { v with commitIndex := index }

/-- **The check of a batch**, which moves the view to the state after it. -/
def stage (v : ValidationView) (batch : PersistBatch) (options : WalOptions) :
    Except WalError ValidationView := do
  if batch.isEmpty then violation "an empty persistence batch is not a WAL frame"
  else if options.maxEntriesPerFrame < batch.entries.length then
    exceeded "persistence batch has too many entries"
  else
    let v ← batch.hardState.elim (.ok v) v.stageHardState
    let v ← batch.truncateFrom.elim (.ok v) v.stageTruncate
    let v ← batch.entries.foldlM (stageEntry options) v
    batch.commitIndex.elim (.ok v) v.stageCommit

/-- The state that a view stands for. -/
def materialize (v : ValidationView) (state : WalState) : WalState :=
  { hardState := v.hardState
    commitIndex := v.commitIndex
    entries := state.entries.take v.baseKeep ++ v.suffix }

end ValidationView

/-- One append: check the batch, then materialize the view. -/
def WalState.append (options : WalOptions) (state : WalState) (batch : PersistBatch) :
    Except WalError WalState :=
  match (ValidationView.ofState state).stage batch options with
  | .ok view => .ok (view.materialize state)
  | .error e => .error e

/-- **Recovery**: the state after the frames of a file. -/
def WalState.replay (options : WalOptions) (batches : List PersistBatch) :
    Except WalError WalState :=
  batches.foldlM (WalState.append options) {}

/-- What the node recovers from a WAL state. -/
def WalState.recovered (state : WalState) : RecoveredState where
  hardState := state.hardState
  log := state.entries
  commitIndex := state.commitIndex

/-! ### The rules a batch has to respect -/

/-- **The rules of the log**, stated on the meaning of the batch. -/
structure Writable (s : RecoveredState) (b : PersistBatch) : Prop where
  nonempty : b.isEmpty = false
  term_le : s.hardState.currentTerm ≤ (s.write b).hardState.currentTerm
  vote_keep : (s.write b).hardState.currentTerm = s.hardState.currentTerm →
    s.hardState.votedFor.isSome → (s.write b).hardState.votedFor = s.hardState.votedFor
  vote_term : (s.write b).hardState.currentTerm = 0 → (s.write b).hardState.votedFor = none
  truncate : ∀ i, b.truncateFrom = some i → s.commitIndex < i ∧ i ≤ s.log.length + 1
  indexed : IndexedFrom 0 (s.write b).log
  terms : ∀ e ∈ b.entries, e.term ≠ 0 ∧ e.term ≤ (s.write b).hardState.currentTerm
  sorted : (s.write b).log.Pairwise fun e e' => e.term ≤ e'.term
  commit : s.commitIndex ≤ (s.write b).commitIndex ∧
    (s.write b).commitIndex ≤ (s.write b).log.length

/-- **A state upholds what an earlier one has committed.** -/
structure RecoveredState.Upholds (s t : RecoveredState) : Prop where
  commit_le : s.commitIndex ≤ t.commitIndex
  committed : s.log.take s.commitIndex <+: t.log

theorem RecoveredState.Upholds.refl (s : RecoveredState) : s.Upholds s :=
  ⟨le_rfl, List.take_prefix _ _⟩

theorem RecoveredState.Upholds.trans {s t u : RecoveredState} (h₁ : s.Upholds t)
    (h₂ : t.Upholds u) : s.Upholds u := by
  refine ⟨h₁.commit_le.trans h₂.commit_le, List.IsPrefix.trans ?_ h₂.committed⟩
  have hle : (s.log.take s.commitIndex).length ≤ t.commitIndex :=
    (List.length_take_le _ _).trans h₁.commit_le
  rw [List.prefix_take_iff]
  exact ⟨h₁.committed, hle⟩

/-- A batch that respects the rules leaves the committed entries alone. -/
theorem Writable.upholds {s : RecoveredState} (h : Writable s b) :
    s.Upholds (s.write b) := by
  refine ⟨h.commit.1, ?_⟩
  simp only [RecoveredState.write]
  cases ht : b.truncateFrom with
  | none => exact List.IsPrefix.trans ⟨_, List.take_append_drop _ _⟩ (List.prefix_append _ _)
  | some i =>
    have hlt := (h.truncate i ht).1
    exact (List.take_prefix_take_left (by omega)).trans (List.prefix_append _ _)

/-- **What the rules keep**, from one batch to the next. -/
structure RecoveredState.Lawful (s : RecoveredState) : Prop where
  vote_term : s.hardState.currentTerm = 0 → s.hardState.votedFor = none
  indexed : IndexedFrom 0 s.log
  terms : ∀ e ∈ s.log, e.term ≠ 0 ∧ e.term ≤ s.hardState.currentTerm
  sorted : s.log.Pairwise fun e e' => e.term ≤ e'.term
  commit : s.commitIndex ≤ s.log.length

theorem RecoveredState.lawful_empty : ({} : RecoveredState).Lawful :=
  ⟨fun _ => rfl, indexedFrom_nil 0, by simp, List.Pairwise.nil, le_rfl⟩

theorem Writable.lawful {s : RecoveredState} (hb : Writable s b) (hs : s.Lawful) :
    (s.write b).Lawful := by
  refine ⟨hb.vote_term, hb.indexed, fun e he => ?_, hb.sorted, hb.commit.2⟩
  rcases List.mem_append.mp he with he | he
  · have hmem : e ∈ s.log := by
      split at he
      · exact List.mem_of_mem_take he
      · exact he
    exact ⟨(hs.terms e hmem).1, (hs.terms e hmem).2.trans hb.term_le⟩
  · exact hb.terms e he

namespace ValidationView

/-- A view over the entries `base` shows a state. -/
structure Shows (base : List LogEntry) (v : ValidationView) (s : RecoveredState) : Prop where
  base_eq : v.baseEntries = base
  hardState : v.hardState = s.hardState
  commitIndex : v.commitIndex = s.commitIndex
  keep_le : v.baseKeep ≤ base.length
  log : base.take v.baseKeep ++ v.suffix = s.log

variable {base : List LogEntry} {v : ValidationView} {s : RecoveredState} {options : WalOptions}
  {v' : ValidationView} {index : ℕ} {e : LogEntry}

theorem Shows.lastIndex (h : Shows base v s) : v.lastIndex = s.log.length := by
  rw [← h.log, List.length_append, List.length_take, Nat.min_eq_left h.keep_le]
  rfl

theorem Shows.lastTerm (h : Shows base v s) : v.lastTerm = lastStamp s.log := by
  rw [← h.log]
  unfold ValidationView.lastTerm
  obtain hnil | ⟨p, e, hp⟩ := v.suffix.eq_nil_or_concat'
  · simp only [hnil, List.getLast?_nil, List.append_nil, h.base_eq]
    split_ifs with hkeep
    · rw [← termAt_eq_lastStamp h.keep_le, termAt]
      obtain ⟨k, hk⟩ := Nat.exists_eq_succ_of_ne_zero hkeep
      have hlt : k < base.length := by have := h.keep_le; omega
      simp [hk, hlt]
    · simp [not_not.mp hkeep]
  · rw [hp, ← List.append_assoc, lastStamp_concat]
    simp

theorem shows_ofState (state : WalState) :
    Shows state.entries (ofState state) state.recovered :=
  ⟨rfl, rfl, rfl, le_rfl, by simp [ofState, WalState.recovered]⟩

theorem Shows.materialize {state : WalState} (h : Shows state.entries v s) :
    (v.materialize state).recovered = s := by
  simp only [ValidationView.materialize, WalState.recovered, h.hardState, h.commitIndex, h.log]

/-- The check passes and shows the given state, or it stops at a limit of the WAL. -/
def Passes (base : List LogEntry) (r : Except WalError ValidationView) (s : RecoveredState) :
    Prop :=
  (∃ v, r = .ok v ∧ Shows base v s) ∨ ∃ e, r = .error e ∧ e.code = .boundsExceeded

theorem Passes.ok (h : Shows base v s) : Passes base (.ok v) s := Or.inl ⟨v, rfl, h⟩

theorem Passes.bind {r : Except WalError ValidationView} (h : Passes base r s)
    {f : ValidationView → Except WalError ValidationView} {s' : RecoveredState}
    (hf : ∀ v, Shows base v s → Passes base (f v) s') : Passes base (r >>= f) s' := by
  rcases h with ⟨v, rfl, hv⟩ | ⟨e, rfl, he⟩
  · exact hf v hv
  · exact Or.inr ⟨e, rfl, he⟩

theorem passes_stageHardState (h : Shows base v s) {next : HardState}
    (hle : s.hardState.currentTerm ≤ next.currentTerm)
    (hkeep : next.currentTerm = s.hardState.currentTerm → s.hardState.votedFor.isSome →
      next.votedFor = s.hardState.votedFor)
    (hzero : next.currentTerm = 0 → next.votedFor = none) :
    Passes base (v.stageHardState next) { s with hardState := next } := by
  unfold stageHardState
  rw [h.hardState, if_neg, if_neg (by omega), if_neg]
  · exact Passes.ok { h with hardState := rfl }
  · rintro ⟨heq, hsome, hne⟩
    exact hne (hkeep heq hsome)
  · rintro ⟨heq, hsome⟩
    simp [hzero heq] at hsome

/-- A truncation above the commit index is made, within the kept entries or in the new ones. -/
theorem exists_stageTruncate (h : Shows base v s) (hc : s.commitIndex < index)
    (hl : index ≤ s.log.length + 1) : ∃ v', v.stageTruncate index = .ok v' ∧
      Shows base v' { s with log := s.log.take (index - 1) } := by
  unfold stageTruncate
  rw [if_neg (by omega), if_neg (by rw [h.commitIndex]; omega),
    if_neg (by rw [h.lastIndex]; omega)]
  have hlen : (base.take v.baseKeep).length = v.baseKeep := by
    rw [List.length_take, Nat.min_eq_left h.keep_le]
  -- The view keeps a prefix of the state it is based on; a truncation cuts either into
  -- that prefix or into the entries staged on top of it.
  simp only
  split_ifs with hwanted
  · refine ⟨_, rfl, { h with keep_le := hwanted.trans h.keep_le, log := ?_ }⟩
    rw [← h.log, List.take_append_of_le_length (by omega), List.take_take, List.append_nil,
      Nat.min_eq_left hwanted]
  · have hall : (base.take v.baseKeep).take (index - 1) = base.take v.baseKeep :=
      List.take_of_length_le (by omega)
    refine ⟨_, rfl, { h with log := ?_ }⟩
    rw [← h.log, List.take_append, hlen, hall]

theorem passes_stageTruncate (h : Shows base v s) (hc : s.commitIndex < index)
    (hl : index ≤ s.log.length + 1) :
    Passes base (v.stageTruncate index) { s with log := s.log.take (index - 1) } :=
  Or.inl (exists_stageTruncate h hc hl)

theorem passes_stageEntry (h : Shows base v s) (hidx : e.index = s.log.length + 1)
    (hpos : e.term ≠ 0) (hle : e.term ≤ s.hardState.currentTerm)
    (hsorted : lastStamp s.log ≤ e.term) :
    Passes base (v.stageEntry options e) { s with log := s.log ++ [e] } := by
  unfold stageEntry
  split_ifs with h₁ h₂ h₃ h₄ h₅
  · exact Or.inr ⟨_, rfl, rfl⟩
  · exact absurd (by rw [h.lastIndex, hidx]) h₂
  · rcases h₃ with h₃ | h₃
    · exact absurd h₃ hpos
    · rw [h.hardState] at h₃
      omega
  · rw [h.lastTerm] at h₄
    omega
  · exact Or.inr ⟨_, rfl, rfl⟩
  · exact Passes.ok { h with log := by rw [← h.log, List.append_assoc] }

/-- The loop over the entries: what a batch appends is consecutive, within the term and
not below the last term. -/
theorem passes_stageEntries (entries : List LogEntry) (h : Shows base v s)
    (hidx : IndexedFrom s.log.length entries)
    (hterm : ∀ e ∈ entries, e.term ≠ 0 ∧ e.term ≤ s.hardState.currentTerm)
    (hsorted : (s.log ++ entries).Pairwise fun e e' => e.term ≤ e'.term) :
    Passes base (entries.foldlM (stageEntry options) v) { s with log := s.log ++ entries } := by
  induction entries generalizing v s with
  | nil =>
    rw [List.append_nil]
    exact Passes.ok h
  | cons e rest ih =>
    obtain ⟨he, hrest⟩ := indexedFrom_cons.mp hidx
    rw [List.foldlM_cons]
    have hlast : lastStamp s.log ≤ e.term := by
      obtain hnil | ⟨p, x, hp⟩ := s.log.eq_nil_or_concat'
      · simp [hnil]
      · rw [hp, lastStamp_concat]
        exact (List.pairwise_append.mp hsorted).2.2 x (by simp [hp]) e (by simp)
    refine Passes.bind (passes_stageEntry h he (hterm e (by simp)).1 (hterm e (by simp)).2 hlast)
      fun v' hv' => ?_
    have := ih hv' (by simpa using hrest) (fun x hx => hterm x (by simp [hx]))
      (by simpa using hsorted)
    simpa using this

theorem passes_stageCommit (h : Shows base v s) (hc : s.commitIndex ≤ index)
    (hl : index ≤ s.log.length) :
    Passes base (v.stageCommit index) { s with commitIndex := index } := by
  unfold stageCommit
  rw [if_neg (by rw [h.commitIndex]; omega), if_neg (by rw [h.lastIndex]; omega)]
  exact Passes.ok { h with commitIndex := rfl }

/-- **A batch that respects the rules passes**, and the view then shows what it means. -/
theorem stage_of_writable (options : WalOptions) (h : Shows base v s) (hb : Writable s b) :
    Passes base (v.stage b options) (s.write b) := by
  unfold stage
  rw [hb.nonempty]
  simp only [Bool.false_eq_true, if_false]
  split_ifs with hmany
  · exact Or.inr ⟨_, rfl, rfl⟩
  -- The four parts of a batch, in the order in which the WAL stages them.
  have hhs : Passes base (b.hardState.elim (.ok v) v.stageHardState)
      { s with hardState := (s.write b).hardState } := by
    cases hnext : b.hardState with
    | none => simpa [RecoveredState.write, hnext] using Passes.ok h
    | some next =>
      have hwrite : (s.write b).hardState = next := by simp [RecoveredState.write, hnext]
      have h₁ := hb.term_le
      have h₂ := hb.vote_keep
      have h₃ := hb.vote_term
      rw [hwrite] at h₁ h₂ h₃ ⊢
      exact passes_stageHardState h h₁ h₂ h₃
  refine hhs.bind fun v₁ h₁ => ?_
  have htrunc : Passes base (b.truncateFrom.elim (.ok v₁) v₁.stageTruncate)
      { s with
        hardState := (s.write b).hardState
        log := match b.truncateFrom with
          | some i => s.log.take (i - 1)
          | none => s.log } := by
    cases hi : b.truncateFrom with
    | none => exact Passes.ok h₁
    | some i => exact passes_stageTruncate h₁ (hb.truncate i hi).1 (hb.truncate i hi).2
  refine htrunc.bind fun v₂ h₂ => ?_
  have hindexed := (indexedFrom_append.mp hb.indexed).2
  rw [Nat.zero_add] at hindexed
  refine (passes_stageEntries b.entries h₂ hindexed hb.terms hb.sorted).bind fun v₃ h₃ => ?_
  cases hi : b.commitIndex with
  | none => simpa [RecoveredState.write, hi] using Passes.ok h₃
  | some i =>
    have hcommit := hb.commit
    simp only [RecoveredState.write, hi, Option.getD_some] at hcommit ⊢
    exact passes_stageCommit h₃ hcommit.1 hcommit.2

/-! ### A batch that passes respects the rules -/

/-- No term of a sorted log is above its last one. -/
theorem le_lastStamp_of_sorted {log : List LogEntry} (h : log.Pairwise fun e e' => e.term ≤ e'.term)
    (he : e ∈ log) : e.term ≤ lastStamp log := by
  rcases log.eq_nil_or_concat' with rfl | ⟨l, x, rfl⟩
  · cases he
  · rw [lastStamp_concat]
    rcases List.mem_append.mp he with he | he
    · exact (List.pairwise_append.mp h).2.2 e he x (by simp)
    · rw [List.mem_singleton.mp he]
      rfl

theorem Passes.shows (h : Passes base (.ok v) s) : Shows base v s := by
  rcases h with ⟨v', hv, hshows⟩ | ⟨e, he, -⟩
  · rwa [Except.ok.inj hv]
  · cases he

theorem stageHardState_ok {next : HardState} (h : Shows base v s)
    (hok : v.stageHardState next = .ok v') :
    Shows base v' { s with hardState := next } ∧
      s.hardState.currentTerm ≤ next.currentTerm ∧
      (next.currentTerm = s.hardState.currentTerm → s.hardState.votedFor.isSome →
        next.votedFor = s.hardState.votedFor) ∧
      (next.currentTerm = 0 → next.votedFor = none) := by
  have hrules : s.hardState.currentTerm ≤ next.currentTerm ∧
      (next.currentTerm = s.hardState.currentTerm → s.hardState.votedFor.isSome →
        next.votedFor = s.hardState.votedFor) ∧
      (next.currentTerm = 0 → next.votedFor = none) := by
    unfold stageHardState violation at hok
    rw [h.hardState] at hok
    split_ifs at hok with hzero hlt hvote
    refine ⟨not_lt.mp hlt, fun heq hsome => ?_, fun heq => ?_⟩
    · by_contra hne
      exact hvote ⟨heq, hsome, hne⟩
    · by_contra hne
      exact hzero ⟨heq, Option.isSome_iff_ne_none.mpr hne⟩
  obtain ⟨hle, hkeep, hzero⟩ := hrules
  exact ⟨(hok ▸ passes_stageHardState h hle hkeep hzero).shows, hle, hkeep, hzero⟩

theorem stageTruncate_ok (h : Shows base v s) (hok : v.stageTruncate index = .ok v') :
    Shows base v' { s with log := s.log.take (index - 1) } ∧
      s.commitIndex < index ∧ index ≤ s.log.length + 1 := by
  have hrules : s.commitIndex < index ∧ index ≤ s.log.length + 1 := by
    unfold stageTruncate violation at hok
    rw [h.commitIndex, h.lastIndex] at hok
    split_ifs at hok with hzero hcommit hend
    all_goals exact ⟨not_le.mp hcommit, not_lt.mp hend⟩
  exact ⟨(hok ▸ passes_stageTruncate h hrules.1 hrules.2).shows, hrules⟩

theorem stageEntry_ok (h : Shows base v s) (hok : v.stageEntry options e = .ok v') :
    Shows base v' { s with log := s.log ++ [e] } ∧ e.index = s.log.length + 1 ∧
      (e.term ≠ 0 ∧ e.term ≤ s.hardState.currentTerm) ∧ lastStamp s.log ≤ e.term ∧
      s.log.length < options.maxLogEntries := by
  have hrules : e.index = s.log.length + 1 ∧
      (e.term ≠ 0 ∧ e.term ≤ s.hardState.currentTerm) ∧ lastStamp s.log ≤ e.term ∧
      s.log.length < options.maxLogEntries := by
    unfold stageEntry violation exceeded at hok
    rw [h.lastIndex, h.hardState, h.lastTerm] at hok
    split_ifs at hok with hmax hindex hterm hsorted
    rw [not_or, not_lt] at hterm
    refine ⟨not_not.mp hindex, hterm, ?_, not_le.mp hmax⟩
    rcases s.log.eq_nil_or_concat' with hnil | ⟨l, x, hl⟩
    · rw [hnil]
      exact Nat.zero_le _
    · have hlen : 0 < s.log.length := by simp [hl]
      by_contra hlt
      exact hsorted ⟨by omega, not_le.mp hlt⟩
  obtain ⟨hidx, hterm, hsorted, hmax⟩ := hrules
  exact ⟨(hok ▸ passes_stageEntry h hidx hterm.1 hterm.2 hsorted).shows, hidx, hterm, hsorted,
    hmax⟩

/-- The loop over the entries: each one continues the log that the ones before it have left. -/
theorem stageEntries_ok {entries : List LogEntry} (h : Shows base v s)
    (hsorted : s.log.Pairwise fun e e' => e.term ≤ e'.term)
    (hok : entries.foldlM (stageEntry options) v = .ok v') :
    Shows base v' { s with log := s.log ++ entries } ∧ IndexedFrom s.log.length entries ∧
      (∀ e ∈ entries, e.term ≠ 0 ∧ e.term ≤ s.hardState.currentTerm) ∧
      ((s.log ++ entries).Pairwise fun e e' => e.term ≤ e'.term) ∧
      (s.log ++ entries).length ≤ max s.log.length options.maxLogEntries := by
  induction entries generalizing v s with
  | nil =>
    obtain rfl := Except.ok.inj hok
    rw [List.append_nil]
    exact ⟨h, by simp [IndexedFrom], by simp, hsorted, le_max_left _ _⟩
  | cons e rest ih =>
    obtain ⟨v₁, hv₁, hrest⟩ := Wire.bind_eq_ok.mp hok
    obtain ⟨h₁, hidx, hterm, hlast, hmax⟩ := stageEntry_ok h hv₁
    have hpair : (s.log ++ [e]).Pairwise fun e e' => e.term ≤ e'.term := by
      refine List.pairwise_append.mpr ⟨hsorted, List.pairwise_singleton _ _, fun x hx y hy => ?_⟩
      obtain rfl := List.mem_singleton.mp hy
      exact (le_lastStamp_of_sorted hsorted hx).trans hlast
    obtain ⟨hshows, hindexed, hterms, hpairs, hlen⟩ := ih h₁ hpair hrest
    simp only [List.append_assoc, List.singleton_append] at hshows hpairs hlen
    refine ⟨hshows, ?_, List.forall_mem_cons.mpr ⟨hterm, hterms⟩, hpairs, ?_⟩
    · rw [indexedFrom_cons]
      exact ⟨hidx, by simpa using hindexed⟩
    · simp only [List.length_append, List.length_cons, List.length_nil] at hlen ⊢
      omega

theorem stageCommit_ok (h : Shows base v s) (hok : v.stageCommit index = .ok v') :
    Shows base v' { s with commitIndex := index } ∧ s.commitIndex ≤ index ∧
      index ≤ s.log.length := by
  have hrules : s.commitIndex ≤ index ∧ index ≤ s.log.length := by
    unfold stageCommit violation at hok
    rw [h.commitIndex, h.lastIndex] at hok
    split_ifs at hok with hlt hend
    exact ⟨not_lt.mp hlt, not_lt.mp hend⟩
  exact ⟨(hok ▸ passes_stageCommit h hrules.1 hrules.2).shows, hrules⟩

/-- **A batch that passes respects the rules**, and the view then shows what it means. -/
theorem stage_ok (h : Shows base v s) (hs : s.Lawful) (hok : v.stage b options = .ok v') :
    Writable s b ∧ Shows base v' (s.write b) ∧
      (s.write b).log.length ≤ max s.log.length options.maxLogEntries := by
  unfold stage violation exceeded at hok
  split_ifs at hok with hempty hmany
  obtain ⟨v₁, hhard, hok⟩ := Wire.bind_eq_ok.mp hok
  obtain ⟨v₂, htruncate, hok⟩ := Wire.bind_eq_ok.mp hok
  obtain ⟨v₃, hentries, hcommit⟩ := Wire.bind_eq_ok.mp hok
  obtain ⟨h₁, hle, hkeep, hzero⟩ : Shows base v₁ { s with hardState := (s.write b).hardState } ∧
      s.hardState.currentTerm ≤ (s.write b).hardState.currentTerm ∧
      ((s.write b).hardState.currentTerm = s.hardState.currentTerm →
        s.hardState.votedFor.isSome → (s.write b).hardState.votedFor = s.hardState.votedFor) ∧
      ((s.write b).hardState.currentTerm = 0 → (s.write b).hardState.votedFor = none) := by
    unfold RecoveredState.write
    cases hnext : b.hardState with
    | none =>
      rw [hnext] at hhard
      obtain rfl := Except.ok.inj hhard
      exact ⟨h, le_rfl, fun _ _ => rfl, hs.vote_term⟩
    | some next =>
      rw [hnext] at hhard
      exact stageHardState_ok h hhard
  obtain ⟨h₂, hbounds⟩ : Shows base v₂ { s with
        hardState := (s.write b).hardState
        log := match b.truncateFrom with
          | some i => s.log.take (i - 1)
          | none => s.log } ∧
      ∀ i, b.truncateFrom = some i → s.commitIndex < i ∧ i ≤ s.log.length + 1 := by
    cases hi : b.truncateFrom with
    | none =>
      rw [hi] at htruncate
      obtain rfl := Except.ok.inj htruncate
      exact ⟨h₁, by simp⟩
    | some i =>
      rw [hi] at htruncate
      obtain ⟨h₂, hbounds⟩ := stageTruncate_ok h₁ htruncate
      refine ⟨h₂, ?_⟩
      rintro _ ⟨⟩
      exact hbounds
  have hcut : (match b.truncateFrom with
      | some i => s.log.take (i - 1)
      | none => s.log) <+: s.log := by
    split
    · exact List.take_prefix _ _
    · exact List.prefix_rfl
  obtain ⟨h₃, hindexed, hterms, hsorted, hlen⟩ :=
    stageEntries_ok h₂ (hs.sorted.sublist hcut.sublist) hentries
  obtain ⟨h₄, hadvance, hend⟩ : Shows base v' (s.write b) ∧
      s.commitIndex ≤ (s.write b).commitIndex ∧
      (s.write b).commitIndex ≤ (s.write b).log.length := by
    cases hi : b.commitIndex with
    | none =>
      rw [hi] at hcommit
      obtain rfl := Except.ok.inj hcommit
      have hwrite : (s.write b).commitIndex = s.commitIndex := by simp [RecoveredState.write, hi]
      refine ⟨{ h₃ with commitIndex := by rw [hwrite]; exact h₃.commitIndex }, hwrite.ge, ?_⟩
      rw [hwrite]
      -- a truncation stays above the commit index
      simp only [RecoveredState.write, List.length_append]
      cases ht : b.truncateFrom with
      | none => exact hs.commit.trans (Nat.le_add_right _ _)
      | some i =>
        have hi := hbounds i ht
        have hcommit := hs.commit
        simp only [List.length_take]
        omega
    | some i =>
      rw [hi] at hcommit
      have hwrite : (s.write b).commitIndex = i := by simp [RecoveredState.write, hi]
      obtain ⟨h₄, hadvance, hend⟩ := stageCommit_ok h₃ hcommit
      rw [hwrite]
      exact ⟨{ h₄ with commitIndex := by rw [hwrite]; exact h₄.commitIndex }, hadvance, hend⟩
  refine ⟨⟨by simpa using hempty, hle, hkeep, hzero, hbounds, ?_, hterms, hsorted,
    hadvance, hend⟩, h₄, hlen.trans (max_le_max_right _ hcut.length_le)⟩
  refine indexedFrom_append.mpr ⟨hs.indexed.of_isPrefix hcut, ?_⟩
  rw [Nat.zero_add]
  exact hindexed

end ValidationView

/-- **An append that is accepted** does what the batch means. -/
theorem WalState.append_ok {options : WalOptions} {state state' : WalState}
    (hs : state.recovered.Lawful) (h : state.append options b = .ok state') :
    Writable state.recovered b ∧ state'.recovered = state.recovered.write b ∧
      state'.entries.length ≤ max state.entries.length options.maxLogEntries := by
  unfold WalState.append at h
  split at h
  · rename_i view hview
    obtain rfl := Except.ok.inj h
    obtain ⟨hb, hshows, hlen⟩ :=
      ValidationView.stage_ok (ValidationView.shows_ofState state) hs hview
    have hstate := hshows.materialize
    refine ⟨hb, hstate, ?_⟩
    rw [← hstate] at hlen
    exact hlen
  · cases h

/-! ### Runs of the log -/

/-- The state a list of batches leaves, by their meaning. -/
def written (batches : List PersistBatch) : RecoveredState :=
  batches.foldl RecoveredState.write {}

/-- Every batch of a list respects the rules where it stands. -/
inductive Sound : List PersistBatch → Prop
  | nil : Sound []
  | concat {bs : List PersistBatch} {b : PersistBatch} (hbs : Sound bs)
      (hb : Writable (written bs) b) : Sound (bs ++ [b])

@[simp] theorem written_nil : written [] = {} := rfl

@[simp] theorem written_concat (bs : List PersistBatch) (b : PersistBatch) :
    written (bs ++ [b]) = (written bs).write b := by
  simp [written]

theorem WalState.replay_concat (options : WalOptions) (bs : List PersistBatch) (b : PersistBatch) :
    WalState.replay options (bs ++ [b]) =
      (WalState.replay options bs >>= fun s => WalState.append options s b) := by
  simp [WalState.replay]

/-- A run of the WAL stops at one of its limits. -/
def HitsLimit (options : WalOptions) (batches : List PersistBatch) : Prop :=
  ∃ e, WalState.replay options batches = .error e ∧ e.code = .boundsExceeded

/-- **Refinement**: a WAL that no limit stops accepts every sound run, and its state is
what the batches mean. -/
theorem replay_of_sound {options : WalOptions} {bs : List PersistBatch} (h : Sound bs) :
    (∃ state, WalState.replay options bs = .ok state ∧ state.recovered = written bs) ∨
      HitsLimit options bs := by
  induction h with
  | nil => exact Or.inl ⟨{}, rfl, rfl⟩
  | @concat bs b _ hb ih =>
    rcases ih with ⟨state, hok, hstate⟩ | ⟨e, herr, hcode⟩
    · have hshows := ValidationView.shows_ofState state
      rw [hstate] at hshows
      rw [written_concat]
      have happ : WalState.replay options (bs ++ [b]) = WalState.append options state b := by
        rw [WalState.replay_concat, hok]
        rfl
      rcases ValidationView.stage_of_writable options hshows hb with
        ⟨v, hv, hv'⟩ | ⟨e, he, hcode⟩
      · refine Or.inl ⟨v.materialize state, ?_, hv'.materialize⟩
        rw [happ, WalState.append, hv]
      · refine Or.inr ⟨e, ?_, hcode⟩
        rw [happ, WalState.append, he]
    · refine Or.inr ⟨e, ?_, hcode⟩
      rw [WalState.replay_concat, herr]
      rfl

end DetLog
