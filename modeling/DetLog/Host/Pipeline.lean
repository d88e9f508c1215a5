import DetLog.Host.Worker
import DetLog.Raft.Batches

/-!
# What the worker writes

The storage worker with group commit, against the list of all tasks that it will ever get. It
writes them in their order (`DetLog.WorkerOk.order`), and what it reports is true at that moment
and stays so: a batch that is reported as staged is in the file and does not move the commit
index, and a barrier reaches no further than the last flush (`DetLog.NoticeOk`).

A worker that has failed makes no other step than to report it, so the file stays as it is
(`DetLog.WorkerTurn.frozen`).
-/

namespace DetLog

/-- The task of a batch. -/
def PersistEffect.task (p : PersistEffect) : StorageTask where
  operation := p.opId
  batch := p.batch

/-- The operations are numbered from one, in the order of the list. -/
def Counted (tasks : List StorageTask) : Prop :=
  ∀ i task, tasks[i]? = some task → task.operation = i + 1

/-- **A notice is true of the file.** -/
def NoticeOk (journal : Journal) (n : StorageNotice) : Prop :=
  match n.kind with
  | .staged => n.completion.success = true ∧ ∃ task ∈ journal.written,
      task.operation = n.completion.opId ∧ task.batch.commitIndex = none
  | .barrier => n.durableThrough ≤ journal.flushed ∧ ∀ completion, n.delayedCompletion =
      some completion → completion.success = true ∧ completion.opId ≤ journal.flushed
  | _ => True

/-- A file that has grown. -/
structure Journal.Grows (journal journal' : Journal) : Prop where
  written : journal.written <+: journal'.written
  flushed : journal.flushed ≤ journal'.flushed

section Journal

variable {journal journal' : Journal} {tasks : List StorageTask} {task : StorageTask}
  {n : StorageNotice}

theorem Journal.Grows.refl (journal : Journal) : journal.Grows journal :=
  ⟨List.prefix_rfl, le_rfl⟩

theorem NoticeOk.mono (h : NoticeOk journal n) (hgrows : journal.Grows journal') :
    NoticeOk journal' n := by
  unfold NoticeOk at h ⊢
  split at h
  · obtain ⟨hsuccess, task, hmem, htask⟩ := h
    exact ⟨hsuccess, task, hgrows.written.subset hmem, htask⟩
  · refine ⟨h.1.trans hgrows.flushed, fun completion hc => ?_⟩
    obtain ⟨hsuccess, hle⟩ := h.2 completion hc
    exact ⟨hsuccess, hle.trans hgrows.flushed⟩
  · trivial

theorem grows_append (hflushed : journal.flushed ≤ journal.written.length) (task : StorageTask)
    (durable : Bool) : journal.Grows (journal.append task durable) := by
  refine ⟨List.prefix_append _ _, ?_⟩
  cases durable with
  | true => exact hflushed.trans (Nat.le_succ _)
  | false => exact le_rfl

theorem grows_flush (hflushed : journal.flushed ≤ journal.written.length) :
    journal.Grows journal.flush := ⟨List.prefix_rfl, hflushed⟩

/-- The task after the ones that are written. -/
theorem Counted.next (h : Counted tasks) {written : List StorageTask}
    (horder : written ++ [task] <+: tasks) : task.operation = written.length + 1 := by
  obtain ⟨rest, rfl⟩ := horder
  exact h written.length task (by simp)

theorem Counted.concat (h : Counted tasks) (hnext : task.operation = tasks.length + 1) :
    Counted (tasks ++ [task]) := by
  intro k t hk
  rcases Nat.lt_trichotomy k tasks.length with hlt | rfl | hgt
  · rw [List.getElem?_append_left hlt] at hk
    exact h k t hk
  · simp only [List.getElem?_concat_length, Option.some.injEq] at hk
    rw [← hk, hnext]
  · rw [List.getElem?_eq_none (by simpa using hgt)] at hk
    cases hk

end Journal

/-! ### The worker -/

namespace StorageWorker

/-- The task that the thread has taken but not written. -/
def inHand (w : StorageWorker) : List StorageTask :=
  match w.phase with
  | .appending task => [task]
  | _ => []

/-- The tasks that the worker has got. -/
def intake (w : StorageWorker) : List StorageTask := w.journal.written ++ w.inHand ++ w.tasks

end StorageWorker

/-- **The steps of the thread with group commit.** -/
inductive WorkerTurn (w : StorageWorker) : StorageWorker → Prop
  | idle : WorkerTurn w w
  | took (task : StorageTask) (rest : List StorageTask) (phase : w.phase = .waiting)
      (running : w.stopping = false) (tasks : w.tasks = task :: rest) :
      WorkerTurn w { w with tasks := rest, phase := .appending task }
  | timedOut (phase : w.phase = .waiting) : WorkerTurn w { w with phase := .flushing none }
  | left (phase : w.phase = .waiting ∨ ∃ n leave, w.phase = .publishing n leave)
      (stopping : w.stopping = true) : WorkerTurn w { w with phase := .left }
  /-- The append fails, or it does what it must not do. -/
  | appendFails (task : StorageTask) (phase : w.phase = .appending task) (journal : Journal)
      (file : journal = w.journal ∨ ∃ durable, journal = w.journal.append task durable)
      (operation : ℕ) (message : String) :
      WorkerTurn w (({ w with journal } : StorageWorker).failGroup operation message)
  | closes (task : StorageTask) (phase : w.phase = .appending task) (size bytes : ℕ) :
      WorkerTurn w { w with
        journal := w.journal.append task false
        groupBytes := bytes
        groupSize := size
        groupLastOperation := task.operation
        phase := .flushing (some task) }
  | stages (task : StorageTask) (phase : w.phase = .appending task)
      (unchanged : task.batch.commitIndex = none) (size bytes : ℕ) :
      WorkerTurn w { w with
        journal := w.journal.append task false
        groupBytes := bytes
        groupSize := size
        groupLastOperation := task.operation
        phase := .publishing
          { kind := .staged, completion := StorageWorker.successOf task.operation } false }
  | flushFails (closer : Option StorageTask) (phase : w.phase = .flushing closer) (operation : ℕ)
      (message : String) : WorkerTurn w (w.failGroup operation message)
  | flushes (closer : Option StorageTask) (phase : w.phase = .flushing closer) :
      WorkerTurn w { w with
        journal := w.journal.flush
        phase := .publishing (w.barrier
          (closer.map fun task => StorageWorker.successOf task.operation)) false }
  | publishes (n : StorageNotice) (leave : Bool) (phase : w.phase = .publishing n leave)
      (size bytes last : ℕ) (group : last ≤ w.groupLastOperation) :
      WorkerTurn w { w with
        completions := w.completions ++ [n]
        phase := if leave then .left else .waiting
        groupSize := size
        groupBytes := bytes
        groupLastOperation := last }

section Turn

variable {w : StorageWorker} {task : StorageTask}

theorem turn_appendGrouped (phase : w.phase = .appending task) (late : Bool)
    (result : Except String WalAppendResult) : WorkerTurn w (w.appendGrouped task late result) := by
  unfold StorageWorker.appendGrouped
  split
  · exact .appendFails task phase w.journal (Or.inl rfl) _ _
  · next appended =>
    dsimp only
    split
    · exact .appendFails task phase _ (Or.inr ⟨_, rfl⟩) _ _
    next hdurable =>
    rw [Bool.not_eq_true] at hdurable
    rw [hdurable]
    split
    · exact .appendFails task phase _ (Or.inr ⟨_, rfl⟩) _ _
    split
    · exact .closes task phase _ _
    · next hclose =>
      simp only [Bool.or_eq_true, not_or, Bool.not_eq_true, Option.isSome_eq_false_iff,
        Option.isNone_iff_eq_none] at hclose
      exact .stages task phase hclose.1.1.1 _ _

theorem turn_published {n : StorageNotice} {leave : Bool} (phase : w.phase = .publishing n leave) :
    WorkerTurn w (w.published n leave) := by
  unfold StorageWorker.published
  split
  · next hstop => exact .left (Or.inr ⟨n, leave, phase⟩) hstop
  split
  · exact .idle
  dsimp only
  split
  · exact .publishes n leave phase 0 0 0 (Nat.zero_le _)
  · exact .publishes n leave phase _ _ _ le_rfl

theorem turn_step (grouped : w.groupCommit.enabled = true) (s : WorkerStep) :
    WorkerTurn w (w.step s) := by
  unfold StorageWorker.step
  split
  · exact .idle
  split
  · next hphase =>
    split
    · exact .idle
    · next hstop =>
      split
      · exact .idle
      · next task rest htasks => exact .took task rest hphase (by simpa using hstop) htasks
  · next hphase =>
    split
    · exact .idle
    · exact .timedOut hphase
  · next hphase =>
    split
    · next hstop => exact .left (Or.inl hphase) hstop
    · exact .idle
  · next task result late hphase => exact turn_appendGrouped hphase late result
  · next closer result hphase =>
    unfold StorageWorker.flushed
    split
    · rw [if_pos grouped]
      exact .flushFails closer hphase _ _
    · dsimp only
      rw [if_pos grouped]
      exact .flushes closer hphase
  · next n leave hphase => exact turn_published hphase
  · exact .idle

end Turn

/-! ### Reports are true -/

/-- **The worker and the list of its tasks.** -/
structure WorkerOk (all : List StorageTask) (w : StorageWorker) : Prop where
  order : w.intake <+: all
  flushed_le : w.journal.flushed ≤ w.journal.written.length
  group_le : w.groupLastOperation ≤ w.journal.written.length
  closing : ∀ task, w.phase = .flushing (some task) → task.operation = w.journal.written.length
  publishing : ∀ n leave, w.phase = .publishing n leave → NoticeOk w.journal n
  queued : ∀ n ∈ w.completions, NoticeOk w.journal n

section Worker

variable {all : List StorageTask} {w w' : StorageWorker} {task : StorageTask}

theorem NoticeOk.of_failed {journal : Journal} {n : StorageNotice} (h : n.kind = .failed) :
    NoticeOk journal n := by
  unfold NoticeOk
  rw [h]
  trivial

theorem intake_of_phase (hand : List StorageTask) (h : w.inHand = hand) :
    w.intake = w.journal.written ++ hand ++ w.tasks := by
  rw [StorageWorker.intake, h]

theorem WorkerOk.written (h : WorkerOk all w) : w.journal.written <+: all :=
  ((List.prefix_append _ _).trans (List.prefix_append _ _)).trans h.order

theorem flushed_append_le (h : w.journal.flushed ≤ w.journal.written.length) (durable : Bool) :
    (w.journal.append task durable).flushed ≤ (w.journal.append task durable).written.length := by
  unfold Journal.append
  cases durable with
  | true => simp
  | false => simpa using h.trans (Nat.le_succ _)

theorem WorkerTurn.grows (t : WorkerTurn w w') (h : w.journal.flushed ≤ w.journal.written.length) :
    w.journal.Grows w'.journal := by
  cases t with
  | appendFails task phase journal file =>
    rcases file with rfl | ⟨durable, rfl⟩
    · exact .refl _
    · exact grows_append h task durable
  | closes task | stages task => exact grows_append h task false
  | flushes => exact grows_flush h
  | _ => exact .refl _

theorem WorkerTurn.stopping (t : WorkerTurn w w') : w'.stopping = w.stopping := by
  cases t <;> rfl

theorem WorkerTurn.started (t : WorkerTurn w w') : w'.started = w.started := by
  cases t <;> rfl

theorem WorkerTurn.groupCommit (t : WorkerTurn w w') : w'.groupCommit = w.groupCommit := by
  cases t <;> rfl

/-- A step takes no new tasks in, and without a failure no task gets lost. -/
theorem WorkerTurn.intake (t : WorkerTurn w w') :
    w'.intake <+: w.intake ∧ (w'.failed = false → w'.intake = w.intake ∧ w.failed = false) := by
  cases t with
  | idle => exact ⟨List.prefix_rfl, fun hgood => ⟨rfl, hgood⟩⟩
  | took task rest phase running tasks =>
    have heq : w.intake = _ := intake_of_phase [] (by rw [StorageWorker.inHand, phase])
    rw [heq, tasks, List.append_nil]
    refine ⟨?_, fun hgood => ⟨?_, hgood⟩⟩ <;>
      simp [StorageWorker.intake, StorageWorker.inHand]
  | timedOut phase | flushes closer phase =>
    have heq : w.intake = _ := intake_of_phase [] (by rw [StorageWorker.inHand, phase])
    rw [heq]
    exact ⟨List.prefix_rfl, fun hgood => ⟨rfl, hgood⟩⟩
  | left phase =>
    have heq : w.intake = _ := intake_of_phase [] (by
      rw [StorageWorker.inHand]
      rcases phase with phase | ⟨n, leave, phase⟩ <;> rw [phase])
    rw [heq]
    exact ⟨List.prefix_rfl, fun hgood => ⟨rfl, hgood⟩⟩
  | appendFails task phase journal file =>
    have heq : w.intake = _ := intake_of_phase [task] (by
      rw [StorageWorker.inHand, phase])
    rw [heq]
    refine ⟨?_, fun hgood => absurd hgood (by simp [StorageWorker.failGroup,
      StorageWorker.report, StorageWorker.markFailed])⟩
    rcases file with rfl | ⟨durable, rfl⟩
    · simp [StorageWorker.intake, StorageWorker.inHand, StorageWorker.failGroup,
        StorageWorker.report, StorageWorker.markFailed]
    · simp [StorageWorker.intake, StorageWorker.inHand, StorageWorker.failGroup,
        StorageWorker.report, StorageWorker.markFailed, Journal.append]
  | closes task phase | stages task phase =>
    have heq : w.intake = _ := intake_of_phase [task] (by
      rw [StorageWorker.inHand, phase])
    rw [heq]
    refine ⟨?_, fun hgood => ⟨?_, hgood⟩⟩ <;>
      simp [StorageWorker.intake, StorageWorker.inHand, Journal.append]
  | flushFails closer phase =>
    refine ⟨?_, fun hgood => absurd hgood (by simp [StorageWorker.failGroup,
      StorageWorker.report, StorageWorker.markFailed])⟩
    simp [StorageWorker.intake, StorageWorker.inHand, StorageWorker.failGroup,
      StorageWorker.report, StorageWorker.markFailed]
  | publishes n leave phase =>
    have heq : w.intake = _ := intake_of_phase [] (by rw [StorageWorker.inHand, phase])
    rw [heq]
    cases leave <;> exact ⟨List.prefix_rfl, fun hgood => ⟨rfl, hgood⟩⟩

/-- **One step of the thread.** -/
theorem WorkerOk.turn (hall : Counted all) (h : WorkerOk all w) (t : WorkerTurn w w') :
    WorkerOk all w' := by
  have horder : w'.intake <+: all := t.intake.1.trans h.order
  have hgrows := t.grows h.flushed_le
  have hqueued : ∀ n ∈ w.completions, NoticeOk w'.journal n :=
    fun n hn => (h.queued n hn).mono hgrows
  have hnext : ∀ task, w.phase = .appending task →
      task.operation = (w.journal.append task false).written.length := by
    intro task phase
    have hfirst : w.journal.written ++ [task] <+: all := by
      refine List.IsPrefix.trans ?_ h.order
      rw [StorageWorker.intake, StorageWorker.inHand, phase]
      exact List.prefix_append _ _
    rw [hall.next hfirst]
    simp [Journal.append]
  cases t with
  | idle => exact h
  | took task rest | timedOut | left =>
    exact ⟨horder, h.flushed_le, h.group_le, by simp, by simp, hqueued⟩
  | appendFails task phase journal file operation message =>
    refine ⟨horder, ?_, h.group_le.trans hgrows.written.length_le,
      by simp [StorageWorker.failGroup, StorageWorker.report], ?_, hqueued⟩
    · rcases file with rfl | ⟨durable, rfl⟩
      · exact h.flushed_le
      · exact flushed_append_le h.flushed_le durable
    · rintro n leave heq
      obtain ⟨rfl, -⟩ := WorkerPhase.publishing.inj heq
      exact .of_failed rfl
  | closes task phase =>
    refine ⟨horder, flushed_append_le h.flushed_le false, (hnext task phase).le, ?_, by simp,
      hqueued⟩
    rintro t heq
    obtain rfl := Option.some.inj (WorkerPhase.flushing.inj heq)
    exact hnext task phase
  | stages task phase unchanged =>
    refine ⟨horder, flushed_append_le h.flushed_le false, (hnext task phase).le, by simp, ?_,
      hqueued⟩
    rintro n leave heq
    obtain ⟨rfl, -⟩ := WorkerPhase.publishing.inj heq
    exact ⟨rfl, task, by simp [Journal.append], rfl, unchanged⟩
  | flushFails closer phase operation message =>
    refine ⟨horder, h.flushed_le, h.group_le,
      by simp [StorageWorker.failGroup, StorageWorker.report], ?_, hqueued⟩
    rintro n leave heq
    obtain ⟨rfl, -⟩ := WorkerPhase.publishing.inj heq
    exact .of_failed rfl
  | flushes closer phase =>
    refine ⟨horder, le_rfl, h.group_le, by simp, ?_, hqueued⟩
    rintro n leave heq
    obtain ⟨rfl, -⟩ := WorkerPhase.publishing.inj heq
    refine ⟨h.group_le, fun completion hc => ?_⟩
    obtain ⟨task, rfl, rfl⟩ := Option.map_eq_some_iff.mp hc
    exact ⟨rfl, (h.closing task phase).le⟩
  | publishes n leave phase size bytes last group =>
    refine ⟨horder, h.flushed_le, group.trans h.group_le, ?_, ?_, ?_⟩
    · cases leave <;> simp
    · cases leave <;> simp
    · intro x hx
      rcases List.mem_append.mp hx with hx | hx
      · exact hqueued x hx
      · rw [List.mem_singleton.mp hx]
        exact h.publishing n leave phase

/-! ### Failures -/

/-- The report of a failure is on its way. -/
def StorageWorker.Reports (w : StorageWorker) : Prop :=
  (∃ n leave, w.phase = .publishing n leave ∧ n.kind = .failed) ∨
    ∃ n ∈ w.completions, n.kind = .failed

/-- A worker that has failed has nothing left to do but to report it. -/
def StorageWorker.Ends (w : StorageWorker) : Prop :=
  w.failed = true → w.phase = .left ∨ ∃ n, w.phase = .publishing n true

/-- **A worker that has failed leaves the file alone.** -/
theorem WorkerTurn.frozen (t : WorkerTurn w w') (h : w.Ends) (hfailed : w.failed = true) :
    w'.journal = w.journal ∧ w'.failed = true := by
  have hends := h hfailed
  cases t with
  | idle | left | publishes => exact ⟨rfl, hfailed⟩
  | took task rest phase | timedOut phase | appendFails task phase | closes task phase
  | stages task phase | flushFails closer phase | flushes closer phase => simp [phase] at hends

theorem WorkerTurn.ends (t : WorkerTurn w w') (h : w.Ends) : w'.Ends := by
  intro hfailed
  cases t with
  | idle => exact h hfailed
  | left => exact Or.inl rfl
  | appendFails | flushFails => exact Or.inr ⟨_, rfl⟩
  | publishes n leave phase =>
    have hends := h hfailed
    simp only [phase, reduceCtorEq, false_or, WorkerPhase.publishing.injEq] at hends
    obtain ⟨-, -, rfl⟩ := hends
    exact Or.inl rfl
  | took task rest phase | timedOut phase | closes task phase | stages task phase
  | flushes closer phase => simpa [phase] using h hfailed

/-- The report of a failure stays on its way, and a new failure is reported. -/
theorem WorkerTurn.reports (t : WorkerTurn w w') (running : w.stopping = false)
    (hfailed : w'.failed = true) (h : w.failed = true → w.Reports) : w'.Reports := by
  cases t with
  | idle => exact h hfailed
  | left phase stopping => exact absurd (running.symm.trans stopping) (by simp)
  | appendFails | flushFails => exact Or.inl ⟨_, _, rfl, rfl⟩
  | publishes n leave phase =>
    rcases h hfailed with ⟨x, leave', hx, hkind⟩ | ⟨x, hx, hkind⟩
    · obtain ⟨rfl, -⟩ := WorkerPhase.publishing.inj (phase.symm.trans hx)
      exact Or.inr ⟨n, by simp, hkind⟩
    · exact Or.inr ⟨x, List.mem_append_left _ hx, hkind⟩
  | took task rest phase | timedOut phase | closes task phase | stages task phase
  | flushes closer phase => exact Or.inr (by simpa [StorageWorker.Reports, phase] using h hfailed)

end Worker

end DetLog
