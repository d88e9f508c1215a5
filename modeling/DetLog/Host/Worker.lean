import DetLog.Config

/-!
# The storage worker

A thread that owns the WAL. The owner of the node hands it batches through a queue of tasks and
learns what became of them through a queue of notices; both queues are guarded by one lock, so
what the two threads see of each other happens at the moments when one of them holds it.

Without group commit the worker appends a batch, flushes it and reports it. With group commit
(`run_grouped`) it reports a batch as *staged* once it is appended, and flushes several of them
together; the notice of that *barrier* says up to which operation everything is durable. A batch
that moves the commit index is never reported as staged: it closes its group.

`DetLog.StorageWorker.step` is one stretch of the thread between two points where another thread
may act. What the thread does not decide is part of the step: what the WAL returns, and whether
the deadline of the group has passed.
-/

namespace DetLog

/-- A batch to be written. -/
structure StorageTask where
  operation : ℕ
  batch : PersistBatch
  deriving DecidableEq, Repr

/-- What the worker reports. -/
inductive StorageNoticeKind where
  /-- A batch is written, and flushed if the policy asks for it. -/
  | complete
  /-- A batch of an open group is written, but not durable. -/
  | staged
  /-- A flush has made a group durable. -/
  | barrier
  /-- An append or a flush of a group has failed. -/
  | failed
  deriving DecidableEq, Repr

/-- The end of an operation. -/
structure StorageComplete where
  opId : ℕ := 0
  success : Bool := false
  error : String := ""
  deriving DecidableEq, Repr

/-- The event that tells the node. -/
def StorageComplete.event (completion : StorageComplete) : RaftEvent :=
  .storageComplete completion.opId completion.success completion.error

/-- A report of the worker. -/
structure StorageNotice where
  kind : StorageNoticeKind
  completion : StorageComplete := {}
  delayedCompletion : Option StorageComplete := none
  groupSize : ℕ := 0
  groupBytes : ℕ := 0
  flushed : Bool := false
  durableThrough : ℕ := 0
  deriving DecidableEq, Repr

/-- What an append to the WAL answers. -/
structure WalAppendResult where
  bytesWritten : ℕ
  durable : Bool
  deriving DecidableEq, Repr

/-- **The file**: the batches that have been appended to it, and how many of them a flush has
covered. -/
structure Journal where
  written : List StorageTask := []
  flushed : ℕ := 0
  deriving DecidableEq, Repr

namespace Journal

/-- A batch is written. -/
def append (journal : Journal) (task : StorageTask) (durable : Bool) : Journal where
  written := journal.written ++ [task]
  flushed := if durable then journal.written.length + 1 else journal.flushed

/-- All that is written is flushed. -/
def flush (journal : Journal) : Journal := { journal with flushed := journal.written.length }

/-- What a crash cannot take away. -/
def durable (journal : Journal) : List StorageTask := journal.written.take journal.flushed

end Journal

/-- Where the thread stands. -/
inductive WorkerPhase where
  /-- It waits for a task, or for the deadline of an open group. -/
  | waiting
  /-- It has taken a task and calls `append`. -/
  | appending (task : StorageTask)
  /-- It calls `flush`, after the task that closes the group or after the deadline. -/
  | flushing (task : Option StorageTask)
  /-- It waits for room among the notices, and then leaves the loop or goes on. -/
  | publishing (notice : StorageNotice) (leave : Bool)
  | left
  deriving DecidableEq, Repr

/-- The state of the worker thread. -/
structure StorageWorker where
  maxTasks : ℕ
  maxCompletions : ℕ
  configuredFlushPolicy : WalFlushPolicy
  groupCommit : NodeHostGroupCommitConfig
  maxFrameBytes : ℕ
  maxGroupBytes : ℕ
  tasks : List StorageTask := []
  completions : List StorageNotice := []
  started : Bool := false
  stopping : Bool := false
  failed : Bool := false
  phase : WorkerPhase := .waiting
  groupSize : ℕ := 0
  groupBytes : ℕ := 0
  groupLastOperation : ℕ := 0
  journal : Journal := {}
  deriving DecidableEq, Repr

/-- What the thread does next, with what it is told by the WAL and the clock. -/
inductive WorkerStep where
  | take
  | timeout
  | append (result : Except String WalAppendResult) (late : Bool)
  | flush (result : Except String Unit)
  | publish
  | leave

namespace StorageWorker

/-! ### The side of the owner -/

/-- The queue takes a task, or refuses it. -/
def enqueue (w : StorageWorker) (task : StorageTask) : Option StorageWorker :=
  if w.started = false ∨ w.stopping = true ∨ w.failed = true ∨ w.maxTasks ≤ w.tasks.length then
    none
  else some { w with tasks := w.tasks ++ [task] }

/-- The notices that the owner takes, and the worker without them. -/
def take (w : StorageWorker) (maximum : ℕ) : List StorageNotice × StorageWorker :=
  (w.completions.take maximum, { w with completions := w.completions.drop maximum })

/-- The worker leaves its queue. -/
def stop (w : StorageWorker) : StorageWorker := { w with stopping := true, tasks := [] }

/-! ### The side of the thread -/

/-- An operation succeeded. -/
def successOf (operation : ℕ) : StorageComplete := { opId := operation, success := true }

/-- An operation failed; the text is cut. -/
def failureOf (operation : ℕ) (message : String) : StorageComplete where
  opId := operation
  success := false
  error := if 512 < message.length then String.ofList (message.toList.take 512) else message

/-- A failure ends all work. -/
def markFailed (w : StorageWorker) : StorageWorker := { w with failed := true, tasks := [] }

/-- The thread has something to report. -/
def report (w : StorageWorker) (notice : StorageNotice) (leave : Bool) : StorageWorker :=
  { w with phase := .publishing notice leave }

/-- A group has failed; the thread leaves after the notice. -/
def failGroup (w : StorageWorker) (operation : ℕ) (message : String) : StorageWorker :=
  w.markFailed.report
    { kind := .failed
      completion := failureOf operation message
      groupSize := w.groupSize
      groupBytes := w.groupBytes } true

/-- A batch has failed; the same without group commit. -/
def failBatch (w : StorageWorker) (operation : ℕ) (message : String) : StorageWorker :=
  w.markFailed.report { kind := .complete, completion := failureOf operation message } true

/-- The notice of a flushed group. -/
def barrier (w : StorageWorker) (delayed : Option StorageComplete) : StorageNotice where
  kind := .barrier
  delayedCompletion := delayed
  groupSize := w.groupSize
  groupBytes := w.groupBytes
  flushed := true
  durableThrough := w.groupLastOperation

/-- `append` without group commit. -/
def appendUngrouped (w : StorageWorker) (task : StorageTask) :
    Except String WalAppendResult → StorageWorker
  | .error message => w.failBatch task.operation message
  | .ok appended =>
    let w := { w with journal := w.journal.append task appended.durable }
    if w.configuredFlushPolicy ≠ .flushEveryAppend then
      w.report { kind := .complete, completion := successOf task.operation } false
    else if appended.durable = false then { w with phase := .flushing (some task) }
    else
      w.report { kind := .complete, completion := successOf task.operation, flushed := true } false

/-- `append` with group commit. A batch that moves the commit index closes its group, and so does
one after which the next frame might not fit. -/
def appendGrouped (w : StorageWorker) (task : StorageTask) (late : Bool) :
    Except String WalAppendResult → StorageWorker
  | .error message => w.failGroup task.operation message
  | .ok appended =>
    let w := { w with journal := w.journal.append task appended.durable }
    if appended.durable = true then
      w.failGroup task.operation "group-commit staging unexpectedly crossed a durability barrier"
    else if w.maxGroupBytes - min w.maxGroupBytes w.groupBytes < appended.bytesWritten then
      w.failGroup task.operation "runtime group exceeded the configured WAL byte bound"
    else
      let w := { w with
        groupBytes := w.groupBytes + appended.bytesWritten
        groupSize := w.groupSize + 1
        groupLastOperation := task.operation }
      let closeGroup :=
        task.batch.commitIndex.isSome || decide (w.groupCommit.maxOperations ≤ w.groupSize) ||
          decide (w.maxGroupBytes - w.maxFrameBytes < w.groupBytes) || late
      if closeGroup then { w with phase := .flushing (some task) }
      else w.report { kind := .staged, completion := successOf task.operation } false

/-- The end of a flush. -/
def flushed (w : StorageWorker) (task : Option StorageTask) : Except String Unit → StorageWorker
  | .error message =>
    if w.groupCommit.enabled then w.failGroup (task.elim 0 StorageTask.operation) message
    else w.failBatch (task.elim 0 StorageTask.operation) message
  | .ok () =>
    let w := { w with journal := w.journal.flush }
    if w.groupCommit.enabled then
      w.report (w.barrier (task.map fun task => successOf task.operation)) false
    else
      w.report
        { kind := .complete
          completion := successOf (task.elim 0 StorageTask.operation)
          flushed := true } false

/-- `publish`, and the reset of the group after a barrier. -/
def published (w : StorageWorker) (notice : StorageNotice) (leave : Bool) : StorageWorker :=
  if w.stopping then { w with phase := .left }
  else if w.maxCompletions ≤ w.completions.length then w
  else
    let w := { w with
      completions := w.completions ++ [notice]
      phase := if leave then .left else .waiting }
    if notice.kind = .barrier then
      { w with groupSize := 0, groupBytes := 0, groupLastOperation := 0 }
    else w

/-- **One step of the thread.** A step that the thread is not about to make changes nothing. -/
def step (w : StorageWorker) (s : WorkerStep) : StorageWorker :=
  if w.started = false then w
  else
    match w.phase, s with
    | .waiting, .take =>
      if w.stopping then w
      else
        match w.tasks with
        | [] => w
        | task :: rest => { w with tasks := rest, phase := .appending task }
    | .waiting, .timeout =>
      if w.stopping ∨ w.tasks ≠ [] ∨ w.groupSize = 0 ∨ w.groupCommit.enabled = false then w
      else { w with phase := .flushing none }
    | .waiting, .leave => if w.stopping then { w with phase := .left } else w
    | .appending task, .append result late =>
      if w.groupCommit.enabled then w.appendGrouped task late result
      else w.appendUngrouped task result
    | .flushing task, .flush result => w.flushed task result
    | .publishing notice leave, .publish => w.published notice leave
    | _, _ => w

end StorageWorker

end DetLog
