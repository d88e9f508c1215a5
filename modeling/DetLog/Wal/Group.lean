import DetLog.Wal.Accepted

/-!
# Appending a group

An instance of the WAL keeps the file open and appends *groups* of batches. It stages the whole
group on one view of the state, checks every bound, and only then writes: the frames behind each
other, then a flush if the policy asks for it.

The view is based on the state before the group, and what the batches change lies on top of it.
`DetLog.ValidationView.agree_stage` says that a view does not care what it is based on: two views
that show the same state accept the same batches and show the same state again. So staging a group
is appending its batches one after the other (`DetLog.Chain`), which is what the encoder of single
frames does; `DetLog.Wal.appendGroup_eq` puts the two together.

What the device does is part of a call: it may stop with any part of the group's bytes in the file.
-/

namespace DetLog

open Wire

/-! ### The instance -/

/-- The file that an instance has open, and what it knows of it. -/
structure Wal where
  identity : WalIdentity
  options : WalFileOptions
  file : Bytes
  state : WalFileState
  failed : Bool := false
  failureReason : String := ""

/-- What the device does with the bytes of a group. A call that fails has brought some of them into
the file. -/
inductive GroupOutcome where
  | done
  | writeFailed (reached : ℕ) (reason : String)
  | flushFailed (reached : ℕ) (reason : String)

/-- What an append returns. -/
structure WalFileAppendResult where
  firstSequence : ℕ
  lastSequence : ℕ
  durable : Bool
  bytesWritten : ℕ
  deriving DecidableEq, Repr

/-- Where the loop over the batches of a group stands. -/
structure GroupStage where
  view : ValidationView
  frames : List Bytes := []
  groupBytes : ℕ := 0
  sequence : ℕ

/-- One round of the loop over the batches of a group. -/
def GroupStage.next (options : WalFileOptions) (g : GroupStage) (batch : PersistBatch) :
    Except WalError GroupStage := do
  let view ← g.view.stage batch options.toWalOptions
  let frame ← makeFrame (g.sequence + 1) batch options
  if options.maxGroupBytes - min options.maxGroupBytes g.groupBytes < frame.length then
    ValidationView.exceeded "WAL group exceeds configured byte bound"
  else .ok {
    view
    frames := g.frames ++ [frame]
    groupBytes := g.groupBytes + frame.length
    sequence := g.sequence + 1 }

namespace Wal

/-- The constructor of an instance, on a file with the given bytes. -/
def openFile (file : Bytes) (identity : WalIdentity) (options : WalFileOptions) :
    Except WalError Wal := do
  validateOptions options
  if file.length = 0 then
    let header ← makeFileHeader identity
    .ok { identity, options, file := header, state := { fileBytes := header.length } }
  else
    let recovered ← scanWalBytes file identity options
    if recovered.hasIncompleteTail then
      .ok {
        identity
        options
        file := file.take recovered.validBytes
        state := { recovered.state with
          fileBytes := recovered.validBytes
          repairedIncompleteTail := true } }
    else .ok { identity, options, file, state := recovered.state }

/-- A failed log does nothing. -/
def ensureLive (w : Wal) : Except WalError Unit :=
  if w.failed then .error { code := .failed, message := "WAL is fail-stop: " ++ w.failureReason }
  else .ok ()

/-- The log stops for good. -/
def fail (w : Wal) (reason : String) : Wal := { w with failed := true, failureReason := reason }

/-- Bytes are written at an offset of the file. -/
def writeExact (file : Bytes) (offset : ℕ) (bytes : Bytes) : Bytes :=
  file.take offset ++ bytes ++ file.drop (offset + bytes.length)

/-- The checks of `append_group`, before anything is written. -/
def stageGroup (w : Wal) (batches : List PersistBatch) : Except WalError GroupStage := do
  w.ensureLive
  if batches = [] then ValidationView.violation "cannot append an empty WAL group"
  else if w.options.maxGroupFrames < batches.length then
    ValidationView.exceeded "WAL group has too many frames"
  else if maxU64 - w.state.lastFrameSequence < batches.length then
    ValidationView.exceeded "WAL frame sequence is exhausted"
  else
    let staged ← batches.foldlM (GroupStage.next w.options)
      { view := .ofState w.state.toWalState, sequence := w.state.lastFrameSequence }
    if maxU64 - w.state.fileBytes < staged.groupBytes then
      ValidationView.exceeded "WAL file length would overflow"
    else .ok staged

/-- Whether an append is flushed. -/
def shouldFlush (w : Wal) : Bool := w.options.flushPolicy == .flushEveryAppend

/-- A group whose bytes have not all been written and flushed. -/
def abandon (w : Wal) (frames : List Bytes) (reached : ℕ) (reason : String) :
    Except WalError WalFileAppendResult × Wal :=
  (.error { code := .io, message := reason },
    { w with file := writeExact w.file w.state.fileBytes (frames.flatten.take reached) }.fail
      reason)

/-- The end of an append whose bytes are in the file. -/
def adopt (w : Wal) (staged : GroupStage) : Except WalError WalFileAppendResult × Wal :=
  (.ok {
      firstSequence := w.state.lastFrameSequence + 1
      lastSequence := staged.sequence
      durable := w.shouldFlush
      bytesWritten := staged.groupBytes },
    { w with
      file := writeExact w.file w.state.fileBytes staged.frames.flatten
      state := { w.state with
        toWalState := staged.view.materialize w.state.toWalState
        lastFrameSequence := staged.sequence
        fileBytes := w.state.fileBytes + staged.frames.flatten.length
        durableFrameSequence :=
          if w.shouldFlush then staged.sequence else w.state.durableFrameSequence } })

/-- **An append.** Without the flush its failure cannot happen. -/
def appendGroup (w : Wal) (batches : List PersistBatch) (outcome : GroupOutcome) :
    Except WalError WalFileAppendResult × Wal :=
  match w.stageGroup batches with
  | .error e => (.error e, w)
  | .ok staged =>
    match outcome with
    | .done => w.adopt staged
    | .writeFailed reached reason => w.abandon staged.frames reached reason
    | .flushFailed reached reason =>
      if w.shouldFlush then w.abandon staged.frames reached reason else w.adopt staged

/-- A flush, which the device carries out or refuses with a reason. -/
def flush (w : Wal) (refused : Option String) : Except WalError Unit × Wal :=
  match w.ensureLive with
  | .error e => (.error e, w)
  | .ok () =>
    if w.state.durableFrameSequence = w.state.lastFrameSequence then (.ok (), w)
    else
      match refused with
      | some reason => (.error { code := .io, message := reason }, w.fail reason)
      | none =>
        (.ok (), { w with state := { w.state with
          durableFrameSequence := w.state.lastFrameSequence } })

/-- **The instances**: opened on a file, and then used in any way. The numbers in a file and in a
batch are those of the source's types. -/
inductive Reachable : Wal → Prop
  | opened {w : Wal} {file : Bytes} {identity : WalIdentity} {options : WalFileOptions}
      (size : file.length ≤ maxU64) (opens : openFile file identity options = .ok w) : Reachable w
  | append {w : Wal} {batches : List PersistBatch} (reached : Reachable w)
      (range : ∀ batch ∈ batches, batch.InRange) (outcome : GroupOutcome) :
      Reachable (w.appendGroup batches outcome).2
  | flush {w : Wal} (reached : Reachable w) (refused : Option String) :
      Reachable (w.flush refused).2

end Wal

/-! ### A view does not care what it is based on -/

namespace ValidationView

variable {base base' : List LogEntry} {v v' : ValidationView} {s : RecoveredState}
  {options : WalOptions}

/-- Two results fail alike, or give two views of the same state. -/
inductive Agree (base base' : List LogEntry) :
    Except WalError ValidationView → Except WalError ValidationView → Prop
  | error (e : WalError) : Agree base base' (.error e) (.error e)
  | ok {v v' : ValidationView} {s : RecoveredState} (left : Shows base v s)
      (right : Shows base' v' s) : Agree base base' (.ok v) (.ok v')

theorem Agree.bind {r r' : Except WalError ValidationView} (h : Agree base base' r r')
    {f f' : ValidationView → Except WalError ValidationView}
    (hf : ∀ v v' s, Shows base v s → Shows base' v' s → Agree base base' (f v) (f' v')) :
    Agree base base' (r >>= f) (r' >>= f') := by
  cases h with
  | error e => exact .error e
  | ok left right => exact hf _ _ _ left right

theorem agree_stageHardState (h : Shows base v s) (h' : Shows base' v' s) (next : HardState) :
    Agree base base' (v.stageHardState next) (v'.stageHardState next) := by
  have hnext : Shows base { v with hardState := next } { s with hardState := next } :=
    { h with hardState := rfl }
  unfold stageHardState violation
  rw [h.hardState, h'.hardState]
  split_ifs
  · exact .error _
  · exact .error _
  · exact .error _
  · exact .ok hnext { h' with hardState := rfl }

theorem agree_stageTruncate (h : Shows base v s) (h' : Shows base' v' s) (index : ℕ) :
    Agree base base' (v.stageTruncate index) (v'.stageTruncate index) := by
  by_cases hzero : index = 0
  · simp only [stageTruncate, hzero, if_true]
    exact .error _
  by_cases hcommit : index ≤ s.commitIndex
  · simp only [stageTruncate, hzero, h.commitIndex, h'.commitIndex, hcommit, if_true, if_false]
    exact .error _
  by_cases hend : s.log.length + 1 < index
  · simp only [stageTruncate, hzero, h.commitIndex, h'.commitIndex, hcommit, h.lastIndex,
      h'.lastIndex, hend, if_true, if_false]
    exact .error _
  · obtain ⟨w, hw, hshows⟩ := exists_stageTruncate h (not_le.mp hcommit) (not_lt.mp hend)
    obtain ⟨w', hw', hshows'⟩ := exists_stageTruncate h' (not_le.mp hcommit) (not_lt.mp hend)
    rw [hw, hw']
    exact .ok hshows hshows'

theorem agree_stageEntry (h : Shows base v s) (h' : Shows base' v' s) (entry : LogEntry) :
    Agree base base' (v.stageEntry options entry) (v'.stageEntry options entry) := by
  have hlog : Shows base { v with hardState := s.hardState, suffix := v.suffix ++ [entry] }
      { s with log := s.log ++ [entry] } :=
    { h with hardState := rfl, log := by rw [← h.log, List.append_assoc] }
  have hlog' : Shows base' { v' with hardState := s.hardState, suffix := v'.suffix ++ [entry] }
      { s with log := s.log ++ [entry] } :=
    { h' with hardState := rfl, log := by rw [← h'.log, List.append_assoc] }
  unfold stageEntry violation exceeded
  rw [h.lastIndex, h.hardState, h.lastTerm, h'.lastIndex, h'.hardState, h'.lastTerm]
  split_ifs
  iterate 5 exact .error _
  exact .ok hlog hlog'

theorem agree_stageEntries (entries : List LogEntry) (h : Shows base v s)
    (h' : Shows base' v' s) : Agree base base' (entries.foldlM (stageEntry options) v)
      (entries.foldlM (stageEntry options) v') := by
  induction entries generalizing v v' s with
  | nil => exact .ok h h'
  | cons entry rest ih =>
    rw [List.foldlM_cons, List.foldlM_cons]
    exact (agree_stageEntry h h' entry).bind fun _ _ _ hv hv' => ih hv hv'

theorem agree_stageCommit (h : Shows base v s) (h' : Shows base' v' s) (index : ℕ) :
    Agree base base' (v.stageCommit index) (v'.stageCommit index) := by
  have hnext : Shows base { v with commitIndex := index } { s with commitIndex := index } :=
    { h with commitIndex := rfl }
  unfold stageCommit violation
  rw [h.commitIndex, h.lastIndex, h'.commitIndex, h'.lastIndex]
  split_ifs
  · exact .error _
  · exact .error _
  · exact .ok hnext { h' with commitIndex := rfl }

/-- A part that a batch may lack. -/
theorem agree_elim {α : Type} {part : Option α}
    {f : ValidationView → α → Except WalError ValidationView} (h : Shows base v s)
    (h' : Shows base' v' s) (hf : ∀ a, Agree base base' (f v a) (f v' a)) :
    Agree base base' (part.elim (.ok v) (f v)) (part.elim (.ok v') (f v')) := by
  cases part with
  | none => exact .ok h h'
  | some a => exact hf a

/-- **Two views of the same state check a batch alike**, and show the same state after it. -/
theorem agree_stage (h : Shows base v s) (h' : Shows base' v' s) (batch : PersistBatch) :
    Agree base base' (v.stage batch options) (v'.stage batch options) := by
  unfold stage violation exceeded
  split_ifs
  · exact .error _
  · exact .error _
  refine (agree_elim h h' (agree_stageHardState h h')).bind fun _ _ _ h₁ h₁' => ?_
  refine (agree_elim h₁ h₁' (agree_stageTruncate h₁ h₁')).bind fun _ _ _ h₂ h₂' => ?_
  refine (agree_stageEntries batch.entries h₂ h₂').bind fun _ _ _ h₃ h₃' => ?_
  exact agree_elim h₃ h₃' (agree_stageCommit h₃ h₃')

end ValidationView

/-! ### One batch after the other -/

section Chain

variable {options : WalFileOptions} {base : List LogEntry} {s t : WalState}
  {batches : List PersistBatch} {frames : List Bytes} {sequence : ℕ}

/-- A view of a state checks a batch as the state itself does. -/
theorem stage_or_append {v : ValidationView} (h : ValidationView.Shows base v s.recovered)
    (options : WalOptions) (batch : PersistBatch) :
    (∃ e, v.stage batch options = .error e ∧ s.append options batch = .error e) ∨
      ∃ v' t, v.stage batch options = .ok v' ∧ s.append options batch = .ok t ∧
        ValidationView.Shows base v' t.recovered := by
  have hagree : ValidationView.Agree base s.entries (v.stage batch options)
      ((ValidationView.ofState s).stage batch options) :=
    ValidationView.agree_stage h (ValidationView.shows_ofState s) batch
  unfold WalState.append
  generalize v.stage batch options = r at hagree ⊢
  generalize (ValidationView.ofState s).stage batch options = r' at hagree ⊢
  cases hagree with
  | error e => exact Or.inl ⟨e, rfl, rfl⟩
  | ok left right =>
    refine Or.inr ⟨_, _, rfl, rfl, ?_⟩
    rw [right.materialize]
    exact left

/-- **Batches are appended one after the other**, and each of them fits a frame. -/
inductive Chain (options : WalFileOptions) :
    WalState → ℕ → List PersistBatch → List Bytes → WalState → Prop
  | nil (s : WalState) (sequence : ℕ) : Chain options s sequence [] [] s
  | cons {s t u : WalState} {sequence : ℕ} {batch : PersistBatch} {frame : Bytes}
      {batches : List PersistBatch} {frames : List Bytes}
      (appends : s.append options.toWalOptions batch = .ok t)
      (makes : makeFrame (sequence + 1) batch options = .ok frame)
      (later : Chain options t (sequence + 1) batches frames u) :
      Chain options s sequence (batch :: batches) (frame :: frames) u

/-- A group whose batches can be appended one after the other is staged, if it is small enough. -/
theorem staged_of_chain {g : GroupStage} (hshows : ValidationView.Shows base g.view s.recovered)
    (h : Chain options s g.sequence batches frames t)
    (hroom : g.groupBytes + frames.flatten.length ≤ options.maxGroupBytes) :
    ∃ view, ValidationView.Shows base view t.recovered ∧
      batches.foldlM (GroupStage.next options) g = .ok {
        view
        frames := g.frames ++ frames
        groupBytes := g.groupBytes + frames.flatten.length
        sequence := g.sequence + batches.length } := by
  generalize hsequence : g.sequence = sequence at h
  induction h generalizing g with
  | nil s sequence =>
    subst hsequence
    exact ⟨g.view, hshows, by simp [pure, Except.pure]⟩
  | @cons s t u sequence batch frame batches frames appends makes later ih =>
    subst hsequence
    rcases stage_or_append hshows options.toWalOptions batch with ⟨e, -, he⟩ | ⟨v, t', hv, ht, hs⟩
    · rw [appends] at he
      cases he
    obtain rfl := Except.ok.inj (ht.symm.trans appends)
    simp only [List.flatten_cons, List.length_append] at hroom ⊢
    have hnext : g.next options batch = .ok {
        view := v
        frames := g.frames ++ [frame]
        groupBytes := g.groupBytes + frame.length
        sequence := g.sequence + 1 } := by
      unfold GroupStage.next
      rw [hv, ok_bind, makes, ok_bind, if_neg (by omega)]
    rw [List.foldlM_cons, hnext, ok_bind]
    obtain ⟨view, hview, hrest⟩ := ih (g := {
        view := v
        frames := g.frames ++ [frame]
        groupBytes := g.groupBytes + frame.length
        sequence := g.sequence + 1 }) hs (by simp only; omega) rfl
    refine ⟨view, hview, hrest.trans ?_⟩
    simp only [List.append_assoc, List.singleton_append, List.length_cons, Nat.add_assoc,
      Nat.add_comm 1]

/-- The batches of a group that is staged can be appended one after the other. -/
theorem chain_of_staged {g g' : GroupStage}
    (hshows : ValidationView.Shows base g.view s.recovered)
    (h : batches.foldlM (GroupStage.next options) g = .ok g') :
    ∃ frames t, Chain options s g.sequence batches frames t ∧
      ValidationView.Shows base g'.view t.recovered ∧ g'.frames = g.frames ++ frames ∧
      g'.groupBytes = g.groupBytes + frames.flatten.length ∧
      g'.sequence = g.sequence + batches.length := by
  induction batches generalizing g s with
  | nil =>
    obtain rfl := Except.ok.inj h
    exact ⟨[], s, .nil _ _, hshows, by simp, by simp, rfl⟩
  | cons batch rest ih =>
    rw [List.foldlM_cons] at h
    obtain ⟨g₁, hnext, hrest⟩ := bind_eq_ok.mp h
    unfold GroupStage.next ValidationView.exceeded at hnext
    obtain ⟨v, hv, hnext⟩ := bind_eq_ok.mp hnext
    obtain ⟨frame, hframe, hnext⟩ := bind_eq_ok.mp hnext
    split_ifs at hnext
    obtain rfl := Except.ok.inj hnext
    rcases stage_or_append hshows options.toWalOptions batch with ⟨e, he, -⟩ | ⟨v', t, hv', ht, hs⟩
    · rw [hv] at he
      cases he
    obtain rfl := Except.ok.inj (hv.symm.trans hv')
    obtain ⟨frames, u, hchain, hview, hframes, hbytes, hsequence⟩ := ih hs hrest
    refine ⟨frame :: frames, u, .cons ht hframe hchain, hview, ?_, ?_, ?_⟩
    · rw [hframes, List.append_assoc, List.singleton_append]
    · rw [hbytes, List.flatten_cons, List.length_append, Nat.add_assoc]
    · rw [hsequence, List.length_cons, Nat.add_assoc, Nat.add_comm 1]

variable {state : WalFileState}

/-- What the encoder asks of the state before a frame. -/
structure WalFileState.Valid (options : WalFileOptions) (state : WalFileState) : Prop where
  lawful : state.recovered.Lawful
  entries : state.entries.length ≤ options.maxLogEntries
  durable : state.durableFrameSequence ≤ state.lastFrameSequence

/-- The state after some frames, as far as it does not depend on them. -/
def WalFileState.advance (state : WalFileState) (t : WalState) (count bytes : ℕ) : WalFileState :=
  { state with
    toWalState := t
    lastFrameSequence := state.lastFrameSequence + count
    fileBytes := state.fileBytes + bytes }

theorem WalFileState.Valid.advance (h : state.Valid options) {batch : PersistBatch}
    (hlogical : state.append options.toWalOptions batch = .ok t) (bytes : ℕ) :
    (state.advance t 1 bytes).Valid options := by
  obtain ⟨hb, hwrite, hlen⟩ := WalState.append_ok h.lawful hlogical
  refine ⟨?_, hlen.trans (max_le h.entries le_rfl), h.durable.trans (Nat.le_add_right _ _)⟩
  change t.recovered.Lawful
  rw [hwrite]
  exact hb.lawful h.lawful

/-- **The encoder makes the frames of batches that can be appended one after the other.** -/
theorem encodeFrames_of_chain (hopt : validateOptions options = .ok ()) (hv : state.Valid options)
    (h : Chain options state.toWalState state.lastFrameSequence batches frames t)
    (hseq : state.lastFrameSequence + batches.length ≤ maxU64)
    (hend : state.fileBytes + frames.flatten.length ≤ maxU64) :
    ∃ encoded, encodeFrames options state batches = .ok encoded ∧
      encoded.map WalEncodedFrame.bytes = frames ∧
      stateAfter state encoded = state.advance t batches.length frames.flatten.length := by
  generalize hs : state.toWalState = s at h
  generalize hsequence : state.lastFrameSequence = sequence at h
  induction h generalizing state with
  | nil s sequence =>
    subst hs
    exact ⟨[], rfl, rfl, rfl⟩
  | @cons s t u sequence batch frame batches frames appends makes later ih =>
    subst hs hsequence
    simp only [List.flatten_cons, List.length_append, List.length_cons] at hseq hend ⊢
    have hframe : encodeWalFrame state batch options =
        .ok ⟨frame, state.advance t 1 frame.length⟩ := by
      unfold encodeWalFrame
      rw [hopt, ok_bind, validateStateSummary_of_lawful hv.lawful hv.entries hv.durable, ok_bind,
        if_neg (by omega), appends, ok_bind, makes, ok_bind, if_neg (by omega)]
      rfl
    obtain ⟨encoded, hencoded, hbytes, hafter⟩ := ih (hv.advance appends frame.length)
      (by simp only [WalFileState.advance]; omega) (by simp only [WalFileState.advance]; omega)
      rfl rfl
    refine ⟨⟨frame, state.advance t 1 frame.length⟩ :: encoded, ?_, by rw [List.map_cons, hbytes],
      ?_⟩
    · rw [encodeFrames, hframe, ok_bind, hencoded, ok_bind]
    · rw [stateAfter_cons, hafter]
      simp only [WalFileState.advance, Nat.add_assoc, Nat.add_comm 1]

theorem room_of_encodeWalFrame {batch : PersistBatch} {frame : WalEncodedFrame}
    (h : encodeWalFrame state batch options = .ok frame) :
    frame.bytes.length ≤ maxU64 - state.fileBytes := by
  unfold encodeWalFrame ValidationView.exceeded at h
  obtain ⟨_, -, h⟩ := bind_eq_ok.mp h
  obtain ⟨_, -, h⟩ := bind_eq_ok.mp h
  split_ifs at h
  obtain ⟨logical, -, h⟩ := bind_eq_ok.mp h
  obtain ⟨bytes, -, h⟩ := bind_eq_ok.mp h
  split_ifs at h with hroom
  obtain rfl := Except.ok.inj h
  exact not_lt.mp hroom

/-- Batches whose frames the encoder makes can be appended one after the other. -/
theorem chain_of_encodeFrames {encoded : List WalEncodedFrame}
    (h : encodeFrames options state batches = .ok encoded) :
    Chain options state.toWalState state.lastFrameSequence batches
      (encoded.map WalEncodedFrame.bytes) (stateAfter state encoded).toWalState ∧
    (state.lastFrameSequence ≤ maxU64 → state.lastFrameSequence + batches.length ≤ maxU64) ∧
    (state.fileBytes ≤ maxU64 → state.fileBytes + (frameBytes encoded).length ≤ maxU64) ∧
    stateAfter state encoded = state.advance (stateAfter state encoded).toWalState batches.length
      (frameBytes encoded).length := by
  induction batches generalizing state encoded with
  | nil =>
    obtain rfl := Except.ok.inj h
    exact ⟨.nil _ _, id, id, rfl⟩
  | cons batch rest ih =>
    obtain ⟨frame, hframe, h⟩ := bind_eq_ok.mp h
    obtain ⟨later, hlater, h⟩ := bind_eq_ok.mp h
    obtain rfl := Except.ok.inj h
    have henc := encodes_of_encodeWalFrame hframe
    have hroom := room_of_encodeWalFrame hframe
    obtain ⟨hchain, hseq, hend, hafter⟩ := ih hlater
    have hmakes : makeFrame (state.lastFrameSequence + 1) batch options = .ok frame.bytes := by
      have hsize := henc.size
      rw [henc.bytes, length_frameWire] at hsize
      exact makeFrame_eq_ok.mpr ⟨hsize, henc.bytes⟩
    have hlast : frame.stateAfter.lastFrameSequence = state.lastFrameSequence + 1 := by
      rw [henc.after]
    have hfile : frame.stateAfter.fileBytes = state.fileBytes + frame.bytes.length := by
      rw [henc.after]
    have hne := henc.sequence
    rw [hlast] at hchain hseq
    rw [hfile] at hend
    simp only [stateAfter_cons, List.map_cons, List.length_cons, frameBytes, List.flatMap_cons,
      List.length_append]
    simp only [frameBytes] at hend hafter
    refine ⟨.cons henc.logical hmakes hchain, fun _ => ?_, fun _ => ?_, ?_⟩
    · have hnext := hseq (by omega)
      omega
    · have hnext := hend (by omega)
      omega
    · rw [hafter, henc.after]
      simp only [WalFileState.advance, Nat.add_assoc, Nat.add_comm 1]

theorem Chain.append {u : WalState} {batches' : List PersistBatch} {frames' : List Bytes}
    (h : Chain options s sequence batches frames t)
    (h' : Chain options t (sequence + batches.length) batches' frames' u) :
    Chain options s sequence (batches ++ batches') (frames ++ frames') u := by
  induction h with
  | nil s sequence => exact h'
  | cons appends makes later ih =>
    refine .cons appends makes (ih ?_)
    rwa [Nat.add_assoc, Nat.add_comm 1]

variable (h : Chain options s sequence batches frames t)
include h

/-- Appending keeps the rules of the log and its limit. -/
theorem Chain.lawful (hs : s.recovered.Lawful)
    (hentries : s.entries.length ≤ options.maxLogEntries) :
    t.recovered.Lawful ∧ t.entries.length ≤ options.maxLogEntries := by
  induction h with
  | nil s sequence => exact ⟨hs, hentries⟩
  | @cons s t u sequence batch frame batches frames appends makes later ih =>
    obtain ⟨hb, hwrite, hlen⟩ := WalState.append_ok hs appends
    refine ih ?_ (hlen.trans (max_le hentries le_rfl))
    rw [hwrite]
    exact hb.lawful hs

theorem Chain.length_eq : frames.length = batches.length := by
  induction h with
  | nil s sequence => rfl
  | cons appends makes later ih => exact congrArg (· + 1) ih

/-- A frame is not empty. -/
theorem Chain.length_le : batches.length ≤ frames.flatten.length := by
  induction h with
  | nil s sequence => exact le_rfl
  | cons appends makes later ih =>
    rw [(makeFrame_eq_ok.mp makes).2, List.flatten_cons, List.length_append, length_frameWire,
      List.length_cons]
    unfold kFrameHeaderBytes
    omega

theorem Chain.foldlM : batches.foldlM (WalState.append options.toWalOptions) s = .ok t := by
  induction h with
  | nil s sequence => rfl
  | cons appends makes later ih => rw [List.foldlM_cons, appends, ok_bind, ih]

end Chain

/-! ### Instances -/

theorem WalState.recovered_injective : Function.Injective WalState.recovered := by
  rintro ⟨hard, entries, commit⟩ ⟨hard', entries', commit'⟩ h
  obtain ⟨rfl, rfl, rfl⟩ := RecoveredState.mk.inj h
  rfl

namespace Wal

variable {w : Wal} {batches old : List PersistBatch} {frames : List Bytes} {staged : GroupStage}

/-- **What an instance knows of its file**: it holds the frames of the batches that have led to the
state. -/
structure Intact (w : Wal) (batches : List PersistBatch) (frames : List Bytes) : Prop where
  options : validateOptions w.options = .ok ()
  range : ∀ batch ∈ batches, batch.InRange
  chain : Chain w.options {} 0 batches frames w.state.toWalState
  sequence : w.state.lastFrameSequence = batches.length
  size : w.state.fileBytes = kFileHeaderBytes + frames.flatten.length
  bound : w.state.fileBytes ≤ maxU64
  durable : w.state.durableFrameSequence ≤ w.state.lastFrameSequence
  file : w.failed = false → w.file = w.identity.wire ++ frames.flatten

theorem Intact.valid (h : w.Intact old frames) : w.state.Valid w.options := by
  obtain ⟨hlawful, hentries⟩ := h.chain.lawful RecoveredState.lawful_empty (Nat.zero_le _)
  exact ⟨hlawful, hentries, h.durable⟩

theorem Intact.sequence_le (h : w.Intact old frames) :
    w.state.lastFrameSequence ≤ w.state.fileBytes := by
  rw [h.sequence, h.size]
  exact h.chain.length_le.trans (Nat.le_add_left _ _)

/-- What is written at the end of the file stands behind it. -/
theorem Intact.writeExact (h : w.Intact old frames) (hlive : w.failed = false) (bytes : Bytes) :
    writeExact w.file w.state.fileBytes bytes = w.file ++ bytes := by
  have hlen : w.file.length = w.state.fileBytes := by
    rw [h.file hlive, h.size, List.length_append, length_identity_wire]
  unfold Wal.writeExact
  rw [← hlen, List.take_length, List.drop_eq_nil_of_le (Nat.le_add_right _ _), List.append_nil]

/-- **What has been staged** is batches that can be appended one after the other. -/
theorem stageGroup_ok (hok : w.stageGroup batches = .ok staged) :
    w.failed = false ∧ ∃ t, Chain w.options w.state.toWalState w.state.lastFrameSequence batches
        staged.frames t ∧
      staged.view.materialize w.state.toWalState = t ∧
      staged.groupBytes = staged.frames.flatten.length ∧
      staged.sequence = w.state.lastFrameSequence + batches.length ∧
      batches.length ≤ maxU64 - w.state.lastFrameSequence ∧
      staged.frames.flatten.length ≤ maxU64 - w.state.fileBytes := by
  unfold stageGroup ensureLive ValidationView.violation ValidationView.exceeded at hok
  obtain ⟨_, hlive, hok⟩ := bind_eq_ok.mp hok
  split_ifs at hlive hok with hfailed hempty hmany hseq
  obtain ⟨g, hg, hok⟩ := bind_eq_ok.mp hok
  split_ifs at hok with hend
  obtain rfl := Except.ok.inj hok
  obtain ⟨frames, t, hchain, hshows, hframes, hbytes, hsequence⟩ :=
    chain_of_staged (ValidationView.shows_ofState w.state.toWalState) hg
  simp only [List.nil_append, Nat.zero_add] at hframes hbytes
  subst hframes
  refine ⟨by simpa using hfailed, t, hchain, ?_, hbytes, hsequence, not_lt.mp hseq, ?_⟩
  · exact WalState.recovered_injective hshows.materialize
  · rw [← hbytes]
    exact not_lt.mp hend

/-- Batches that can be appended one after the other are staged, within the limits of a group. -/
theorem stageGroup_of_chain {t : WalState} (hlive : w.failed = false) (hne : batches ≠ [])
    (hmany : batches.length ≤ w.options.maxGroupFrames)
    (h : Chain w.options w.state.toWalState w.state.lastFrameSequence batches frames t)
    (hroom : frames.flatten.length ≤ w.options.maxGroupBytes)
    (hseq : batches.length ≤ maxU64 - w.state.lastFrameSequence)
    (hend : frames.flatten.length ≤ maxU64 - w.state.fileBytes) :
    ∃ view, view.materialize w.state.toWalState = t ∧ w.stageGroup batches = .ok {
      view
      frames
      groupBytes := frames.flatten.length
      sequence := w.state.lastFrameSequence + batches.length } := by
  obtain ⟨view, hview, hg⟩ := staged_of_chain
    (g := { view := .ofState w.state.toWalState, sequence := w.state.lastFrameSequence })
    (ValidationView.shows_ofState w.state.toWalState) h (by rwa [Nat.zero_add])
  simp only [List.nil_append, Nat.zero_add] at hg
  refine ⟨view, WalState.recovered_injective hview.materialize, ?_⟩
  unfold stageGroup ensureLive
  rw [if_neg (by simp [hlive]), ok_bind, if_neg hne, if_neg (not_lt.mpr hmany),
    if_neg (not_lt.mpr hseq), hg, ok_bind, if_neg (not_lt.mpr hend)]

/-- The image grows with a group. -/
theorem Intact.adopt (h : w.Intact old frames) (hrange : ∀ batch ∈ batches, batch.InRange)
    (hok : w.stageGroup batches = .ok staged) :
    (w.adopt staged).2.Intact (old ++ batches) (frames ++ staged.frames) := by
  obtain ⟨hlive, t, hchain, hview, -, hsequence, hseq, hend⟩ := stageGroup_ok hok
  have hbound := h.bound
  have hlast := h.sequence_le
  refine ⟨h.options, ?_, ?_, ?_, ?_, ?_, ?_, fun _ => ?_⟩
  · exact List.forall_mem_append.mpr ⟨h.range, hrange⟩
  · rw [h.sequence] at hchain
    rw [← hview] at hchain
    exact h.chain.append (by rwa [Nat.zero_add])
  · rw [List.length_append, ← h.sequence]
    exact hsequence
  · rw [List.flatten_append, List.length_append, ← Nat.add_assoc, ← h.size]
    rfl
  · change w.state.fileBytes + staged.frames.flatten.length ≤ maxU64
    omega
  · have hdurable := h.durable
    change (if w.shouldFlush then staged.sequence else w.state.durableFrameSequence) ≤
      staged.sequence
    split_ifs
    · exact le_rfl
    · omega
  · change Wal.writeExact w.file w.state.fileBytes staged.frames.flatten = _
    rw [h.writeExact hlive, h.file hlive, List.flatten_append, List.append_assoc]
    rfl

/-- **A file that opens holds an image**, and a torn tail has been cut off. -/
theorem intact_openFile {file : Bytes} {identity : WalIdentity} {options : WalFileOptions}
    (hsize : file.length ≤ maxU64) (h : openFile file identity options = .ok w) :
    ∃ batches frames, w.Intact batches frames := by
  unfold openFile at h
  obtain ⟨_, hopt, h⟩ := bind_eq_ok.mp h
  by_cases hempty : file.length = 0
  · rw [if_pos hempty, makeFileHeader_eq, ok_bind] at h
    obtain rfl := Except.ok.inj h
    have hwire := length_identity_wire identity
    refine ⟨[], [], hopt, by simp, .nil _ _, rfl, hwire, ?_, le_rfl, fun _ => ?_⟩
    · change identity.wire.length ≤ maxU64
      rw [hwire]
      decide
    · exact (List.append_nil _).symm
  rw [if_neg hempty] at h
  obtain ⟨recovered, hrecovered, h⟩ := bind_eq_ok.mp h
  obtain ⟨-, hlen, hheader, scanned, hscan, rfl⟩ := scanFrames_of_scanWalBytes hrecovered
  obtain ⟨batches, encoded, rest, hrange, hframes, hrest, htail, hscanned, -⟩ :=
    encodeFrames_of_scan hopt hsize (scanned_empty options) hlen hscan
  obtain ⟨hchain, -, hend, hafter⟩ := chain_of_encodeFrames hframes
  have hfile : file = (identity.wire ++ frameBytes encoded) ++ rest := by
    rw [← hheader, List.append_assoc, ← hrest]
    exact (List.take_append_drop _ _).symm
  have hbytes : (encoded.map WalEncodedFrame.bytes).flatten = frameBytes encoded := by
    rw [frameBytes, List.flatMap_def]
  have hbound : kFileHeaderBytes + (frameBytes encoded).length ≤ maxU64 := hend (by decide)
  refine ⟨batches, encoded.map WalEncodedFrame.bytes, ?_⟩
  -- with and without a torn tail, the state is the one after the whole frames
  have hstate : scanned.state = stateAfter emptyScan.state encoded := by rw [hscanned]
  have hvalid : scanned.validBytes = kFileHeaderBytes + (frameBytes encoded).length := by
    rw [hscanned]
    rfl
  have hlast : scanned.state.lastFrameSequence = batches.length := by
    rw [hstate, hafter]
    exact Nat.zero_add _
  have hfileBytes : scanned.state.fileBytes = kFileHeaderBytes + (frameBytes encoded).length := by
    rw [hstate, hafter]
    rfl
  rw [← hstate] at hchain
  split_ifs at h with hincomplete
  · obtain rfl := Except.ok.inj h
    refine ⟨hopt, hrange, hchain, hlast, ?_, ?_, le_rfl, fun _ => ?_⟩
    · exact hbytes ▸ hvalid
    · exact hvalid ▸ hbound
    · change file.take scanned.validBytes = _
      rw [hvalid, hfile, hbytes]
      refine List.take_left' ?_
      rw [List.length_append, length_identity_wire]
  · obtain rfl := Except.ok.inj h
    refine ⟨hopt, hrange, hchain, hlast, ?_, ?_, le_rfl, fun _ => ?_⟩
    · exact hbytes ▸ hfileBytes
    · exact hfileBytes ▸ hbound
    · change file = _
      rw [hbytes, hfile, htail (Bool.eq_false_iff.mpr hincomplete), List.append_nil]

theorem Intact.fail (h : w.Intact old frames) (file : Bytes) (reason : String) :
    (({ w with file }).fail reason).Intact old frames :=
  { h with file := fun hlive => by cases hlive }

/-- **What a call can do**: nothing, append the staged group, or break the instance. -/
theorem appendGroup_cases (w : Wal) (batches : List PersistBatch) (outcome : GroupOutcome) :
    (∃ e, w.stageGroup batches = .error e ∧ w.appendGroup batches outcome = (.error e, w)) ∨
    ∃ staged, w.stageGroup batches = .ok staged ∧
      ((w.appendGroup batches outcome = w.adopt staged) ∨
        ∃ reached reason,
          w.appendGroup batches outcome = w.abandon staged.frames reached reason) := by
  unfold appendGroup
  cases hstage : w.stageGroup batches with
  | error e => exact Or.inl ⟨e, rfl, rfl⟩
  | ok staged =>
    refine Or.inr ⟨staged, rfl, ?_⟩
    cases outcome with
    | done => exact Or.inl rfl
    | writeFailed reached reason => exact Or.inr ⟨reached, reason, rfl⟩
    | flushFailed reached reason =>
      simp only
      split_ifs
      · exact Or.inr ⟨reached, reason, rfl⟩
      · exact Or.inl rfl

theorem Intact.append (h : w.Intact old frames) (hrange : ∀ batch ∈ batches, batch.InRange)
    (outcome : GroupOutcome) :
    ∃ old' frames', (w.appendGroup batches outcome).2.Intact old' frames' := by
  rcases appendGroup_cases w batches outcome with ⟨e, -, heq⟩ | ⟨staged, hok, heq | ⟨_, _, heq⟩⟩
  · rw [heq]
    exact ⟨old, frames, h⟩
  · rw [heq]
    exact ⟨_, _, h.adopt hrange hok⟩
  · rw [heq]
    exact ⟨old, frames, h.fail _ _⟩

theorem Intact.flush (h : w.Intact old frames) (refused : Option String) :
    (w.flush refused).2.Intact old frames := by
  unfold Wal.flush
  split
  · exact h
  split_ifs
  · exact h
  split
  · exact h.fail w.file _
  · exact { h with durable := le_rfl }

/-- **Every instance knows its file.** -/
theorem Reachable.intact (h : w.Reachable) : ∃ batches frames, w.Intact batches frames := by
  induction h with
  | opened size opens => exact intact_openFile size opens
  | append reached range outcome ih =>
    obtain ⟨old, frames, ih⟩ := ih
    exact ih.append range outcome
  | flush reached refused ih =>
    obtain ⟨old, frames, ih⟩ := ih
    exact ⟨old, frames, ih.flush refused⟩

/-- **A group is appended as its batches are one after the other.** Take an instance that has not
failed, and a group within the limits. If the encoder makes the frames of the batches, each in the
state that the one before it has left, the group is accepted: the file grows by the bytes of these
frames, the state is the one after the last of them, and the policy decides whether it is durable.
If the encoder refuses one of the batches, the group is refused and nothing changes. -/
theorem appendGroup_eq (h : w.Reachable) (hlive : w.failed = false) (hne : batches ≠ [])
    (hmany : batches.length ≤ w.options.maxGroupFrames)
    (hroom : ∀ encoded, encodeFrames w.options w.state batches = .ok encoded →
      (frameBytes encoded).length ≤ w.options.maxGroupBytes) :
    (∀ encoded, encodeFrames w.options w.state batches = .ok encoded →
      w.appendGroup batches .done =
        (.ok {
          firstSequence := w.state.lastFrameSequence + 1
          lastSequence := (stateAfter w.state encoded).lastFrameSequence
          durable := w.shouldFlush
          bytesWritten := (frameBytes encoded).length },
        { w with
          file := w.file ++ frameBytes encoded
          state := { stateAfter w.state encoded with
            durableFrameSequence :=
              if w.shouldFlush then (stateAfter w.state encoded).lastFrameSequence
              else w.state.durableFrameSequence } })) ∧
    ∀ e, encodeFrames w.options w.state batches = .error e → ∀ outcome,
      ∃ e', w.appendGroup batches outcome = (.error e', w) := by
  obtain ⟨old, frames, hintact⟩ := h.intact
  have hsequence := hintact.sequence_le
  have hbound := hintact.bound
  constructor
  · intro encoded hencoded
    obtain ⟨hchain, hseq, hend, hafter⟩ := chain_of_encodeFrames hencoded
    have hbytes : (encoded.map WalEncodedFrame.bytes).flatten = frameBytes encoded := by
      rw [frameBytes, List.flatMap_def]
    have hseq := hseq (hsequence.trans hbound)
    have hend := hend hbound
    obtain ⟨view, hview, hstage⟩ := stageGroup_of_chain hlive hne hmany hchain
      (by rw [hbytes]; exact hroom encoded hencoded) (by omega) (by rw [hbytes]; omega)
    unfold appendGroup
    rw [hstage]
    simp only [adopt, hbytes]
    rw [hintact.writeExact hlive, hview, hafter]
    rfl
  · intro e he outcome
    rcases appendGroup_cases w batches outcome with ⟨e', -, heq⟩ | ⟨staged, hok, -⟩
    · exact ⟨e', heq⟩
    · obtain ⟨-, t, hchain, -, -, -, hseq, hend⟩ := stageGroup_ok hok
      obtain ⟨encoded, hencoded, -⟩ := encodeFrames_of_chain hintact.options hintact.valid hchain
        (by omega) (by omega)
      rw [he] at hencoded
      cases hencoded

/-- An instance on a new file. -/
def fresh (identity : WalIdentity) (options : WalFileOptions) : Wal where
  identity
  options
  file := identity.wire
  state := emptyScan.state

theorem openFile_nil {identity : WalIdentity} {options : WalFileOptions}
    (hopt : validateOptions options = .ok ()) :
    openFile [] identity options = .ok (fresh identity options) := by
  unfold openFile
  rw [hopt, ok_bind, if_pos List.length_nil, makeFileHeader_eq, ok_bind, length_identity_wire]
  rfl

/-- A vote and its commit, as one group on a new file. -/
theorem appendGroup_eq_voteAndCommit : ∃ encoded,
    encodeFrames {} emptyScan.state voteAndCommit = .ok encoded ∧
    ((fresh ⟨1, 2, 3⟩ {}).appendGroup voteAndCommit .done).2.file =
      (WalIdentity.mk 1 2 3).wire ++ frameBytes encoded ∧
    ((fresh ⟨1, 2, 3⟩ {}).appendGroup voteAndCommit .done).2.state.durableFrameSequence = 2 := by
  obtain ⟨first, second, hframes, hfirst, hsecond⟩ := encodeFrames_voteAndCommit
  have hlen : (frameBytes [first, second]).length = 198 := by
    simp [frameBytes, hfirst, hsecond]
  have hreachable : (fresh ⟨1, 2, 3⟩ {}).Reachable :=
    .opened (Nat.zero_le _) (openFile_nil (by decide))
  have heq := (appendGroup_eq hreachable rfl (by decide) (by decide) (fun encoded h => by
    obtain rfl := Except.ok.inj (hframes.symm.trans h)
    rw [hlen]
    decide)).1 _ hframes
  refine ⟨_, hframes, by rw [heq]; rfl, ?_⟩
  rw [heq]
  exact lastFrameSequence_stateAfter hframes le_rfl

end Wal

end DetLog
