import DetLog.Wal.Codec

/-!
# Recovery from a torn file

The encoder of a frame, the scanner of a file image, and what the scanner makes of an image
that a crash has cut short.

The scanner goes through the image frame by frame. It rejects what no encoder can have
written, but a last frame of which only a part is there is not an error: it is the normal trace
of a crash during an append, and the scan ends before it. So a cut of a well-formed image at
*any* length behind the file header recovers exactly the frames that lie wholly in the part that
is left: `DetLog.scanWalBytes_take`.

Scanner and encoder share the check of a batch and the state it leaves, and the loop of the
scanner keeps the very state that the encoder had at the same offset. That is the invariant of
`DetLog.scanFrames_eq`.
-/

namespace DetLog

open Wire

/-! ### Encoding -/

/-- The whole `WalState` of the source: the logical state and where the file stands. -/
structure WalFileState extends WalState where
  lastFrameSequence : ℕ := 0
  durableFrameSequence : ℕ := 0
  fileBytes : ℕ := 0
  repairedIncompleteTail : Bool := false
  deriving DecidableEq, Repr

/-- A frame and the state behind it. -/
structure WalEncodedFrame where
  bytes : Bytes
  stateAfter : WalFileState
  deriving DecidableEq, Repr

/-- A state that frames can lead to. -/
def validateStateSummary (state : WalFileState) (options : WalFileOptions) :
    Except WalError Unit :=
  if options.maxLogEntries < state.entries.length then
    ValidationView.exceeded "WAL state exceeds max_log_entries"
  else if state.hardState.currentTerm = 0 ∧ state.hardState.votedFor.isSome then
    ValidationView.violation "term-zero WAL state cannot contain a vote"
  else if (state.entries.head?.any fun entry => decide (entry.index ≠ 1)) ||
      state.entries.getLast?.any fun entry => decide (entry.index ≠ state.entries.length) then
    ValidationView.violation "WAL state does not use consecutive one-based indexes"
  else if state.entries.getLast?.any fun entry =>
      decide (state.hardState.currentTerm < entry.term) then
    ValidationView.violation "WAL state log term exceeds hard-state term"
  else if state.entries.length < state.commitIndex then
    ValidationView.violation "WAL state commit index exceeds its log"
  else if state.lastFrameSequence < state.durableFrameSequence then
    ValidationView.violation "durable frame sequence exceeds last frame sequence"
  else .ok ()

/-- The start of a file. -/
def encodeWalFileHeader (identity : WalIdentity) : Except WalError Bytes := makeFileHeader identity

/-- The frame of the next batch. -/
def encodeWalFrame (stateBefore : WalFileState) (batch : PersistBatch)
    (options : WalFileOptions) : Except WalError WalEncodedFrame := do
  validateOptions options
  validateStateSummary stateBefore options
  if stateBefore.lastFrameSequence = maxU64 then
    ValidationView.exceeded "WAL frame sequence is exhausted"
  else
    let logical ← stateBefore.append options.toWalOptions batch
    let bytes ← makeFrame (stateBefore.lastFrameSequence + 1) batch options
    if maxU64 - stateBefore.fileBytes < bytes.length then
      ValidationView.exceeded "WAL file length would overflow"
    else .ok {
      bytes
      stateAfter := { stateBefore with
        toWalState := logical
        lastFrameSequence := stateBefore.lastFrameSequence + 1
        fileBytes := stateBefore.fileBytes + bytes.length } }

/-! ### Scanning -/

/-- What a scan has found. -/
structure WalScanResult where
  state : WalFileState := {}
  validBytes : ℕ := 0
  hasIncompleteTail : Bool := false
  deriving DecidableEq, Repr

/-- What `scan_source` sets when its loop is over. -/
def WalScanResult.finish (result : WalScanResult) : WalScanResult :=
  { result with state := { result.state with
      durableFrameSequence := result.state.lastFrameSequence
      repairedIncompleteTail := result.hasIncompleteTail } }

/-- An error names its place. -/
def withOffset (offset : ℕ) (e : WalError) : WalError :=
  { e with message := e.message ++ " at WAL offset " ++ toString offset }

section Scan

variable (byteCount : ℕ) (readExact : ℕ → ℕ → Except WalError Bytes) (options : WalFileOptions)

/-- One round of the loop of `scan_source`. It returns the size of the frame it has taken, or
none if the loop ends here. -/
def scanRound (result : WalScanResult) (offset : ℕ) :
    Except WalError (WalScanResult × Option ℕ) := do
  let remaining := byteCount - offset
  if remaining < kFrameHeaderBytes then .ok ({ result with hasIncompleteTail := true }, none)
  else
    let headerBytes ← readExact offset kFrameHeaderBytes
    let header ← (parseFrameHeader headerBytes options).mapError (withOffset offset)
    if header.sequence ≠ incU64 result.state.lastFrameSequence then
      .error (withOffset offset
        { code := .invariantViolation, message := "WAL frame sequence is not consecutive" })
    else if remaining < header.frameSize then
      .ok ({ result with hasIncompleteTail := true }, none)
    else
      let frame ← readExact offset header.frameSize
      let batch ← (validateCompleteFrame frame header options).mapError (withOffset offset)
      let logical ←
        (result.state.append options.toWalOptions batch).mapError (withOffset offset)
      .ok ({ result with
        state := { result.state with
          toWalState := logical
          lastFrameSequence := header.sequence
          fileBytes := offset + header.frameSize }
        validBytes := offset + header.frameSize }, some header.frameSize)

variable {byteCount readExact options} {result result' : WalScanResult} {offset : ℕ}

@[simp] theorem mapError_ok {α : Type} (f : WalError → WalError) (a : α) :
    (Except.ok a).mapError f = .ok a := rfl

theorem mapError_eq_ok {α : Type} {x : Except WalError α} {f : WalError → WalError} {a : α} :
    x.mapError f = .ok a ↔ x = .ok a := by
  cases x with
  | error e => exact ⟨fun h => (nomatch h), fun h => (nomatch h)⟩
  | ok b => exact Iff.rfl

/-- A round that goes on has consumed something. -/
theorem scanRound_pos {offset size : ℕ}
    (h : scanRound byteCount readExact options result offset = .ok (result', some size)) :
    0 < size := by
  unfold scanRound at h
  simp only at h
  split_ifs at h
  · cases h
  obtain ⟨headerBytes, -, h⟩ := bind_eq_ok.mp h
  obtain ⟨header, hheader, h⟩ := bind_eq_ok.mp h
  have hmin := kMinimumFrameBytes_le_of_parseFrameHeader (mapError_eq_ok.mp hheader)
  split_ifs at h
  · cases h
  obtain ⟨frame, -, h⟩ := bind_eq_ok.mp h
  obtain ⟨batch, -, h⟩ := bind_eq_ok.mp h
  obtain ⟨logical, -, h⟩ := bind_eq_ok.mp h
  rw [← Option.some.inj (Prod.mk.inj (Except.ok.inj h)).2]
  exact Nat.lt_of_lt_of_le (by decide) hmin

variable (byteCount readExact options)

/-- The loop of `scan_source`. -/
def scanFrames (result : WalScanResult) (offset : ℕ) : Except WalError WalScanResult :=
  if offset < byteCount then
    match _h : scanRound byteCount readExact options result offset with
    | .error e => .error e
    | .ok (result, none) => .ok result
    | .ok (result, some size) => scanFrames result (offset + size)
  else .ok result
termination_by byteCount - offset
decreasing_by
  have hpos := scanRound_pos _h
  omega

variable {byteCount readExact options}

theorem scanFrames_done (h : byteCount ≤ offset) :
    scanFrames byteCount readExact options result offset = .ok result := by
  rw [scanFrames, if_neg (not_lt.mpr h)]

theorem scanFrames_stop (hlt : offset < byteCount)
    (h : scanRound byteCount readExact options result offset = .ok (result', none)) :
    scanFrames byteCount readExact options result offset = .ok result' := by
  rw [scanFrames, if_pos hlt]
  split <;> simp_all

theorem scanFrames_error {e : WalError} (hlt : offset < byteCount)
    (h : scanRound byteCount readExact options result offset = .error e) :
    scanFrames byteCount readExact options result offset = .error e := by
  rw [scanFrames, if_pos hlt]
  split <;> simp_all

theorem scanFrames_next {offset size : ℕ} (hlt : offset < byteCount)
    (h : scanRound byteCount readExact options result offset = .ok (result', some size)) :
    scanFrames byteCount readExact options result offset =
      scanFrames byteCount readExact options result' (offset + size) := by
  rw [scanFrames, if_pos hlt]
  split <;> simp_all

variable (byteCount readExact options)

/-- The header, then frame after frame. -/
def scanSource (expectedIdentity : WalIdentity) : Except WalError WalScanResult := do
  validateOptions options
  if byteCount < kFileHeaderBytes then
    .error (formatError "WAL is missing a complete file header")
  else
    let fileHeader ← readExact 0 kFileHeaderBytes
    validateFileHeader fileHeader expectedIdentity
    let result ← scanFrames byteCount readExact options
      { state := { fileBytes := kFileHeaderBytes }, validBytes := kFileHeaderBytes }
      kFileHeaderBytes
    .ok result.finish

end Scan

/-- The source of `scan_wal_bytes`. -/
def readBytes (bytes : Bytes) (offset size : ℕ) : Except WalError Bytes :=
  if bytes.length < offset ∨ bytes.length - offset < size then
    .error (formatError "WAL byte source ended unexpectedly")
  else .ok ((bytes.drop offset).take size)

/-- The scan of bytes in memory. -/
def scanWalBytes (bytes : Bytes) (expectedIdentity : WalIdentity) (options : WalFileOptions) :
    Except WalError WalScanResult :=
  scanSource bytes.length (readBytes bytes) options expectedIdentity

/-! ### Images -/

/-- The frames of some batches, each encoded in the state that the one before it has left. -/
def encodeFrames (options : WalFileOptions) (state : WalFileState) :
    List PersistBatch → Except WalError (List WalEncodedFrame)
  | [] => .ok []
  | batch :: rest => do
    let frame ← encodeWalFrame state batch options
    let frames ← encodeFrames options frame.stateAfter rest
    .ok (frame :: frames)

/-- The bytes of some frames. -/
def frameBytes (frames : List WalEncodedFrame) : Bytes := frames.flatMap WalEncodedFrame.bytes

/-- Where the frames of an image end, if the first one begins at `offset`. -/
def frameEnds (offset : ℕ) : List WalEncodedFrame → List ℕ
  | [] => []
  | frame :: rest =>
    (offset + frame.bytes.length) :: frameEnds (offset + frame.bytes.length) rest

/-- How many frames lie wholly within the first `k` bytes. -/
def wholeFrames (k offset : ℕ) (frames : List WalEncodedFrame) : ℕ :=
  (frameEnds offset frames).countP fun e => decide (e ≤ k)

/-- The state after some frames. -/
def stateAfter (state : WalFileState) (frames : List WalEncodedFrame) : WalFileState :=
  (frames.getLast?.map WalEncodedFrame.stateAfter).getD state

theorem le_of_mem_frameEnds {offset e : ℕ} {frames : List WalEncodedFrame}
    (h : e ∈ frameEnds offset frames) : offset ≤ e := by
  induction frames generalizing offset with
  | nil => cases h
  | cons frame rest ih =>
    rcases List.mem_cons.mp h with rfl | h
    · exact Nat.le_add_right _ _
    · exact (Nat.le_add_right _ _).trans (ih h)

section Whole

variable {k offset : ℕ} {frame : WalEncodedFrame} {frames : List WalEncodedFrame}

/-- The first frame is cut: there is no whole one. -/
theorem wholeFrames_of_lt (h : k < offset + frame.bytes.length) :
    wholeFrames k offset (frame :: frames) = 0 := by
  rw [wholeFrames, List.countP_eq_zero]
  intro e he
  rw [decide_eq_true_eq, not_le]
  rcases List.mem_cons.mp he with rfl | he
  · exact h
  · exact h.trans_le (le_of_mem_frameEnds he)

theorem wholeFrames_of_le (h : offset + frame.bytes.length ≤ k) :
    wholeFrames k offset (frame :: frames) =
      wholeFrames k (offset + frame.bytes.length) frames + 1 := by
  rw [wholeFrames, frameEnds, List.countP_cons_of_pos]
  · rfl
  · exact decide_eq_true h

/-- Between the beginning and the end of the first frame there is no boundary. -/
theorem not_mem_frameEnds_of_lt (h : k < offset + frame.bytes.length) :
    k ∉ frameEnds offset (frame :: frames) := by
  intro hk
  rcases List.mem_cons.mp hk with rfl | hk
  · exact lt_irrefl _ h
  · exact absurd (le_of_mem_frameEnds hk) (not_le.mpr h)

theorem stateAfter_cons (state : WalFileState) :
    stateAfter state (frame :: frames) = stateAfter frame.stateAfter frames := by
  unfold stateAfter
  cases frames with
  | nil => rfl
  | cons f rest =>
    rw [List.getLast?_cons_cons, List.getLast?_cons]
    rfl

end Whole

/-! ### What the encoder accepts -/

section Accepted

variable {options : WalFileOptions}

/-- The limits that options may not exceed. -/
structure WalFileOptions.Limited (options : WalFileOptions) : Prop where
  frame : options.maxFrameBytes < 2 ^ 64
  fields : options.maxKeyBytes < 2 ^ 32 ∧ options.maxValueBytes < 2 ^ 32
  entries : options.maxEntriesPerFrame < 2 ^ 32

theorem limited_of_validateOptions (h : validateOptions options = .ok ()) : options.Limited := by
  unfold validateOptions at h
  split_ifs at h with hframe hgroup hframes hentries hfields hlog
  simp only [not_or, not_lt] at hframe hentries hfields
  have hmax : kAbsoluteMaxFrameBytes < 2 ^ 32 := by decide
  exact ⟨hframe.2.trans_lt (by decide), ⟨hfields.1.trans_lt hmax, hfields.2.trans_lt hmax⟩,
    hentries.2.trans_lt (by decide)⟩

/-- An entry that the check has let through is within the bounds of the options. -/
theorem bounded_of_stageEntries {entries : List LogEntry} {v v' : ValidationView}
    {options : WalOptions} (h : entries.foldlM (ValidationView.stageEntry options) v = .ok v') :
    ∀ entry ∈ entries, ∀ command, entry.command = some command →
      command.key.length ≤ options.maxKeyBytes ∧
        command.value.length ≤ options.maxValueBytes := by
  induction entries generalizing v with
  | nil =>
    intro entry he
    cases he
  | cons e rest ih =>
    obtain ⟨w, hw, hrest⟩ := bind_eq_ok.mp h
    intro entry he command hc
    rcases List.mem_cons.mp he with rfl | he
    · unfold ValidationView.stageEntry ValidationView.violation ValidationView.exceeded at hw
      split_ifs at hw with _ _ _ _ hbound
      simpa [hc] using hbound
    · exact ih hrest entry he command hc

/-- A batch that the check has let through is within the bounds of the options. -/
theorem bounded_of_append {options : WalOptions} {state state' : WalState}
    (h : state.append options batch = .ok state') : batch.Bounded options := by
  unfold WalState.append at h
  split at h
  · rename_i view hview
    unfold ValidationView.stage ValidationView.violation ValidationView.exceeded at hview
    split_ifs at hview with hempty hcount
    obtain ⟨v₁, -, hview⟩ := bind_eq_ok.mp hview
    obtain ⟨v₂, -, hview⟩ := bind_eq_ok.mp hview
    obtain ⟨v₃, hentries, -⟩ := bind_eq_ok.mp hview
    exact ⟨not_lt.mp hcount, bounded_of_stageEntries hentries⟩
  · cases h

variable {state : WalFileState} {batch : PersistBatch} {frame : WalEncodedFrame}

/-- **What an encoded frame is.** -/
structure Encodes (options : WalFileOptions) (state : WalFileState) (batch : PersistBatch)
    (frame : WalEncodedFrame) : Prop where
  sequence : state.lastFrameSequence ≠ maxU64
  bytes : frame.bytes = frameWire (state.lastFrameSequence + 1) batch.wire
  size : frame.bytes.length ≤ options.maxFrameBytes
  logical : state.append options.toWalOptions batch = .ok frame.stateAfter.toWalState
  after : frame.stateAfter = { state with
    toWalState := frame.stateAfter.toWalState
    lastFrameSequence := state.lastFrameSequence + 1
    fileBytes := state.fileBytes + frame.bytes.length }

theorem encodes_of_encodeWalFrame (h : encodeWalFrame state batch options = .ok frame) :
    Encodes options state batch frame := by
  unfold encodeWalFrame ValidationView.exceeded at h
  obtain ⟨_, -, h⟩ := bind_eq_ok.mp h
  obtain ⟨_, -, h⟩ := bind_eq_ok.mp h
  split_ifs at h with hseq
  obtain ⟨logical, hlogical, h⟩ := bind_eq_ok.mp h
  obtain ⟨bytes, hbytes, h⟩ := bind_eq_ok.mp h
  split_ifs at h
  obtain rfl := Except.ok.inj h
  obtain ⟨hsize, hwire⟩ := makeFrame_eq_ok.mp hbytes
  refine ⟨hseq, hwire, ?_, hlogical, rfl⟩
  rw [hwire, length_frameWire]
  exact hsize

end Accepted

/-! ### What the scanner makes of it -/

section Round

variable {options : WalFileOptions} {state : WalFileState} {batch : PersistBatch}
  {frame : WalEncodedFrame} {data more : Bytes} {offset : ℕ}

/-- The source reads the front of what stands at an offset. -/
theorem readBytes_of_drop {bytes : Bytes} {size : ℕ}
    (hdata : data.drop offset = (bytes ++ more).take (data.length - offset))
    (hoffset : offset ≤ data.length) (hsize : size ≤ bytes.length)
    (hroom : size ≤ data.length - offset) :
    readBytes data offset size = .ok (bytes.take size) := by
  unfold readBytes
  rw [if_neg (by omega), hdata, List.take_take, Nat.min_eq_left hroom,
    List.take_append_of_le_length hsize]

section

variable (hframe : Encodes options state batch frame)
include hframe

theorem Encodes.sequence_lt (hseq : state.lastFrameSequence ≤ maxU64) :
    state.lastFrameSequence + 1 < 2 ^ 64 := by
  have hne := hframe.sequence
  unfold maxU64 at hne hseq
  omega

theorem Encodes.incU64_eq (hseq : state.lastFrameSequence ≤ maxU64) :
    incU64 state.lastFrameSequence = state.lastFrameSequence + 1 :=
  Nat.mod_eq_of_lt (hframe.sequence_lt hseq)

theorem Encodes.header_le : kFrameHeaderBytes ≤ frame.bytes.length := by
  rw [hframe.bytes, length_frameWire]
  omega

end

section

variable (hlimits : options.Limited) (hframe : Encodes options state batch frame)
include hlimits hframe

/-- **The header at the beginning of an encoded frame is read**, as soon as it is there. -/
theorem parseFrameHeader_of_encodes (hseq : state.lastFrameSequence ≤ maxU64) :
    parseFrameHeader (frame.bytes.take kFrameHeaderBytes) options =
      .ok ⟨frame.bytes.length, batch.wire.length, incU64 state.lastFrameSequence⟩ := by
  have hlt := hframe.sequence_lt hseq
  have hinc := hframe.incU64_eq hseq
  have hsize := hframe.size
  rw [hframe.bytes] at hsize ⊢
  have hlen := length_frameWire (state.lastFrameSequence + 1) batch.wire
  have hmin := length_wire_batch_ge batch
  rw [take_header, hinc]
  refine (parseFrameHeader_eq_ok (length_frameHead _ _ _)).mpr
    ⟨⟨?_, hsize, hsize.trans_lt hlimits.frame, hlt, ?_⟩, rfl⟩
  · unfold kMinimumFrameBytes
    dsimp only
    omega
  · dsimp only
    omega

/-- A frame that is not wholly there ends the scan as a torn one. -/
theorem scanRound_torn (hseq : state.lastFrameSequence ≤ maxU64)
    (hdata : data.drop offset = (frame.bytes ++ more).take (data.length - offset))
    (hoffset : offset ≤ data.length) (hcut : data.length < offset + frame.bytes.length) :
    scanRound data.length (readBytes data) options { state, validBytes := offset } offset =
      .ok ({ state, validBytes := offset, hasIncompleteTail := true }, none) := by
  unfold scanRound
  simp only
  by_cases hheader : data.length - offset < kFrameHeaderBytes
  · rw [if_pos hheader]
  · have hmore : data.length - offset < frame.bytes.length := by omega
    rw [if_neg hheader, readBytes_of_drop hdata hoffset hframe.header_le (not_lt.mp hheader)]
    rw [ok_bind, parseFrameHeader_of_encodes hlimits hframe hseq, mapError_ok, ok_bind,
      if_neg (not_not.mpr rfl), if_pos hmore]

/-- **A frame that is wholly there is replayed**, and leaves the state the encoder had. -/
theorem scanRound_whole (hrange : batch.InRange) (hseq : state.lastFrameSequence ≤ maxU64)
    (hbytes : state.fileBytes = offset)
    (hdata : data.drop offset = (frame.bytes ++ more).take (data.length - offset))
    (hwhole : offset + frame.bytes.length ≤ data.length) :
    scanRound data.length (readBytes data) options { state, validBytes := offset } offset =
      .ok ({ state := frame.stateAfter, validBytes := offset + frame.bytes.length },
        some frame.bytes.length) := by
  have hoffset : offset ≤ data.length := (Nat.le_add_right _ _).trans hwhole
  have hroom : frame.bytes.length ≤ data.length - offset := by omega
  have hheader := hframe.header_le
  have hvalid : validateCompleteFrame frame.bytes
      ⟨frame.bytes.length, batch.wire.length, incU64 state.lastFrameSequence⟩ options =
        .ok batch := by
    have hsize := hframe.size.trans_lt hlimits.frame
    rw [hframe.bytes] at hsize ⊢
    rw [hframe.incU64_eq hseq]
    exact validateCompleteFrame_frameWire hrange (bounded_of_append hframe.logical)
      hlimits.fields hlimits.entries hsize
  unfold scanRound
  simp only
  rw [if_neg (not_lt.mpr (hheader.trans hroom)),
    readBytes_of_drop hdata hoffset hheader (hheader.trans hroom), ok_bind,
    parseFrameHeader_of_encodes hlimits hframe hseq, mapError_ok, ok_bind,
    if_neg (not_not.mpr rfl), if_neg (not_lt.mpr hroom),
    readBytes_of_drop hdata hoffset le_rfl hroom, ok_bind, List.take_length, hvalid, mapError_ok,
    ok_bind, hframe.logical, mapError_ok, ok_bind, hframe.after, hframe.incU64_eq hseq, hbytes]

end

/-- The loop over the frames of some batches: **it ends in the state after the last whole
frame.** The induction is over the frames that are left; the scanner holds the state in which
the encoder has made the next one. -/
theorem scanFrames_eq (hlimits : options.Limited) {batches : List PersistBatch}
    {frames : List WalEncodedFrame} (hrange : ∀ batch ∈ batches, batch.InRange)
    (hframes : encodeFrames options state batches = .ok frames)
    (hseq : state.lastFrameSequence ≤ maxU64) (hbytes : state.fileBytes = offset)
    (hoffset : offset ≤ data.length)
    (hdata : data.drop offset = (frameBytes frames).take (data.length - offset)) :
    scanFrames data.length (readBytes data) options { state, validBytes := offset } offset =
      .ok {
        state := stateAfter state (frames.take (wholeFrames data.length offset frames))
        validBytes := offset +
          (frameBytes (frames.take (wholeFrames data.length offset frames))).length
        hasIncompleteTail := decide (data.length ∉ offset :: frameEnds offset frames) } := by
  induction batches generalizing state frames offset with
  | nil =>
    obtain rfl := Except.ok.inj hframes
    have hend : data.length ≤ offset := by
      rw [← List.drop_eq_nil_iff, hdata]
      exact List.take_nil
    obtain rfl := le_antisymm hoffset hend
    rw [scanFrames_done le_rfl]
    simp [stateAfter, frameBytes, frameEnds]
  | cons batch rest ih =>
    obtain ⟨frame, hframe, h⟩ := bind_eq_ok.mp hframes
    obtain ⟨later, hlater, h⟩ := bind_eq_ok.mp h
    obtain rfl := Except.ok.inj h
    have henc := encodes_of_encodeWalFrame hframe
    rcases Nat.lt_or_ge data.length (offset + frame.bytes.length) with hcut | hwhole
    · -- nothing of this frame counts
      rw [wholeFrames_of_lt hcut]
      rcases hoffset.eq_or_lt with rfl | hlt
      · rw [scanFrames_done le_rfl]
        simp [stateAfter, frameBytes]
      · rw [scanFrames_stop hlt (scanRound_torn hlimits henc hseq hdata hoffset hcut)]
        have hno : data.length ∉ offset :: frameEnds offset (frame :: later) :=
          List.not_mem_cons_of_ne_of_not_mem hlt.ne' (not_mem_frameEnds_of_lt hcut)
        simp [stateAfter, frameBytes, hno]
    · have hpos := henc.header_le
      have hlt : offset < data.length := by
        unfold kFrameHeaderBytes at hpos
        omega
      rw [scanFrames_next hlt (scanRound_whole hlimits henc (hrange batch (by simp)) hseq hbytes
        hdata hwhole)]
      have hseq' : frame.stateAfter.lastFrameSequence ≤ maxU64 := by
        rw [henc.after]
        exact Nat.le_pred_of_lt (henc.sequence_lt hseq)
      have hbytes' : frame.stateAfter.fileBytes = offset + frame.bytes.length := by
        rw [henc.after, ← hbytes]
      have hdata' : data.drop (offset + frame.bytes.length) =
          (frameBytes later).take (data.length - (offset + frame.bytes.length)) := by
        rw [← List.drop_drop, hdata, List.drop_take, Nat.sub_sub]
        exact congrArg _ List.drop_left
      rw [ih (fun b hb => hrange b (List.mem_cons_of_mem _ hb)) hlater hseq' hbytes' hwhole hdata',
        wholeFrames_of_le hwhole, List.take_succ_cons, stateAfter_cons]
      have htail : data.length ∉ offset :: frameEnds offset (frame :: later) ↔
          data.length ∉ (offset + frame.bytes.length) ::
            frameEnds (offset + frame.bytes.length) later := by
        rw [List.mem_cons, not_or]
        exact and_iff_right hlt.ne'
      simp only [htail, frameBytes, List.flatMap_cons, List.length_append, Nat.add_assoc]

end Round

/-! ### Torn images -/

/-- The sequence number counts the frames. -/
theorem lastFrameSequence_stateAfter {options : WalFileOptions} {state : WalFileState}
    {batches : List PersistBatch} {frames : List WalEncodedFrame}
    (hframes : encodeFrames options state batches = .ok frames) {n : ℕ} (hn : n ≤ frames.length) :
    (stateAfter state (frames.take n)).lastFrameSequence = state.lastFrameSequence + n := by
  induction batches generalizing state frames n with
  | nil =>
    obtain rfl := Except.ok.inj hframes
    obtain rfl := Nat.le_zero.mp hn
    rfl
  | cons batch rest ih =>
    obtain ⟨frame, hframe, h⟩ := bind_eq_ok.mp hframes
    obtain ⟨later, hlater, h⟩ := bind_eq_ok.mp h
    obtain rfl := Except.ok.inj h
    cases n with
    | zero => rfl
    | succ n =>
      rw [List.take_succ_cons, stateAfter_cons, ih hlater (Nat.le_of_succ_le_succ hn),
        (encodes_of_encodeWalFrame hframe).after]
      show state.lastFrameSequence + 1 + n = _
      omega

theorem wholeFrames_le_length (k offset : ℕ) (frames : List WalEncodedFrame) :
    wholeFrames k offset frames ≤ frames.length := by
  have hlen : (frameEnds offset frames).length = frames.length := by
    induction frames generalizing offset with
    | nil => rfl
    | cons frame rest ih => exact congrArg (· + 1) (ih _)
  exact hlen ▸ List.countP_le_length

/-- The scan of a file that has no frame. -/
def emptyScan : WalScanResult :=
  { state := { fileBytes := kFileHeaderBytes }, validBytes := kFileHeaderBytes }

section Image

variable {identity : WalIdentity} {options : WalFileOptions}

/-- A scan passes the header of the file and enters the loop. -/
theorem scanWalBytes_eq (hopt : validateOptions options = .ok ()) {data body : Bytes}
    (hdata : data = identity.wire ++ body) {result : WalScanResult}
    (hscan : scanFrames data.length (readBytes data) options emptyScan kFileHeaderBytes =
      .ok result) : scanWalBytes data identity options = .ok result.finish := by
  have hwire := length_identity_wire identity
  have hlen : kFileHeaderBytes ≤ data.length := by
    rw [hdata, List.length_append, hwire]
    exact Nat.le_add_right _ _
  have hheader : readBytes data 0 kFileHeaderBytes = .ok identity.wire := by
    unfold readBytes
    rw [if_neg (by omega), List.drop_zero, hdata, take_append_of_length hwire]
  unfold scanWalBytes scanSource
  rw [hopt, ok_bind, if_neg (not_lt.mpr hlen), hheader, ok_bind,
    validateFileHeader_eq_ok (u := ()) |>.mpr rfl, ok_bind]
  exact bind_eq_ok.mpr ⟨result, hscan, rfl⟩

/-- The scan of the front of an image: the state after the frames that are wholly there. -/
theorem scanWalBytes_front (hopt : validateOptions options = .ok ()) {batches : List PersistBatch}
    {frames : List WalEncodedFrame} (hrange : ∀ batch ∈ batches, batch.InRange)
    (hframes : encodeFrames options emptyScan.state batches = .ok frames) {k : ℕ}
    (hk : kFileHeaderBytes ≤ k) (hk' : k ≤ (identity.wire ++ frameBytes frames).length) :
    scanWalBytes ((identity.wire ++ frameBytes frames).take k) identity options =
      .ok (WalScanResult.finish {
        state := stateAfter emptyScan.state (frames.take (wholeFrames k kFileHeaderBytes frames))
        validBytes := kFileHeaderBytes +
          (frameBytes (frames.take (wholeFrames k kFileHeaderBytes frames))).length
        hasIncompleteTail := decide (k ∉ kFileHeaderBytes :: frameEnds kFileHeaderBytes frames) })
    := by
  have hwire := length_identity_wire identity
  have hlen : ((identity.wire ++ frameBytes frames).take k).length = k :=
    List.length_take_of_le hk'
  have hsplit : (identity.wire ++ frameBytes frames).take k =
      identity.wire ++ (frameBytes frames).take (k - kFileHeaderBytes) := by
    rw [List.take_append, List.take_of_length_le (hwire.trans_le hk), hwire]
  have hoffset : kFileHeaderBytes ≤ ((identity.wire ++ frameBytes frames).take k).length :=
    hk.trans_eq hlen.symm
  have hdata : ((identity.wire ++ frameBytes frames).take k).drop kFileHeaderBytes =
      (frameBytes frames).take
        (((identity.wire ++ frameBytes frames).take k).length - kFileHeaderBytes) := by
    rw [hlen, hsplit, List.drop_left' hwire]
  have hscan := scanFrames_eq (limited_of_validateOptions hopt) hrange hframes (Nat.zero_le _) rfl
    hoffset hdata
  rw [hlen] at hscan
  exact scanWalBytes_eq hopt hsplit (hlen.symm ▸ hscan)

theorem wholeFrames_self (offset : ℕ) (frames : List WalEncodedFrame) :
    wholeFrames (offset + (frameBytes frames).length) offset frames = frames.length := by
  induction frames generalizing offset with
  | nil => rfl
  | cons frame rest ih =>
    have hlen : offset + (frameBytes (frame :: rest)).length =
        offset + frame.bytes.length + (frameBytes rest).length := by
      rw [frameBytes, List.flatMap_cons, List.length_append, Nat.add_assoc]
      rfl
    rw [hlen, wholeFrames_of_le (Nat.le_add_right _ _), ih, List.length_cons]

theorem mem_frameEnds_self (offset : ℕ) (frames : List WalEncodedFrame) :
    offset + (frameBytes frames).length ∈ offset :: frameEnds offset frames := by
  induction frames generalizing offset with
  | nil => simp [frameBytes]
  | cons frame rest ih =>
    have hrest := ih (offset + frame.bytes.length)
    rw [Nat.add_assoc, ← List.length_append] at hrest
    exact List.mem_cons_of_mem _ hrest

/-- **The scan of a whole image**: the state after its last frame, and no torn tail. -/
theorem scanWalBytes_whole (hopt : validateOptions options = .ok ()) {batches : List PersistBatch}
    {frames : List WalEncodedFrame} (hrange : ∀ batch ∈ batches, batch.InRange)
    (hframes : encodeFrames options emptyScan.state batches = .ok frames) :
    scanWalBytes (identity.wire ++ frameBytes frames) identity options =
      .ok (WalScanResult.finish {
        state := stateAfter emptyScan.state frames
        validBytes := kFileHeaderBytes + (frameBytes frames).length }) := by
  have hlen : (identity.wire ++ frameBytes frames).length =
      kFileHeaderBytes + (frameBytes frames).length := by
    rw [List.length_append, length_identity_wire]
  have hscan : scanWalBytes _ identity options = _ := scanWalBytes_front hopt hrange hframes
    (Nat.le_add_right kFileHeaderBytes (frameBytes frames).length) hlen.ge
  rw [← hlen, List.take_length, hlen, wholeFrames_self, List.take_length] at hscan
  rw [hscan, decide_eq_false (not_not.mpr (mem_frameEnds_self _ _))]

/-- **A torn image recovers its whole frames.** Take the image of any batches that the
encoder has accepted one after the other, behind the header of an empty file, and cut it at
any length that leaves the header. The scan of what is left succeeds. Its state is the one
after the last frame that is wholly there, it has counted these frames and ends where they
end, and it reports a torn tail exactly if the cut is not at the end of a frame. -/
theorem scanWalBytes_take (identity : WalIdentity) (options : WalFileOptions)
    (hopt : validateOptions options = .ok ()) :
    encodeWalFileHeader identity = .ok identity.wire ∧
    identity.wire.length = kFileHeaderBytes ∧
    scanWalBytes identity.wire identity options = .ok emptyScan ∧
    ∀ (batches : List PersistBatch) (frames : List WalEncodedFrame),
      (∀ batch ∈ batches, batch.InRange) →
      encodeFrames options emptyScan.state batches = .ok frames →
      ∀ k, kFileHeaderBytes ≤ k → k ≤ (identity.wire ++ frameBytes frames).length →
        ∃ result, scanWalBytes ((identity.wire ++ frameBytes frames).take k) identity options =
            .ok result ∧
          let whole := frames.take (wholeFrames k kFileHeaderBytes frames)
          let after := stateAfter emptyScan.state whole
          result.state.hardState = after.hardState ∧ result.state.entries = after.entries ∧
          result.state.commitIndex = after.commitIndex ∧
          result.state.lastFrameSequence = wholeFrames k kFileHeaderBytes frames ∧
          result.validBytes = kFileHeaderBytes + (frameBytes whole).length ∧
          (result.hasIncompleteTail = true ↔
            k ∉ kFileHeaderBytes :: frameEnds kFileHeaderBytes frames) := by
  have hwire := length_identity_wire identity
  refine ⟨makeFileHeader_eq identity, hwire, ?_, ?_⟩
  · refine scanWalBytes_eq hopt (List.append_nil identity.wire).symm (scanFrames_done hwire.le)
  · intro batches frames hrange hframes k hk hk'
    refine ⟨_, scanWalBytes_front hopt hrange hframes hk hk', rfl, rfl, rfl, ?_, rfl,
      decide_eq_true_iff⟩
    exact (lastFrameSequence_stateAfter hframes (wholeFrames_le_length _ _ _)).trans
      (Nat.zero_add _)

/-- Two batches: a vote with a first entry, and its commit. -/
def voteAndCommit : List PersistBatch :=
  [{ hardState := some { currentTerm := 1, votedFor := some 1 }, truncateFrom := none
     entries := [{ index := 1, term := 1, command := none }], commitIndex := none },
   { hardState := none, truncateFrom := none, entries := [], commitIndex := some 1 }]

theorem encodeFrames_voteAndCommit : ∃ first second : WalEncodedFrame,
    encodeFrames {} emptyScan.state voteAndCommit = .ok [first, second] ∧
      first.bytes.length = 110 ∧ second.bytes.length = 88 := by
  have hlens : (encodeFrames {} emptyScan.state voteAndCommit).toOption.map
      (fun frames => frames.map fun frame => frame.bytes.length) = some [110, 88] := by
    decide +kernel
  cases hframes : encodeFrames {} emptyScan.state voteAndCommit with
  | error e =>
    rw [hframes] at hlens
    cases hlens
  | ok frames =>
    rw [hframes] at hlens
    obtain ⟨first, rest, rfl, hfirst, hrest⟩ := List.map_eq_cons_iff.mp (Option.some.inj hlens)
    obtain ⟨second, rest, rfl, hsecond, hrest⟩ := List.map_eq_cons_iff.mp hrest
    obtain rfl := List.map_eq_nil_iff.mp hrest
    exact ⟨first, second, rfl, hfirst, hsecond⟩

theorem inRange_voteAndCommit : ∀ batch ∈ voteAndCommit, batch.InRange := by
  intro batch hbatch
  simp only [voteAndCommit, List.mem_cons, List.not_mem_nil, or_false] at hbatch
  rcases hbatch with rfl | rfl
  all_goals constructor <;> simp [HardState.InRange, LogEntry.InRange]

/-- The second frame of two is torn: the first one is recovered. -/
theorem scanWalBytes_take_second : ∃ first second : WalEncodedFrame, ∃ result,
    scanWalBytes (((WalIdentity.mk 1 2 3).wire ++ frameBytes [first, second]).take 178)
      ⟨1, 2, 3⟩ {} = .ok result ∧
    result.state.entries = first.stateAfter.entries ∧ result.state.lastFrameSequence = 1 ∧
    result.validBytes = 158 ∧ result.hasIncompleteTail = true := by
  obtain ⟨first, second, hframes, hfirst, hsecond⟩ := encodeFrames_voteAndCommit
  obtain ⟨-, hwire, -, htorn⟩ := scanWalBytes_take ⟨1, 2, 3⟩ {} (by decide)
  have hlen : (frameBytes [first, second]).length = 198 := by
    simp [frameBytes, hfirst, hsecond]
  obtain ⟨result, hscan, -, hentries, -, hseq, hbytes, htail⟩ :=
    htorn voteAndCommit _ inRange_voteAndCommit hframes 178 (by decide) (by
      rw [List.length_append, hwire, hlen]
      decide)
  have hwhole : wholeFrames 178 kFileHeaderBytes [first, second] = 1 := by
    simp [wholeFrames, frameEnds, hfirst, hsecond, kFileHeaderBytes]
  rw [hwhole] at hentries hseq hbytes
  refine ⟨first, second, result, hscan, hentries, hseq, ?_, htail.mpr ?_⟩
  · simpa [frameBytes, hfirst, kFileHeaderBytes] using hbytes
  · simp [frameEnds, hfirst, hsecond, kFileHeaderBytes]

end Image

end DetLog
