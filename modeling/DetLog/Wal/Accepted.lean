import DetLog.Wal.Scan

/-!
# What the scanner accepts

The scanner is run on whatever stands in the file. It accepts nothing but what the encoder
makes: an image without a torn tail is the header of the file and the frames of *one* list of
batches (`DetLog.scanWalBytes_image`), and each payload is the one encoding of its batch.

The argument goes from the inside out. The decoders of a batch, a header and a trailer accept
exactly what the encoder writes, so a round of the scan takes a frame that the encoder has made
(`DetLog.rounds_of_scanRound`), and the encoder can follow the scanner from frame to frame.
-/

namespace DetLog

open Wire

/-! ### Rounds of the scan -/

section Rounds

variable {data : Bytes} {options : WalFileOptions} {result result' : WalScanResult} {offset : ℕ}

/-- **A frame that is accepted is the frame of its batch.** -/
theorem validateCompleteFrame_ok {frame : Bytes} {header : ParsedFrameHeader}
    {batch : PersistBatch} (hlimits : options.Limited)
    (hhead : parseFrameHeader (frame.take kFrameHeaderBytes) options = .ok header)
    (hlen : frame.length = header.frameSize)
    (h : validateCompleteFrame frame header options = .ok batch) :
    batch.InRange ∧ header.frameSize ≤ options.maxFrameBytes ∧
      frame = frameWire header.sequence batch.wire := by
  have hheadlen : (frame.take kFrameHeaderBytes).length = kFrameHeaderBytes := by
    have hmin := kMinimumFrameBytes_le_of_parseFrameHeader hhead
    refine List.length_take_of_le ?_
    unfold kMinimumFrameBytes at hmin
    omega
  obtain ⟨⟨-, hmax, -, -, hsum⟩, hheader⟩ := (parseFrameHeader_eq_ok hheadlen).mp hhead
  -- the frame is its header, a payload of the size that is declared, and the rest
  have hpayload : ((frame.drop kFrameHeaderBytes).take header.payloadSize).length =
      header.payloadSize := by
    rw [List.length_take, List.length_drop]
    omega
  have htrailer : ((frame.drop kFrameHeaderBytes).drop header.payloadSize).length =
      kFrameTrailerBytes := by
    rw [List.length_drop, List.length_drop]
    omega
  have hsplit : frame = frame.take kFrameHeaderBytes ++
      (frame.drop kFrameHeaderBytes).take header.payloadSize ++
        (frame.drop kFrameHeaderBytes).drop header.payloadSize := by
    rw [List.append_assoc, List.take_append_drop, List.take_append_drop]
  rw [hsplit] at h
  obtain ⟨⟨-, hend⟩, hdecode⟩ := (validateCompleteFrame_eq_ok hheadlen hpayload htrailer).mp h
  obtain ⟨⟨hrange, -⟩, hwire⟩ :=
    (decodeBatchPayload_eq_ok hlimits.fields hlimits.entries).mp hdecode
  rw [hwire] at hpayload hsplit hend
  have hsize : kFrameHeaderBytes + batch.wire.length + kFrameTrailerBytes = header.frameSize := by
    omega
  rw [hend, hheader, ← hpayload, ← hsize] at hsplit
  exact ⟨hrange, hmax, hsplit⟩

theorem readBytes_ok {size : ℕ} {bytes : Bytes} (h : readBytes data offset size = .ok bytes) :
    bytes = (data.drop offset).take size ∧ bytes.length = size := by
  unfold readBytes at h
  split_ifs at h with hroom
  obtain rfl := Except.ok.inj h
  refine ⟨rfl, List.length_take_of_le ?_⟩
  rw [List.length_drop]
  omega

/-- **What a round of the scan can do**: it ends the scan before a torn frame, or it takes a
whole frame of some batch and appends this batch. -/
inductive Rounds (data : Bytes) (options : WalFileOptions) (result : WalScanResult) (offset : ℕ) :
    WalScanResult → Option ℕ → Prop
  | torn : Rounds data options result offset { result with hasIncompleteTail := true } none
  | frame (batch : PersistBatch) (logical : WalState) (more : Bytes) (range : batch.InRange)
      (logical_eq : result.state.append options.toWalOptions batch = .ok logical)
      (split : data.drop offset =
        frameWire (incU64 result.state.lastFrameSequence) batch.wire ++ more)
      (size : (frameWire (incU64 result.state.lastFrameSequence) batch.wire).length ≤
        options.maxFrameBytes) :
      Rounds data options result offset
        { result with
          state := { result.state with
            toWalState := logical
            lastFrameSequence := incU64 result.state.lastFrameSequence
            fileBytes := offset +
              (frameWire (incU64 result.state.lastFrameSequence) batch.wire).length }
          validBytes := offset +
            (frameWire (incU64 result.state.lastFrameSequence) batch.wire).length }
        (some (frameWire (incU64 result.state.lastFrameSequence) batch.wire).length)

theorem rounds_of_scanRound {next : Option ℕ} (hlimits : options.Limited)
    (h : scanRound data.length (readBytes data) options result offset = .ok (result', next)) :
    Rounds data options result offset result' next := by
  unfold scanRound at h
  simp only at h
  split_ifs at h
  · obtain ⟨rfl, rfl⟩ := Prod.mk.inj (Except.ok.inj h)
    exact .torn
  obtain ⟨headerBytes, hread, h⟩ := bind_eq_ok.mp h
  obtain ⟨header, hparse, h⟩ := bind_eq_ok.mp h
  rw [mapError_eq_ok] at hparse
  split_ifs at h with hseq
  · obtain ⟨rfl, rfl⟩ := Prod.mk.inj (Except.ok.inj h)
    exact .torn
  obtain ⟨frame, hframe, h⟩ := bind_eq_ok.mp h
  obtain ⟨batch, hbatch, h⟩ := bind_eq_ok.mp h
  obtain ⟨logical, hlogical, h⟩ := bind_eq_ok.mp h
  rw [mapError_eq_ok] at hbatch hlogical
  obtain ⟨rfl, rfl⟩ := Prod.mk.inj (Except.ok.inj h)
  obtain ⟨rfl, hheaderlen⟩ := readBytes_ok hread
  obtain ⟨hbytes, hlen⟩ := readBytes_ok hframe
  have hmin := kMinimumFrameBytes_le_of_parseFrameHeader hparse
  have hhead : parseFrameHeader (frame.take kFrameHeaderBytes) options = .ok header := by
    unfold kMinimumFrameBytes at hmin
    rw [hbytes, List.take_take, Nat.min_eq_left (by omega)]
    exact hparse
  obtain ⟨hrange, hmax, hwire⟩ := validateCompleteFrame_ok hlimits hhead hlen hbatch
  rw [not_not] at hseq
  rw [hseq] at hwire
  rw [← hlen, hwire] at hmax
  rw [← hlen, hwire, hseq]
  refine .frame batch logical ((data.drop offset).drop frame.length) hrange hlogical ?_ hmax
  rw [← hwire, hlen]
  nth_rewrite 1 [← List.take_append_drop header.frameSize (data.drop offset)]
  rw [← hbytes]

end Rounds

/-! ### The encoder follows -/

section Follow

variable {data : Bytes} {options : WalFileOptions} {state : WalFileState} {batch : PersistBatch}

/-- The frame of a batch in a state, and the state after it. -/
def frameOf (state : WalFileState) (logical : WalState) (batch : PersistBatch) :
    WalEncodedFrame where
  bytes := frameWire (state.lastFrameSequence + 1) batch.wire
  stateAfter := { state with
    toWalState := logical
    lastFrameSequence := state.lastFrameSequence + 1
    fileBytes := state.fileBytes + (frameWire (state.lastFrameSequence + 1) batch.wire).length }

/-- **What the scanner keeps**: the state before the next frame is one that the encoder
takes. -/
structure Scanned (options : WalFileOptions) (state : WalFileState) : Prop where
  lawful : state.recovered.Lawful
  entries : state.entries.length ≤ options.maxLogEntries
  durable : state.durableFrameSequence = 0
  sequence : state.lastFrameSequence ≤ state.fileBytes

theorem scanned_empty (options : WalFileOptions) : Scanned options emptyScan.state :=
  ⟨RecoveredState.lawful_empty, Nat.zero_le _, rfl, Nat.zero_le _⟩

/-- The check of the state before a frame. -/
theorem validateStateSummary_of_lawful (hlawful : state.recovered.Lawful)
    (hentries : state.entries.length ≤ options.maxLogEntries)
    (hdurable : state.durableFrameSequence ≤ state.lastFrameSequence) :
    validateStateSummary state options = .ok () := by
  have hhead : (state.entries.head?.any fun entry => decide (entry.index ≠ 1)) = false := by
    cases he : state.entries.head? with
    | none => rfl
    | some e =>
      rw [List.head?_eq_getElem?] at he
      simpa using hlawful.indexed 0 e he
  have hlast : ∀ e, state.entries.getLast? = some e →
      e.index = state.entries.length ∧ e.term ≤ state.hardState.currentTerm := by
    intro e he
    refine ⟨?_, (hlawful.terms e (List.mem_of_getLast? he)).2⟩
    have hpos : 0 < state.entries.length := List.length_pos_of_mem (List.mem_of_getLast? he)
    rw [List.getLast?_eq_getElem?] at he
    rw [hlawful.indexed _ e he]
    omega
  have hvote : ¬(state.hardState.currentTerm = 0 ∧ state.hardState.votedFor.isSome) := by
    rintro ⟨hzero, hsome⟩
    have hnone : state.hardState.votedFor = none := hlawful.vote_term hzero
    rw [hnone] at hsome
    cases hsome
  have hcommit : state.commitIndex ≤ state.entries.length := hlawful.commit
  unfold DetLog.validateStateSummary
  rw [if_neg (not_lt.mpr hentries), if_neg hvote, if_neg, if_neg, if_neg (not_lt.mpr hcommit),
    if_neg (not_lt.mpr hdurable)]
  · rw [Option.any_eq_true]
    rintro ⟨e, he, hlt⟩
    exact absurd (hlast e he).2 (not_le.mpr (of_decide_eq_true hlt))
  · rw [hhead, Bool.false_or, Option.any_eq_true]
    rintro ⟨e, he, hne⟩
    exact of_decide_eq_true hne (hlast e he).1

theorem Scanned.validateStateSummary (h : Scanned options state) :
    validateStateSummary state options = .ok () :=
  validateStateSummary_of_lawful h.lawful h.entries (h.durable ▸ Nat.zero_le _)

/-- **The encoder makes the frame that was read.** -/
theorem Scanned.encodeWalFrame (h : Scanned options state) (hopt : validateOptions options = .ok ())
    {logical : WalState} (hlogical : state.append options.toWalOptions batch = .ok logical)
    (hsize : (frameOf state logical batch).bytes.length ≤ options.maxFrameBytes)
    (hend : state.fileBytes + (frameOf state logical batch).bytes.length ≤ maxU64) :
    encodeWalFrame state batch options = .ok (frameOf state logical batch) := by
  have hlen : (frameOf state logical batch).bytes.length = _ := length_frameWire _ batch.wire
  have hseq : state.lastFrameSequence ≠ maxU64 := by
    have hle := h.sequence
    rw [hlen] at hend
    unfold kFrameHeaderBytes at hend
    omega
  have hframe : makeFrame (state.lastFrameSequence + 1) batch options =
      .ok (frameOf state logical batch).bytes := by
    rw [hlen] at hsize
    exact makeFrame_eq_ok.mpr ⟨hsize, rfl⟩
  unfold DetLog.encodeWalFrame
  rw [hopt, ok_bind, h.validateStateSummary, ok_bind, if_neg hseq, hlogical, ok_bind, hframe,
    ok_bind, if_neg (by omega)]
  rfl

theorem Scanned.next (h : Scanned options state) {logical : WalState}
    (hlogical : state.append options.toWalOptions batch = .ok logical) :
    Scanned options (frameOf state logical batch).stateAfter := by
  obtain ⟨hb, hwrite, hlen⟩ := WalState.append_ok h.lawful hlogical
  have hle := h.sequence
  refine ⟨?_, hlen.trans (max_le h.entries le_rfl), h.durable, ?_⟩
  · show logical.recovered.Lawful
    rw [hwrite]
    exact hb.lawful h.lawful
  · show state.lastFrameSequence + 1 ≤ state.fileBytes + (frameWire _ batch.wire).length
    rw [length_frameWire]
    unfold kFrameHeaderBytes
    omega

section

variable (hopt : validateOptions options = .ok ()) (hdata : data.length ≤ maxU64)
    {result : WalScanResult} (h : Scanned options state) (hoffset : state.fileBytes ≤ data.length)
    (hscan : scanFrames data.length (readBytes data)
      options { state, validBytes := state.fileBytes } state.fileBytes = .ok result)
include hopt hdata h hoffset hscan

/-- The loop of the scan: **what it passes is frames that the encoder makes.** The induction is
over the bytes that are left. -/
theorem encodeFrames_of_scan :
    ∃ batches frames rest, (∀ batch ∈ batches, PersistBatch.InRange batch) ∧
      encodeFrames options state batches = .ok frames ∧
      data.drop state.fileBytes = frameBytes frames ++ rest ∧
      (result.hasIncompleteTail = false → rest = []) ∧
      result = { state := stateAfter state frames
                 validBytes := state.fileBytes + (frameBytes frames).length
                 hasIncompleteTail := result.hasIncompleteTail } ∧
      batches.foldlM (WalState.append options.toWalOptions) state.toWalState =
        .ok (stateAfter state frames).toWalState := by
  induction hleft : data.length - state.fileBytes using Nat.strong_induction_on
    generalizing state with
  | _ left ih =>
    rcases hoffset.eq_or_lt with heq | hlt
    · rw [heq, scanFrames_done le_rfl] at hscan
      obtain rfl := Except.ok.inj hscan
      refine ⟨[], [], [], by simp, rfl, ?_, fun _ => rfl,
        by simp [heq, stateAfter, frameBytes], rfl⟩
      rw [heq, List.drop_length]
      rfl
    cases hround : scanRound data.length (readBytes data) options
        { state, validBytes := state.fileBytes } state.fileBytes with
    | error e =>
      rw [scanFrames_error hlt hround] at hscan
      cases hscan
    | ok p =>
      obtain ⟨result', next⟩ := p
      cases rounds_of_scanRound (limited_of_validateOptions hopt) hround with
      | torn =>
        rw [scanFrames_stop hlt hround] at hscan
        obtain rfl := Except.ok.inj hscan
        exact ⟨[], [], data.drop state.fileBytes, by simp, rfl, rfl, by simp, rfl, rfl⟩
      | frame batch logical more range hlogical split size =>
        simp only at hlogical split size
        have hinc : incU64 state.lastFrameSequence = state.lastFrameSequence + 1 := by
          have hle := h.sequence
          unfold maxU64 at hdata
          exact Nat.mod_eq_of_lt (by omega)
        rw [hinc] at split size
        have hroom : state.fileBytes + (frameOf state logical batch).bytes.length ≤
            data.length := by
          have hlen := congrArg List.length split
          rw [List.length_drop, List.length_append] at hlen
          have hbytes : (frameOf state logical batch).bytes.length =
            (frameWire (state.lastFrameSequence + 1) batch.wire).length := rfl
          omega
        have hpos : 0 < (frameOf state logical batch).bytes.length := by
          rw [frameOf, length_frameWire]
          exact Nat.add_pos_right _ (by decide)
        rw [scanFrames_next hlt hround] at hscan
        simp only [hinc] at hscan
        have hless : data.length - (frameOf state logical batch).stateAfter.fileBytes < left := by
          show data.length - (state.fileBytes + (frameOf state logical batch).bytes.length) < left
          omega
        obtain ⟨batches, frames, rest, hranges, hframes, hrest, htail, hresult, hreplay⟩ :=
          ih _ hless (h.next hlogical) hroom hscan rfl
        have hmake := h.encodeWalFrame hopt hlogical size (hroom.trans hdata)
        refine ⟨batch :: batches, frameOf state logical batch :: frames, rest,
          List.forall_mem_cons.mpr ⟨range, hranges⟩, ?_, ?_, htail, ?_, ?_⟩
        · rw [encodeFrames, hmake, ok_bind, hframes, ok_bind]
        · rw [frameBytes, List.flatMap_cons, ← frameBytes, List.append_assoc, ← hrest]
          show _ = frameWire _ batch.wire ++ data.drop (state.fileBytes + _)
          rw [← List.drop_drop, split]
          exact congrArg _ List.drop_left.symm
        · rw [stateAfter_cons]
          rw [frameBytes, List.flatMap_cons, List.length_append, ← Nat.add_assoc]
          exact hresult
        · rw [List.foldlM_cons, hlogical, ok_bind, stateAfter_cons]
          exact hreplay

/-- A scan that ends without a torn tail has passed everything. -/
theorem encodeFrames_of_scanFrames (htail : result.hasIncompleteTail = false) :
    ∃ batches frames, (∀ batch ∈ batches, PersistBatch.InRange batch) ∧
      encodeFrames options state batches = .ok frames ∧
      data.drop state.fileBytes = frameBytes frames ∧
      result = { state := stateAfter state frames, validBytes := data.length } ∧
      batches.foldlM (WalState.append options.toWalOptions) state.toWalState =
        .ok (stateAfter state frames).toWalState := by
  obtain ⟨batches, frames, rest, hranges, hframes, hrest, hnone, hresult, hreplay⟩ :=
    encodeFrames_of_scan hopt hdata h hoffset hscan
  rw [hnone htail, List.append_nil] at hrest
  refine ⟨batches, frames, hranges, hframes, hrest, ?_, hreplay⟩
  have hlen : state.fileBytes + (frameBytes frames).length = data.length := by
    rw [← hrest, List.length_drop]
    omega
  rw [hresult, htail, hlen]

end

theorem frameBytes_ne_nil {rest : List PersistBatch} {frames : List WalEncodedFrame}
    (h : encodeFrames options state (batch :: rest) = .ok frames) : frameBytes frames ≠ [] := by
  intro hnil
  obtain ⟨frame, hframe, h⟩ := bind_eq_ok.mp h
  obtain ⟨later, -, h⟩ := bind_eq_ok.mp h
  obtain rfl := Except.ok.inj h
  have hlen := (encodes_of_encodeWalFrame hframe).header_le
  rw [frameBytes, List.flatMap_cons, List.append_eq_nil_iff] at hnil
  rw [hnil.1] at hlen
  exact absurd hlen (by decide)

/-- **Two lists of batches with the same image are the same list.** A frame is told by its
front: the header says how long it is, and the payload is the encoding of the batch. -/
theorem encodeFrames_inj (hlimits : options.Limited) {batches batches' : List PersistBatch}
    {frames frames' : List WalEncodedFrame} (hseq : state.lastFrameSequence ≤ maxU64)
    (hrange : ∀ batch ∈ batches, PersistBatch.InRange batch)
    (hrange' : ∀ batch ∈ batches', PersistBatch.InRange batch)
    (h : encodeFrames options state batches = .ok frames)
    (h' : encodeFrames options state batches' = .ok frames')
    (hbytes : frameBytes frames = frameBytes frames') : batches = batches' := by
  induction batches generalizing state batches' frames frames' with
  | nil =>
    obtain rfl := Except.ok.inj h
    cases batches' with
    | nil => rfl
    | cons batch' rest' => exact absurd hbytes.symm (frameBytes_ne_nil h')
  | cons batch rest ih =>
    cases batches' with
    | nil =>
      obtain rfl := Except.ok.inj h'
      exact absurd hbytes (frameBytes_ne_nil h)
    | cons batch' rest' =>
      obtain ⟨frame, hframe, h⟩ := bind_eq_ok.mp h
      obtain ⟨later, hlater, h⟩ := bind_eq_ok.mp h
      obtain ⟨frame', hframe', h'⟩ := bind_eq_ok.mp h'
      obtain ⟨later', hlater', h'⟩ := bind_eq_ok.mp h'
      obtain rfl := Except.ok.inj h
      obtain rfl := Except.ok.inj h'
      have henc := encodes_of_encodeWalFrame hframe
      have henc' := encodes_of_encodeWalFrame hframe'
      simp only [frameBytes, List.flatMap_cons] at hbytes
      -- the headers agree, so the sizes they declare do
      have hhead : frame.bytes.take kFrameHeaderBytes = frame'.bytes.take kFrameHeaderBytes := by
        rw [← List.take_append_of_le_length henc.header_le, hbytes,
          List.take_append_of_le_length henc'.header_le]
      have hparse := parseFrameHeader_of_encodes hlimits henc hseq
      rw [hhead, parseFrameHeader_of_encodes hlimits henc' hseq] at hparse
      obtain ⟨hsize, -, -⟩ := ParsedFrameHeader.mk.inj (Except.ok.inj hparse)
      obtain ⟨hframes, hrest⟩ := List.append_inj hbytes hsize.symm
      have hwire : batch.wire = batch'.wire := by
        obtain ⟨-, hpayload, -⟩ := ParsedFrameHeader.mk.inj (Except.ok.inj hparse)
        rw [← take_payload (state.lastFrameSequence + 1) batch.wire, ← henc.bytes, hframes,
          henc'.bytes, ← hpayload, take_payload]
      have hbatch : batch = batch' := by
        have hdecode := (decodeBatchPayload_eq_ok hlimits.fields hlimits.entries).mpr
          ⟨⟨hrange batch (by simp), bounded_of_append henc.logical⟩, rfl⟩
        have hdecode' := (decodeBatchPayload_eq_ok hlimits.fields hlimits.entries).mpr
          ⟨⟨hrange' batch' (by simp), bounded_of_append henc'.logical⟩, hwire⟩
        exact Except.ok.inj (hdecode.symm.trans hdecode')
      subst hbatch
      obtain rfl : frame = frame' := Except.ok.inj (hframe.symm.trans hframe')
      have hseq' : frame.stateAfter.lastFrameSequence ≤ maxU64 := by
        rw [henc.after]
        exact Nat.le_pred_of_lt (henc.sequence_lt hseq)
      rw [ih hseq' (fun b hb => hrange b (List.mem_cons_of_mem _ hb))
        (fun b hb => hrange' b (List.mem_cons_of_mem _ hb)) hlater hlater' hrest]

/-- The encoder leaves alone what a flush and what a recovery sets. -/
theorem stateAfter_keeps {batches : List PersistBatch} {frames : List WalEncodedFrame}
    (h : encodeFrames options state batches = .ok frames) :
    (stateAfter state frames).durableFrameSequence = state.durableFrameSequence ∧
      (stateAfter state frames).repairedIncompleteTail = state.repairedIncompleteTail := by
  induction batches generalizing state frames with
  | nil =>
    obtain rfl := Except.ok.inj h
    exact ⟨rfl, rfl⟩
  | cons batch rest ih =>
    obtain ⟨frame, hframe, h⟩ := bind_eq_ok.mp h
    obtain ⟨later, hlater, h⟩ := bind_eq_ok.mp h
    obtain rfl := Except.ok.inj h
    obtain ⟨hdurable, hrepaired⟩ := ih hlater
    rw [stateAfter_cons, hdurable, hrepaired, (encodes_of_encodeWalFrame hframe).after]
    exact ⟨rfl, rfl⟩

end Follow

/-! ### Images -/

section Image

variable {identity : WalIdentity} {options : WalFileOptions} {data : Bytes}
  {result : WalScanResult}

/-- A scan that succeeds has passed the header of the identity. -/
theorem scanFrames_of_scanWalBytes (h : scanWalBytes data identity options = .ok result) :
    validateOptions options = .ok () ∧ kFileHeaderBytes ≤ data.length ∧
      data.take kFileHeaderBytes = identity.wire ∧
      ∃ scanned, scanFrames data.length (readBytes data) options emptyScan kFileHeaderBytes =
        .ok scanned ∧ result = scanned.finish := by
  unfold scanWalBytes scanSource at h
  obtain ⟨_, hopt, h⟩ := bind_eq_ok.mp h
  split_ifs at h with hlen
  obtain ⟨header, hread, h⟩ := bind_eq_ok.mp h
  obtain ⟨hbytes, -⟩ := readBytes_ok hread
  obtain ⟨_, hheader, h⟩ := bind_eq_ok.mp h
  obtain ⟨scanned, hscan, h⟩ := bind_eq_ok.mp h
  rw [hbytes, List.drop_zero] at hheader
  exact ⟨hopt, not_lt.mp hlen, validateFileHeader_eq_ok.mp hheader, scanned, hscan,
    (Except.ok.inj h).symm⟩

/-- **The scanner accepts exactly the images of the encoder.** If the scan of a byte string
ends without a torn tail, there is exactly one list of batches whose image the string is: the
header of the identity and, for each batch, the frame that the encoder makes in the state
that the batches before it have left. The batches pass the check one after the other from the
empty state, and the scanned state is the one after the last frame, with everything durable.
Moreover a payload that fits a frame is accepted exactly if it is the encoding of a batch
within the limits, and then it is decoded to that batch. -/
theorem scanWalBytes_image (hdata : data.length ≤ maxU64)
    (h : scanWalBytes data identity options = .ok result)
    (htail : result.hasIncompleteTail = false) :
    (∃! batches : List PersistBatch, (∀ batch ∈ batches, batch.InRange) ∧
      WalState.replay options.toWalOptions batches = .ok result.state.toWalState ∧
      ∃ header frames, encodeWalFileHeader identity = .ok header ∧
        encodeFrames options emptyScan.state batches = .ok frames ∧
        data = header ++ frameBytes frames ∧
        result.state = { stateAfter emptyScan.state frames with
          durableFrameSequence := (stateAfter emptyScan.state frames).lastFrameSequence }) ∧
    ∀ payload batch,
      payload.length ≤ options.maxFrameBytes - kFrameHeaderBytes - kFrameTrailerBytes →
      (decodeBatchPayload payload options.toWalOptions = .ok batch ↔
        batch.InRange ∧ batch.Bounded options.toWalOptions ∧
          encodeBatchPayload batch options = .ok payload) := by
  obtain ⟨hopt, hlen, hheader, scanned, hscan, rfl⟩ := scanFrames_of_scanWalBytes h
  have hlimits := limited_of_validateOptions hopt
  obtain ⟨batches, frames, hrange, hframes, hrest, rfl, hreplay⟩ :=
    encodeFrames_of_scanFrames hopt hdata (scanned_empty options) hlen hscan htail
  have hsplit : data = identity.wire ++ frameBytes frames := by
    rw [← hheader, ← hrest]
    exact (List.take_append_drop _ _).symm
  have hrepaired : (stateAfter emptyScan.state frames).repairedIncompleteTail = false :=
    (stateAfter_keeps hframes).2
  refine ⟨⟨batches, ⟨hrange, hreplay, identity.wire, frames, makeFileHeader_eq identity, hframes,
    hsplit, ?_⟩, ?_⟩, ?_⟩
  · simp only [WalScanResult.finish, ← hrepaired]
  · rintro batches' ⟨hrange', -, header, frames', hmake, hframes', hsplit', -⟩
    obtain rfl := Except.ok.inj ((makeFileHeader_eq identity).symm.trans hmake)
    have hbytes := List.append_cancel_left (hsplit.symm.trans hsplit')
    exact (encodeFrames_inj hlimits (Nat.zero_le _) hrange hrange' hframes hframes' hbytes).symm
  · intro payload batch hfits
    rw [encodeBatchPayload_eq_ok, decodeBatchPayload_eq_ok hlimits.fields hlimits.entries]
    constructor
    · rintro ⟨⟨hr, hb⟩, rfl⟩
      exact ⟨hr, hb, hfits, rfl⟩
    · rintro ⟨hr, hb, -, rfl⟩
      exact ⟨⟨hr, hb⟩, rfl⟩

/-- The image of a vote and its commit. -/
theorem scanWalBytes_voteAndCommit : ∃ first second : WalEncodedFrame,
    encodeFrames {} emptyScan.state voteAndCommit = .ok [first, second] ∧
    ((WalIdentity.mk 1 2 3).wire ++ frameBytes [first, second]).length = 246 ∧
    scanWalBytes ((WalIdentity.mk 1 2 3).wire ++ frameBytes [first, second]) ⟨1, 2, 3⟩ {} =
      .ok (WalScanResult.finish { state := second.stateAfter, validBytes := 246 }) := by
  obtain ⟨first, second, hframes, hfirst, hsecond⟩ := encodeFrames_voteAndCommit
  have hlen : (frameBytes [first, second]).length = 198 := by
    simp [frameBytes, hfirst, hsecond]
  have hscan : scanWalBytes _ ⟨1, 2, 3⟩ _ = _ :=
    scanWalBytes_whole (by decide) inRange_voteAndCommit hframes
  rw [hlen] at hscan
  refine ⟨first, second, hframes, ?_, hscan⟩
  rw [List.length_append, hlen, length_identity_wire]
  rfl

theorem scanWalBytes_image_voteAndCommit : ∃ data result,
    scanWalBytes data ⟨1, 2, 3⟩ {} = .ok result ∧ result.state.lastFrameSequence = 2 ∧
    ∃! batches : List PersistBatch, (∀ batch ∈ batches, batch.InRange) ∧
      WalState.replay {} batches = .ok result.state.toWalState ∧
      ∃ header frames, encodeWalFileHeader ⟨1, 2, 3⟩ = .ok header ∧
        encodeFrames {} emptyScan.state batches = .ok frames ∧
        data = header ++ frameBytes frames ∧
        result.state = { stateAfter emptyScan.state frames with
          durableFrameSequence := (stateAfter emptyScan.state frames).lastFrameSequence } := by
  obtain ⟨first, second, hframes, hlen, hscan⟩ := scanWalBytes_voteAndCommit
  refine ⟨_, _, hscan, ?_, (scanWalBytes_image (by rw [hlen]; decide) hscan rfl).1⟩
  exact lastFrameSequence_stateAfter hframes le_rfl

/-- **The scanned state is not the state after the last frame as the encoder returns it**:
the encoder leaves the durable sequence number alone, the scanner sets it. -/
theorem scanWalBytes_durable : ∃ data result,
    scanWalBytes data ⟨1, 2, 3⟩ {} = .ok result ∧ result.hasIncompleteTail = false ∧
    ∀ batches header frames, encodeWalFileHeader ⟨1, 2, 3⟩ = .ok header →
      encodeFrames {} emptyScan.state batches = .ok frames →
      data = header ++ frameBytes frames → result.state ≠ stateAfter emptyScan.state frames := by
  obtain ⟨first, second, hframes, -, hscan⟩ := scanWalBytes_voteAndCommit
  refine ⟨_, _, hscan, rfl, fun batches header frames _ hframes' _ heq => ?_⟩
  have hlast : second.stateAfter.lastFrameSequence = 2 :=
    lastFrameSequence_stateAfter hframes le_rfl
  have hzero : (stateAfter emptyScan.state frames).durableFrameSequence = 0 :=
    (stateAfter_keeps hframes').1
  rw [← heq] at hzero
  exact absurd (hlast.symm.trans hzero) (by decide)

end Image

end DetLog
