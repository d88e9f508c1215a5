import DetLog.Wal.Accepted

/-!
# Damage to a stored file

One byte of a file image changes. The scanner then fails, wherever the byte is and whatever
it has become (`DetLog.scanWalBytes_damaged`); it does not take the damage for the trace of a
crash, which it would repair by cutting the file.

A step of the CRC is a bijection of the register, so that two inputs that differ in one byte
never have the same checksum (`DetLog.crc32c_ne`). The rest is a matter of what is read under
the protection of which checksum. The length of a frame decides what the scanner takes for a
torn tail, and it is in the header, whose own checksum has been compared by then; the checksum
fields, the tags and the trailer are determined by what they follow.
-/

namespace DetLog

open Wire

/-! ### The checksum -/

section Checksum

/-- The step of the CRC on bit vectors: shift, and add the polynomial if a one falls out. -/
theorem toBitVec_crcBit (crc : UInt32) : (crcBit crc).toBitVec =
    if crc.toBitVec.getLsbD 0 then (crc.toBitVec >>> 1) ^^^ 0x82f63b78#32
    else crc.toBitVec >>> 1 := by
  have hmask : crc.toBitVec &&& 1#32 = if crc.toBitVec.getLsbD 0 then 1#32 else 0#32 := by
    rw [BitVec.and_one_eq_setWidth_ofBool_getLsbD]
    cases crc.toBitVec.getLsbD 0 <;> rfl
  have hstep : (crcBit crc).toBitVec =
      (crc.toBitVec >>> 1) ^^^ (0x82f63b78#32 &&& (0#32 - (crc.toBitVec &&& 1#32))) := rfl
  rw [hstep, hmask]
  split_ifs
  · rfl
  · simp

/-- **No step loses anything**: the bit that falls out is the highest bit of the result. -/
theorem crcBit_injective : Function.Injective crcBit := by
  have hhigh : ∀ crc, (crcBit crc).toBitVec.getLsbD 31 = crc.toBitVec.getLsbD 0 := by
    intro crc
    have hshift : (crc.toBitVec >>> 1).getLsbD 31 = false := by simp
    rw [toBitVec_crcBit]
    split_ifs with hlow
    · rw [BitVec.getLsbD_xor, hshift, hlow]
      rfl
    · rw [hshift]
      exact (Bool.not_eq_true _ ▸ hlow).symm
  intro a b hab
  have hlow : a.toBitVec.getLsbD 0 = b.toBitVec.getLsbD 0 := by rw [← hhigh, hab, hhigh]
  have hshift : a.toBitVec >>> 1 = b.toBitVec >>> 1 := by
    have heq := congrArg UInt32.toBitVec hab
    rw [toBitVec_crcBit, toBitVec_crcBit, hlow] at heq
    split_ifs at heq
    · exact (BitVec.xor_left_inj _).mp heq
    · exact heq
  refine UInt32.toBitVec_inj.mp (BitVec.eq_of_getLsbD_eq fun i _ => ?_)
  cases i with
  | zero => exact hlow
  | succ i =>
    have hbit := congrArg (BitVec.getLsbD · i) hshift
    simpa [Nat.add_comm 1] using hbit

theorem crcByte_injective (byte : Fin 256) : Function.Injective fun crc => crcByte crc byte := by
  intro a b hab
  exact UInt32.xor_left_inj _ |>.mp (crcBit_injective.iterate 8 hab)

theorem crcByte_byte_injective (crc : UInt32) : Function.Injective (crcByte crc) := by
  intro a b hab
  have hbyte : UInt32.ofNat a = UInt32.ofNat b :=
    UInt32.xor_right_inj _ |>.mp (crcBit_injective.iterate 8 hab)
  have hnat := congrArg UInt32.toNat hbyte
  rw [UInt32.toNat_ofNat', UInt32.toNat_ofNat'] at hnat
  exact Fin.ext (by omega)

/-- **Two inputs that differ in one byte have different checksums.** -/
theorem crc32c_ne {bytes bytes' : Bytes} (h : OneOff bytes bytes') :
    crc32c bytes ≠ crc32c bytes' := by
  intro heq
  exact h.foldl_ne crcByte_injective crcByte_byte_injective _ (UInt32.not_inj.mp heq)

end Checksum

/-! ### Damaged frames -/

section Frames

variable {options : WalFileOptions}

/-- A header that is damaged is rejected: the checksum does not fit the fields, or it is not
the checksum any more. -/
theorem parseFrameHeader_damaged {sequence size payloadSize : ℕ} {bytes : Bytes}
    (h : OneOff (frameHead sequence size payloadSize) bytes) (header : ParsedFrameHeader) :
    parseFrameHeader bytes options ≠ .ok header := by
  intro hparse
  have hlen : bytes.length = kFrameHeaderBytes := h.length_eq.trans (length_frameHead _ _ _)
  have hbytes := ((parseFrameHeader_eq_ok hlen).mp hparse).2
  obtain ⟨fields, hfields, hsplit⟩ | ⟨rest, hrest, hsplit⟩ := h.append_cases
  · obtain ⟨heq, hcrc⟩ := List.append_inj (hbytes.symm.trans hsplit)
      (by rw [hfields.length_eq, length_frameFields, length_frameFields])
    obtain ⟨hcrc, -⟩ := List.append_inj hcrc (by rw [length_leBytes, length_leBytes])
    rw [leBytes_inj (UInt32.toNat_lt _) (UInt32.toNat_lt _), UInt32.toNat_inj, heq] at hcrc
    exact crc32c_ne hfields hcrc.symm
  · obtain ⟨heq, hcrc⟩ := List.append_inj (hbytes.symm.trans hsplit)
      (by rw [length_frameFields, length_frameFields])
    rw [heq] at hcrc
    exact hrest.ne hcrc

/-- The sizes in a header are read as they were written. -/
theorem parseFrameHeader_sizes {sequence size payloadSize : ℕ} {header : ParsedFrameHeader}
    (hsize : size < 2 ^ 64) (hpayload : payloadSize < 2 ^ 64)
    (h : parseFrameHeader (frameHead sequence size payloadSize) options = .ok header) :
    header.frameSize = size ∧ header.payloadSize = payloadSize := by
  obtain ⟨⟨-, -, hlt, -, hsum⟩, hbytes⟩ :=
    (parseFrameHeader_eq_ok (length_frameHead _ _ _)).mp h
  obtain ⟨hfields, -⟩ := List.append_inj hbytes (by rw [length_frameFields, length_frameFields])
  simp only [frameFields, List.append_cancel_left_eq] at hfields
  obtain ⟨hframe, hrest⟩ := List.append_inj hfields (by rw [length_leBytes, length_leBytes])
  obtain ⟨hpay, -⟩ := List.append_inj hrest (by rw [length_leBytes, length_leBytes])
  have hle : header.payloadSize < 2 ^ 64 := by omega
  exact ⟨((leBytes_inj hsize hlt).mp hframe).symm, ((leBytes_inj hpayload hle).mp hpay).symm⟩

/-- **Damage to a frame is damage to its header, to its payload or to its trailer.** -/
theorem frameWire_damaged {sequence : ℕ} {payload frame : Bytes}
    (h : OneOff (frameWire sequence payload) frame) :
    let head := frameHead sequence (frameWire sequence payload).length payload.length
    let trailer := frameTrailer (head ++ payload) (frameWire sequence payload).length
    (∃ head', OneOff head head' ∧ frame = head' ++ payload ++ trailer) ∨
      (∃ payload', OneOff payload payload' ∧ frame = head ++ payload' ++ trailer) ∨
        ∃ trailer', OneOff trailer trailer' ∧ frame = head ++ payload ++ trailer' := by
  intro head trailer
  rw [frameWire_eq] at h
  obtain ⟨before, hbefore, rfl⟩ | ⟨trailer', htrailer, rfl⟩ := h.append_cases
  · obtain ⟨head', hhead, rfl⟩ | ⟨payload', hpayload, rfl⟩ := hbefore.append_cases
    · exact Or.inl ⟨head', hhead, rfl⟩
    · exact Or.inr (Or.inl ⟨payload', hpayload, rfl⟩)
  · exact Or.inr (Or.inr ⟨trailer', htrailer, rfl⟩)

/-- **A frame with a damaged payload or trailer is rejected.** -/
theorem validateCompleteFrame_damaged {head payload payload' trailer : Bytes} {size : ℕ}
    {header : ParsedFrameHeader} (hhead : head.length = kFrameHeaderBytes)
    (hpayload : payload'.length = header.payloadSize) (hsize : header.frameSize = size)
    (htrailer : trailer.length = kFrameTrailerBytes)
    (h : OneOff payload payload' ∧ trailer = frameTrailer (head ++ payload) size ∨
      payload' = payload ∧ OneOff (frameTrailer (head ++ payload) size) trailer)
    (batch : PersistBatch) :
    validateCompleteFrame (head ++ payload' ++ trailer) header options ≠ .ok batch := by
  intro hvalid
  obtain ⟨⟨-, heq⟩, -⟩ := (validateCompleteFrame_eq_ok hhead hpayload htrailer).mp hvalid
  rw [hsize] at heq
  rcases h with ⟨hone, rfl⟩ | ⟨rfl, hone⟩
  · obtain ⟨hcrc, -⟩ := List.append_inj heq (by rw [length_leBytes, length_leBytes])
    rw [leBytes_inj (UInt32.toNat_lt _) (UInt32.toNat_lt _), UInt32.toNat_inj] at hcrc
    exact crc32c_ne (hone.append_left head) hcrc
  · exact hone.ne heq.symm

end Frames

/-! ### Damaged images -/

section Images

variable {options : WalFileOptions} {data more : Bytes} {offset : ℕ}

/-- **What a round makes of a frame whose header is intact**: it fails, or it accepts the frame
and goes on behind it. -/
theorem scanRound_front {sequence : ℕ} {payload body : Bytes} {result result' : WalScanResult}
    {next : Option ℕ} (hsize : (frameWire sequence payload).length < 2 ^ 64)
    (hbody : body.length = payload.length + kFrameTrailerBytes)
    (hdata : data.drop offset =
      frameHead sequence (frameWire sequence payload).length payload.length ++ body ++ more)
    (h : scanRound data.length (readBytes data) options result offset = .ok (result', next)) :
    next = some (frameWire sequence payload).length ∧
      ∃ header batch, header.frameSize = (frameWire sequence payload).length ∧
        header.payloadSize = payload.length ∧
        validateCompleteFrame (frameHead sequence (frameWire sequence payload).length
          payload.length ++ body) header options = .ok batch := by
  have hhead := length_frameHead sequence (frameWire sequence payload).length payload.length
  have hframe : (frameHead sequence (frameWire sequence payload).length payload.length ++
      body).length = (frameWire sequence payload).length := by
    rw [List.length_append, hhead, hbody, length_frameWire, Nat.add_assoc]
  have hroom : data.length - offset = (frameWire sequence payload).length + more.length := by
    rw [← List.length_drop, hdata, List.length_append, hframe]
  have hlen := length_frameWire sequence payload
  unfold scanRound at h
  simp only at h
  rw [if_neg (by omega)] at h
  obtain ⟨headerBytes, hread, h⟩ := bind_eq_ok.mp h
  obtain ⟨header, hparse, h⟩ := bind_eq_ok.mp h
  rw [mapError_eq_ok, (readBytes_ok hread).1, hdata, List.append_assoc,
    take_append_of_length hhead] at hparse
  obtain ⟨hframeSize, hpayloadSize⟩ := parseFrameHeader_sizes hsize (by omega) hparse
  split_ifs at h
  · omega
  obtain ⟨frame, hread', h⟩ := bind_eq_ok.mp h
  obtain ⟨batch, hbatch, h⟩ := bind_eq_ok.mp h
  obtain ⟨logical, -, h⟩ := bind_eq_ok.mp h
  rw [mapError_eq_ok, (readBytes_ok hread').1, hdata, hframeSize,
    take_append_of_length hframe] at hbatch
  refine ⟨?_, header, batch, hframeSize, hpayloadSize, hbatch⟩
  rw [← (Prod.mk.inj (Except.ok.inj h)).2, hframeSize]

/-- **No round accepts a damaged frame**, and none takes it for a torn one. -/
theorem scanRound_damaged {sequence : ℕ} {payload frame : Bytes} (result : WalScanResult)
    (hsize : (frameWire sequence payload).length < 2 ^ 64)
    (h : OneOff (frameWire sequence payload) frame) (hdata : data.drop offset = frame ++ more) :
    ∃ e, scanRound data.length (readBytes data) options result offset = .error e := by
  cases hround : scanRound data.length (readBytes data) options result offset with
  | error e => exact ⟨e, rfl⟩
  | ok p =>
    exfalso
    obtain ⟨result', next⟩ := p
    have hlen := length_frameWire sequence payload
    have htrailer := length_frameTrailer (frameHead sequence (frameWire sequence payload).length
      payload.length ++ payload) (frameWire sequence payload).length
    rcases frameWire_damaged h with ⟨head', hhead, rfl⟩ | ⟨payload', hpayload, rfl⟩ |
      ⟨trailer', hone, rfl⟩
    · have hlen' : head'.length = kFrameHeaderBytes :=
        hhead.length_eq.trans (length_frameHead _ _ _)
      have hroom : kFrameHeaderBytes ≤ data.length - offset := by
        rw [← List.length_drop, hdata, List.append_assoc, List.append_assoc, List.length_append,
          hlen']
        exact Nat.le_add_right _ _
      unfold scanRound at hround
      simp only at hround
      rw [if_neg (not_lt.mpr hroom)] at hround
      obtain ⟨headerBytes, hread, hround⟩ := bind_eq_ok.mp hround
      obtain ⟨header, hparse, -⟩ := bind_eq_ok.mp hround
      rw [mapError_eq_ok, (readBytes_ok hread).1, hdata, List.append_assoc, List.append_assoc,
        take_append_of_length hlen'] at hparse
      exact parseFrameHeader_damaged hhead header hparse
    · rw [List.append_assoc (frameHead _ _ _)] at hdata
      obtain ⟨-, header, batch, hframeSize, hpayloadSize, hvalid⟩ := scanRound_front hsize
        (by rw [List.length_append, hpayload.length_eq, htrailer]) hdata hround
      rw [← List.append_assoc] at hvalid
      exact validateCompleteFrame_damaged (length_frameHead _ _ _)
        (hpayload.length_eq.trans hpayloadSize.symm) hframeSize htrailer
        (Or.inl ⟨hpayload, rfl⟩) batch hvalid
    · rw [List.append_assoc (frameHead _ _ _)] at hdata
      obtain ⟨-, header, batch, hframeSize, hpayloadSize, hvalid⟩ := scanRound_front hsize
        (by rw [List.length_append, hone.length_eq, htrailer]) hdata hround
      rw [← List.append_assoc] at hvalid
      exact validateCompleteFrame_damaged (length_frameHead _ _ _) hpayloadSize.symm hframeSize
        (hone.length_eq.trans htrailer) (Or.inr ⟨rfl, hone⟩) batch hvalid

/-- The loop over the frames: it goes through those before the damage, in whatever state, and
fails there. -/
theorem scanFrames_damaged {frames : List WalEncodedFrame}
    (hframes : ∀ frame ∈ frames, ∃ sequence payload,
      frame.bytes = frameWire sequence payload ∧ frame.bytes.length < 2 ^ 64)
    (h : OneOff (frameBytes frames) (data.drop offset)) (result : WalScanResult) :
    ∃ e, scanFrames data.length (readBytes data) options result offset = .error e := by
  have hlt : offset < data.length := by
    by_contra hge
    exact h.ne_nil (List.drop_eq_nil_of_le (not_lt.mp hge))
  induction frames generalizing offset result with
  | nil => cases h
  | cons frame rest ih =>
    obtain ⟨⟨sequence, payload, hbytes, hsize⟩, hrest⟩ := List.forall_mem_cons.mp hframes
    rw [hbytes] at hsize
    rw [frameBytes, List.flatMap_cons, hbytes] at h
    obtain ⟨frame', hframe, hdata⟩ | ⟨rest', hdamaged, hdata⟩ := h.append_cases
    · obtain ⟨e, he⟩ := scanRound_damaged result hsize hframe hdata
      exact ⟨e, scanFrames_error hlt he⟩
    · cases hround : scanRound data.length (readBytes data) options result offset with
      | error e => exact ⟨e, scanFrames_error hlt hround⟩
      | ok p =>
        obtain ⟨result', next⟩ := p
        have hsplit : data.drop offset = frameHead sequence (frameWire sequence payload).length
            payload.length ++ (payload ++ frameTrailer (frameBefore sequence payload)
              (frameWire sequence payload).length) ++ rest' := by
          rw [hdata, ← List.append_assoc (frameHead _ _ _), ← frameBefore, ← frameWire_eq]
        obtain ⟨rfl, -⟩ := scanRound_front hsize
          (by rw [List.length_append, length_frameTrailer]) hsplit hround
        rw [scanFrames_next hlt hround]
        have hdrop : data.drop (offset + (frameWire sequence payload).length) = rest' := by
          rw [← List.drop_drop, hdata, List.drop_left]
        refine ih hrest (hdrop ▸ hdamaged) result' ?_
        by_contra hge
        exact hdamaged.ne_nil (hdrop ▸ List.drop_eq_nil_of_le (not_lt.mp hge))

/-- **One damaged byte is noticed.** Take the header of a file and any frames that the encoder
has made, and put another byte in any one place. The scan of the result fails. -/
theorem scanWalBytes_damaged (identity : WalIdentity) (options : WalFileOptions)
    (header : Bytes) (frames : List WalEncodedFrame)
    (hheader : encodeWalFileHeader identity = .ok header)
    (hframes : ∀ frame ∈ frames, ∃ state batch, encodeWalFrame state batch options = .ok frame)
    (i : ℕ) (y : Fin 256) (hi : i < (header ++ frameBytes frames).length)
    (hy : (header ++ frameBytes frames)[i]? ≠ some y) :
    ∃ e, scanWalBytes ((header ++ frameBytes frames).set i y) identity options = .error e := by
  have hdamage := OneOff.set hi hy
  cases hscan : scanWalBytes ((header ++ frameBytes frames).set i y) identity options with
  | error e => exact ⟨e, rfl⟩
  | ok result =>
    exfalso
    obtain ⟨hopt, -, htake, scanned, hloop, -⟩ := scanFrames_of_scanWalBytes hscan
    obtain rfl := Except.ok.inj ((makeFileHeader_eq identity).symm.trans hheader)
    have hlen := length_identity_wire identity
    obtain ⟨header', hdamaged, hdata⟩ | ⟨body, hdamaged, hdata⟩ := hdamage.append_cases
    · rw [hdata, take_append_of_length (hdamaged.length_eq.trans hlen)] at htake
      exact hdamaged.ne htake.symm
    · have hwires : ∀ frame ∈ frames, ∃ sequence payload,
          frame.bytes = frameWire sequence payload ∧ frame.bytes.length < 2 ^ 64 := by
        intro frame hmem
        obtain ⟨state, batch, hmake⟩ := hframes frame hmem
        have henc := encodes_of_encodeWalFrame hmake
        exact ⟨_, _, henc.bytes, henc.size.trans_lt (limited_of_validateOptions hopt).frame⟩
      have hdrop : ((identity.wire ++ frameBytes frames).set i y).drop kFileHeaderBytes = body := by
        rw [hdata, List.drop_left' hlen]
      obtain ⟨e, he⟩ := scanFrames_damaged hwires (hdrop ▸ hdamaged) emptyScan
      rw [he] at hloop
      cases hloop

/-- The first byte of the first of two frames becomes zero. -/
theorem scanWalBytes_damaged_magic : ∃ first second : WalEncodedFrame, ∃ e,
    encodeFrames {} emptyScan.state voteAndCommit = .ok [first, second] ∧
    scanWalBytes (((WalIdentity.mk 1 2 3).wire ++ frameBytes [first, second]).set 48 0)
      ⟨1, 2, 3⟩ {} = .error e := by
  obtain ⟨_, _, hframes, hfirst, -⟩ := encodeFrames_voteAndCommit
  obtain ⟨first, hmake, h⟩ := bind_eq_ok.mp hframes
  obtain ⟨_, hlater, h⟩ := bind_eq_ok.mp h
  obtain ⟨rfl, rfl⟩ := List.cons.inj (Except.ok.inj h)
  obtain ⟨second, hmake', h⟩ := bind_eq_ok.mp hlater
  obtain ⟨_, -, h⟩ := bind_eq_ok.mp h
  obtain ⟨rfl, rfl⟩ := List.cons.inj (Except.ok.inj h)
  have hlen : (WalIdentity.mk 1 2 3).wire.length = 48 := length_identity_wire _
  have hbyte : ((WalIdentity.mk 1 2 3).wire ++ frameBytes [first, second])[48]? =
      some 68 := by
    rw [List.getElem?_append_right hlen.le, hlen, frameBytes, List.flatMap_cons,
      (encodes_of_encodeWalFrame hmake).bytes]
    rfl
  obtain ⟨e, he⟩ := scanWalBytes_damaged ⟨1, 2, 3⟩ {} _ [first, second] (makeFileHeader_eq _)
    (List.forall_mem_cons.mpr ⟨⟨_, _, hmake⟩, List.forall_mem_singleton.mpr ⟨_, _, hmake'⟩⟩) 48 0
    (by simp [frameBytes, hfirst, hlen]) (by rw [hbyte]; decide)
  exact ⟨first, second, e, hframes, he⟩

end Images

end DetLog
