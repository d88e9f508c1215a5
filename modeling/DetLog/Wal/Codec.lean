import DetLog.Container.Wire
import DetLog.Wal

/-!
# The byte format of the write-ahead log

A WAL file is a header of 48 bytes and a sequence of frames. A frame is a header of 48 bytes,
a payload that encodes one persistence batch, and a trailer of 24 bytes; header and frame
carry a CRC-32C each. This module has the encoder and the decoder of all three, as the source
writes them, and shows that the decoder accepts exactly what the encoder makes:
`DetLog.validateFileHeader_eq_ok`, `DetLog.parseFrameHeader_eq_ok`,
`DetLog.decodeBatchPayload_eq_ok` and `DetLog.validateCompleteFrame_eq_ok`.

A decoder is taken apart at its success, and the parts say what the input was: a number was its
own bytes, a marker was zero or one, a length was the length of what follows.

The encoder writes the low bytes of a number, so the numbers of a batch have to be within the
types of the source: `DetLog.PersistBatch.InRange`.
-/

namespace DetLog

open Wire

/-! ### Constants and options -/

/-- `DTLGWAL1` -/
def kFileMagic : Bytes := [68, 84, 76, 71, 87, 65, 76, 49]

/-- `DTLGFRM1` -/
def kFrameMagic : Bytes := [68, 84, 76, 71, 70, 82, 77, 49]

/-- `DTLGEND1` -/
def kTrailerMagic : Bytes := [68, 84, 76, 71, 69, 78, 68, 49]

/-- The length of the header of a file. -/
def kFileHeaderBytes : ℕ := 48

/-- The length of the header of a frame. -/
def kFrameHeaderBytes : ℕ := 48

/-- The length of the end of a frame. -/
def kFrameTrailerBytes : ℕ := 24

/-- The flags and the number of entries. -/
def kBatchPrefixBytes : ℕ := 8

/-- An entry without a command. -/
def kMinimumEntryPayloadBytes : ℕ := 17

/-- A frame with an empty batch. -/
def kMinimumFrameBytes : ℕ := kFrameHeaderBytes + kBatchPrefixBytes + kFrameTrailerBytes

/-- Ends the header of a file. -/
def kFileHeaderTag : ℕ := 0x31444857

/-- Ends the header of a frame. -/
def kFrameHeaderTag : ℕ := 0x31444846

/-- Stands in the end of a frame. -/
def kFrameTrailerTag : ℕ := 0x31524c54

/-- The batch has a hard state. -/
def kHardStateFlag : ℕ := 1 <<< 0

/-- The batch cuts the log. -/
def kTruncateFlag : ℕ := 1 <<< 1

/-- The batch moves the commit index. -/
def kCommitFlag : ℕ := 1 <<< 2

/-- All flags there are. -/
def kKnownBatchFlags : ℕ := kHardStateFlag ||| kTruncateFlag ||| kCommitFlag

/-- The most that `maxFrameBytes` can be. -/
def kAbsoluteMaxFrameBytes : ℕ := 256 * 1024 * 1024

/-- The most that `maxGroupBytes` can be. -/
def kAbsoluteMaxGroupBytes : ℕ := 512 * 1024 * 1024

/-- The most that `maxGroupFrames` can be. -/
def kAbsoluteMaxGroupFrames : ℕ := 65536

/-- The most that `maxEntriesPerFrame` can be. -/
def kAbsoluteMaxEntriesPerFrame : ℕ := 1000000

/-- The most that `maxLogEntries` can be. -/
def kAbsoluteMaxLogEntries : ℕ := 100000000

/-- `Wal::format_version`. -/
def formatVersion : ℕ := 1

/-- Whether an append waits for the disk. -/
inductive WalFlushPolicy where
  | flushEveryAppend
  | unsafeNoFlush
  deriving DecidableEq, Repr

/-- The whole `WalOptions` of the source: the limits of a batch and those of the file. -/
structure WalFileOptions extends WalOptions where
  flushPolicy : WalFlushPolicy := .flushEveryAppend
  maxFrameBytes : ℕ := 16 * 1024 * 1024
  maxGroupBytes : ℕ := 64 * 1024 * 1024
  maxGroupFrames : ℕ := 1024
  deriving DecidableEq, Repr

/-- Whose log a file is. -/
structure WalIdentity where
  clusterIdHigh : UInt64
  clusterIdLow : UInt64
  nodeId : UInt32
  deriving DecidableEq, Repr

/-- Bytes that no writer writes. -/
def formatError (message : String) : WalError := { code := .format, message }

/-- A limit is exceeded. -/
def boundsError (message : String) : WalError := { code := .boundsExceeded, message }

/-- Bytes that were changed. -/
def checksumError (message : String) : WalError := { code := .checksum, message }

/-- The checks of `validate_options`. A flush policy is one of the two by its type. -/
def validateOptions (options : WalFileOptions) : Except WalError Unit :=
  if options.maxFrameBytes < kMinimumFrameBytes ∨
      kAbsoluteMaxFrameBytes < options.maxFrameBytes then
    .error (boundsError "max_frame_bytes is outside the supported range")
  else if options.maxGroupBytes < options.maxFrameBytes ∨
      kAbsoluteMaxGroupBytes < options.maxGroupBytes then
    .error (boundsError "max_group_bytes is outside the supported range")
  else if options.maxGroupFrames = 0 ∨ kAbsoluteMaxGroupFrames < options.maxGroupFrames then
    .error (boundsError "max_group_frames is outside the supported range")
  else if options.maxEntriesPerFrame = 0 ∨
      kAbsoluteMaxEntriesPerFrame < options.maxEntriesPerFrame then
    .error (boundsError "max_entries_per_frame is outside the supported range")
  else if kAbsoluteMaxFrameBytes < options.maxKeyBytes ∨
      kAbsoluteMaxFrameBytes < options.maxValueBytes then
    .error (boundsError "command field bound exceeds the absolute frame bound")
  else if options.maxLogEntries = 0 ∨ kAbsoluteMaxLogEntries < options.maxLogEntries then
    .error (boundsError "max_log_entries is outside the supported range")
  else .ok ()

/-! ### Checksums -/

/-- One bit of the CRC: the polynomial is added when a one falls out. -/
def crcBit (crc : UInt32) : UInt32 :=
  let mask := 0 - (crc &&& 1)
  (crc >>> 1) ^^^ (0x82f63b78 &&& mask)

/-- The checksum takes a byte. -/
def crcByte (crc : UInt32) (byte : Fin 256) : UInt32 :=
  crcBit^[8] (crc ^^^ UInt32.ofNat byte)

/-- The Castagnoli checksum. -/
def crc32c (bytes : Bytes) : UInt32 := ~~~(bytes.foldl crcByte 0xffffffff)

/-! ### Writing and reading -/

/-- A writer with the errors of the log. -/
abbrev ByteWriter := Wire.Writer (Fin 256) WalError

/-- A reader with the errors of the log. -/
abbrev ByteReader := Wire.Reader (Fin 256) WalError

namespace ByteWriter

/-- Every write of the source checks the limit first. -/
def raw (limit : ℕ) (bytes : Bytes) : ByteWriter Unit :=
  Writer.put limit (boundsError "encoded WAL object exceeds configured size bound") bytes

/-- One byte. -/
def u8 (limit value : ℕ) : ByteWriter Unit := raw limit (leBytes 1 value)

/-- Two bytes. -/
def u16 (limit value : ℕ) : ByteWriter Unit := raw limit (leBytes 2 value)

/-- Four bytes. -/
def u32 (limit value : ℕ) : ByteWriter Unit := raw limit (leBytes 4 value)

/-- Eight bytes. -/
def u64 (limit value : ℕ) : ByteWriter Unit := raw limit (leBytes 8 value)

end ByteWriter

namespace ByteReader

/-- As many bytes as were declared. -/
def string (size : ℕ) : ByteReader Bytes :=
  Reader.take (formatError "declared WAL object is internally truncated") size

/-- A little-endian number. -/
def number (width : ℕ) : ByteReader ℕ := leValue <$> string width

/-- One byte. -/
def u8 : ByteReader ℕ := number 1

/-- Two bytes. -/
def u16 : ByteReader ℕ := number 2

/-- Four bytes. -/
def u32 : ByteReader ℕ := number 4

/-- Eight bytes. -/
def u64 : ByteReader ℕ := number 8

/-- A fixed sequence of bytes. -/
def expectLiteral (expected : Bytes) (name : String) : ByteReader Unit := do
  let bytes ← string expected.length
  Reader.failIf (bytes ≠ expected) (formatError ("invalid " ++ name))

end ByteReader

/-! ### Batches -/

/-- The flags of a batch. -/
def batchFlags (batch : PersistBatch) : ℕ :=
  (if batch.hardState.isSome then kHardStateFlag else 0) |||
    (if batch.truncateFrom.isSome then kTruncateFlag else 0) |||
      (if batch.commitIndex.isSome then kCommitFlag else 0)

section Encode

variable (limit : ℕ)

open ByteWriter

/-- The vote follows its marker. -/
def encodeHardState (hard : HardState) : ByteWriter Unit := do
  u64 limit hard.currentTerm
  u8 limit (if hard.votedFor.isSome then 1 else 0)
  hard.votedFor.elim (pure ()) (u32 limit)

/-- Both lengths come before the key and the value. -/
def encodeCommand (command : ClientCommand) : ByteWriter Unit := do
  u64 limit command.session.high
  u64 limit command.session.low
  u64 limit command.sequence
  u8 limit command.kind.code
  u32 limit command.key.length
  u32 limit command.value.length
  raw limit command.key
  raw limit command.value

/-- The command follows its marker. -/
def encodeEntry (entry : LogEntry) : ByteWriter Unit := do
  u64 limit entry.index
  u64 limit entry.term
  u8 limit (if entry.command.isSome then 1 else 0)
  entry.command.elim (pure ()) (encodeCommand limit)

end Encode

/-- What a writer has written on an empty stream. -/
def ByteWriter.finish (writer : ByteWriter Unit) : Except WalError Bytes :=
  Prod.snd <$> writer.run []

/-- The parts of a batch that its flags announce. -/
def encodeBatchPayload (batch : PersistBatch) (options : WalFileOptions) : Except WalError Bytes :=
  let limit := options.maxFrameBytes - kFrameHeaderBytes - kFrameTrailerBytes
  ByteWriter.finish do
    ByteWriter.u32 limit (batchFlags batch)
    ByteWriter.u32 limit batch.entries.length
    batch.hardState.elim (pure ()) (encodeHardState limit)
    batch.truncateFrom.elim (pure ()) (ByteWriter.u64 limit)
    batch.entries.forM (encodeEntry limit)
    batch.commitIndex.elim (pure ()) (ByteWriter.u64 limit)

section Decode

open ByteReader Reader

/-- Reads what `encodeHardState` writes. -/
def decodeHardState : ByteReader HardState := do
  let currentTerm ← u64
  let hasVote ← u8
  failIf (1 < hasVote) (formatError "invalid voted-for presence marker")
  let votedFor ← optional (hasVote ≠ 0) u32
  pure { currentTerm, votedFor }

/-- The cast of a byte to a command kind, with the check of `valid_command_kind`. -/
def CommandKind.ofCode : ℕ → Option CommandKind
  | 1 => some .put
  | 2 => some .erase
  | 3 => some .get
  | _ => none

/-- A byte outside the enumeration is an error. -/
def decodeKind : ByteReader CommandKind := do
  let code ← u8
  match CommandKind.ofCode code with
  | some kind => pure kind
  | none => throw (formatError "WAL frame contains unknown command kind")

/-- The lengths are checked against the limits first. -/
def decodeCommand (options : WalOptions) : ByteReader ClientCommand := do
  let high ← u64
  let low ← u64
  let sequence ← u64
  let kind ← decodeKind
  let keySize ← u32
  let valueSize ← u32
  failIf (options.maxKeyBytes < keySize ∨ options.maxValueBytes < valueSize)
    (boundsError "WAL command field exceeds configured size bound")
  let key ← string keySize
  let value ← string valueSize
  pure { session := { high, low }, sequence, kind, key, value }

/-- Reads what `encodeEntry` writes. -/
def decodeEntry (options : WalOptions) : ByteReader LogEntry := do
  let index ← u64
  let term ← u64
  let hasCommand ← u8
  failIf (1 < hasCommand) (formatError "invalid command presence marker")
  let command ← optional (hasCommand ≠ 0) (decodeCommand options)
  pure { index, term, command }

/-- The reader of `decode_batch_payload`; each entry takes at least 17 bytes, so the declared
count is checked against what is left before any entry is read. -/
def readBatch (options : WalOptions) : ByteReader PersistBatch := do
  let flags ← u32
  failIf (flags &&& (2 ^ 32 - 1 - kKnownBatchFlags) ≠ 0)
    (formatError "WAL batch contains unknown flags")
  let count ← u32
  failIf (options.maxEntriesPerFrame < count) (boundsError "WAL frame declares too many entries")
  let hardState ← optional (flags &&& kHardStateFlag ≠ 0) decodeHardState
  let truncateFrom ← optional (flags &&& kTruncateFlag ≠ 0) u64
  let trailing := if flags &&& kCommitFlag ≠ 0 then 8 else 0
  let left ← remaining
  failIf (left < trailing ∨ (left - trailing) / kMinimumEntryPayloadBytes < count)
    (formatError "WAL entry count exceeds the remaining frame payload")
  let entries ← many (decodeEntry options) count
  let commitIndex ← optional (flags &&& kCommitFlag ≠ 0) u64
  let rest ← remaining
  failIf (rest ≠ 0) (formatError "WAL batch contains trailing bytes")
  pure { hardState, truncateFrom, entries, commitIndex }

end Decode

/-- A payload that is one batch. -/
def decodeBatchPayload (payload : Bytes) (options : WalOptions) : Except WalError PersistBatch :=
  Prod.fst <$> (readBatch options).run payload

/-! ### Headers and frames -/

/-- The first bytes of a file. -/
def makeFileHeader (identity : WalIdentity) : Except WalError Bytes :=
  let limit := kFileHeaderBytes
  ByteWriter.finish do
    ByteWriter.raw limit kFileMagic
    ByteWriter.u16 limit formatVersion
    ByteWriter.u16 limit kFileHeaderBytes
    ByteWriter.u32 limit 0
    ByteWriter.u64 limit identity.clusterIdHigh.toNat
    ByteWriter.u64 limit identity.clusterIdLow.toNat
    ByteWriter.u32 limit identity.nodeId.toNat
    ByteWriter.u32 limit 0
    let bytes ← get
    ByteWriter.u32 limit (crc32c bytes).toNat
    ByteWriter.u32 limit kFileHeaderTag

/-- A batch in its frame. -/
def makeFrame (sequence : ℕ) (batch : PersistBatch) (options : WalFileOptions) :
    Except WalError Bytes := do
  let payload ← encodeBatchPayload batch options
  let totalSize := kFrameHeaderBytes + payload.length + kFrameTrailerBytes
  if options.maxFrameBytes < totalSize then
    .error (boundsError "WAL frame exceeds configured size bound")
  else
    ByteWriter.finish do
      ByteWriter.raw totalSize kFrameMagic
      ByteWriter.u16 totalSize formatVersion
      ByteWriter.u16 totalSize kFrameHeaderBytes
      ByteWriter.u32 totalSize 0
      ByteWriter.u64 totalSize totalSize
      ByteWriter.u64 totalSize payload.length
      ByteWriter.u64 totalSize sequence
      let header ← get
      ByteWriter.u32 totalSize (crc32c header).toNat
      ByteWriter.u32 totalSize kFrameHeaderTag
      ByteWriter.raw totalSize payload
      let frame ← get
      ByteWriter.u32 totalSize (crc32c frame).toNat
      ByteWriter.u32 totalSize kFrameTrailerTag
      ByteWriter.u64 totalSize totalSize
      ByteWriter.raw totalSize kTrailerMagic

/-- What the header of a frame declares. -/
structure ParsedFrameHeader where
  frameSize : ℕ
  payloadSize : ℕ
  sequence : ℕ
  deriving DecidableEq, Repr

section Parse

open ByteReader Reader

/-- The reader of `validate_file_header`, for the bytes it is run on. -/
def readFileHeader (bytes : Bytes) (expected : WalIdentity) : ByteReader Unit := do
  expectLiteral kFileMagic "WAL file magic"
  let version ← u16
  failIf (version ≠ formatVersion) (formatError "unsupported WAL format version")
  let size ← u16
  failIf (size ≠ kFileHeaderBytes) (formatError "invalid WAL file header fields")
  let reserved ← u32
  failIf (reserved ≠ 0) (formatError "invalid WAL file header fields")
  let clusterIdHigh ← u64
  let clusterIdLow ← u64
  let nodeId ← u32
  let padding ← u32
  failIf (padding ≠ 0) (formatError "nonzero reserved WAL header field")
  let storedChecksum ← u32
  let tag ← u32
  failIf (tag ≠ kFileHeaderTag) (formatError "invalid WAL file header trailer")
  failIf (storedChecksum ≠ (crc32c (bytes.take 40)).toNat)
    (checksumError "WAL file header checksum mismatch")
  failIf (clusterIdHigh ≠ expected.clusterIdHigh.toNat ∨
      clusterIdLow ≠ expected.clusterIdLow.toNat ∨ nodeId ≠ expected.nodeId.toNat)
    { code := .identityMismatch, message := "WAL cluster or node identity mismatch" }

/-- The reader of `parse_frame_header`. -/
def readFrameHeader (bytes : Bytes) (options : WalFileOptions) : ByteReader ParsedFrameHeader := do
  expectLiteral kFrameMagic "WAL frame magic"
  let version ← u16
  failIf (version ≠ formatVersion) (formatError "unsupported WAL frame version")
  let size ← u16
  failIf (size ≠ kFrameHeaderBytes) (formatError "invalid WAL frame header fields")
  let reserved ← u32
  failIf (reserved ≠ 0) (formatError "invalid WAL frame header fields")
  let frameSize ← u64
  let payloadSize ← u64
  let sequence ← u64
  let storedChecksum ← u32
  let tag ← u32
  failIf (tag ≠ kFrameHeaderTag) (formatError "invalid WAL frame header trailer")
  failIf (storedChecksum ≠ (crc32c (bytes.take 40)).toNat)
    (checksumError "WAL frame header checksum mismatch")
  failIf (frameSize < kMinimumFrameBytes ∨ options.maxFrameBytes < frameSize ∨ maxU64 < frameSize)
    (boundsError "WAL frame length is outside the configured bound")
  failIf (options.maxFrameBytes < payloadSize ∨
      payloadSize + kFrameHeaderBytes + kFrameTrailerBytes ≠ frameSize)
    (formatError "inconsistent WAL frame and payload lengths")
  pure { frameSize, payloadSize, sequence }

/-- The trailer part of `validate_complete_frame`, for the bytes before it. -/
def readFrameTrailer (before : Bytes) (header : ParsedFrameHeader) : ByteReader Unit := do
  let storedChecksum ← u32
  let tag ← u32
  failIf (tag ≠ kFrameTrailerTag) (formatError "invalid WAL frame trailer fields")
  let size ← u64
  failIf (size ≠ header.frameSize) (formatError "invalid WAL frame trailer fields")
  expectLiteral kTrailerMagic "WAL frame trailer magic"
  failIf (storedChecksum ≠ (crc32c before).toNat) (checksumError "WAL frame checksum mismatch")

end Parse

/-- A file is opened only by its owner. -/
def validateFileHeader (bytes : Bytes) (expected : WalIdentity) : Except WalError Unit :=
  if bytes.length ≠ kFileHeaderBytes then .error (formatError "WAL file header has the wrong size")
  else Prod.fst <$> (readFileHeader bytes expected).run bytes

/-- The header alone, before the rest is read. -/
def parseFrameHeader (bytes : Bytes) (options : WalFileOptions) :
    Except WalError ParsedFrameHeader :=
  Prod.fst <$> (readFrameHeader bytes options).run bytes

/-- The end of the frame vouches for all of it. -/
def validateCompleteFrame (frame : Bytes) (header : ParsedFrameHeader) (options : WalFileOptions) :
    Except WalError PersistBatch := do
  let trailerOffset := kFrameHeaderBytes + header.payloadSize
  let trailer := (frame.drop trailerOffset).take kFrameTrailerBytes
  let _ ← (readFrameTrailer (frame.take trailerOffset) header).run trailer
  decodeBatchPayload ((frame.drop kFrameHeaderBytes).take header.payloadSize) options.toWalOptions

/-! ### What the bytes of a batch are -/

/-- The bytes of a hard state; the vote is there if the marker says so. -/
def HardState.wire (hard : HardState) : Bytes :=
  leBytes 8 hard.currentTerm ++
    (leBytes 1 (if hard.votedFor.isSome then 1 else 0) ++ hard.votedFor.elim [] (leBytes 4))

/-- The bytes of a command. -/
def ClientCommand.wire (command : ClientCommand) : Bytes :=
  leBytes 8 command.session.high ++ (leBytes 8 command.session.low ++
    (leBytes 8 command.sequence ++ (leBytes 1 command.kind.code ++
      (leBytes 4 command.key.length ++ (leBytes 4 command.value.length ++
        (command.key ++ command.value))))))

/-- The bytes of an entry. -/
def LogEntry.wire (entry : LogEntry) : Bytes :=
  leBytes 8 entry.index ++ (leBytes 8 entry.term ++
    (leBytes 1 (if entry.command.isSome then 1 else 0) ++
      entry.command.elim [] ClientCommand.wire))

/-- The bytes of a batch. -/
def PersistBatch.wire (batch : PersistBatch) : Bytes :=
  leBytes 4 (batchFlags batch) ++ (leBytes 4 batch.entries.length ++
    (batch.hardState.elim [] HardState.wire ++ (batch.truncateFrom.elim [] (leBytes 8) ++
      (batch.entries.flatMap LogEntry.wire ++ batch.commitIndex.elim [] (leBytes 8)))))

/-- The part of a file header that its checksum covers. -/
def WalIdentity.fields (identity : WalIdentity) : Bytes :=
  kFileMagic ++ (leBytes 2 formatVersion ++ (leBytes 2 kFileHeaderBytes ++ (leBytes 4 0 ++
    (leBytes 8 identity.clusterIdHigh.toNat ++ (leBytes 8 identity.clusterIdLow.toNat ++
      (leBytes 4 identity.nodeId.toNat ++ leBytes 4 0))))))

/-- The bytes of the header of a file. -/
def WalIdentity.wire (identity : WalIdentity) : Bytes :=
  identity.fields ++ (leBytes 4 (crc32c identity.fields).toNat ++ leBytes 4 kFileHeaderTag)

/-- The part of a frame header that its checksum covers. -/
def frameFields (sequence size payloadSize : ℕ) : Bytes :=
  kFrameMagic ++ (leBytes 2 formatVersion ++ (leBytes 2 kFrameHeaderBytes ++ (leBytes 4 0 ++
    (leBytes 8 size ++ (leBytes 8 payloadSize ++ leBytes 8 sequence)))))

/-- The bytes of the header of a frame. -/
def frameHead (sequence size payloadSize : ℕ) : Bytes :=
  let fields := frameFields sequence size payloadSize
  fields ++ (leBytes 4 (crc32c fields).toNat ++ leBytes 4 kFrameHeaderTag)

/-- The bytes of the end of a frame. -/
def frameTrailer (before : Bytes) (size : ℕ) : Bytes :=
  leBytes 4 (crc32c before).toNat ++ (leBytes 4 kFrameTrailerTag ++ (leBytes 8 size ++
    kTrailerMagic))

/-- The bytes of a frame. -/
def frameWire (sequence : ℕ) (payload : Bytes) : Bytes :=
  let size := kFrameHeaderBytes + payload.length + kFrameTrailerBytes
  let before := frameHead sequence size payload.length ++ payload
  before ++ frameTrailer before size

section Written

theorem writes_raw (limit : ℕ) (bytes : Bytes) :
    Writes (ByteWriter.raw limit bytes) limit True bytes := Writes.put _ _ _

theorem writes_encodeHardState (limit : ℕ) (hard : HardState) :
    Writes (encodeHardState limit hard) limit True hard.wire :=
  ((writes_raw _ _).bind ((writes_raw _ _).bind (Writes.optional fun vote =>
    writes_raw limit (leBytes 4 vote)))).congr (by simp)

theorem writes_encodeCommand (limit : ℕ) (command : ClientCommand) :
    Writes (encodeCommand limit command) limit True command.wire :=
  ((writes_raw _ _).bind ((writes_raw _ _).bind ((writes_raw _ _).bind ((writes_raw _ _).bind
    ((writes_raw _ _).bind ((writes_raw _ _).bind ((writes_raw _ _).bind
      (writes_raw _ _)))))))).congr (by simp)

theorem writes_encodeEntry (limit : ℕ) (entry : LogEntry) :
    Writes (encodeEntry limit entry) limit True entry.wire :=
  ((writes_raw _ _).bind ((writes_raw _ _).bind ((writes_raw _ _).bind
    (Writes.optional fun command => writes_encodeCommand limit command)))).congr (by simp)

/-- **The payload of a batch**: it is written if there is room for it. -/
theorem encodeBatchPayload_eq_ok {batch : PersistBatch} {options : WalFileOptions}
    {payload : Bytes} : encodeBatchPayload batch options = .ok payload ↔
      batch.wire.length ≤ options.maxFrameBytes - kFrameHeaderBytes - kFrameTrailerBytes ∧
        payload = batch.wire := by
  refine (Writes.run (P := True) ?_).trans (iff_of_eq (true_and _))
  exact ((writes_raw _ _).bind ((writes_raw _ _).bind
    ((Writes.optional fun hard => writes_encodeHardState _ hard).bind
      ((Writes.optional fun i => writes_raw _ (leBytes 8 i)).bind
        ((Writes.forM (fun entry => writes_encodeEntry _ entry) _).bind
          (Writes.optional fun i => writes_raw _ (leBytes 8 i))))))).congr (by simp)

theorem length_fields (identity : WalIdentity) : identity.fields.length = 40 := by
  simp [WalIdentity.fields, kFileMagic]

theorem length_identity_wire (identity : WalIdentity) :
    identity.wire.length = kFileHeaderBytes := by
  simp [WalIdentity.wire, length_fields, kFileHeaderBytes]

theorem length_frameFields (sequence size payloadSize : ℕ) :
    (frameFields sequence size payloadSize).length = 40 := by
  simp [frameFields, kFrameMagic]

theorem length_frameHead (sequence size payloadSize : ℕ) :
    (frameHead sequence size payloadSize).length = kFrameHeaderBytes := by
  simp [frameHead, length_frameFields, kFrameHeaderBytes]

theorem length_frameTrailer (before : Bytes) (size : ℕ) :
    (frameTrailer before size).length = kFrameTrailerBytes := by
  simp [frameTrailer, kTrailerMagic, kFrameTrailerBytes]

theorem length_frameWire (sequence : ℕ) (payload : Bytes) : (frameWire sequence payload).length =
    kFrameHeaderBytes + payload.length + kFrameTrailerBytes := by
  simp only [frameWire, List.length_append, length_frameHead, length_frameTrailer]

theorem raw_eq {limit : ℕ} {bytes old : Bytes} (h : old.length + bytes.length ≤ limit) :
    ByteWriter.raw limit bytes old = .ok ((), old ++ bytes) := Writer.put_eq h

theorem raw_bind {limit : ℕ} {bytes old : Bytes} (f : Unit → ByteWriter Unit)
    (h : old.length + bytes.length ≤ limit) :
    (ByteWriter.raw limit bytes >>= f) old = f () (old ++ bytes) := Writer.put_bind f h

/-- **The header of a file is written**: it fits its limit exactly. -/
theorem makeFileHeader_eq (identity : WalIdentity) :
    makeFileHeader identity = .ok identity.wire := by
  unfold makeFileHeader ByteWriter.finish StateT.run ByteWriter.u16 ByteWriter.u32 ByteWriter.u64
  simp only
  rw [raw_bind, raw_bind, raw_bind, raw_bind, raw_bind, raw_bind, raw_bind, raw_bind,
    Writer.get_bind, raw_bind, raw_eq]
  · unfold WalIdentity.wire WalIdentity.fields
    simp only [← List.append_assoc, List.nil_append]
    rfl
  all_goals simp [kFileMagic, kFileHeaderBytes]

/-- **The bytes of a frame that is made**: it is made if it is within the limit. -/
theorem makeFrame_eq_ok {sequence : ℕ} {batch : PersistBatch} {options : WalFileOptions}
    {bytes : Bytes} : makeFrame sequence batch options = .ok bytes ↔
      kFrameHeaderBytes + batch.wire.length + kFrameTrailerBytes ≤ options.maxFrameBytes ∧
        bytes = frameWire sequence batch.wire := by
  have hframe : kFrameHeaderBytes + batch.wire.length + kFrameTrailerBytes ≤
      options.maxFrameBytes →
        makeFrame sequence batch options = .ok (frameWire sequence batch.wire) := by
    intro hsize
    have hpayload : encodeBatchPayload batch options = .ok batch.wire :=
      encodeBatchPayload_eq_ok.mpr ⟨by omega, rfl⟩
    unfold makeFrame
    rw [hpayload, ok_bind]
    simp only
    rw [if_neg (not_lt.mpr hsize)]
    unfold ByteWriter.finish StateT.run ByteWriter.u16 ByteWriter.u32 ByteWriter.u64
    rw [raw_bind, raw_bind, raw_bind, raw_bind, raw_bind, raw_bind, raw_bind, Writer.get_bind,
      raw_bind, raw_bind, raw_bind, Writer.get_bind, raw_bind, raw_bind, raw_bind, raw_eq]
    · unfold frameWire frameTrailer frameHead frameFields
      simp only [← List.append_assoc, List.nil_append]
      rfl
    all_goals
      simp [kFrameMagic, kTrailerMagic, kFrameHeaderBytes, kFrameTrailerBytes] <;> omega
  refine ⟨fun h => ?_, fun h => h.2 ▸ hframe h.1⟩
  obtain ⟨payload, hp, hrest⟩ := bind_eq_ok.mp h
  obtain ⟨-, rfl⟩ := encodeBatchPayload_eq_ok.mp hp
  simp only at hrest
  split_ifs at hrest with hsize
  have hsize := not_lt.mp hsize
  exact ⟨hsize, Except.ok.inj (h.symm.trans (hframe hsize))⟩

end Written

/-! ### What is read -/

/-- The limits that the check of a batch enforces on its sizes. -/
structure PersistBatch.Bounded (options : WalOptions) (batch : PersistBatch) : Prop where
  entries : batch.entries.length ≤ options.maxEntriesPerFrame
  commands : ∀ entry ∈ batch.entries, ∀ command, entry.command = some command →
    command.key.length ≤ options.maxKeyBytes ∧ command.value.length ≤ options.maxValueBytes

section Read

variable {input rest : Bytes} {options : WalOptions} {header : ParsedFrameHeader}
  {batch : PersistBatch} {bytes : Bytes} {value : ℕ} {u : Unit}

theorem number_ok {width value : ℕ} : ByteReader.number width input = .ok (value, rest) ↔
    value < 256 ^ width ∧ input = leBytes width value ++ rest := by
  unfold ByteReader.number ByteReader.string
  rw [Reader.map_ok]
  constructor
  · rintro ⟨bs, hbs, rfl⟩
    obtain ⟨rfl, rfl⟩ := Reader.take_ok.mp hbs
    exact ⟨leValue_lt bs, by rw [leBytes_leValue]⟩
  · rintro ⟨hlt, rfl⟩
    exact ⟨leBytes width value, Reader.take_ok.mpr ⟨length_leBytes _ _, rfl⟩, leValue_leBytes hlt⟩

theorem u8_ok : ByteReader.u8 input = .ok (value, rest) ↔
    value < 2 ^ 8 ∧ input = leBytes 1 value ++ rest := number_ok

theorem u16_ok : ByteReader.u16 input = .ok (value, rest) ↔
    value < 2 ^ 16 ∧ input = leBytes 2 value ++ rest := number_ok

theorem u32_ok : ByteReader.u32 input = .ok (value, rest) ↔
    value < 2 ^ 32 ∧ input = leBytes 4 value ++ rest := number_ok

theorem u64_ok : ByteReader.u64 input = .ok (value, rest) ↔
    value < 2 ^ 64 ∧ input = leBytes 8 value ++ rest := number_ok

theorem parses_u32 : Parses ByteReader.u32 (leBytes 4) (· < 2 ^ 32) := fun _ _ _ => u32_ok

theorem parses_u64 : Parses ByteReader.u64 (leBytes 8) (· < 2 ^ 64) := fun _ _ _ => u64_ok

theorem expectLiteral_ok {expected : Bytes} {name : String} :
    ByteReader.expectLiteral expected name input = .ok (u, rest) ↔ input = expected ++ rest := by
  unfold ByteReader.expectLiteral ByteReader.string
  simp only [Reader.bind_ok, Reader.take_ok, Reader.failIf_ok, decide_eq_false_iff_not, not_not]
  constructor
  · rintro ⟨bs, mid, ⟨-, rfl⟩, rfl, rfl⟩
    rfl
  · rintro rfl
    exact ⟨expected, rest, ⟨rfl, rfl⟩, rfl, rfl⟩

/-- A marker of presence that is accepted says whether the part is there. -/
theorem marker_iff {marker : ℕ} {b : Bool} :
    marker < 2 ^ 8 ∧ decide (1 < marker) = false ∧ decide (marker ≠ 0) = b ↔
      marker = if b then 1 else 0 := by
  constructor
  · rintro ⟨-, hle, rfl⟩
    simp only [decide_eq_false_iff_not, not_lt, decide_eq_true_eq] at hle ⊢
    split_ifs <;> omega
  · rintro rfl
    cases b <;> decide

theorem parses_decodeHardState : Parses decodeHardState HardState.wire HardState.InRange := by
  rintro input ⟨term, vote⟩ rest
  simp only [decodeHardState, Reader.bind_ok, u64_ok, u8_ok, parses_u32.optional,
    Reader.failIf_ok, Reader.pure_ok, HardState.mk.injEq, existsAndEq, and_true, exists_const,
    HardState.wire, List.append_assoc]
  constructor
  · rintro ⟨marker, ⟨hterm, rfl⟩, hlt, hle, hpresent, hvote⟩
    rw [marker_iff.mp ⟨hlt, hle, hpresent⟩]
    exact ⟨⟨hterm, hvote⟩, rfl⟩
  · rintro ⟨⟨hterm, hvote⟩, rfl⟩
    obtain ⟨hlt, hle, hpresent⟩ := marker_iff.mpr (rfl : _ = if vote.isSome then 1 else 0)
    exact ⟨_, ⟨hterm, rfl⟩, hlt, hle, hpresent, hvote⟩

theorem ofCode_eq_some {code : ℕ} {kind : CommandKind} :
    CommandKind.ofCode code = some kind ↔ code = kind.code := by
  constructor
  · unfold CommandKind.ofCode
    split
    all_goals rintro ⟨⟩
    all_goals rfl
  · rintro rfl
    cases kind <;> rfl

theorem decodeKind_ok {kind : CommandKind} : decodeKind input = .ok (kind, rest) ↔
    input = leBytes 1 kind.code ++ rest := by
  simp only [decodeKind, Reader.bind_ok, u8_ok]
  constructor
  · rintro ⟨code, mid, ⟨-, rfl⟩, h⟩
    cases hkind : CommandKind.ofCode code with
    | none =>
      rw [hkind] at h
      cases h
    | some kind' =>
      rw [hkind] at h
      obtain ⟨rfl, rfl⟩ := Reader.pure_ok.mp h
      rw [ofCode_eq_some.mp hkind]
  · rintro rfl
    refine ⟨kind.code, rest, ⟨kind.code.isLt, rfl⟩, ?_⟩
    rw [ofCode_eq_some.mpr rfl]
    rfl

/-- The commands that a frame may have: numbers of the source's types, and fields within the
limits. -/
def ClientCommand.Decodable (options : WalOptions) (command : ClientCommand) : Prop :=
  (command.session.high < 2 ^ 64 ∧ command.session.low < 2 ^ 64 ∧ command.sequence < 2 ^ 64) ∧
    command.key.length ≤ options.maxKeyBytes ∧ command.value.length ≤ options.maxValueBytes

theorem parses_decodeCommand
    (hmax : options.maxKeyBytes < 2 ^ 32 ∧ options.maxValueBytes < 2 ^ 32) :
    Parses (decodeCommand options) ClientCommand.wire (ClientCommand.Decodable options) := by
  rintro input ⟨⟨high, low⟩, sequence, kind, key, value⟩ rest
  simp only [decodeCommand, ByteReader.string, Reader.bind_ok, u64_ok, u32_ok, decodeKind_ok,
    Reader.take_ok, Reader.failIf_ok, Reader.pure_ok, decide_eq_false_iff_not, not_or, not_lt,
    ClientCommand.mk.injEq, SessionId.mk.injEq, existsAndEq, true_and, and_true, exists_const,
    ClientCommand.wire, List.append_assoc]
  constructor
  · rintro ⟨⟨hhigh, rfl⟩, hlow, hseq, -, -, hbound⟩
    exact ⟨⟨⟨hhigh, hlow, hseq⟩, hbound⟩, rfl⟩
  · rintro ⟨⟨⟨hhigh, hlow, hseq⟩, hbound⟩, rfl⟩
    exact ⟨⟨hhigh, rfl⟩, hlow, hseq, hbound.1.trans_lt hmax.1, hbound.2.trans_lt hmax.2, hbound⟩

/-- The entries that a frame may have. -/
def LogEntry.Decodable (options : WalOptions) (entry : LogEntry) : Prop :=
  entry.InRange ∧ ∀ command, entry.command = some command →
    command.key.length ≤ options.maxKeyBytes ∧ command.value.length ≤ options.maxValueBytes

theorem parses_decodeEntry
    (hmax : options.maxKeyBytes < 2 ^ 32 ∧ options.maxValueBytes < 2 ^ 32) :
    Parses (decodeEntry options) LogEntry.wire (LogEntry.Decodable options) := by
  rintro input ⟨index, term, command⟩ rest
  simp only [decodeEntry, Reader.bind_ok, u64_ok, u8_ok, (parses_decodeCommand hmax).optional,
    Reader.failIf_ok, Reader.pure_ok, LogEntry.mk.injEq, existsAndEq, and_true, exists_const,
    LogEntry.wire, List.append_assoc]
  constructor
  · rintro ⟨marker, ⟨hindex, rfl⟩, hterm, hlt, hle, hpresent, hcommand⟩
    rw [marker_iff.mp ⟨hlt, hle, hpresent⟩]
    exact ⟨⟨⟨hindex, hterm, fun c hc => (hcommand c hc).1⟩, fun c hc => (hcommand c hc).2⟩, rfl⟩
  · rintro ⟨⟨⟨hindex, hterm, hrange⟩, hbound⟩, rfl⟩
    obtain ⟨hlt, hle, hpresent⟩ := marker_iff.mpr (rfl : _ = if command.isSome then 1 else 0)
    exact ⟨_, ⟨hindex, rfl⟩, hterm, hlt, hle, hpresent, fun c hc => ⟨hrange c hc, hbound c hc⟩⟩

theorem length_wire_ge (entry : LogEntry) : kMinimumEntryPayloadBytes ≤ entry.wire.length := by
  simp only [LogEntry.wire, List.length_append, length_leBytes, kMinimumEntryPayloadBytes]
  omega

theorem length_flatMap_wire_ge (entries : List LogEntry) :
    entries.length * kMinimumEntryPayloadBytes ≤ (entries.flatMap LogEntry.wire).length := by
  induction entries with
  | nil => simp
  | cons e rest ih =>
    have he := length_wire_ge e
    rw [List.flatMap_cons, List.length_append, List.length_cons, Nat.succ_mul]
    omega

/-- The flags name the parts of the batch, and nothing else. -/
theorem batchFlags_iff {flags : ℕ} (batch : PersistBatch) :
    flags < 2 ^ 32 ∧ decide (flags &&& (2 ^ 32 - 1 - kKnownBatchFlags) ≠ 0) = false ∧
      decide (flags &&& kHardStateFlag ≠ 0) = batch.hardState.isSome ∧
        decide (flags &&& kTruncateFlag ≠ 0) = batch.truncateFrom.isSome ∧
          decide (flags &&& kCommitFlag ≠ 0) = batch.commitIndex.isSome ↔
      flags = batchFlags batch := by
  constructor
  · rintro ⟨hlt, hknown, hhard, htruncate, hcommit⟩
    rw [decide_eq_false_iff_not, not_not] at hknown
    have hlow : flags = flags &&& kKnownBatchFlags := by
      calc flags = flags &&& (2 ^ 32 - 1) := (Nat.and_two_pow_sub_one_of_lt_two_pow hlt).symm
        _ = flags &&& (2 ^ 32 - 1 - kKnownBatchFlags ||| kKnownBatchFlags) := rfl
        _ = flags &&& kKnownBatchFlags := by rw [Nat.and_or_distrib_left, hknown, Nat.zero_or]
    have hle : flags ≤ 7 := hlow ▸ Nat.and_le_right
    unfold batchFlags
    rw [← hhard, ← htruncate, ← hcommit]
    clear hhard htruncate hcommit hknown hlow hlt
    interval_cases flags <;> rfl
  · rintro rfl
    unfold batchFlags
    cases batch.hardState.isSome <;> cases batch.truncateFrom.isSome <;>
      cases batch.commitIndex.isSome <;> decide

/-- The count of entries is checked against the bytes that are left for them. -/
theorem count_fits (entries : List LogEntry) (commit : Option ℕ) :
    ¬((entries.flatMap LogEntry.wire ++ commit.elim [] (leBytes 8)).length <
        (if commit.isSome then 8 else 0) ∨
      ((entries.flatMap LogEntry.wire ++ commit.elim [] (leBytes 8)).length -
        (if commit.isSome then 8 else 0)) / kMinimumEntryPayloadBytes < entries.length) := by
  have hlen : (commit.elim [] (leBytes 8)).length = if commit.isSome then 8 else 0 := by
    cases commit <;> simp
  rw [List.length_append, hlen, Nat.add_sub_cancel, not_or, not_lt, not_lt,
    Nat.le_div_iff_mul_le (by decide)]
  exact ⟨Nat.le_add_left _ _, length_flatMap_wire_ge entries⟩

/-- **The decoder of a batch accepts exactly the encodings** of batches within the limits. -/
theorem readBatch_ok (hmax : options.maxKeyBytes < 2 ^ 32 ∧ options.maxValueBytes < 2 ^ 32)
    (hcount : options.maxEntriesPerFrame < 2 ^ 32) :
    readBatch options input = .ok (batch, rest) ↔
      (batch.InRange ∧ batch.Bounded options) ∧ input = batch.wire ∧ rest = [] := by
  obtain ⟨hard, truncate, entries, commit⟩ := batch
  simp only [readBatch, Reader.bind_ok, u32_ok, Reader.failIf_ok, Reader.remaining_ok,
    Reader.pure_ok, parses_u64.optional, parses_decodeHardState.optional,
    (parses_decodeEntry hmax).many, PersistBatch.mk.injEq, existsAndEq, true_and, and_true,
    exists_const]
  constructor
  · rintro ⟨flags, ⟨hflags, rfl⟩, hknown, -, hcount, ⟨hpresent, hrange⟩, ⟨htruncate, hfrom⟩, -,
      hentries, ⟨hcommit, hto⟩, hend⟩
    rw [decide_eq_false_iff_not, not_lt] at hcount
    rw [decide_eq_false_iff_not, not_not, List.length_eq_zero_iff] at hend
    refine ⟨⟨⟨hrange, hfrom, fun e he => (hentries e he).1, hto⟩,
      ⟨hcount, fun e he => (hentries e he).2⟩⟩, ?_, hend⟩
    rw [(batchFlags_iff ⟨hard, truncate, entries, commit⟩).mp
      ⟨hflags, hknown, hpresent, htruncate, hcommit⟩, hend, List.append_nil]
    rfl
  · rintro ⟨⟨hr, hb⟩, rfl, rfl⟩
    obtain ⟨hflags, hknown, hpresent, htruncate, hcommit⟩ :=
      (batchFlags_iff ⟨hard, truncate, entries, commit⟩).mpr rfl
    have hflag : (if batchFlags ⟨hard, truncate, entries, commit⟩ &&& kCommitFlag ≠ 0 then 8
        else 0 : ℕ) = if commit.isSome then 8 else 0 := by
      rw [← hcommit]
      simp only [decide_eq_true_eq]
    have hfits := count_fits entries commit
    refine ⟨_, ⟨hflags, by rw [List.append_nil]; rfl⟩, hknown, hb.entries.trans_lt hcount,
      by simpa using hb.entries, ⟨hpresent, hr.hardState⟩, ⟨htruncate, hr.truncateFrom⟩, ?_,
      fun e he => ⟨hr.entries e he, hb.commands e he⟩, ⟨hcommit, hr.commitIndex⟩, by simp⟩
    rw [decide_eq_false_iff_not, hflag, List.append_nil]
    exact hfits

/-- **Decoding and encoding are inverse to each other.** -/
theorem decodeBatchPayload_eq_ok {payload : Bytes}
    (hmax : options.maxKeyBytes < 2 ^ 32 ∧ options.maxValueBytes < 2 ^ 32)
    (hcount : options.maxEntriesPerFrame < 2 ^ 32) :
    decodeBatchPayload payload options = .ok batch ↔
      (batch.InRange ∧ batch.Bounded options) ∧ payload = batch.wire := by
  unfold decodeBatchPayload StateT.run
  rw [map_eq_ok]
  constructor
  · rintro ⟨p, hp, rfl⟩
    obtain ⟨hok, hwire, -⟩ := (readBatch_ok hmax hcount).mp hp
    exact ⟨hok, hwire⟩
  · rintro ⟨hok, hwire⟩
    exact ⟨(batch, []), (readBatch_ok hmax hcount).mpr ⟨hok, hwire, rfl⟩, rfl⟩

/-- A part at the front of a list, of a known length. -/
theorem take_append_of_length {a b : Bytes} {n : ℕ} (h : a.length = n) : (a ++ b).take n = a := by
  rw [← h, List.take_left]

/-- A header of 48 bytes ends with the checksum of its first 40 and a tag. -/
theorem checksummed_iff {fields bytes : Bytes} {tag : ℕ} (hfields : fields.length = 40) :
    bytes.length = 48 ∧ bytes = fields ++ (leBytes 4 (crc32c (bytes.take 40)).toNat ++
      (leBytes 4 tag ++ rest)) ↔
    rest = [] ∧ bytes = fields ++ (leBytes 4 (crc32c fields).toNat ++ leBytes 4 tag) := by
  constructor
  · rintro ⟨hlen, hbytes⟩
    have htake : bytes.take 40 = fields := by
      rw [hbytes]
      exact take_append_of_length hfields
    rw [htake] at hbytes
    have hrest : rest = [] := by
      rw [← List.length_eq_zero_iff]
      rw [hbytes] at hlen
      simp only [List.length_append, length_leBytes, hfields] at hlen
      omega
    rw [hrest, List.append_nil] at hbytes
    exact ⟨hrest, hbytes⟩
  · rintro ⟨rfl, rfl⟩
    rw [take_append_of_length hfields, List.append_nil]
    exact ⟨by simp [hfields], rfl⟩

theorem readFileHeader_ok {identity : WalIdentity} :
    readFileHeader bytes identity input = .ok (u, rest) ↔
      input = identity.fields ++ (leBytes 4 (crc32c (bytes.take 40)).toNat ++
        (leBytes 4 kFileHeaderTag ++ rest)) := by
  simp only [readFileHeader, Reader.bind_ok, u16_ok, u32_ok, u64_ok, expectLiteral_ok,
    Reader.failIf_ok, decide_eq_false_iff_not, not_not, not_or, existsAndEq, true_and, and_true,
    exists_const, WalIdentity.fields, List.append_assoc]
  exact and_iff_left ⟨by decide, by decide, by decide, UInt64.toNat_lt _, UInt64.toNat_lt _,
    UInt32.toNat_lt _, by decide, UInt32.toNat_lt _, by decide⟩

/-- **The only header that is accepted is the one of the identity.** -/
theorem validateFileHeader_eq_ok {identity : WalIdentity} :
    validateFileHeader bytes identity = .ok u ↔ bytes = identity.wire := by
  unfold validateFileHeader StateT.run
  constructor
  · intro h
    split_ifs at h with hlen
    obtain ⟨p, hp, -⟩ := map_eq_ok.mp h
    exact ((checksummed_iff (length_fields identity)).mp
      ⟨not_not.mp hlen, readFileHeader_ok.mp hp⟩).2
  · rintro rfl
    obtain ⟨hlen, hbytes⟩ := (checksummed_iff (length_fields identity)).mpr
      ⟨rfl, rfl⟩
    rw [if_neg (not_not.mpr (length_identity_wire identity)), map_eq_ok]
    exact ⟨((), []), readFileHeader_ok.mpr hbytes, rfl⟩

theorem readFrameHeader_ok {options : WalFileOptions} :
    readFrameHeader bytes options input = .ok (header, rest) ↔
      (kMinimumFrameBytes ≤ header.frameSize ∧ header.frameSize ≤ options.maxFrameBytes ∧
        header.frameSize < 2 ^ 64 ∧ header.sequence < 2 ^ 64 ∧
        header.payloadSize + kFrameHeaderBytes + kFrameTrailerBytes = header.frameSize) ∧
      input = frameFields header.sequence header.frameSize header.payloadSize ++
        (leBytes 4 (crc32c (bytes.take 40)).toNat ++ (leBytes 4 kFrameHeaderTag ++ rest)) := by
  obtain ⟨size, payloadSize, sequence⟩ := header
  simp only [readFrameHeader, Reader.bind_ok, u16_ok, u32_ok, u64_ok, expectLiteral_ok,
    Reader.failIf_ok, Reader.pure_ok, decide_eq_false_iff_not, not_not, not_or, not_lt,
    ParsedFrameHeader.mk.injEq, existsAndEq, true_and, and_true, exists_const, frameFields,
    List.append_assoc]
  constructor
  · rintro ⟨rfl, -, -, -, hlt, -, hseq, -, -, ⟨hmin, hmax, -⟩, -, rfl⟩
    exact ⟨⟨hmin, hmax, hlt, hseq, rfl⟩, rfl⟩
  · rintro ⟨⟨hmin, hmax, hlt, hseq, rfl⟩, rfl⟩
    exact ⟨rfl, by decide, by decide, by decide, hlt, by omega, hseq, UInt32.toNat_lt _, by decide,
      ⟨hmin, hmax, Nat.le_of_lt_succ hlt⟩, by omega, rfl⟩

/-- **A frame header that is accepted is the encoding of what was read**, and the sizes it
declares are consistent and in the bounds. -/
theorem parseFrameHeader_eq_ok {options : WalFileOptions}
    (hlen : bytes.length = kFrameHeaderBytes) :
    parseFrameHeader bytes options = .ok header ↔
      (kMinimumFrameBytes ≤ header.frameSize ∧ header.frameSize ≤ options.maxFrameBytes ∧
        header.frameSize < 2 ^ 64 ∧ header.sequence < 2 ^ 64 ∧
        header.payloadSize + kFrameHeaderBytes + kFrameTrailerBytes = header.frameSize) ∧
      bytes = frameHead header.sequence header.frameSize header.payloadSize := by
  unfold parseFrameHeader StateT.run
  rw [map_eq_ok]
  constructor
  · rintro ⟨⟨header, rest⟩, hp, rfl⟩
    obtain ⟨hbounds, hbytes⟩ := readFrameHeader_ok.mp hp
    exact ⟨hbounds, ((checksummed_iff (length_frameFields _ _ _)).mp ⟨hlen, hbytes⟩).2⟩
  · rintro ⟨hbounds, hbytes⟩
    refine ⟨(header, []), readFrameHeader_ok.mpr ⟨hbounds, ?_⟩, rfl⟩
    exact ((checksummed_iff (length_frameFields _ _ _)).mpr ⟨rfl, hbytes⟩).2

/-- A header that is accepted declares a frame of at least the smallest size. -/
theorem kMinimumFrameBytes_le_of_parseFrameHeader {options : WalFileOptions}
    (h : parseFrameHeader bytes options = .ok header) :
    kMinimumFrameBytes ≤ header.frameSize := by
  obtain ⟨p, hp, rfl⟩ := map_eq_ok.mp h
  exact (readFrameHeader_ok.mp hp).1.1

/-- A frame is at least as long as an empty batch makes it. -/
theorem length_wire_batch_ge (batch : PersistBatch) : kBatchPrefixBytes ≤ batch.wire.length := by
  simp only [PersistBatch.wire, List.length_append, length_leBytes, kBatchPrefixBytes]
  omega

theorem readFrameTrailer_ok {before : Bytes} :
    readFrameTrailer before header input = .ok (u, rest) ↔
      header.frameSize < 2 ^ 64 ∧ input = frameTrailer before header.frameSize ++ rest := by
  simp only [readFrameTrailer, Reader.bind_ok, u32_ok, u64_ok, expectLiteral_ok, Reader.failIf_ok,
    decide_eq_false_iff_not, not_not, existsAndEq, true_and, and_true, exists_const, frameTrailer,
    List.append_assoc]
  constructor
  · rintro ⟨⟨-, rfl⟩, -, hlt⟩
    exact ⟨hlt, rfl⟩
  · rintro ⟨hlt, rfl⟩
    exact ⟨⟨UInt32.toNat_lt _, rfl⟩, by decide, hlt⟩

/-- **A frame is accepted if its trailer is the one of the bytes before it**, and its payload is
accepted. -/
theorem validateCompleteFrame_eq_ok {options : WalFileOptions} {head payload trailer : Bytes}
    (hhead : head.length = kFrameHeaderBytes) (hpayload : payload.length = header.payloadSize)
    (htrailer : trailer.length = kFrameTrailerBytes) :
    validateCompleteFrame (head ++ payload ++ trailer) header options = .ok batch ↔
      (header.frameSize < 2 ^ 64 ∧ trailer = frameTrailer (head ++ payload) header.frameSize) ∧
        decodeBatchPayload payload options.toWalOptions = .ok batch := by
  have hbefore : (head ++ payload).length = kFrameHeaderBytes + header.payloadSize := by
    rw [List.length_append, hhead, hpayload]
  have hmiddle : ((head ++ payload ++ trailer).drop kFrameHeaderBytes).take header.payloadSize =
      payload := by
    rw [List.append_assoc, List.drop_left' hhead, take_append_of_length hpayload]
  unfold validateCompleteFrame StateT.run
  simp only [take_append_of_length hbefore, List.drop_left' hbefore,
    List.take_of_length_le htrailer.le, hmiddle]
  rw [bind_eq_ok]
  constructor
  · rintro ⟨⟨_, rest⟩, hread, hdecode⟩
    obtain ⟨hlt, heq⟩ := readFrameTrailer_ok.mp hread
    refine ⟨⟨hlt, ?_⟩, hdecode⟩
    exact (List.append_inj ((List.append_nil _).trans heq)
      (htrailer.trans (length_frameTrailer _ _).symm)).1
  · rintro ⟨⟨hlt, heq⟩, hdecode⟩
    exact ⟨((), []), readFrameTrailer_ok.mpr ⟨hlt, by rw [heq, List.append_nil]⟩, hdecode⟩

section Parts

variable (sequence : ℕ) (payload : Bytes)

/-- A frame without its trailer. -/
def frameBefore : Bytes :=
  frameHead sequence (frameWire sequence payload).length payload.length ++ payload

theorem frameWire_eq : frameWire sequence payload = frameBefore sequence payload ++
    frameTrailer (frameBefore sequence payload) (frameWire sequence payload).length := by
  unfold frameBefore
  rw [length_frameWire]
  rfl

theorem take_header : (frameWire sequence payload).take kFrameHeaderBytes =
    frameHead sequence (frameWire sequence payload).length payload.length := by
  nth_rewrite 1 [frameWire_eq]
  rw [frameBefore, List.append_assoc]
  exact take_append_of_length (length_frameHead _ _ _)

theorem take_payload : ((frameWire sequence payload).drop kFrameHeaderBytes).take payload.length =
    payload := by
  rw [frameWire_eq, frameBefore, List.append_assoc,
    List.drop_left' (length_frameHead _ _ _)]
  exact take_append_of_length rfl

end Parts

/-- **A whole frame is read back.** -/
theorem validateCompleteFrame_frameWire {options : WalFileOptions} {sequence : ℕ}
    (h : batch.InRange) (hb : batch.Bounded options.toWalOptions)
    (hmax : options.maxKeyBytes < 2 ^ 32 ∧ options.maxValueBytes < 2 ^ 32)
    (hcount : options.maxEntriesPerFrame < 2 ^ 32)
    (hsize : (frameWire sequence batch.wire).length < 2 ^ 64) :
    validateCompleteFrame (frameWire sequence batch.wire)
      ⟨(frameWire sequence batch.wire).length, batch.wire.length, sequence⟩ options =
        .ok batch := by
  have hdecode := (decodeBatchPayload_eq_ok hmax hcount).mpr ⟨⟨h, hb⟩, rfl⟩
  nth_rewrite 1 [frameWire_eq]
  exact (validateCompleteFrame_eq_ok (length_frameHead _ _ _) rfl (length_frameTrailer _ _)).mpr
    ⟨⟨hsize, rfl⟩, hdecode⟩

end Read

end DetLog
