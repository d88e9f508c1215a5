import DetLog.Container.Wire
import DetLog.Model

/-!
# The wire format

What nodes send to each other. A frame is twelve bytes of header and a payload; the payload is
a command, a log entry or one of the four protocol messages. All numbers are unsigned and
big-endian.

The format is strict in both directions: the encoder rejects a value that the decoder would
reject, and the decoder accepts one encoding of each value. That is proved in
`DetLog.Codec.Roundtrip`.

A failure carries the place where it was noticed. The reader knows the offset of the end of its
input, and from it its own position.
-/

namespace DetLog.Codec

open Wire

/-! ### Limits and failures -/

/-- What a node accepts and sends at most. -/
structure Limits where
  maxFrameBytes : ℕ := 1024 * 1024
  maxKeyBytes : ℕ := 4 * 1024
  maxValueBytes : ℕ := 64 * 1024
  maxEntriesPerAppend : ℕ := 256
  deriving DecidableEq, Repr

/-- The errors that the codec reports; success is not one of them here. -/
inductive Error where
  | truncated
  | badMagic
  | unsupportedVersion
  | unknownType
  | nonzeroReserved
  | invalidBoolean
  | invalidValue
  | limitExceeded
  | trailingBytes
  | unexpectedType
  | invalidEnum
  deriving DecidableEq, Repr

/-- The name of an error in logs. -/
def Error.toString : Error → String
  | .truncated => "truncated"
  | .badMagic => "bad_magic"
  | .unsupportedVersion => "unsupported_version"
  | .unknownType => "unknown_type"
  | .nonzeroReserved => "nonzero_reserved"
  | .invalidBoolean => "invalid_boolean"
  | .invalidValue => "invalid_value"
  | .limitExceeded => "limit_exceeded"
  | .trailingBytes => "trailing_bytes"
  | .unexpectedType => "unexpected_type"
  | .invalidEnum => "invalid_enum"

/-- A failed `Result`. -/
structure Failure where
  error : Error
  offset : ℕ
  deriving DecidableEq, Repr

/-- The length of a frame's header. -/
def kHeaderBytes : ℕ := 12

/-- The length of an entry without a command. -/
def kMinimumEntryPayloadBytes : ℕ := 17

/-- The largest length that a field can declare. -/
def maxU32 : ℕ := 2 ^ 32 - 1

/-- `DLOG` -/
def kMagic : Bytes := [68, 76, 79, 71]

/-- The only version there is. -/
def kVersion : Fin 256 := 1

/-- What a payload is. -/
inductive WireType where
  | command
  | logEntry
  | requestVote
  | requestVoteResponse
  | appendEntries
  | appendEntriesResponse
  deriving DecidableEq, Repr

/-- The byte of a type in the header. -/
def WireType.code : WireType → Fin 256
  | command => 1
  | logEntry => 2
  | requestVote => 16
  | requestVoteResponse => 17
  | appendEntries => 18
  | appendEntriesResponse => 19

/-- The cast of a byte to a wire type, with the check of `known_wire_type`. -/
def WireType.ofCode (code : Fin 256) : Option WireType :=
  [WireType.command, .logEntry, .requestVote, .requestVoteResponse, .appendEntries,
    .appendEntriesResponse].find? fun type => type.code = code

/-- The cast of a byte to a command kind, with the check of `known_command_kind`. -/
def kindOfCode (code : Fin 256) : Option CommandKind :=
  [CommandKind.put, .erase, .get].find? fun kind => kind.code = code

/-! ### Validity -/

/-- An index and a term are both zero or both not. -/
def validLogPointer (index term : ℕ) : Bool := (index == 0) == (term == 0)

/-- Only a put carries a value, and the key is never empty. -/
def validCommandSemantics (command : ClientCommand) : Bool :=
  command.sequence ≠ 0 && !command.key.isEmpty &&
    !((command.kind = .erase || command.kind = .get) && !command.value.isEmpty)

/-- The loop of `consecutive_entries`: no entry follows the one with the largest index. -/
def consecutiveFrom (expected : ℕ) : List LogEntry → Bool
  | [] => true
  | entry :: rest =>
    if entry.index ≠ expected then false
    else if expected ≠ maxU64 then consecutiveFrom (expected + 1) rest
    else rest.isEmpty

/-- The entries of a request follow `prevLogIndex` without a gap. -/
def consecutiveEntries (append : AppendEntries) : Bool :=
  if append.entries.isEmpty then true
  else if append.prevLogIndex = maxU64 then false
  else consecutiveFrom (append.prevLogIndex + 1) append.entries

/-! ### The writer -/

/-- A writer knows what is written so far. -/
abbrev Writer := Wire.Writer (Fin 256) Failure

/-- The bytes of a number, most significant first. -/
def beBytes (width value : ℕ) : Bytes := (leBytes width value).reverse

namespace Writer

/-- A failure at the current position. -/
def fail (error : Error) : Writer Unit := fun written => .error ⟨error, written.length⟩

/-- Fails if a check does. -/
def failIf (bad : Bool) (error : Error) : Writer Unit := if bad then fail error else pure ()

variable (limit : ℕ)

/-- The check of `ensure` comes before the bytes. -/
def putBytes (bytes : Bytes) : Writer Unit := fun written =>
  if limit < bytes.length ∨ limit - bytes.length < written.length then
    .error ⟨.limitExceeded, written.length⟩
  else .ok ((), written ++ bytes)

/-- One byte. -/
def putU8 (byte : Fin 256) : Writer Unit := putBytes limit [byte]

/-- A number, the most significant byte first. -/
def putNumber (width value : ℕ) : Writer Unit := (beBytes width value).forM (putU8 limit)

/-- Two bytes. -/
def putU16 (value : ℕ) : Writer Unit := putNumber limit 2 value

/-- Four bytes. -/
def putU32 (value : ℕ) : Writer Unit := putNumber limit 4 value

/-- Eight bytes. -/
def putU64 (value : ℕ) : Writer Unit := putNumber limit 8 value

/-- A flag is one byte. -/
def putBool (value : Bool) : Writer Unit := putU8 limit (if value then 1 else 0)

/-- A length and the bytes. -/
def putString (value : Bytes) (fieldLimit : ℕ) : Writer Unit := do
  failIf (fieldLimit < value.length ∨ maxU32 < value.length) .limitExceeded
  putU32 limit value.length
  putBytes limit value

end Writer

section Write

variable (limit : ℕ) (limits : Limits)

open Writer

/-- The kind of a command is known by its type. -/
def writeCommandPayload (command : ClientCommand) : Writer Unit := do
  failIf (!validCommandSemantics command) .invalidValue
  putU64 limit command.session.high
  putU64 limit command.session.low
  putU64 limit command.sequence
  putU8 limit command.kind.code
  putString limit command.key limits.maxKeyBytes
  putString limit command.value limits.maxValueBytes

/-- The entry of a new leader has no command. -/
def writeEntryPayload (entry : LogEntry) : Writer Unit := do
  failIf (entry.index = 0 ∨ entry.term = 0) .invalidValue
  putU64 limit entry.index
  putU64 limit entry.term
  putBool limit entry.command.isSome
  entry.command.elim (pure ()) (writeCommandPayload limit limits)

/-- The position in a vote request is checked as the reader checks it. -/
def writeRequestVote (value : RequestVote) : Writer Unit := do
  failIf (value.term = 0 ∨ value.candidateId = 0 ∨
    !validLogPointer value.lastLogIndex value.lastLogTerm) .invalidValue
  putU64 limit value.term
  putU32 limit value.candidateId
  putU64 limit value.lastLogIndex
  putU64 limit value.lastLogTerm

/-- A vote has a term, whether or not it is granted. -/
def writeRequestVoteResponse (value : RequestVoteResponse) : Writer Unit := do
  failIf (value.term = 0) .invalidValue
  putU64 limit value.term
  putBool limit value.voteGranted

/-- The entries stand before the commit index. -/
def writeAppendEntries (value : AppendEntries) : Writer Unit := do
  failIf (value.term = 0 ∨ value.leaderId = 0 ∨ value.rpcId = 0 ∨
    !validLogPointer value.prevLogIndex value.prevLogTerm) .invalidValue
  failIf (limits.maxEntriesPerAppend < value.entries.length ∨ maxU32 < value.entries.length)
    .limitExceeded
  failIf (!consecutiveEntries value) .invalidValue
  putU64 limit value.term
  putU32 limit value.leaderId
  putU64 limit value.rpcId
  putU64 limit value.prevLogIndex
  putU64 limit value.prevLogTerm
  putU32 limit value.entries.length
  value.entries.forM (writeEntryPayload limit limits)
  putU64 limit value.leaderCommit

/-- The answer names the call it belongs to. -/
def writeAppendEntriesResponse (value : AppendEntriesResponse) : Writer Unit := do
  failIf (value.term = 0 ∨ value.rpcId = 0) .invalidValue
  putU64 limit value.term
  putU64 limit value.rpcId
  putBool limit value.success
  putU64 limit value.matchIndex
  putU64 limit value.conflictIndex
  putU64 limit value.conflictTerm

end Write

/-- What a frame leaves for its payload. -/
def payloadLimit (limits : Limits) : ℕ :=
  if limits.maxFrameBytes < kHeaderBytes then 0
  else min (limits.maxFrameBytes - kHeaderBytes) maxU32

/-- The header of a frame. -/
def writeHeader (limit : ℕ) (type : WireType) (payload : Bytes) : Writer Unit := do
  kMagic.forM (Writer.putU8 limit)
  Writer.putU8 limit kVersion
  Writer.putU8 limit type.code
  Writer.putU16 limit 0
  Writer.putU32 limit payload.length
  Writer.putBytes limit payload

/-- A payload that was not written fails behind the header of its frame. -/
def frame (type : WireType) (writer : Writer Unit) (limits : Limits) : Except Failure Bytes :=
  match writer.run [] with
  | .error failure => .error ⟨failure.error, kHeaderBytes + failure.offset⟩
  | .ok (_, payload) =>
    if limits.maxFrameBytes < kHeaderBytes ∨ payloadLimit limits < payload.length then
      .error ⟨.limitExceeded, 0⟩
    else Prod.snd <$> (writeHeader limits.maxFrameBytes type payload).run []

/-- The frame of a command. -/
def encodeCommand (command : ClientCommand) (limits : Limits) : Except Failure Bytes :=
  frame .command (writeCommandPayload (payloadLimit limits) limits command) limits

/-- The frame of an entry. -/
def encodeLogEntry (entry : LogEntry) (limits : Limits) : Except Failure Bytes :=
  frame .logEntry (writeEntryPayload (payloadLimit limits) limits entry) limits

/-- The frame of a protocol message. -/
def encodeMessage (message : Message) (limits : Limits) : Except Failure Bytes :=
  let limit := payloadLimit limits
  match message with
  | .requestVote value => frame .requestVote (writeRequestVote limit value) limits
  | .requestVoteResponse value =>
    frame .requestVoteResponse (writeRequestVoteResponse limit value) limits
  | .appendEntries value => frame .appendEntries (writeAppendEntries limit limits value) limits
  | .appendEntriesResponse value =>
    frame .appendEntriesResponse (writeAppendEntriesResponse limit value) limits

/-! ### The reader -/

/-- A reader keeps what is left. -/
abbrev Reader := Wire.Reader (Fin 256) Failure

/-- The number that bytes denote, the most significant first. -/
def beValue (bytes : Bytes) : ℕ :=
  bytes.foldl (fun (value : ℕ) (byte : Fin 256) => value * 256 + byte.val) 0

namespace Reader

/-! The reader is told where its input ends, so that it knows where it stands. -/

variable (stop : ℕ)

/-- A failure at the current position. -/
def fail {α : Type} (error : Error) : Reader α := fun input =>
  .error ⟨error, stop - input.length⟩

/-- Fails if a check does. -/
def failIf (bad : Bool) (error : Error) : Reader Unit := if bad then fail stop error else pure ()

/-- One byte; the end of the input is the only failure. -/
def getU8 : Reader (Fin 256)
  | [] => .error ⟨.truncated, stop⟩
  | byte :: rest => .ok (byte, rest)

/-- A big-endian number. -/
def getNumber (width : ℕ) : Reader ℕ := beValue <$> Wire.Reader.many (getU8 stop) width

/-- Two bytes. -/
def getU16 : Reader ℕ := getNumber stop 2

/-- Four bytes. -/
def getU32 : Reader ℕ := getNumber stop 4

/-- Eight bytes. -/
def getU64 : Reader ℕ := getNumber stop 8

/-- The limit is checked before the length is compared with what is left. -/
def getString (fieldLimit : ℕ) : Reader Bytes := do
  let length ← getU32 stop
  failIf stop (fieldLimit < length) .limitExceeded
  let left ← Wire.Reader.remaining
  failIf stop (left < length) .truncated
  Wire.Reader.take ⟨.truncated, stop⟩ length

/-- A flag is 0 or 1, so that it has one encoding. -/
def getBool : Reader Bool := do
  let raw ← getU8 stop
  failIf stop (1 < raw) .invalidBoolean
  pure (raw = 1)

/-- A value that a check has to let through. -/
def require {α : Type} (value : Option α) (error : Error) : Reader α :=
  value.elim (fail stop error) pure

end Reader

section Read

variable (stop : ℕ) (limits : Limits)

open Reader

/-- The fields of a command and then their check. -/
def readCommandPayload : Reader ClientCommand := do
  let high ← getU64 stop
  let low ← getU64 stop
  let sequence ← getU64 stop
  let code ← getU8 stop
  let kind ← require stop (kindOfCode code) .invalidEnum
  let key ← getString stop limits.maxKeyBytes
  let value ← getString stop limits.maxValueBytes
  let command : ClientCommand := { session := { high, low }, sequence, kind, key, value }
  failIf stop (!validCommandSemantics command) .invalidValue
  pure command

/-- The flag decides whether a command follows. -/
def readEntryPayload : Reader LogEntry := do
  let index ← getU64 stop
  let term ← getU64 stop
  let hasCommand ← getBool stop
  failIf stop (index = 0 ∨ term = 0) .invalidValue
  let command ← Wire.Reader.optional hasCommand (readCommandPayload stop limits)
  pure { index, term, command }

/-- Its fields are checked by `decodeMessage`. -/
def readRequestVote : Reader RequestVote := do
  let term ← getU64 stop
  let candidateId ← getU32 stop
  let lastLogIndex ← getU64 stop
  let lastLogTerm ← getU64 stop
  pure { term, candidateId, lastLogIndex, lastLogTerm }

/-- Its term is checked by `decodeMessage`. -/
def readRequestVoteResponse : Reader RequestVoteResponse := do
  let term ← getU64 stop
  let voteGranted ← getBool stop
  pure { term, voteGranted }

/-- Each entry takes at least 17 bytes and the commit index takes 8, so the declared count is
checked against what is left before any entry is read. -/
def readAppendEntries : Reader AppendEntries := do
  let term ← getU64 stop
  let leaderId ← getU32 stop
  let rpcId ← getU64 stop
  let prevLogIndex ← getU64 stop
  let prevLogTerm ← getU64 stop
  let count ← getU32 stop
  failIf stop (term = 0 ∨ leaderId = 0 ∨ rpcId = 0 ∨ !validLogPointer prevLogIndex prevLogTerm)
    .invalidValue
  failIf stop (limits.maxEntriesPerAppend < count) .limitExceeded
  let left ← Wire.Reader.remaining
  failIf stop (left < 8 ∨ (left - 8) / kMinimumEntryPayloadBytes < count) .truncated
  let entries ← Wire.Reader.many (readEntryPayload stop limits) count
  let leaderCommit ← getU64 stop
  let append : AppendEntries :=
    { term, leaderId, rpcId, prevLogIndex, prevLogTerm, entries, leaderCommit }
  failIf stop (!consecutiveEntries append) .invalidValue
  pure append

/-- Its fields are checked by `decodeMessage`. -/
def readAppendEntriesResponse : Reader AppendEntriesResponse := do
  let term ← getU64 stop
  let rpcId ← getU64 stop
  let success ← getBool stop
  let matchIndex ← getU64 stop
  let conflictIndex ← getU64 stop
  let conflictTerm ← getU64 stop
  pure { term, rpcId, success, matchIndex, conflictIndex, conflictTerm }

end Read

/-- A frame whose header is accepted. -/
structure ParsedFrame where
  type : WireType
  payload : Bytes
  deriving DecidableEq, Repr

/-- One round of the loop over the magic bytes. -/
def expectByte (stop : ℕ) (expected : Fin 256) : Reader Unit := do
  let actual ← Reader.getU8 stop
  let left ← Wire.Reader.remaining
  if actual ≠ expected then throw ⟨.badMagic, stop - left - 1⟩ else pure ()

/-- The fields of a header: version, type, reserved and length. -/
def readHeader (stop : ℕ) : Reader (Fin 256 × Fin 256 × ℕ × ℕ) := do
  kMagic.forM (expectByte stop)
  let version ← Reader.getU8 stop
  let rawType ← Reader.getU8 stop
  let reserved ← Reader.getU16 stop
  let length ← Reader.getU32 stop
  pure (version, rawType, reserved, length)

/-- The header is checked field by field, in this order. -/
def parseFrame (bytes : Bytes) (limits : Limits) : Except Failure ParsedFrame :=
  if limits.maxFrameBytes < bytes.length then .error ⟨.limitExceeded, 0⟩
  else do
    let ((version, rawType, reserved, length), rest) ← (readHeader bytes.length).run bytes
    if version ≠ kVersion then .error ⟨.unsupportedVersion, 4⟩
    else match WireType.ofCode rawType with
      | none => .error ⟨.unknownType, 5⟩
      | some type =>
        if reserved ≠ 0 then .error ⟨.nonzeroReserved, 6⟩
        else if payloadLimit limits < length then .error ⟨.limitExceeded, 8⟩
        else if rest.length < length then .error ⟨.truncated, kHeaderBytes⟩
        else if length < rest.length then .error ⟨.trailingBytes, kHeaderBytes + length⟩
        else .ok { type, payload := (bytes.drop kHeaderBytes).take length }

/-- The reader is given the offset where the payload ends. -/
def decodeExact {α : Type} (parsed : ParsedFrame) (decode : ℕ → Reader α) : Except Failure α := do
  let stop := kHeaderBytes + parsed.payload.length
  let (value, rest) ← (decode stop).run parsed.payload
  if rest ≠ [] then .error ⟨.trailingBytes, stop - rest.length⟩ else .ok value

/-- A frame that holds a command and nothing else. -/
def decodeCommand (bytes : Bytes) (limits : Limits) : Except Failure ClientCommand := do
  let parsed ← parseFrame bytes limits
  if parsed.type ≠ .command then .error ⟨.unexpectedType, 5⟩
  else decodeExact parsed fun stop => readCommandPayload stop limits

/-- A frame that holds an entry and nothing else. -/
def decodeLogEntry (bytes : Bytes) (limits : Limits) : Except Failure LogEntry := do
  let parsed ← parseFrame bytes limits
  if parsed.type ≠ .logEntry then .error ⟨.unexpectedType, 5⟩
  else decodeExact parsed fun stop => readEntryPayload stop limits

/-- A frame that holds a protocol message and nothing else. -/
def decodeMessage (bytes : Bytes) (limits : Limits) : Except Failure Message := do
  let parsed ← parseFrame bytes limits
  match parsed.type with
  | .requestVote =>
    let decoded ← decodeExact parsed readRequestVote
    if decoded.term = 0 ∨ decoded.candidateId = 0 ∨
        !validLogPointer decoded.lastLogIndex decoded.lastLogTerm then
      .error ⟨.invalidValue, kHeaderBytes⟩
    else .ok (.requestVote decoded)
  | .requestVoteResponse =>
    let decoded ← decodeExact parsed readRequestVoteResponse
    if decoded.term = 0 then .error ⟨.invalidValue, kHeaderBytes⟩
    else .ok (.requestVoteResponse decoded)
  | .appendEntries =>
    let decoded ← decodeExact parsed fun stop => readAppendEntries stop limits
    .ok (.appendEntries decoded)
  | .appendEntriesResponse =>
    let decoded ← decodeExact parsed readAppendEntriesResponse
    if decoded.term = 0 ∨ decoded.rpcId = 0 then .error ⟨.invalidValue, kHeaderBytes⟩
    else .ok (.appendEntriesResponse decoded)
  | .command | .logEntry => .error ⟨.unexpectedType, 5⟩

end DetLog.Codec
