import DetLog.Codec

/-!
# The wire format is a bijection

The encoder and the decoder are written separately, field by field, with their own checks and
limits. Both are brought to one description of each payload, its bytes and the condition on its
fields: `DetLog.Wire.Writes` says that the encoder succeeds just then and writes those bytes,
`DetLog.Wire.Parses` that the decoder accepts nothing else. Frames are treated in the same way,
and the two descriptions of a whole frame are then the same: `DetLog.Codec.decode_eq_ok_iff`.
-/

namespace DetLog.Codec

open Wire

/-! ### What is written -/

section Written

variable {limit : ℕ} {limits : Limits} {bytes : Bytes}

theorem writes_failIf (limit : ℕ) (bad : Bool) (error : Error) :
    Writes (Writer.failIf bad error) limit (bad = false) [] := by
  cases bad with
  | true =>
    intro old _ r
    exact iff_of_false (fun h => (nomatch h)) fun h => (nomatch h.1)
  | false => exact (Writes.pure limit).congr (by simp)

theorem writes_putBytes (limit : ℕ) (bytes : Bytes) :
    Writes (Writer.putBytes limit bytes) limit True bytes :=
  .of_room (fun old h => if_neg (by omega)) fun old r _ h => by
    rw [Writer.putBytes, if_pos (by omega)]
    simp

theorem writes_putU8 (limit : ℕ) (byte : Fin 256) :
    Writes (Writer.putU8 limit byte) limit True [byte] := writes_putBytes limit [byte]

/-- Bytes one by one. -/
theorem writes_forM_putU8 (limit : ℕ) (bytes : Bytes) :
    Writes (bytes.forM (Writer.putU8 limit)) limit True bytes := by
  have h := (Writes.forM (writes_putU8 limit) bytes).congr (Q := True) (by simp)
  rwa [List.flatMap_singleton'] at h

theorem writes_putNumber (limit width value : ℕ) :
    Writes (Writer.putNumber limit width value) limit True (beBytes width value) :=
  writes_forM_putU8 limit _

/-- A string behind its length. -/
def stringWire (value : Bytes) : Bytes := beBytes 4 value.length ++ value

theorem writes_putString (limit : ℕ) (value : Bytes) (fieldLimit : ℕ) :
    Writes (Writer.putString limit value fieldLimit) limit
      (value.length ≤ fieldLimit ∧ value.length ≤ maxU32) (stringWire value) :=
  ((writes_failIf _ _ _).bind ((writes_putNumber _ _ _).bind (writes_putBytes _ _))).congr
    (by simp)

/-! **The payloads.** Each payload has its bytes, and the condition under which it is written. -/

/-- The bytes of a command. -/
def commandWire (command : ClientCommand) : Bytes :=
  beBytes 8 command.session.high ++ (beBytes 8 command.session.low ++
    (beBytes 8 command.sequence ++ ([command.kind.code] ++
      (stringWire command.key ++ stringWire command.value))))

/-- A command that can be sent. -/
structure CommandOk (limits : Limits) (command : ClientCommand) : Prop where
  semantics : validCommandSemantics command = true
  key : command.key.length ≤ limits.maxKeyBytes ∧ command.key.length ≤ maxU32
  value : command.value.length ≤ limits.maxValueBytes ∧ command.value.length ≤ maxU32

theorem writes_writeCommandPayload (command : ClientCommand) :
    Writes (writeCommandPayload limit limits command) limit (CommandOk limits command)
      (commandWire command) :=
  ((writes_failIf _ _ _).bind ((writes_putNumber _ _ _).bind ((writes_putNumber _ _ _).bind
    ((writes_putNumber _ _ _).bind ((writes_putU8 _ _).bind ((writes_putString _ _ _).bind
      (writes_putString _ _ _))))))).congr
    ⟨fun h => ⟨by simpa using h.1, h.2.2.2.2.2.1, h.2.2.2.2.2.2⟩,
      fun h => ⟨by simpa using h.1, trivial, trivial, trivial, trivial, h.2, h.3⟩⟩

/-- The byte of a flag. -/
def boolWire (value : Bool) : Bytes := [if value then 1 else 0]

/-- The bytes of an entry. -/
def entryWire (entry : LogEntry) : Bytes :=
  beBytes 8 entry.index ++ (beBytes 8 entry.term ++
    (boolWire entry.command.isSome ++ entry.command.elim [] commandWire))

/-- An entry that can be sent. -/
structure EntryOk (limits : Limits) (entry : LogEntry) : Prop where
  index : entry.index ≠ 0
  term : entry.term ≠ 0
  command : ∀ command, entry.command = some command → CommandOk limits command

theorem writes_writeEntryPayload (entry : LogEntry) :
    Writes (writeEntryPayload limit limits entry) limit (EntryOk limits entry)
      (entryWire entry) :=
  ((writes_failIf _ _ _).bind ((writes_putNumber _ _ _).bind ((writes_putNumber _ _ _).bind
    ((writes_putU8 _ _).bind (Writes.optional writes_writeCommandPayload))))).congr
    ⟨fun h => ⟨(by simpa using h.1 : _ ∧ _).1, (by simpa using h.1 : _ ∧ _).2, h.2.2.2.2⟩,
      fun h => ⟨by simpa using And.intro h.1 h.2, trivial, trivial, trivial, h.3⟩⟩

/-- A request that can be sent. -/
structure AppendEntriesOk (limits : Limits) (m : AppendEntries) : Prop where
  term : m.term ≠ 0
  leaderId : m.leaderId ≠ 0
  rpcId : m.rpcId ≠ 0
  pointer : validLogPointer m.prevLogIndex m.prevLogTerm = true
  count : m.entries.length ≤ limits.maxEntriesPerAppend ∧ m.entries.length ≤ maxU32
  consecutive : consecutiveEntries m = true
  entries : ∀ entry ∈ m.entries, EntryOk limits entry

/-- The bytes of a request. -/
def appendEntriesWire (m : AppendEntries) : Bytes :=
  beBytes 8 m.term ++ (beBytes 4 m.leaderId ++ (beBytes 8 m.rpcId ++
    (beBytes 8 m.prevLogIndex ++ (beBytes 8 m.prevLogTerm ++ (beBytes 4 m.entries.length ++
      (m.entries.flatMap entryWire ++ beBytes 8 m.leaderCommit))))))

theorem writes_writeAppendEntries (m : AppendEntries) :
    Writes (writeAppendEntries limit limits m) limit (AppendEntriesOk limits m)
      (appendEntriesWire m) := by
  refine ((writes_failIf _ _ _).bind ((writes_failIf _ _ _).bind ((writes_failIf _ _ _).bind
    ((writes_putNumber _ _ _).bind ((writes_putNumber _ _ _).bind ((writes_putNumber _ _ _).bind
      ((writes_putNumber _ _ _).bind ((writes_putNumber _ _ _).bind ((writes_putNumber _ _ _).bind
        ((Writes.forM writes_writeEntryPayload _).bind (writes_putNumber _ _ _))))))))))).congr ?_
  simp only [decide_eq_false_iff_not, not_or, not_lt, Bool.not_eq_true', Bool.not_eq_false,
    Bool.not_eq_false', true_and, and_true]
  constructor
  · rintro ⟨⟨hterm, hleader, hrpc, hpointer⟩, hcount, hconsecutive, hentries⟩
    exact ⟨hterm, hleader, hrpc, hpointer, hcount, hconsecutive, hentries⟩
  · exact fun h => ⟨⟨h.term, h.leaderId, h.rpcId, h.pointer⟩, h.count, h.consecutive, h.entries⟩

/-- The type of a message. -/
def messageType : Message → WireType
  | .requestVote _ => .requestVote
  | .requestVoteResponse _ => .requestVoteResponse
  | .appendEntries _ => .appendEntries
  | .appendEntriesResponse _ => .appendEntriesResponse

/-- The bytes of a message. -/
def messageWire : Message → Bytes
  | .requestVote m => beBytes 8 m.term ++ (beBytes 4 m.candidateId ++
      (beBytes 8 m.lastLogIndex ++ beBytes 8 m.lastLogTerm))
  | .requestVoteResponse m => beBytes 8 m.term ++ boolWire m.voteGranted
  | .appendEntries m => appendEntriesWire m
  | .appendEntriesResponse m => beBytes 8 m.term ++ (beBytes 8 m.rpcId ++
      (boolWire m.success ++ (beBytes 8 m.matchIndex ++
        (beBytes 8 m.conflictIndex ++ beBytes 8 m.conflictTerm))))

/-- **What the format asks of a message**, apart from the size of its frame. -/
def MessageOk (limits : Limits) : Message → Prop
  | .requestVote m => m.term ≠ 0 ∧ m.candidateId ≠ 0 ∧
      validLogPointer m.lastLogIndex m.lastLogTerm = true
  | .requestVoteResponse m => m.term ≠ 0
  | .appendEntries m => AppendEntriesOk limits m
  | .appendEntriesResponse m => m.term ≠ 0 ∧ m.rpcId ≠ 0

theorem writes_writeRequestVote (m : RequestVote) :
    Writes (writeRequestVote limit m) limit (MessageOk limits (.requestVote m))
      (messageWire (.requestVote m)) :=
  ((writes_failIf _ _ _).bind ((writes_putNumber _ _ _).bind ((writes_putNumber _ _ _).bind
    ((writes_putNumber _ _ _).bind (writes_putNumber _ _ _))))).congr (by simp [MessageOk])

theorem writes_writeRequestVoteResponse (m : RequestVoteResponse) :
    Writes (writeRequestVoteResponse limit m) limit (MessageOk limits (.requestVoteResponse m))
      (messageWire (.requestVoteResponse m)) :=
  ((writes_failIf _ _ _).bind ((writes_putNumber _ _ _).bind (writes_putU8 _ _))).congr
    (by simp [MessageOk])

theorem writes_writeAppendEntriesResponse (m : AppendEntriesResponse) :
    Writes (writeAppendEntriesResponse limit m) limit
      (MessageOk limits (.appendEntriesResponse m)) (messageWire (.appendEntriesResponse m)) :=
  ((writes_failIf _ _ _).bind ((writes_putNumber _ _ _).bind ((writes_putNumber _ _ _).bind
    ((writes_putU8 _ _).bind ((writes_putNumber _ _ _).bind ((writes_putNumber _ _ _).bind
      (writes_putNumber _ _ _))))))).congr (by simp [MessageOk])

/-! **Frames.** -/

/-- The bytes of a frame. -/
def frameWire (type : WireType) (payload : Bytes) : Bytes :=
  kMagic ++ ([kVersion] ++ ([type.code] ++ (beBytes 2 0 ++
    (beBytes 4 payload.length ++ payload))))

/-- **These bytes are the frame of a payload**, and the limits have room for it. -/
structure Framed (limits : Limits) (type : WireType) (payload bytes : Bytes) : Prop where
  header : kHeaderBytes ≤ limits.maxFrameBytes
  room : payload.length ≤ payloadLimit limits
  bytes : bytes = frameWire type payload

theorem length_beBytes (width value : ℕ) : (beBytes width value).length = width := by
  rw [beBytes, List.length_reverse, length_leBytes]

theorem length_frameWire (type : WireType) (payload : Bytes) :
    (frameWire type payload).length = kHeaderBytes + payload.length := by
  simp only [frameWire, List.length_append, length_beBytes, List.length_singleton]
  simp only [kMagic, List.length_cons, List.length_nil, kHeaderBytes]
  omega

theorem writes_writeHeader (limit : ℕ) (type : WireType) (payload : Bytes) :
    Writes (writeHeader limit type payload) limit True (frameWire type payload) :=
  ((writes_forM_putU8 _ _).bind ((writes_putU8 _ _).bind ((writes_putU8 _ _).bind
    ((writes_putNumber _ _ _).bind ((writes_putNumber _ _ _).bind
      (writes_putBytes _ _)))))).congr (by simp)

/-- **A frame is made if its payload can be written and the limits have room for both.** -/
theorem frame_eq_ok {type : WireType} {writer : Writer Unit} {P : Prop} {payload bytes : Bytes}
    (h : Writes writer (payloadLimit limits) P payload) :
    frame type writer limits = .ok bytes ↔ P ∧ Framed limits type payload bytes := by
  have hrun := fun r => h [] (Nat.zero_le _) r
  rw [List.length_nil, Nat.zero_add, List.nil_append] at hrun
  unfold frame
  constructor
  · intro hok
    split at hok
    · cases hok
    · rename_i written hwritten
      obtain ⟨hP, hroom, hr⟩ := (hrun _).mp hwritten
      obtain rfl := (Prod.mk.inj hr).2
      split_ifs at hok with hsize
      obtain ⟨-, -, rfl⟩ := (writes_writeHeader _ _ _).run.mp hok
      exact ⟨hP, by omega, hroom, rfl⟩
  · rintro ⟨hP, hheader, hroom, rfl⟩
    have hwritten : writer.run [] = .ok ((), payload) := (hrun _).mpr ⟨hP, hroom, rfl⟩
    have hlimit : payloadLimit limits ≤ limits.maxFrameBytes - kHeaderBytes := by
      rw [payloadLimit, if_neg (by omega)]
      exact min_le_left _ _
    rw [hwritten]
    dsimp only
    rw [if_neg (by omega), (writes_writeHeader _ _ _).run, length_frameWire]
    exact ⟨trivial, by omega, rfl⟩

theorem encodeCommand_eq_ok {command : ClientCommand} :
    encodeCommand command limits = .ok bytes ↔
      CommandOk limits command ∧ Framed limits .command (commandWire command) bytes :=
  frame_eq_ok (writes_writeCommandPayload command)

theorem encodeLogEntry_eq_ok {entry : LogEntry} :
    encodeLogEntry entry limits = .ok bytes ↔
      EntryOk limits entry ∧ Framed limits .logEntry (entryWire entry) bytes :=
  frame_eq_ok (writes_writeEntryPayload entry)

/-- **What is encoded**: a message within the limits, as its frame. -/
theorem encodeMessage_eq_ok {message : Message} :
    encodeMessage message limits = .ok bytes ↔ MessageOk limits message ∧
      Framed limits (messageType message) (messageWire message) bytes := by
  cases message with
  | requestVote m => exact frame_eq_ok (writes_writeRequestVote m)
  | requestVoteResponse m => exact frame_eq_ok (writes_writeRequestVoteResponse m)
  | appendEntries m => exact frame_eq_ok (writes_writeAppendEntries m)
  | appendEntriesResponse m => exact frame_eq_ok (writes_writeAppendEntriesResponse m)

end Written

/-! ### What is read -/

section ReadBack

variable {stop : ℕ} {limits : Limits} {input rest : Bytes} {bytes : Bytes} {u : Unit}

theorem beValue_eq (bytes : Bytes) : beValue bytes = leValue bytes.reverse := by
  induction bytes using List.reverseRecOn with
  | nil => rfl
  | append_singleton bytes b ih =>
    rw [List.reverse_append, List.reverse_singleton, List.singleton_append, leValue, ← ih,
      beValue, List.foldl_append]
    show beValue bytes * 256 + b = _
    omega

theorem failIf_ok {bad : Bool} {error : Error} :
    Reader.failIf stop bad error input = .ok (u, rest) ↔ bad = false ∧ input = rest := by
  cases bad with
  | true => exact iff_of_false (fun h => (nomatch h)) fun h => (nomatch h.1)
  | false => exact Wire.Reader.pure_ok.trans (and_congr_left' (iff_of_true rfl rfl))

theorem getU8_ok {byte : Fin 256} :
    Reader.getU8 stop input = .ok (byte, rest) ↔ input = byte :: rest := by
  cases input with
  | nil => exact iff_of_false (fun h => (nomatch h)) fun h => (nomatch h)
  | cons b input =>
    change Except.ok (b, input) = _ ↔ _
    rw [Except.ok.injEq, Prod.mk.injEq, List.cons.injEq]

theorem parses_getU8 : Parses (Reader.getU8 stop) (fun byte => [byte]) fun _ => True :=
  fun _ _ _ => getU8_ok.trans (iff_of_eq (true_and _).symm)

/-- **A number is read back**, and its bytes are the only ones that are read so. -/
theorem getNumber_ok {width value : ℕ} : Reader.getNumber stop width input = .ok (value, rest) ↔
    value < 256 ^ width ∧ input = beBytes width value ++ rest := by
  unfold Reader.getNumber
  simp only [Wire.Reader.map_ok, parses_getU8.many, List.flatMap_singleton', beValue_eq]
  constructor
  · rintro ⟨bytes, ⟨rfl, -, rfl⟩, rfl⟩
    have hlength : bytes.reverse.length = bytes.length := List.length_reverse
    refine ⟨hlength ▸ leValue_lt bytes.reverse, ?_⟩
    rw [beBytes, ← hlength, leBytes_leValue, List.reverse_reverse]
  · rintro ⟨hvalue, rfl⟩
    refine ⟨beBytes width value, ⟨length_beBytes _ _, fun _ _ => trivial, rfl⟩, ?_⟩
    rw [beBytes, List.reverse_reverse, leValue_leBytes hvalue]

theorem getU64_ok {value : ℕ} : Reader.getU64 stop input = .ok (value, rest) ↔
    value < 2 ^ 64 ∧ input = beBytes 8 value ++ rest := getNumber_ok

theorem getU32_ok {value : ℕ} : Reader.getU32 stop input = .ok (value, rest) ↔
    value < 2 ^ 32 ∧ input = beBytes 4 value ++ rest := getNumber_ok

theorem getBool_ok {value : Bool} : Reader.getBool stop input = .ok (value, rest) ↔
    input = boolWire value ++ rest := by
  unfold Reader.getBool boolWire
  simp only [Wire.Reader.bind_ok, getU8_ok, failIf_ok, Wire.Reader.pure_ok, existsAndEq,
    and_true, exists_const, List.singleton_append]
  constructor
  · rintro ⟨raw, rfl, hraw, rfl⟩
    have hcases : raw = 0 ∨ raw = 1 := by
      simp only [decide_eq_false_iff_not, Fin.lt_def] at hraw
      omega
    rcases hcases with rfl | rfl <;> rfl
  · rintro rfl
    cases value with
    | false => exact ⟨0, rfl, rfl, rfl⟩
    | true => exact ⟨1, rfl, rfl, rfl⟩

theorem require_ok {α : Type} {o : Option α} {error : Error} {a : α} :
    Reader.require stop o error input = .ok (a, rest) ↔ o = some a ∧ input = rest := by
  cases o with
  | none => exact iff_of_false (fun h => (nomatch h)) fun h => (nomatch h.1)
  | some b => exact Wire.Reader.pure_ok.trans (and_congr_left' (by rw [Option.some.injEq]))

theorem getString_ok {fieldLimit : ℕ} {value : Bytes} :
    Reader.getString stop fieldLimit input = .ok (value, rest) ↔
      (value.length ≤ fieldLimit ∧ value.length ≤ maxU32) ∧
        input = stringWire value ++ rest := by
  unfold Reader.getString stringWire
  simp only [Wire.Reader.bind_ok, getU32_ok, failIf_ok, Wire.Reader.remaining_ok,
    Wire.Reader.take_ok, existsAndEq, true_and, and_true, exists_const]
  have hmax : 2 ^ 32 = maxU32 + 1 := rfl
  constructor
  · rintro ⟨⟨hlength, rfl⟩, hlimit, -⟩
    simp only [decide_eq_false_iff_not] at hlimit
    exact ⟨⟨by omega, by omega⟩, (List.append_assoc _ _ _).symm⟩
  · rintro ⟨⟨hlimit, hlength⟩, rfl⟩
    refine ⟨⟨by omega, List.append_assoc _ _ _⟩, ?_, ?_⟩
    · simpa using hlimit
    · simp

theorem kindOfCode_eq {code : Fin 256} {kind : CommandKind} :
    kindOfCode code = some kind ↔ code = kind.code := by
  constructor
  · intro h
    have hcode := List.find?_some h
    exact (of_decide_eq_true hcode).symm
  · rintro rfl
    cases kind <;> rfl

theorem ofCode_eq {code : Fin 256} {type : WireType} :
    WireType.ofCode code = some type ↔ code = type.code := by
  constructor
  · intro h
    have hcode := List.find?_some h
    exact (of_decide_eq_true hcode).symm
  · rintro rfl
    cases type <;> rfl

/-- **A command is read back**, and it has one encoding. -/
theorem parses_readCommandPayload : Parses (readCommandPayload stop limits) commandWire
    fun command => command.InRange ∧ CommandOk limits command := by
  rintro input ⟨⟨high, low⟩, sequence, kind, key, value⟩ rest
  simp only [readCommandPayload, Wire.Reader.bind_ok, getU64_ok, getU8_ok, require_ok,
    kindOfCode_eq, getString_ok, failIf_ok, Wire.Reader.pure_ok, ClientCommand.mk.injEq,
    SessionId.mk.injEq, existsAndEq, true_and, and_true, exists_const, Bool.not_eq_false',
    commandWire, List.append_assoc, List.cons_append]
  constructor
  · rintro ⟨⟨hhigh, rfl⟩, hlow, hsequence, hkey, hvalue, hok⟩
    exact ⟨⟨⟨hhigh, hlow, hsequence⟩, hok, hkey, hvalue⟩, rfl⟩
  · rintro ⟨⟨⟨hhigh, hlow, hsequence⟩, hok, hkey, hvalue⟩, rfl⟩
    exact ⟨⟨hhigh, rfl⟩, hlow, hsequence, hkey, hvalue, hok⟩

/-- The reader of entries undoes their writer. -/
theorem parses_readEntryPayload : Parses (readEntryPayload stop limits) entryWire
    fun entry => entry.InRange ∧ EntryOk limits entry := by
  rintro input ⟨index, term, command⟩ rest
  simp only [readEntryPayload, Wire.Reader.bind_ok, getU64_ok, getBool_ok, failIf_ok,
    parses_readCommandPayload.optional, Wire.Reader.pure_ok, LogEntry.mk.injEq, existsAndEq,
    true_and, and_true, exists_const, decide_eq_false_iff_not, not_or, entryWire,
    List.append_assoc]
  constructor
  · rintro ⟨⟨hindex, rfl⟩, hterm, ⟨hindex', hterm'⟩, hcommand⟩
    exact ⟨⟨⟨hindex, hterm, fun c hc => (hcommand c hc).1⟩, hindex', hterm',
      fun c hc => (hcommand c hc).2⟩, rfl⟩
  · rintro ⟨⟨⟨hindex, hterm, hrange⟩, hindex', hterm', hok⟩, rfl⟩
    exact ⟨⟨hindex, rfl⟩, hterm, ⟨hindex', hterm'⟩, fun c hc => ⟨hrange c hc, hok c hc⟩⟩

theorem parses_readRequestVote : Parses (readRequestVote stop)
    (fun m => messageWire (.requestVote m)) fun m => (Message.requestVote m).InRange := by
  rintro input ⟨term, candidateId, lastLogIndex, lastLogTerm⟩ rest
  simp only [readRequestVote, Wire.Reader.bind_ok, getU64_ok, getU32_ok, Wire.Reader.pure_ok,
    RequestVote.mk.injEq, existsAndEq, and_true, Message.InRange, messageWire,
    List.append_assoc]
  exact and_right_comm

theorem parses_readRequestVoteResponse : Parses (readRequestVoteResponse stop)
    (fun m => messageWire (.requestVoteResponse m))
    fun m => (Message.requestVoteResponse m).InRange := by
  rintro input ⟨term, voteGranted⟩ rest
  simp only [readRequestVoteResponse, Wire.Reader.bind_ok, getU64_ok, getBool_ok,
    Wire.Reader.pure_ok, RequestVoteResponse.mk.injEq, existsAndEq, true_and, and_true,
    Message.InRange, messageWire, List.append_assoc]

theorem parses_readAppendEntriesResponse : Parses (readAppendEntriesResponse stop)
    (fun m => messageWire (.appendEntriesResponse m))
    fun m => (Message.appendEntriesResponse m).InRange := by
  rintro input ⟨term, rpcId, success, matchIndex, conflictIndex, conflictTerm⟩ rest
  simp only [readAppendEntriesResponse, Wire.Reader.bind_ok, getU64_ok, getBool_ok,
    Wire.Reader.pure_ok, AppendEntriesResponse.mk.injEq, existsAndEq, true_and, and_true,
    Message.InRange, messageWire, List.append_assoc]
  exact and_right_comm

/-- An entry takes at least as many bytes as the reader expects. -/
theorem le_length_entryWire (entry : LogEntry) :
    kMinimumEntryPayloadBytes ≤ (entryWire entry).length := by
  simp only [entryWire, boolWire, List.length_append, length_beBytes, List.length_singleton,
    kMinimumEntryPayloadBytes]
  omega

theorem le_length_flatMap_entryWire (entries : List LogEntry) :
    entries.length * kMinimumEntryPayloadBytes ≤ (entries.flatMap entryWire).length := by
  induction entries with
  | nil => exact Nat.le_of_eq (Nat.zero_mul _)
  | cons entry entries ih =>
    rw [List.flatMap_cons, List.length_append, List.length_cons, Nat.succ_mul, Nat.add_comm]
    exact Nat.add_le_add (le_length_entryWire entry) ih

/-- The check before the entries are read never stops a payload that is complete. -/
theorem count_fits (entries : List LogEntry) (rest : Bytes) (commit : ℕ) :
    8 ≤ (entries.flatMap entryWire ++ (beBytes 8 commit ++ rest)).length ∧
      entries.length ≤ ((entries.flatMap entryWire ++ (beBytes 8 commit ++ rest)).length - 8) /
        kMinimumEntryPayloadBytes := by
  have hlength := le_length_flatMap_entryWire entries
  simp only [List.length_append, length_beBytes]
  refine ⟨by omega, (Nat.le_div_iff_mul_le (by decide)).mpr ?_⟩
  omega

/-- The reader of appends undoes their writer. -/
theorem parses_readAppendEntries : Parses (readAppendEntries stop limits) appendEntriesWire
    fun m => m.InRange ∧ AppendEntriesOk limits m := by
  rintro input ⟨term, leaderId, rpcId, prevLogIndex, prevLogTerm, entries, leaderCommit⟩ rest
  have hmax : 2 ^ 32 = maxU32 + 1 := rfl
  simp only [readAppendEntries, Wire.Reader.bind_ok, getU64_ok, getU32_ok, failIf_ok,
    Wire.Reader.remaining_ok, parses_readEntryPayload.many, Wire.Reader.pure_ok,
    AppendEntries.mk.injEq, existsAndEq, true_and, and_true, exists_const,
    Bool.not_eq_false', decide_eq_false_iff_not, not_or, Bool.not_eq_true', Bool.not_eq_false,
    not_lt, appendEntriesWire, List.append_assoc]
  constructor
  · rintro ⟨⟨hterm, rfl⟩, hleader, hrpc, hindex, hprev, hcount, ⟨hterm', hleader', hrpc', hptr⟩,
      hlimit, -, hentries, hcommit, hconsecutive⟩
    exact ⟨⟨⟨hterm, hleader, hrpc, hindex, hprev, fun e he => (hentries e he).1, hcommit⟩,
      hterm', hleader', hrpc', hptr, ⟨hlimit, by dsimp only; omega⟩, hconsecutive,
      fun e he => (hentries e he).2⟩, rfl⟩
  · rintro ⟨⟨hr, ho⟩, rfl⟩
    have hcount := ho.count.2
    dsimp only at hcount
    exact ⟨⟨hr.term, rfl⟩, hr.leaderId, hr.rpcId, hr.prevLogIndex, hr.prevLogTerm, by omega,
      ⟨ho.term, ho.leaderId, ho.rpcId, ho.pointer⟩, ho.count.1, count_fits _ _ _,
      fun e he => ⟨hr.entries e he, ho.entries e he⟩, hr.leaderCommit, ho.consecutive⟩

/-! **Frames.** -/

theorem expectByte_ok {expected : Fin 256} :
    expectByte stop expected input = .ok (u, rest) ↔ input = expected :: rest := by
  unfold expectByte
  simp only [Wire.Reader.bind_ok, getU8_ok, Wire.Reader.remaining_ok, existsAndEq, true_and,
    and_true]
  constructor
  · rintro ⟨actual, mid, rfl, hok⟩
    split_ifs at hok with hne
    · cases hok
    · rw [not_not.mp hne, (Wire.Reader.pure_ok.mp hok).2]
  · rintro rfl
    exact ⟨expected, rest, rfl, by rw [if_neg (not_not.mpr rfl)]; rfl⟩

theorem expectBytes_ok {magic : Bytes} :
    (magic.forM (expectByte stop) : Reader Unit) input = .ok (u, rest) ↔
      input = magic ++ rest := by
  induction magic generalizing input with
  | nil => exact Wire.Reader.pure_ok.trans (and_iff_right rfl)
  | cons expected magic ih =>
    change (expectByte stop expected >>= fun _ => magic.forM (expectByte stop)) input = _ ↔ _
    simp only [Wire.Reader.bind_ok, expectByte_ok, ih, existsAndEq, and_true, exists_const,
      List.cons_append]

theorem readHeader_ok {version rawType : Fin 256} {reserved length : ℕ} :
    readHeader stop input = .ok ((version, rawType, reserved, length), rest) ↔
      (reserved < 256 ^ 2 ∧ length < 2 ^ 32) ∧ input = kMagic ++ (version :: rawType ::
        (beBytes 2 reserved ++ (beBytes 4 length ++ rest))) := by
  unfold readHeader
  simp only [Wire.Reader.bind_ok, expectBytes_ok, getU8_ok, Reader.getU16, getNumber_ok,
    getU32_ok, Wire.Reader.pure_ok, Prod.mk.injEq, existsAndEq, true_and, and_true, exists_const]
  exact and_comm

/-- **The frames that are parsed are the ones that are made.** -/
theorem parseFrame_eq_ok {bytes payload : Bytes} {type : WireType} :
    parseFrame bytes limits = .ok ⟨type, payload⟩ ↔ Framed limits type payload bytes := by
  unfold parseFrame
  constructor
  · intro hok
    split_ifs at hok with hlimit
    obtain ⟨⟨⟨version, rawType, reserved, length⟩, rest⟩, hread, hrest⟩ := bind_eq_ok.mp hok
    obtain ⟨-, rfl⟩ := readHeader_ok.mp hread
    clear hok hread
    dsimp only at hrest
    rcases htype : WireType.ofCode rawType with _ | type'
    · rw [htype] at hrest
      dsimp only at hrest
      split_ifs at hrest
    · rw [htype] at hrest
      dsimp only at hrest
      split_ifs at hrest with hversion hreserved hroom hshort hlong
      obtain rfl : rest.length = length := by omega
      obtain ⟨rfl, hpayload⟩ := ParsedFrame.mk.inj (Except.ok.inj hrest)
      obtain rfl : rest = payload := by
        rw [← hpayload]
        exact List.take_length.symm
      rw [not_not.mp hversion, ofCode_eq.mp htype, not_not.mp hreserved] at hlimit ⊢
      refine ⟨?_, by omega, rfl⟩
      change ¬ limits.maxFrameBytes < (frameWire type' rest).length at hlimit
      rw [length_frameWire] at hlimit
      omega
  · rintro ⟨hfits, hroom, rfl⟩
    have hmax : payloadLimit limits ≤ limits.maxFrameBytes - kHeaderBytes ∧
        payloadLimit limits ≤ maxU32 := by
      rw [payloadLimit, if_neg (by omega)]
      exact ⟨min_le_left _ _, min_le_right _ _⟩
    have hwide : 2 ^ 32 = maxU32 + 1 := rfl
    have hread : (readHeader (frameWire type payload).length).run (frameWire type payload) =
        .ok ((kVersion, type.code, 0, payload.length), payload) :=
      readHeader_ok.mpr ⟨⟨by decide, by omega⟩, rfl⟩
    rw [if_neg (by rw [length_frameWire]; omega), hread, ok_bind]
    dsimp only
    rw [if_neg (not_not.mpr rfl), ofCode_eq.mpr rfl]
    dsimp only
    rw [if_neg (not_not.mpr rfl), if_neg (by omega), if_neg (lt_irrefl _), if_neg (lt_irrefl _)]
    refine congrArg (fun p => Except.ok (ParsedFrame.mk type p)) ?_
    exact List.take_length

/-- **A payload is decoded if it is the encoding of a value**, to the last byte. -/
theorem decodeExact_eq_ok {α : Type} {parsed : ParsedFrame} {decode : ℕ → Reader α}
    {encode : α → Bytes} {P : α → Prop} (h : ∀ stop, Parses (decode stop) encode P) {value : α} :
    decodeExact parsed decode = .ok value ↔ P value ∧ parsed.payload = encode value := by
  unfold decodeExact
  dsimp only
  rw [bind_eq_ok]
  constructor
  · rintro ⟨⟨value', rest⟩, hread, hrest⟩
    dsimp only at hrest
    split_ifs at hrest with hempty
    obtain rfl := Except.ok.inj hrest
    have hvalue := (h _ _ _ _).mp hread
    rwa [not_not.mp hempty, List.append_nil] at hvalue
  · rintro ⟨hP, hpayload⟩
    exact ⟨(value, []), (h _ _ _ _).mpr ⟨hP, by rw [hpayload, List.append_nil]⟩, rfl⟩

/-- A payload of one kind, read from its frame. -/
theorem decodeFrame_eq_ok {α : Type} {type : WireType} {decode : ℕ → Reader α} {encode : α → Bytes}
    {P : α → Prop} (h : ∀ stop, Parses (decode stop) encode P) {value : α} :
    (parseFrame bytes limits >>= fun parsed =>
      if parsed.type ≠ type then .error ⟨.unexpectedType, 5⟩ else decodeExact parsed decode) =
        .ok value ↔ P value ∧ Framed limits type (encode value) bytes := by
  rw [bind_eq_ok]
  constructor
  · rintro ⟨⟨type', payload⟩, hparse, hok⟩
    split_ifs at hok with htype
    obtain rfl := not_not.mp htype
    obtain ⟨hP, rfl⟩ := (decodeExact_eq_ok h).mp hok
    exact ⟨hP, parseFrame_eq_ok.mp hparse⟩
  · rintro ⟨hP, hframed⟩
    refine ⟨⟨type, encode value⟩, parseFrame_eq_ok.mpr hframed, ?_⟩
    rw [if_neg (not_not.mpr rfl)]
    exact (decodeExact_eq_ok h).mpr ⟨hP, rfl⟩

theorem decodeCommand_eq_ok {command : ClientCommand} :
    decodeCommand bytes limits = .ok command ↔
      command.InRange ∧ encodeCommand command limits = .ok bytes := by
  rw [encodeCommand_eq_ok, ← and_assoc]
  exact decodeFrame_eq_ok fun _ => parses_readCommandPayload

theorem decodeLogEntry_eq_ok {entry : LogEntry} :
    decodeLogEntry bytes limits = .ok entry ↔
      entry.InRange ∧ encodeLogEntry entry limits = .ok bytes := by
  rw [encodeLogEntry_eq_ok, ← and_assoc]
  exact decodeFrame_eq_ok fun _ => parses_readEntryPayload

/-- A message that is checked after it was decoded. -/
theorem decodeChecked_eq_ok {α : Type} {parsed : ParsedFrame} {decode : ℕ → Reader α}
    {encode : α → Bytes} {P : α → Prop} (h : ∀ stop, Parses (decode stop) encode P)
    {bad : α → Prop} [DecidablePred bad] {wrap : α → Message} {failure : Failure}
    {message : Message} :
    (decodeExact parsed decode >>= fun decoded =>
      if bad decoded then .error failure else .ok (wrap decoded)) = .ok message ↔
        ∃ decoded, wrap decoded = message ∧ P decoded ∧ ¬ bad decoded ∧
          parsed.payload = encode decoded := by
  simp only [bind_eq_ok, decodeExact_eq_ok h]
  refine exists_congr fun decoded => ?_
  constructor
  · rintro ⟨⟨hP, hpayload⟩, hok⟩
    split_ifs at hok with hbad
    exact ⟨Except.ok.inj hok, hP, hbad, hpayload⟩
  · rintro ⟨rfl, hP, hbad, hpayload⟩
    exact ⟨⟨hP, hpayload⟩, if_neg hbad⟩

/-- **What is decoded** is what encodes to the bytes. -/
theorem decodeMessage_eq_ok {message : Message} :
    decodeMessage bytes limits = .ok message ↔
      message.InRange ∧ encodeMessage message limits = .ok bytes := by
  unfold decodeMessage
  rw [encodeMessage_eq_ok, bind_eq_ok]
  constructor
  · rintro ⟨⟨type, payload⟩, hparse, hok⟩
    have hframed := parseFrame_eq_ok.mp hparse
    clear hparse
    cases type with
    | command | logEntry => cases hok
    | requestVote =>
      obtain ⟨m, rfl, hrange, hvalid, rfl⟩ :=
        (decodeChecked_eq_ok fun _ => parses_readRequestVote).mp hok
      exact ⟨hrange, by simpa [MessageOk] using hvalid, hframed⟩
    | requestVoteResponse =>
      obtain ⟨m, rfl, hrange, hvalid, rfl⟩ :=
        (decodeChecked_eq_ok fun _ => parses_readRequestVoteResponse).mp hok
      exact ⟨hrange, hvalid, hframed⟩
    | appendEntries =>
      obtain ⟨m, hm, hwrap⟩ := bind_eq_ok.mp hok
      obtain ⟨⟨hrange, hvalid⟩, rfl⟩ :=
        (decodeExact_eq_ok fun _ => parses_readAppendEntries).mp hm
      rw [← Except.ok.inj hwrap]
      exact ⟨hrange, hvalid, hframed⟩
    | appendEntriesResponse =>
      obtain ⟨m, rfl, hrange, hvalid, rfl⟩ :=
        (decodeChecked_eq_ok fun _ => parses_readAppendEntriesResponse).mp hok
      exact ⟨hrange, not_or.mp hvalid, hframed⟩
  · rintro ⟨hrange, hvalid, hframed⟩
    refine ⟨⟨messageType message, messageWire message⟩, parseFrame_eq_ok.mpr hframed, ?_⟩
    cases message with
    | requestVote m =>
      refine (decodeChecked_eq_ok fun _ => parses_readRequestVote).mpr ⟨m, rfl, hrange, ?_, rfl⟩
      simpa [MessageOk] using hvalid
    | requestVoteResponse m =>
      exact (decodeChecked_eq_ok fun _ => parses_readRequestVoteResponse).mpr
        ⟨m, rfl, hrange, hvalid, rfl⟩
    | appendEntries m =>
      exact bind_eq_ok.mpr ⟨m, (decodeExact_eq_ok fun _ => parses_readAppendEntries).mpr
        ⟨⟨hrange, hvalid⟩, rfl⟩, rfl⟩
    | appendEntriesResponse m =>
      exact (decodeChecked_eq_ok fun _ => parses_readAppendEntriesResponse).mpr
        ⟨m, rfl, hrange, not_or.mpr hvalid, rfl⟩

/-- **The wire format is a bijection, strict in both directions.** For the same limits, whatever
the encoder makes of a message, a command or an entry is decoded to just that, and bytes that
decode at all are the encoding of what they decode to. -/
theorem decode_eq_ok_iff (limits : Limits) (bytes : Bytes) :
    (∀ message, decodeMessage bytes limits = .ok message ↔
      message.InRange ∧ encodeMessage message limits = .ok bytes) ∧
    (∀ command, decodeCommand bytes limits = .ok command ↔
      command.InRange ∧ encodeCommand command limits = .ok bytes) ∧
    ∀ entry, decodeLogEntry bytes limits = .ok entry ↔
      entry.InRange ∧ encodeLogEntry entry limits = .ok bytes :=
  ⟨fun _ => decodeMessage_eq_ok, fun _ => decodeCommand_eq_ok, fun _ => decodeLogEntry_eq_ok⟩

end ReadBack

end DetLog.Codec
