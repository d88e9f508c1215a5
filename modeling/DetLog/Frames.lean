import DetLog.Config
import DetLog.Raft.Driven
import DetLog.Raft.Turn
import DetLog.Wal.Scan

/-!
# Room for a batch

A node hands its storage one batch at a time, and storage makes one frame of it. A frame that is
longer than the WAL allows is an error, and an error of storage stops the node. So whoever
accepts a configuration has to see to it that no batch of the node can be too long.

What is compared is the length of an append with the length of a frame. But the two are counted
differently: the node counts 64 bytes for an append and 64 for each entry, the WAL 80 bytes for a
frame, up to 25 for the hard state, the truncation and the commit index, and up to 50 for an
entry. One entry is therefore longer in the file than on the wire, and a command that the node
takes may be refused by its storage: `DetLog.Driven.persists_too_long`. A little room is all that
is missing (`DetLog.FrameRoom`), and with it every batch of every run is encoded:
`DetLog.Driven.persists_fit`.
-/

namespace DetLog

open Wire

/-! ### Lengths -/

theorem length_hardState_wire_le (hard : HardState) : hard.wire.length ≤ 13 := by
  unfold HardState.wire
  cases hard.votedFor <;> simp

theorem length_hardState_wire (term : ℕ) :
    (⟨term, none⟩ : HardState).wire.length = 9 := by
  simp [HardState.wire]

theorem length_noop_wire (index term : ℕ) : (⟨index, term, none⟩ : LogEntry).wire.length = 17 := by
  simp [LogEntry.wire]

theorem length_command_wire (index term : ℕ) (command : ClientCommand) :
    (⟨index, term, some command⟩ : LogEntry).wire.length =
      50 + command.key.length + command.value.length := by
  simp [LogEntry.wire, ClientCommand.wire]
  omega

/-- **An entry is shorter in a frame than the node counts it.** -/
theorem length_wire_add_le {entry : LogEntry} (h : entryBytes entry < maxU64) :
    entry.wire.length + 14 ≤ entryBytes entry := by
  obtain ⟨index, term, command⟩ := entry
  cases command with
  | none =>
    rw [length_noop_wire]
    exact Nat.le_add_left 31 33
  | some command =>
    rw [length_command_wire]
    unfold entryBytes kEntryOverhead at h ⊢
    simp only at h ⊢
    split_ifs at h ⊢ with hsum
    · exact absurd h (lt_irrefl _)
    · omega

/-- The length of a batch, part by part. -/
theorem length_batch_wire (batch : PersistBatch) : batch.wire.length =
    8 + (batch.hardState.elim 0 fun hard => hard.wire.length) +
      (batch.truncateFrom.elim 0 fun _ => 8) + (batch.entries.map (·.wire.length)).sum +
        (batch.commitIndex.elim 0 fun _ => 8) := by
  have hopt : ∀ (o : Option ℕ), (o.elim [] (leBytes 8)).length = o.elim 0 fun _ => 8 := by
    intro o
    cases o <;> simp
  have hhard : (batch.hardState.elim [] HardState.wire).length =
      batch.hardState.elim 0 fun hard => hard.wire.length := by
    cases batch.hardState <;> rfl
  simp only [PersistBatch.wire, List.length_append, length_leBytes, List.length_flatMap, hopt,
    hhard]
  omega

theorem length_hardStateBatch_wire_le (hard : HardState) :
    (hardStateBatch hard).wire.length ≤ 21 := by
  have hle := length_hardState_wire_le hard
  rw [length_batch_wire]
  simp only [Option.elim_some, Option.elim_none, List.map_nil, List.sum_nil]
  omega

theorem length_entryBatch_wire (entry : LogEntry) :
    (entryBatch entry).wire.length = 8 + entry.wire.length := by
  rw [length_batch_wire]
  simp

/-! ### Batches of a node -/

/-- **The room that a frame needs** beyond the limits of the node: a frame with one entry takes
130 bytes beside its command, whose key and value have limits of their own, and one with the entries
of an append takes up to 27 bytes more than the append. -/
structure FrameRoom (raft : RaftConfig) (wal : WalFileOptions) : Prop where
  command : min raft.maxCommandBytes (raft.maxKeyBytes + raft.maxValueBytes) + 130 ≤
    wal.maxFrameBytes
  append : raft.maxAppendBytesPerRpc + 27 ≤ wal.maxFrameBytes

section Plan

variable {n m : RaftNode} {cause : Cause} {batch : PersistBatch} {k : Continuation}

/-- What the loop of `entries_valid` has counted is at least what the entries take in a frame. -/
theorem sum_wire_le_of_entriesValidFrom {config : RaftConfig} {term : ℕ}
    {entries : List LogEntry} {expected bytes : ℕ} (hsize : config.maxAppendBytesPerRpc < maxU64)
    (hbytes : bytes ≤ config.maxAppendBytesPerRpc)
    (h : entriesValidFrom config term entries expected bytes = true) :
    bytes + (entries.map fun entry => entry.wire.length + 14).sum ≤
      config.maxAppendBytesPerRpc := by
  induction entries generalizing expected bytes with
  | nil => exact hbytes
  | cons entry rest ih =>
    rw [entriesValidFrom] at h
    split_ifs at h with _ hlong
    have hentry : entry.wire.length + 14 ≤ entryBytes entry := length_wire_add_le (by omega)
    have hrest := ih (by omega) h
    rw [List.map_cons, List.sum_cons]
    omega

/-- An accepted append takes at most 27 bytes more in a frame than on the wire, or else its frame
has no entries. -/
theorem length_acceptBatch_wire_le {request : AppendEntries} (fits : Fits n request)
    (hsize : n.config.maxAppendBytesPerRpc < maxU64)
    (hover : kAppendRpcOverhead < n.config.maxAppendBytesPerRpc) :
    (acceptBatch n request).wire.length + 72 ≤ max 105 (n.config.maxAppendBytesPerRpc + 27) := by
  have hsum := sum_wire_le_of_entriesValidFrom hsize hover.le fits.valid
  have hdrop : ((acceptBatch n request).entries.map fun entry => entry.wire.length + 14).sum ≤
      (request.entries.map fun entry => entry.wire.length + 14).sum :=
    ((List.drop_sublist _ _).map _).sum_le_sum fun _ _ => Nat.zero_le _
  rw [List.sum_map_add, List.map_const', List.sum_replicate, smul_eq_mul] at hdrop
  have hhard : ((acceptBatch n request).hardState.elim 0 fun hard => hard.wire.length) ≤ 9 := by
    simp only [acceptBatch]
    split_ifs
    · exact (length_hardState_wire request.term).le
    · exact Nat.zero_le _
  have hcommit : ((acceptBatch n request).commitIndex.elim 0 fun _ => 8) ≤ 8 := by
    cases (acceptBatch n request).commitIndex <;> simp
  have htruncate : ((acceptBatch n request).truncateFrom.elim 0 fun _ => 8) ≤ 8 := by
    cases (acceptBatch n request).truncateFrom <;> simp
  rw [length_batch_wire]
  unfold kAppendRpcOverhead at hsum hover
  -- Only a batch with entries is longer than the fixed parts, and each entry saves 14 bytes.
  rcases hentries : (acceptBatch n request).entries with _ | ⟨entry, rest⟩
  · simp only [List.map_nil, List.sum_nil]
    omega
  · rw [hentries, List.length_cons] at hdrop
    omega

/-- **Every batch of a node fits into a frame**, if there is room. -/
theorem Plan.length_wire_le {wal : WalFileOptions} (plan : Plan n cause m batch k)
    (hbounds : n.config.boundsValid = true) (hsize : n.config.maxAppendBytesPerRpc < maxU64)
    (room : FrameRoom n.config wal) :
    kFrameHeaderBytes + batch.wire.length + kFrameTrailerBytes ≤ wal.maxFrameBytes := by
  unfold RaftConfig.boundsValid at hbounds
  simp only [decide_eq_true_eq] at hbounds
  obtain ⟨-, -, -, -, -, hcommand, hkey, -, hover, -, -⟩ := hbounds
  have hcommands := room.command
  have happends := room.append
  have hpos : 131 ≤ wal.maxFrameBytes := by omega
  unfold kFrameHeaderBytes kFrameTrailerBytes
  cases plan with
  | campaign hs => have := length_hardStateBatch_wire_le hs; omega
  | adopt term => have := length_hardStateBatch_wire_le ⟨term, none⟩; omega
  | grant candidate request =>
    have := length_hardStateBatch_wire_le ⟨request.term, some candidate⟩
    omega
  | lead =>
    rw [length_entryBatch_wire, RaftNode.nextEntry, length_noop_wire]
    omega
  | accept s request heard named fits =>
    have := length_acceptBatch_wire_le fits hsize hover
    omega
  | propose token command asked old ready acceptable =>
    simp only [commandAcceptable, Bool.and_eq_true, commandSizeWithin, decide_eq_true_eq]
      at acceptable
    rw [length_entryBatch_wire, RaftNode.nextEntry, length_command_wire]
    omega
  | commit target =>
    rw [length_batch_wire]
    simp only [Option.elim_some, Option.elim_none, List.map_nil, List.sum_nil]
    omega

/-- **Every batch of a node is within the limits of its WAL.** -/
theorem Plan.bounded {wal : WalFileOptions} (plan : Plan n cause m batch k)
    (hbounds : n.config.boundsValid = true) (within : WithinWal n.config wal) :
    batch.Bounded wal.toWalOptions := by
  unfold RaftConfig.boundsValid at hbounds
  simp only [decide_eq_true_eq] at hbounds
  have hone : 1 ≤ wal.maxEntriesPerFrame := by
    have := within.entries
    omega
  have hcommand : ∀ command, commandAcceptable n.config command = true →
      command.key.length ≤ wal.maxKeyBytes ∧ command.value.length ≤ wal.maxValueBytes := by
    intro command h
    simp only [commandAcceptable, Bool.and_eq_true, commandSizeWithin, decide_eq_true_eq] at h
    exact ⟨h.2.1.trans within.keys, h.2.2.1.trans within.values⟩
  cases plan with
  | lead => exact ⟨hone, by simp [RaftNode.nextEntry]⟩
  | accept s request heard named fits =>
    refine ⟨((List.drop_sublist _ _).length_le.trans fits.count).trans within.entries, ?_⟩
    intro entry hentry command hsome
    obtain ⟨-, hok⟩ := of_entriesValidFrom le_rfl fits.valid
    have hacceptable := (hok entry (List.mem_of_mem_drop hentry)).acceptable
    rw [entryAcceptable, hsome] at hacceptable
    exact hcommand command hacceptable
  | propose token command asked old ready acceptable =>
    refine ⟨hone, ?_⟩
    rintro entry hentry command' hsome
    obtain rfl := List.mem_singleton.mp hentry
    obtain rfl := Option.some.inj hsome
    exact hcommand command acceptable
  | _ => exact ⟨Nat.zero_le _, by simp⟩

end Plan

/-! ### What the WAL refuses -/

namespace ValidationView

variable {options : WalOptions} {base : List LogEntry} {v : ValidationView} {s : RecoveredState}
  {e : WalError}

/-- The loop over the entries reports no limit if there is none to report. -/
theorem code_of_stageEntries {entries : List LogEntry} (h : Shows base v s)
    (hlog : (s.log ++ entries).length ≤ options.maxLogEntries)
    (hcommands : ∀ entry ∈ entries, ∀ command, entry.command = some command →
      command.key.length ≤ options.maxKeyBytes ∧ command.value.length ≤ options.maxValueBytes)
    (herror : entries.foldlM (stageEntry options) v = .error e) : e.code ≠ .boundsExceeded := by
  induction entries generalizing v s with
  | nil => cases herror
  | cons entry rest ih =>
    rw [List.length_append, List.length_cons] at hlog
    rw [List.foldlM_cons] at herror
    rcases bind_eq_error.mp herror with hfirst | ⟨v', hok, hrest⟩
    · unfold stageEntry at hfirst
      rw [h.lastIndex] at hfirst
      split_ifs at hfirst with hfull _ _ _ hlong
      · omega
      · cases hfirst; simp
      · cases hfirst; simp
      · cases hfirst; simp
      · rw [Option.any_eq_true] at hlong
        obtain ⟨command, hsome, hlong⟩ := hlong
        have hsizes := hcommands entry (by simp) command hsome
        rw [decide_eq_true_eq] at hlong
        omega
    · refine ih (stageEntry_ok h hok).1 ?_ (fun x hx => hcommands x (by simp [hx])) hrest
      simp only [List.length_append, List.length_cons, List.length_nil]
      omega

/-- **A batch within the limits is never refused for its size.** -/
theorem code_of_stage {b : PersistBatch} (h : Shows base v s) (hb : b.Bounded options)
    (hlog : (s.write b).log.length ≤ options.maxLogEntries)
    (herror : v.stage b options = .error e) : e.code ≠ .boundsExceeded := by
  unfold stage at herror
  split_ifs at herror with _ hmany
  · cases herror; simp
  · exact absurd hb.entries (not_le.mpr hmany)
  rcases bind_eq_error.mp herror with hhard | ⟨v₁, hhard, herror⟩
  · cases hnext : b.hardState with
    | none => simp [hnext] at hhard
    | some next =>
      rw [hnext, Option.elim_some] at hhard
      unfold stageHardState at hhard
      split_ifs at hhard <;> cases hhard <;> simp
  have h₁ : Shows base v₁ { s with hardState := (s.write b).hardState } := by
    cases hnext : b.hardState with
    | none =>
      rw [hnext] at hhard
      obtain rfl := Except.ok.inj hhard
      simpa [RecoveredState.write, hnext] using h
    | some next =>
      rw [hnext] at hhard
      simpa [RecoveredState.write, hnext] using (stageHardState_ok h hhard).1
  rcases bind_eq_error.mp herror with htruncate | ⟨v₂, htruncate, herror⟩
  · cases hi : b.truncateFrom with
    | none => simp [hi] at htruncate
    | some i =>
      rw [hi, Option.elim_some] at htruncate
      unfold stageTruncate at htruncate
      simp only at htruncate
      split_ifs at htruncate <;> cases htruncate <;> simp
  obtain ⟨kept, h₂, hkept⟩ : ∃ kept, Shows base v₂
      { s with hardState := (s.write b).hardState, log := kept } ∧
        kept ++ b.entries = (s.write b).log := by
    cases hi : b.truncateFrom with
    | none =>
      rw [hi] at htruncate
      obtain rfl := Except.ok.inj htruncate
      exact ⟨s.log, h₁, by simp only [RecoveredState.write, hi]⟩
    | some i =>
      rw [hi] at htruncate
      exact ⟨_, (stageTruncate_ok h₁ htruncate).1, by simp only [RecoveredState.write, hi]⟩
  rcases bind_eq_error.mp herror with hentries | ⟨v₃, -, hcommit⟩
  · exact code_of_stageEntries h₂ (by rwa [hkept]) hb.commands hentries
  · cases hi : b.commitIndex with
    | none => simp [hi] at hcommit
    | some i =>
      rw [hi, Option.elim_some] at hcommit
      unfold stageCommit at hcommit
      split_ifs at hcommit <;> cases hcommit <;> simp

end ValidationView

/-- **The encoder never refuses a batch for its size** if the batch is within the limits and fits
into a frame, and the log and the file have not reached their own limits. -/
theorem code_of_encodeWalFrame {wal : WalFileOptions} {state : WalFileState}
    {batch : PersistBatch} (hb : batch.Bounded wal.toWalOptions)
    (hframe : kFrameHeaderBytes + batch.wire.length + kFrameTrailerBytes ≤ wal.maxFrameBytes)
    (hwal : validateOptions wal = .ok ()) (hold : state.entries.length ≤ wal.maxLogEntries)
    (hlog : (state.recovered.write batch).log.length ≤ wal.maxLogEntries)
    (hsequence : state.lastFrameSequence ≠ maxU64)
    (hfile : state.fileBytes + wal.maxFrameBytes ≤ maxU64) {e : WalError}
    (herror : encodeWalFrame state batch wal = .error e) : e.code ≠ .boundsExceeded := by
  unfold encodeWalFrame at herror
  rw [hwal, ok_bind] at herror
  rcases bind_eq_error.mp herror with hsummary | ⟨-, -, herror⟩
  · unfold validateStateSummary at hsummary
    rw [if_neg (not_lt.mpr hold)] at hsummary
    split_ifs at hsummary <;> cases hsummary <;> simp
  rw [if_neg hsequence] at herror
  rcases bind_eq_error.mp herror with happend | ⟨logical, -, herror⟩
  · unfold WalState.append at happend
    split at happend
    · cases happend
    · next e' hstage =>
      obtain rfl := Except.error.inj happend
      exact ValidationView.code_of_stage (ValidationView.shows_ofState _) hb hlog hstage
  rw [makeFrame_eq_ok.mpr ⟨hframe, rfl⟩, ok_bind, if_neg] at herror
  · cases herror
  · rw [length_frameWire]
    omega

/-! ### Runs -/

/-- **What a step persists** is planned by a node with the same configuration. -/
theorem Coherent.persists {n : RaftNode} {d : RecoveredState} {got : Set RaftEvent}
    (hco : Coherent d got n) (e : RaftEvent) {p : PersistEffect}
    (h : .persist p ∈ (n.step e).effects) :
    ∃ n₁ cause m k, n₁.config = n.config ∧ Plan n₁ cause m p.batch k := by
  revert p
  refine TurnRule.step (I := fun c => ∀ {p}, .persist p ∈ c.effects →
    ∃ n₁ cause m k, n₁.config = n.config ∧ Plan n₁ cause m p.batch k) ?_ hco
  refine ⟨fun c h p hp => ?_, fun _ => by simp, fun p _ => ?_, fun _ _ _ _ _ h => h, ?_⟩
  · exact absurd hp (not_persist_of_emits (h.emits tolerant_not_persist) p)
  · simp [RaftNode.marked, Ctx.markDurable, Ctx.trace, Ctx.emit]
  · intro cause c c' r hI p hp
    rcases r.outcome.persisted hp with hp | ⟨k, plan⟩
    · exact hI hp
    · exact ⟨c.node, cause, c'.node, k, r.steady.config, plan⟩

namespace Driven

/-- **Everything a node persists can be encoded**, in every run of a node whose configuration is
accepted and leaves room for a frame: the batch is within the limits of the WAL, its frame is
within the length of a frame, and until the log or the file reaches its own limit the encoder has
no bound to complain about. -/
theorem persists_fit {raft : RaftConfig} {wal : WalFileOptions} (accepts : Accepts raft wal)
    (room : FrameRoom raft wal) {recovered : RecoveredState} {n : RaftNode}
    (hn : RaftNode.create raft recovered = .ok n) (inputs : List Input) (i : Input)
    {p : PersistEffect}
    (hp : .persist p ∈ ((run { node := n, durable := recovered } inputs).ctx i).effects) :
    p.batch.entries.length ≤ wal.maxEntriesPerFrame ∧
      (∀ sequence, ∃ frame, makeFrame sequence p.batch wal = .ok frame ∧
        frame.length ≤ wal.maxFrameBytes) ∧
      ∀ (state : WalFileState) (e : WalError), validateOptions wal = .ok () →
        state.entries.length ≤ wal.maxLogEntries →
        (state.recovered.write p.batch).log.length ≤ wal.maxLogEntries →
        state.lastFrameSequence ≠ maxU64 → state.fileBytes + wal.maxFrameBytes ≤ maxU64 →
        encodeWalFrame state p.batch wal = .error e → e.code ≠ .boundsExceeded := by
  set s : Driven := { node := n, durable := recovered }
  obtain ⟨⟨-, hbounds, -⟩, hn₀⟩ := RaftNode.create_eq_ok.mp hn
  have hco := s.coherent_run (coherent_create hn _) inputs
  have hconfig : (s.run inputs).node.config = raft.sorted := by
    rw [s.config_run inputs]
    exact congrArg RaftNode.config hn₀
  obtain ⟨n₁, cause, m, k, hn₁, plan⟩ :
      ∃ n₁ cause m k, n₁.config = (s.run inputs).node.config ∧ Plan n₁ cause m p.batch k := by
    cases i with
    | start => rcases start_cases (s.run inputs).node with heq | heq <;> simp [ctx, heq] at hp
    | event e => exact hco.persists e hp
  rw [hconfig] at hn₁
  have within := accepts.bounds
  have hbatch : p.batch.Bounded wal.toWalOptions := by
    refine plan.bounded (by rwa [hn₁]) ?_
    rw [hn₁]
    exact { within with }
  have hframe : kFrameHeaderBytes + p.batch.wire.length + kFrameTrailerBytes ≤
      wal.maxFrameBytes := by
    refine plan.length_wire_le (by rwa [hn₁]) (by rw [hn₁]; exact within.size) ?_
    rw [hn₁]
    exact ⟨room.command, room.append⟩
  refine ⟨hbatch.entries, fun sequence => ⟨_, makeFrame_eq_ok.mpr ⟨hframe, rfl⟩, ?_⟩, ?_⟩
  · rwa [length_frameWire]
  · intro state e hwal hold hlog hsequence hfile herror
    exact code_of_encodeWalFrame hbatch hframe hwal hold hlog hsequence hfile herror

end Driven

namespace Sample

/-- A host of node 1 of three. -/
def host (raft : RaftConfig) (wal : WalFileOptions) : NodeHostConfig where
  raft := { raft with nodeId := 1, members := [1, 2, 3] }
  identity := ⟨1, 1, 1⟩
  walPath := "wal"
  wal := wal
  tcp := { identity := ⟨1, 1, 1⟩, peers := [2, 3] }

/-- A command of three bytes. -/
def small : ClientCommand :=
  { session := ⟨0, 1⟩, sequence := 1, kind := .put, key := [0], value := [0, 0] }

/-- Appends of 131 bytes can carry it. -/
def narrow : RaftConfig :=
  { nodeId := 1, members := [1, 2, 3], maxCommandBytes := 3, maxAppendBytesPerRpc := 131,
    maxKeyBytes := 1, maxValueBytes := 2 }

/-- Frames of 131 bytes cannot. -/
def narrowWal : WalFileOptions := { maxFrameBytes := 131 }

/-- Node 1 is elected by the vote of node 2, and its first entry is committed. -/
def lead : List Input :=
  [.start, .event (.timerFired .election 1), .event (.storageComplete 1 true ""),
    .event (.messageReceived ⟨2, 1, .requestVoteResponse ⟨1, true⟩⟩),
    .event (.storageComplete 2 true ""),
    .event (.messageReceived ⟨2, 1, .appendEntriesResponse ⟨1, 1, true, 1, 0, 0⟩⟩),
    .event (.storageComplete 3 true "")]

/-- What the WAL of node 1 then has. -/
def leadWal : WalFileState where
  hardState := ⟨1, some 1⟩
  entries := [⟨1, 1, none⟩]
  commitIndex := 1
  lastFrameSequence := 3
  durableFrameSequence := 3
  fileBytes := 326

end Sample

namespace Driven

open Sample

/-- With the default limits of the WAL, the entry of a client is within its frame. -/
theorem persists_fit_client :
    (validateHostConfig (host narrow {}) = .ok () ∧ FrameRoom narrow (host narrow {}).wal) ∧
      ∃ frame, makeFrame 4 (entryBatch ⟨2, 1, some small⟩) (host narrow {}).wal = .ok frame ∧
        frame.length ≤ (host narrow {}).wal.maxFrameBytes := by
  have hvalid : validateHostConfig (host narrow {}) = .ok () := by decide
  have hroom : FrameRoom narrow (host narrow {}).wal := ⟨by decide, by decide⟩
  have hcreate : RaftNode.create narrow {} = .ok (RaftNode.ofRecovered narrow {}) := by
    decide +kernel
  obtain ⟨-, hframe, -⟩ := persists_fit (.host (host narrow {}) hvalid) hroom hcreate lead
    (.event (.clientRequest 7 small)) (p := ⟨4, entryBatch ⟨2, 1, some small⟩⟩)
    (by decide +kernel)
  exact ⟨⟨hvalid, hroom⟩, hframe 4⟩

/-- **A command that an append can carry may be too long for a frame.** The host and the cluster
accept the configuration, the node takes the command, and its storage refuses the batch. -/
theorem persists_too_long :
    validateHostConfig (host narrow narrowWal) = .ok () ∧
    validateClusterConfig { raft := narrow, wal := narrowWal } = .ok () ∧
    validateOptions narrowWal = .ok () ∧
    RaftNode.create narrow {} = .ok (RaftNode.ofRecovered narrow {}) ∧
    (run { node := RaftNode.ofRecovered narrow {}, durable := {} } lead).durable =
      leadWal.recovered ∧
    .persist ⟨4, entryBatch ⟨2, 1, some small⟩⟩ ∈
      ((run { node := RaftNode.ofRecovered narrow {}, durable := {} } lead).ctx
        (.event (.clientRequest 7 small))).effects ∧
    encodeWalFrame leadWal (entryBatch ⟨2, 1, some small⟩) narrowWal =
      .error (boundsError "encoded WAL object exceeds configured size bound") := by
  refine ⟨by decide, by decide, by decide, ?_, ?_, ?_, ?_⟩ <;> decide +kernel

end Driven

end DetLog
