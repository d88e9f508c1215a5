import DetLog.Wal.Group

/-!
# Appends that fail

An append can fail in two ways. If a check refuses the group, nothing has been written, and the
instance is as it was. If the device fails, some of the group's bytes are in the file and nobody
knows which; the instance then refuses every further call, and its state stays that of the last
append that went well.

What the file is worth after that shows when it is opened again. Whatever part of the group's bytes
is there, they stand behind the frames of the earlier groups, so the file is the front of a longer
image, and the scan of such a front recovers its whole frames. `DetLog.Wal.append_fails` says so of
every instance and every group: the recovered state is the old one after the first few batches of
the group.
-/

namespace DetLog

open Wire

/-! ### Fronts of an image -/

section Front

variable {options : WalFileOptions} {state : WalFileState}

theorem encodeFrames_take {batches : List PersistBatch} {encoded : List WalEncodedFrame}
    (h : encodeFrames options state batches = .ok encoded) (n : ℕ) :
    encodeFrames options state (batches.take n) = .ok (encoded.take n) := by
  induction batches generalizing state encoded n with
  | nil =>
    obtain rfl := Except.ok.inj h
    rw [List.take_nil, List.take_nil]
    rfl
  | cons batch rest ih =>
    obtain ⟨frame, hframe, h⟩ := bind_eq_ok.mp h
    obtain ⟨later, hlater, h⟩ := bind_eq_ok.mp h
    obtain rfl := Except.ok.inj h
    cases n with
    | zero => rfl
    | succ n =>
      rw [List.take_succ_cons, List.take_succ_cons, encodeFrames, hframe, ok_bind, ih hlater n,
        ok_bind]

/-- Frames that end before the cut are whole. -/
theorem length_le_wholeFrames {k offset : ℕ} {frames : List WalEncodedFrame}
    (more : List WalEncodedFrame) (h : offset + (frameBytes frames).length ≤ k) :
    frames.length ≤ wholeFrames k offset (frames ++ more) := by
  induction frames generalizing offset with
  | nil => exact Nat.zero_le _
  | cons frame rest ih =>
    rw [frameBytes, List.flatMap_cons, List.length_append, ← Nat.add_assoc] at h
    rw [List.cons_append, wholeFrames_of_le (by omega), List.length_cons]
    exact Nat.succ_le_succ (ih h)

end Front

namespace Wal

variable {w : Wal} {batches old : List PersistBatch} {frames : List Bytes}

/-- Opening a file that can be scanned. -/
theorem openFile_of_scan {file : Bytes} {identity : WalIdentity} {options : WalFileOptions}
    {result : WalScanResult} (hopt : validateOptions options = .ok ()) (hne : file.length ≠ 0)
    (h : scanWalBytes file identity options = .ok result) :
    ∃ w, openFile file identity options = .ok w ∧ w.state.toWalState = result.state.toWalState := by
  unfold openFile
  rw [hopt, ok_bind, if_neg hne, h, ok_bind]
  split_ifs
  · exact ⟨_, rfl, rfl⟩
  · exact ⟨_, rfl, rfl⟩

/-- **A file with a part of a group behind it** opens to the state after the first few batches. -/
theorem Intact.reopen {t : WalState} {more : List Bytes} (h : w.Intact old frames)
    (hlive : w.failed = false) (hrange : ∀ batch ∈ batches, batch.InRange)
    (hchain : Chain w.options w.state.toWalState w.state.lastFrameSequence batches more t)
    (hseq : batches.length ≤ maxU64 - w.state.lastFrameSequence)
    (hend : more.flatten.length ≤ maxU64 - w.state.fileBytes) (reached : ℕ) :
    ∃ reopened n, openFile (w.file ++ more.flatten.take reached) w.identity w.options =
        .ok reopened ∧ n ≤ batches.length ∧
      (batches.take n).foldlM (WalState.append w.options.toWalOptions) w.state.toWalState =
        .ok reopened.state.toWalState := by
  have hbound := h.bound
  have hlast := h.sequence_le
  have hsize := h.size
  have hsequence := h.sequence
  -- the image with the whole group
  have hempty : emptyScan.state.Valid w.options :=
    ⟨RecoveredState.lawful_empty, Nat.zero_le _, le_rfl⟩
  obtain ⟨encoded, hencoded, hbytes, -⟩ := encodeFrames_of_chain h.options hempty
    (h.chain.append (by rwa [Nat.zero_add, ← h.sequence]))
    (by rw [List.length_append]; change 0 + _ ≤ _; omega)
    (by
      rw [List.flatten_append, List.length_append]
      change kFileHeaderBytes + _ ≤ _
      omega)
  have himage : w.identity.wire ++ frameBytes encoded = w.file ++ more.flatten := by
    rw [frameBytes, List.flatMap_def, hbytes, List.flatten_append, h.file hlive, List.append_assoc]
  have hfile : w.file.length = w.state.fileBytes := by
    rw [h.file hlive, h.size, List.length_append, length_identity_wire]
  have hcut : w.file ++ more.flatten.take reached =
      (w.identity.wire ++ frameBytes encoded).take
        (w.state.fileBytes + min reached more.flatten.length) := by
    rw [himage, List.take_append, ← hfile, List.take_of_length_le (Nat.le_add_right _ _),
      Nat.add_sub_cancel_left, ← List.take_take, List.take_length]
  have hscan : scanWalBytes _ w.identity w.options = _ := scanWalBytes_front h.options
    (List.forall_mem_append.mpr ⟨h.range, hrange⟩) hencoded
    (k := w.state.fileBytes + min reached more.flatten.length) (by omega)
    (by rw [himage, List.length_append, hfile]; omega)
  rw [← hcut] at hscan
  obtain ⟨reopened, hopen, hstate⟩ := openFile_of_scan h.options
    (by rw [List.length_append, hfile, hsize, kFileHeaderBytes]; omega) hscan
  -- the old frames are whole
  have hwhole : old.length ≤ wholeFrames (w.state.fileBytes + min reached more.flatten.length)
      kFileHeaderBytes encoded := by
    have htake : (encoded.take old.length).map WalEncodedFrame.bytes = frames := by
      rw [List.map_take, hbytes]
      exact List.take_left' h.chain.length_eq
    have hlen : (frameBytes (encoded.take old.length)).length = frames.flatten.length := by
      rw [frameBytes, List.flatMap_def, htake]
    have hle : _ ≤ wholeFrames (w.state.fileBytes + min reached more.flatten.length)
        kFileHeaderBytes (encoded.take old.length ++ encoded.drop old.length) :=
      length_le_wholeFrames _ (by omega)
    rwa [List.take_append_drop, ← List.length_map WalEncodedFrame.bytes, htake,
      h.chain.length_eq] at hle
  generalize wholeFrames (w.state.fileBytes + min reached more.flatten.length)
    kFileHeaderBytes encoded = whole at hscan hstate hwhole
  obtain ⟨hfront, -⟩ := chain_of_encodeFrames (encodeFrames_take hencoded whole)
  have hreplay := hfront.foldlM
  rw [List.take_append, List.take_of_length_le hwhole, List.foldlM_append] at hreplay
  have hold : old.foldlM (WalState.append w.options.toWalOptions) {} = .ok w.state.toWalState :=
    h.chain.foldlM
  refine ⟨reopened, min (whole - old.length) batches.length, hopen, min_le_right _ _, ?_⟩
  rw [← List.take_take, List.take_length, hstate]
  exact (congrArg (· >>= _) hold).symm.trans hreplay

/-! ### What a failure leaves -/

/-- **An instance that has failed** refuses every call, and stays as it is. -/
def FailStop (w : Wal) : Prop :=
  (∀ batches outcome, ∃ e, e.code = .failed ∧ w.appendGroup batches outcome = (.error e, w)) ∧
    ∀ refused, ∃ e, e.code = .failed ∧ w.flush refused = (.error e, w)

theorem failStop_of_failed (h : w.failed = true) : w.FailStop := by
  obtain ⟨e, hcode, hlive⟩ : ∃ e, e.code = WalErrorCode.failed ∧ w.ensureLive = .error e :=
    ⟨{ code := .failed, message := "WAL is fail-stop: " ++ w.failureReason }, rfl, if_pos h⟩
  refine ⟨fun batches outcome => ⟨e, hcode, ?_⟩, fun refused => ⟨e, hcode, ?_⟩⟩
  · unfold appendGroup stageGroup
    rw [hlive]
    rfl
  · unfold Wal.flush
    rw [hlive]

/-- An append whose checks pass, and whose bytes are not all written and flushed. -/
theorem appendGroup_of_failure {staged : GroupStage} (hok : w.stageGroup batches = .ok staged)
    (reached : ℕ) (reason : String) :
    w.appendGroup batches (.writeFailed reached reason) = w.abandon staged.frames reached reason ∧
    (w.shouldFlush = true → w.appendGroup batches (.flushFailed reached reason) =
      w.abandon staged.frames reached reason) := by
  unfold appendGroup
  rw [hok]
  exact ⟨rfl, fun hflush => if_pos hflush⟩

/-- **What a call leaves that throws.** An append throws because a check refuses the group, or
because the device fails. In the first case the instance is as it was. In the second it refuses
every further call, its state and with it the durable sequence number are as they were, and the file
opens again to the old state after the first few batches of the group. A flush throws because the
instance has failed before, or because the device fails; then the same holds, and the file opens to
the old state. And the calls do throw: an append whose checks pass when a write fails, or the flush
that the options ask for; a flush of an instance with something to flush when it is refused. -/
theorem append_fails (h : w.Reachable) :
    (∀ batches outcome e w', (∀ batch ∈ batches, PersistBatch.InRange batch) →
      w.appendGroup batches outcome = (.error e, w') →
      (w.stageGroup batches = .error e ∧ w' = w) ∨
      (e.code = .io ∧ w'.FailStop ∧ w'.state = w.state ∧
        ∃ reopened n, openFile w'.file w.identity w.options = .ok reopened ∧ n ≤ batches.length ∧
          (batches.take n).foldlM (WalState.append w.options.toWalOptions) w.state.toWalState =
            .ok reopened.state.toWalState)) ∧
    (∀ refused e w', w.flush refused = (.error e, w') →
      (w.failed = true ∧ w' = w) ∨
      (e.code = .io ∧ w'.FailStop ∧ w'.state = w.state ∧
        ∃ reopened, openFile w'.file w.identity w.options = .ok reopened ∧
          reopened.state.toWalState = w.state.toWalState)) ∧
    (∀ batches staged reached reason, w.stageGroup batches = .ok staged →
      (w.appendGroup batches (.writeFailed reached reason)).1 =
        .error { code := .io, message := reason } ∧
      (w.shouldFlush = true → (w.appendGroup batches (.flushFailed reached reason)).1 =
        .error { code := .io, message := reason })) ∧
    ∀ reason, w.failed = false → w.state.durableFrameSequence ≠ w.state.lastFrameSequence →
      (w.flush (some reason)).1 = .error { code := .io, message := reason } := by
  obtain ⟨old, frames, hintact⟩ := h.intact
  refine ⟨?_, ?_, fun batches staged reached reason hok => ?_, fun reason hlive hbehind => ?_⟩
  · intro batches outcome e w' hrange hcall
    rcases appendGroup_cases w batches outcome with
      ⟨e', hstage, heq⟩ | ⟨staged, hok, heq | ⟨reached, reason, heq⟩⟩
    · obtain ⟨he, rfl⟩ := Prod.mk.inj (heq.symm.trans hcall)
      exact Or.inl ⟨Except.error.inj he ▸ hstage, rfl⟩
    · cases (Prod.mk.inj (heq.symm.trans hcall)).1
    · obtain ⟨he, rfl⟩ := Prod.mk.inj (heq.symm.trans hcall)
      obtain rfl := Except.error.inj he
      obtain ⟨hlive, t, hchain, -, -, -, hseq, hend⟩ := stageGroup_ok hok
      refine Or.inr ⟨rfl, failStop_of_failed rfl, rfl, ?_⟩
      change ∃ reopened n, openFile (writeExact w.file w.state.fileBytes
        (staged.frames.flatten.take reached)) w.identity w.options = .ok reopened ∧ _
      rw [hintact.writeExact hlive]
      exact hintact.reopen hlive hrange hchain hseq hend reached
  · intro refused e w' hcall
    unfold Wal.flush ensureLive at hcall
    by_cases hfailed : w.failed = true
    · rw [if_pos hfailed] at hcall
      exact Or.inl ⟨hfailed, (Prod.mk.inj hcall).2.symm⟩
    rw [if_neg hfailed] at hcall
    simp only at hcall
    split_ifs at hcall
    · cases (Prod.mk.inj hcall).1
    cases refused with
    | none => cases (Prod.mk.inj hcall).1
    | some reason =>
      obtain ⟨he, rfl⟩ := Prod.mk.inj hcall
      obtain rfl := Except.error.inj he
      refine Or.inr ⟨rfl, failStop_of_failed rfl, rfl, ?_⟩
      have hlive : w.failed = false := by simpa using hfailed
      have hnone : ∀ batch ∈ ([] : List PersistBatch), batch.InRange := by simp
      -- an empty group behind the file
      obtain ⟨reopened, n, hopen, hn, hstate⟩ := hintact.reopen hlive hnone (.nil _ _)
        (Nat.zero_le _) (Nat.zero_le _) 0
      rw [List.flatten_nil, List.take_nil, List.append_nil] at hopen
      rw [List.take_nil] at hstate
      exact ⟨reopened, hopen, (Except.ok.inj hstate).symm⟩
  · obtain ⟨hwrite, hflush⟩ := appendGroup_of_failure hok reached reason
    exact ⟨congrArg Prod.fst hwrite, fun hshould => congrArg Prod.fst (hflush hshould)⟩
  · unfold Wal.flush ensureLive
    simp only [hlive, Bool.false_eq_true, if_false, if_neg hbehind]

/-- A vote and its commit, of which the device has taken 130 bytes: the first frame is there. -/
theorem append_fails_voteAndCommit : ∃ e w' reopened n,
    (fresh ⟨1, 2, 3⟩ {}).appendGroup voteAndCommit (.writeFailed 130 "no space") = (.error e, w') ∧
    e.code = .io ∧ w'.FailStop ∧ w'.state = emptyScan.state ∧
    openFile w'.file ⟨1, 2, 3⟩ {} = .ok reopened ∧ n ≤ 2 ∧
    (voteAndCommit.take n).foldlM (WalState.append {}) {} = .ok reopened.state.toWalState := by
  obtain ⟨first, second, hframes, hfirst, hsecond⟩ := encodeFrames_voteAndCommit
  have hreachable : (fresh ⟨1, 2, 3⟩ {}).Reachable :=
    .opened (Nat.zero_le _) (openFile_nil (by decide))
  obtain ⟨staged, hok⟩ : ∃ staged, (fresh ⟨1, 2, 3⟩ {}).stageGroup voteAndCommit = .ok staged := by
    obtain ⟨hchain, -, -, -⟩ := chain_of_encodeFrames hframes
    obtain ⟨view, -, hok⟩ := stageGroup_of_chain (w := fresh ⟨1, 2, 3⟩ {}) rfl (by decide)
      (by decide) hchain (by simp [hfirst, hsecond, fresh]) (by decide)
      (by simp [hfirst, hsecond, fresh, emptyScan, maxU64, kFileHeaderBytes])
    exact ⟨_, hok⟩
  have hcall := (appendGroup_of_failure hok 130 "no space").1
  rcases (append_fails hreachable).1 voteAndCommit _ _ _ inRange_voteAndCommit hcall with
    ⟨herror, -⟩ | ⟨hcode, hstop, hstate, reopened, n, hopen, hn, hreplay⟩
  · rw [hok] at herror
    cases herror
  · exact ⟨_, _, reopened, n, hcall, hcode, hstop, hstate, hopen, hn, hreplay⟩

end Wal

end DetLog
