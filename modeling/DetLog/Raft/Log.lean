import DetLog.Consensus.History
import DetLog.Raft.Step

/-!
# The log of a node

What the loops over a log compute: the lookup, the validation of an append, the
comparison with what the log holds already, the packing of an append and the search
for a commit index. `DetLog.acceptedLog` is the log an accepted append leaves, in one
expression; `DetLog.acceptedLog_eq_splice` says that it takes over a prefix of the
leader's log in the sense of `Consensus.splice`.
-/

namespace DetLog

variable {log : List LogEntry} {entries : List LogEntry} {k : ℕ} {e : LogEntry} {term : ℕ} {i : ℕ}

open Consensus

/-! ### Lookup -/

@[simp] theorem entryAt_zero (log : List LogEntry) : entryAt log 0 = none := by
  simp [entryAt]

@[simp] theorem entryAt_succ (log : List LogEntry) (k : ℕ) : entryAt log (k + 1) = log[k]? := by
  unfold entryAt
  by_cases h : log.length < k + 1
  · rw [if_pos (Or.inr h), List.getElem?_eq_none (by omega)]
  · rw [if_neg (by omega), Nat.add_sub_cancel]

theorem entryAt_eq_some :
    entryAt log i = some e ↔ 0 < i ∧ log[i - 1]? = some e := by
  cases i with
  | zero | succ k => simp

theorem entryAt_of_isPrefix {l log : List LogEntry} (hp : l <+: log) (he : entryAt l i = some e) :
    entryAt log i = some e := by
  rw [entryAt_eq_some] at he ⊢
  obtain ⟨s, rfl⟩ := hp
  obtain ⟨hlt, -⟩ := List.getElem?_eq_some_iff.mp he.2
  exact ⟨he.1, by rw [List.getElem?_append_left hlt, he.2]⟩

/-- The term at an index of the log is the last term of the prefix it ends. -/
theorem termAt_eq_lastStamp (hi : i ≤ log.length) :
    termAt log i = lastStamp (log.take i) := by
  cases i with
  | zero => simp [termAt]
  | succ k =>
    have hk : k < log.length := hi
    rw [List.take_add_one, List.getElem?_eq_getElem hk, Option.toList_some, lastStamp_concat]
    simp [termAt, hk]

theorem termAt_length (log : List LogEntry) : termAt log log.length = lastStamp log := by
  rw [termAt_eq_lastStamp le_rfl, List.take_length]

theorem candidateIsUpToDate_eq_true {index : ℕ} :
    candidateIsUpToDate log index term = true ↔
      lastStamp log < term ∨ (term = lastStamp log ∧ log.length ≤ index) := by
  simp [candidateIsUpToDate, termAt_length]

/-! ### Consecutive indexes -/

/-- The entries of a list carry the indexes that follow `k`. -/
def IndexedFrom (k : ℕ) (l : List LogEntry) : Prop :=
  ∀ i e, l[i]? = some e → e.index = k + i + 1

theorem indexedFrom_nil (k : ℕ) : IndexedFrom k [] := fun i e h => by simp at h

theorem indexedFrom_cons {l : List LogEntry} :
    IndexedFrom k (e :: l) ↔ e.index = k + 1 ∧ IndexedFrom (k + 1) l := by
  constructor
  · intro h
    refine ⟨h 0 e rfl, fun i x hx => ?_⟩
    have := h (i + 1) x (by simpa using hx)
    omega
  · rintro ⟨he, hl⟩ (_ | i) x hx
    · obtain rfl : e = x := by simpa using hx
      exact he
    · have := hl i x (by simpa using hx)
      omega

theorem indexedFrom_append {l l' : List LogEntry} :
    IndexedFrom k (l ++ l') ↔ IndexedFrom k l ∧ IndexedFrom (k + l.length) l' := by
  induction l generalizing k with
  | nil => simp [indexedFrom_nil]
  | cons e l ih =>
    rw [List.cons_append, indexedFrom_cons, indexedFrom_cons, ih, List.length_cons]
    simp only [and_assoc, Nat.add_assoc, Nat.add_comm 1]

theorem indexedFrom_singleton :
    IndexedFrom k [e] ↔ e.index = k + 1 := by
  simp [indexedFrom_cons, indexedFrom_nil]

theorem IndexedFrom.of_isPrefix {l l' : List LogEntry} (h : IndexedFrom k l) (hp : l' <+: l) :
    IndexedFrom k l' := by
  obtain ⟨s, rfl⟩ := hp
  exact (indexedFrom_append.mp h).1

theorem IndexedFrom.drop {l : List LogEntry} (h : IndexedFrom k l) (m : ℕ) :
    IndexedFrom (k + m) (l.drop m) := by
  intro i e he
  rw [List.getElem?_drop] at he
  have := h _ e he
  omega

/-! ### Validation of entries -/

/-- What the source checks of every entry it takes from a peer or from its storage. -/
structure EntryOk (config : RaftConfig) (term : ℕ) (e : LogEntry) : Prop where
  term_pos : e.term ≠ 0
  term_le : e.term ≤ term
  acceptable : entryAcceptable config e = true
  bytes_le : entryBytes e ≤ config.maxAppendBytesPerRpc - kAppendRpcOverhead

/-- The validation loop of an append checks the indexes and every entry. -/
theorem of_entriesValidFrom {config : RaftConfig} {expected : ℕ} {bytes : ℕ}
    (hb : kAppendRpcOverhead ≤ bytes)
    (h : entriesValidFrom config term entries expected bytes = true) :
    IndexedFrom expected entries ∧ ∀ e ∈ entries, EntryOk config term e := by
  induction entries generalizing expected bytes with
  | nil => exact ⟨indexedFrom_nil _, by simp⟩
  | cons e rest ih =>
    rw [entriesValidFrom] at h
    split_ifs at h with h₁ h₂ h₃
    push Not at h₂ h₃
    obtain ⟨hidx, hpos, hle, hacc⟩ := h₃
    obtain ⟨hrest, hall⟩ := ih (by omega) h
    refine ⟨indexedFrom_cons.mpr ⟨hidx, hrest⟩, ?_⟩
    intro x hx
    rcases List.mem_cons.mp hx with rfl | hx
    · exact ⟨hpos, hle, by simpa using hacc, by omega⟩
    · exact hall x hx

/-- The validation loop of the constructor is the same check on a whole log. -/
theorem recoveredLogValid_iff {config : RaftConfig} {expected : ℕ} :
    recoveredLogValid config term log expected = true ↔
      IndexedFrom expected log ∧ ∀ e ∈ log, EntryOk config term e := by
  induction log generalizing expected with
  | nil => simp [recoveredLogValid, indexedFrom_nil]
  | cons e rest ih =>
    rw [recoveredLogValid, indexedFrom_cons, List.forall_mem_cons]
    split_ifs with h
    · refine iff_of_false (by simp) ?_
      rintro ⟨⟨hidx, -⟩, ⟨hpos, hle, hacc, hbytes⟩, -⟩
      rcases h with h | h | h | h | h
      · exact h hidx
      · exact hpos h
      · omega
      · simp [hacc] at h
      · omega
    · push Not at h
      obtain ⟨hidx, hpos, hle, hacc, hbytes⟩ := h
      rw [ih]
      have he : EntryOk config term e := ⟨hpos, hle, by simpa using hacc, hbytes⟩
      tauto

/-- The index an accepted append reaches is the number of entries behind it. -/
theorem appendMatchIndex_eq {request : AppendEntries}
    (h : IndexedFrom request.prevLogIndex request.entries) :
    Ctx.appendMatchIndex request = request.prevLogIndex + request.entries.length := by
  unfold Ctx.appendMatchIndex
  obtain hnil | ⟨p, e, hp⟩ := request.entries.eq_nil_or_concat'
  · simp [hnil]
  · rw [hp, indexedFrom_append, indexedFrom_singleton] at h
    simp only [hp, List.getLast?_append, List.getLast?_singleton, Option.some_or,
      List.length_append, List.length_cons, List.length_nil]
    omega

/-! ### Taking over a leader's entries -/

/-- How far an append agrees with the log: the matching entries are the ones the log
holds behind `k`, and the next one is not. -/
theorem matchingEntries_spec (log : List LogEntry) (h : IndexedFrom k entries) :
    matchingEntries log entries ≤ entries.length ∧
      entries.take (matchingEntries log entries) =
        (log.drop k).take (matchingEntries log entries) ∧
      ∀ e, entries[matchingEntries log entries]? = some e →
        log[k + matchingEntries log entries]? ≠ some e := by
  induction entries generalizing k with
  | nil => simp [matchingEntries]
  | cons e rest ih =>
    obtain ⟨he, hrest⟩ := indexedFrom_cons.mp h
    obtain ⟨hle, htake, hnext⟩ := ih hrest
    rw [matchingEntries]
    split_ifs with hm
    · rw [he, entryAt_succ] at hm
      obtain ⟨hk, hkv⟩ := List.getElem?_eq_some_iff.mp hm
      refine ⟨by simpa using hle, ?_, fun x hx => ?_⟩
      · rw [List.take_succ_cons, htake, List.drop_eq_getElem_cons hk, List.take_succ_cons, hkv]
      · have := hnext x (by simpa using hx)
        rwa [show k + (matchingEntries log rest + 1) = k + 1 + matchingEntries log rest by omega]
    · rw [he, entryAt_succ] at hm
      exact ⟨by simp, by simp, fun x hx hx' => hm (by simp at hx; rw [hx]; simpa using hx')⟩

/-- The log after an append has been accepted: what matches stays, and from the first
entry that does not the rest is replaced. -/
def acceptedLog (log entries : List LogEntry) : List LogEntry :=
  match entries.drop (matchingEntries log entries) with
  | [] => log
  | e :: rest => log.take (e.index - 1) ++ e :: rest

/-- **The two shapes of an accepted log**: it holds the append already, or it is cut
where it disagrees and ends with the append. -/
theorem acceptedLog_cases (log : List LogEntry) (h : IndexedFrom k entries) :
    (entries = (log.drop k).take entries.length ∧ acceptedLog log entries = log) ∨
      ∃ m e, entries[m]? = some e ∧
        (entries.drop (matchingEntries log entries)).head? = some e ∧ e.index = k + m + 1 ∧
        log[k + m]? ≠ some e ∧ acceptedLog log entries = log.take k ++ entries := by
  obtain ⟨hle, htake, hnext⟩ := matchingEntries_spec log h
  unfold acceptedLog
  split
  · next hnil =>
    rw [List.drop_eq_nil_iff] at hnil
    have hm : matchingEntries log entries = entries.length := by omega
    rw [hm, List.take_length] at htake
    exact Or.inl ⟨htake, rfl⟩
  · next e rest hcons =>
    have hget : entries[matchingEntries log entries]? = some e := by
      have := congrArg (·[0]?) hcons
      simpa using this
    have hidx := h _ e hget
    refine Or.inr ⟨_, e, hget, by rw [hcons]; rfl, hidx, hnext e hget, ?_⟩
    -- The part that matches is the same in the log and in the append.
    rw [show e.index - 1 = k + matchingEntries log entries by omega, List.take_add, ← htake,
      List.append_assoc, ← hcons, List.take_append_drop]

/-- **An accepted append takes over a prefix of the leader's log.** The log agrees with
the leader's up to the entry before the append, and the append carries what follows. -/
theorem acceptedLog_eq_splice {log entries leader : List LogEntry} (h : IndexedFrom k entries)
    (hk : k ≤ log.length) (hlog : log.take k = leader.take k)
    (hsub : entries = (leader.drop k).take entries.length) :
    acceptedLog log entries = splice leader (k + entries.length) log := by
  have htake : leader.take (k + entries.length) = log.take k ++ entries := by
    rw [List.take_add, ← hsub, hlog]
  rcases acceptedLog_cases log h with ⟨hall, heq⟩ | ⟨m, e, hget, -, -, hne, heq⟩
  · have hpre : leader.take (k + entries.length) <+: log := by
      rw [htake, hall, ← List.take_add]
      exact List.take_prefix _ _
    rw [heq, splice, if_pos hpre]
  · have hnot : ¬leader.take (k + entries.length) <+: log := by
      rw [htake]
      rintro ⟨s, hs⟩
      refine hne ?_
      obtain ⟨hm, -⟩ := List.getElem?_eq_some_iff.mp hget
      rw [← hs, List.append_assoc, List.getElem?_append_right (by simp),
        List.getElem?_append_left (by simpa [Nat.min_eq_left hk] using hm)]
      simpa [Nat.min_eq_left hk] using hget
    rw [heq, splice, if_neg hnot, htake]

/-- The log holds the previous entry of an append and its entries behind it. -/
structure Contains (log : List LogEntry) (request : AppendEntries) : Prop where
  prev_le : request.prevLogIndex ≤ log.length
  prev_term : termAt log request.prevLogIndex = request.prevLogTerm
  entries : request.entries = (log.drop request.prevLogIndex).take request.entries.length

/-- An accepted log contains the append. -/
theorem contains_acceptedLog {request : AppendEntries}
    (h : IndexedFrom request.prevLogIndex request.entries) (hk : request.prevLogIndex ≤ log.length)
    (hterm : termAt log request.prevLogIndex = request.prevLogTerm) :
    Contains (acceptedLog log request.entries) request := by
  rcases acceptedLog_cases log h with ⟨hall, heq⟩ | ⟨m, e, -, -, -, -, heq⟩
  · rw [heq]
    exact ⟨hk, hterm, hall⟩
  · have hlen : (log.take request.prevLogIndex).length = request.prevLogIndex := by
      rw [List.length_take, Nat.min_eq_left hk]
    rw [heq]
    refine ⟨by rw [List.length_append]; omega, ?_, ?_⟩
    · rw [← hterm, termAt_eq_lastStamp (by rw [List.length_append]; omega),
        termAt_eq_lastStamp hk, List.take_append_of_le_length hlen.ge, List.take_take,
        Nat.min_self]
    · rw [List.drop_append_of_le_length hlen.ge, List.drop_of_length_le hlen.le, List.nil_append,
        List.take_length]

/-- An accepted log reaches the end of the append. -/
theorem le_length_acceptedLog (h : IndexedFrom k entries) (hk : k ≤ log.length) :
    k + entries.length ≤ (acceptedLog log entries).length := by
  rcases acceptedLog_cases log h with ⟨hall, heq⟩ | ⟨m, e, -, -, -, -, heq⟩
  · have := congrArg List.length hall
    rw [List.length_take, List.length_drop] at this
    rw [heq]
    omega
  · rw [heq, List.length_append, List.length_take, Nat.min_eq_left hk]

/-! ### Sending and committing -/

theorem packEntries_packEntries (limit : ℕ) (l : List LogEntry) (encoded : ℕ) :
    packEntries limit (packEntries limit l encoded) encoded = packEntries limit l encoded := by
  induction l generalizing encoded with
  | nil => rfl
  | cons e rest ih =>
    by_cases hlarge : limit - encoded < entryBytes e
    · simp only [packEntries, if_pos hlarge]
    · simp only [packEntries, if_neg hlarge, ih]

theorem packEntries_isPrefix (limit : ℕ) (entries : List LogEntry) (encoded : ℕ) :
    packEntries limit entries encoded <+: entries := by
  induction entries generalizing encoded with
  | nil => exact List.prefix_rfl
  | cons e rest ih =>
    rw [packEntries]
    split_ifs
    · exact List.nil_prefix
    · exact (List.prefix_cons_inj e).mpr (ih _)

/-- The commit search keeps the commit index or finds a current-term entry that a
quorum is known to hold. -/
theorem RaftNode.commitTarget_cases (n : RaftNode) (k : ℕ) :
    n.commitTarget k = n.commitIndex ∨
      (n.commitIndex < n.commitTarget k ∧ n.commitTarget k ≤ k ∧
        (∃ e, entryAt n.log (n.commitTarget k) = some e ∧ e.term = n.currentTerm) ∧
        n.quorumSize ≤ n.replicas (n.commitTarget k)) := by
  induction k with
  | zero => exact Or.inl rfl
  | succ k ih =>
    -- The search goes down from the last durable index; an index that does not qualify
    -- hands over to the one below.
    have hdown : n.commitTarget k = n.commitIndex ∨
        (n.commitIndex < n.commitTarget k ∧ n.commitTarget k ≤ k + 1 ∧
          (∃ e, entryAt n.log (n.commitTarget k) = some e ∧ e.term = n.currentTerm) ∧
          n.quorumSize ≤ n.replicas (n.commitTarget k)) :=
      ih.imp_right fun ⟨h₁, h₂, h₃⟩ => ⟨h₁, by omega, h₃⟩
    rw [commitTarget]
    by_cases hlt : n.commitIndex < k + 1
    · rw [if_pos hlt]
      split
      · exact hdown
      · next e he =>
        by_cases hterm : e.term = n.currentTerm
        · by_cases hquorum : n.quorumSize ≤ n.replicas (k + 1)
          · rw [if_neg (not_not.mpr hterm), if_pos hquorum]
            exact Or.inr ⟨hlt, le_rfl, ⟨e, he, hterm⟩, hquorum⟩
          · rwa [if_neg (not_not.mpr hterm), if_neg hquorum]
        · rwa [if_pos hterm]
    · rw [if_neg hlt]
      exact Or.inl rfl

end DetLog
