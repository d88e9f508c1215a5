import DetLog.Faults
import DetLog.Safety

/-!
# Admission

A leader takes a client's entry only if the uncommitted part of its log stays within the
configured bounds, with room for one more readiness entry. A follower checks nothing. It
need not: what it accepts is a part of its leader's log, and the append says how far that
leader had committed. So the bound travels with the appends (`DetLog.carries_room`), and
every state of every host respects it (`DetLog.Cluster.uncommitted_bounded`).

The room that admission leaves is for the next leader. It is enough for one:
`DetLog.Cluster.readiness_iff` says when the winner of an election can append its readiness
entry, and `DetLog.Cluster.no_room_for_readiness` is a run in which it cannot, because
earlier leaders have used up the room without committing anything.
-/

namespace DetLog

open Consensus Consensus.History

/-! ### The uncommitted part of a log -/

/-- The bytes of the entries above an index. -/
def bytesAbove (log : List LogEntry) (commit : ℕ) : ℕ := ((log.drop commit).map entryBytes).sum

/-- A client's entry at the end of a log keeps one readiness entry in reserve. -/
def reserve (log : List LogEntry) : ℕ :=
  match log.getLast? with
  | some ⟨_, _, some _⟩ => 1
  | _ => 0

/-- The entries of a log above an index, with those in reserve, respect the bounds. -/
structure Within (config : RaftConfig) (log : List LogEntry) (commit : ℕ) : Prop where
  entries : log.length + reserve log ≤ commit + config.maxUncommittedEntries
  bytes : bytesAbove log commit + reserve log * kEntryOverhead ≤ config.maxUncommittedBytes

/-- **The admission invariant**: whatever prefix of the log a reader takes, its uncommitted
part respects the bounds. -/
def Room (config : RaftConfig) (log : List LogEntry) (commit : ℕ) : Prop :=
  ∀ p, p <+: log → commit < p.length → Within config p commit

section Room

variable {config : RaftConfig} {log p : List LogEntry} {commit commit' : ℕ} {e : LogEntry}

theorem bytesAbove_append (hle : commit ≤ log.length) (e : LogEntry) :
    bytesAbove (log ++ [e]) commit = bytesAbove log commit + entryBytes e := by
  rw [bytesAbove, List.drop_append_of_le_length hle, List.map_append, List.sum_append]
  simp [bytesAbove]

theorem bytesAbove_anti (hle : commit ≤ commit') :
    bytesAbove log commit' ≤ bytesAbove log commit := by
  obtain ⟨k, rfl⟩ := Nat.exists_eq_add_of_le hle
  have hsplit : bytesAbove log commit =
      (((log.drop commit).take k).map entryBytes).sum + bytesAbove log (commit + k) := by
    rw [bytesAbove, bytesAbove, ← List.drop_drop, ← List.sum_append, ← List.map_append,
      List.take_append_drop]
  omega

theorem Within.mono (hw : Within config log commit) (hle : commit ≤ commit') :
    Within config log commit' :=
  ⟨hw.entries.trans (by omega), le_trans (Nat.add_le_add_right (bytesAbove_anti hle) _) hw.bytes⟩

theorem Room.of_isPrefix (hr : Room config log commit) (hp : p <+: log) : Room config p commit :=
  fun _ hq => hr _ (hq.trans hp)

theorem Room.mono (hr : Room config log commit) (hle : commit ≤ commit') :
    Room config log commit' :=
  fun _ hp hlt => (hr _ hp (hle.trans_lt hlt)).mono hle

theorem Room.of_le (hle : log.length ≤ commit) : Room config log commit :=
  fun _ hp hlt => absurd (hp.length_le.trans hle) (not_le.mpr hlt)

theorem Room.append (hr : Room config log commit) (hw : Within config (log ++ [e]) commit) :
    Room config (log ++ [e]) commit := by
  intro p hp hlt
  rcases List.prefix_concat_iff.mp hp with rfl | hp
  · exact hw
  · exact hr p hp hlt

end Room

/-! ### The checks of a leader -/

/-- The running total of the code is the sum, cut off at the largest machine integer. -/
theorem sumBytes_eq_min (l : List LogEntry) {total : ℕ} (ht : total ≤ maxU64) :
    sumBytes l total = min maxU64 (total + (l.map entryBytes).sum) := by
  induction l generalizing total with
  | nil => simp [sumBytes, ht]
  | cons e l ih =>
    rw [sumBytes, List.map_cons, List.sum_cons]
    split_ifs with hover
    · omega
    · rw [ih (by omega), Nat.add_assoc]

section Checks

variable {n : RaftNode}

theorem RaftNode.uncommittedBytes_eq_min (n : RaftNode) :
    n.uncommittedBytes = min maxU64 (bytesAbove n.log n.commitIndex) := by
  have hsum := sumBytes_eq_min (n.log.drop n.commitIndex) (Nat.zero_le maxU64)
  rwa [Nat.zero_add] at hsum

variable (hsize : n.config.maxUncommittedBytes ≤ maxU64) (hcommit : n.commitIndex ≤ n.log.length)
include hsize hcommit

/-- When a new leader may append its readiness entry. -/
theorem RaftNode.canAppend_readiness_iff : n.canAppend (n.nextEntry none) = true ↔
      kEntryOverhead ≤ n.config.maxAppendBytesPerRpc - kAppendRpcOverhead ∧
        n.log.length + 1 ≤ n.commitIndex + n.config.maxUncommittedEntries ∧
        bytesAbove n.log n.commitIndex + kEntryOverhead ≤ n.config.maxUncommittedBytes := by
  have hbytes := n.uncommittedBytes_eq_min
  have hentry : entryBytes (n.nextEntry none) = kEntryOverhead := rfl
  have hpos : 0 < kEntryOverhead := by decide
  rw [RaftNode.canAppend, hentry]
  unfold RaftNode.uncommittedEntryCount RaftNode.lastLogIndex
  split_ifs with hrpc hcount
  · simp only [false_iff]
    omega
  · simp only [false_iff]
    omega
  · simp only [decide_eq_true_eq]
    omega

/-- What a leader has checked when it takes a client's entry. -/
theorem RaftNode.room_of_canAppendClient {e : LogEntry} (h : n.canAppendClient e = true) :
    n.log.length + 2 ≤ n.commitIndex + n.config.maxUncommittedEntries ∧
      bytesAbove n.log n.commitIndex + entryBytes e + kEntryOverhead ≤
        n.config.maxUncommittedBytes := by
  have hbytes := n.uncommittedBytes_eq_min
  have hpos : 0 < kEntryOverhead := by decide
  unfold RaftNode.canAppendClient RaftNode.uncommittedEntryCount RaftNode.lastLogIndex at h
  simp only at h
  split_ifs at h with hcount hcurrent
  simp only [decide_eq_true_eq] at h
  omega

theorem RaftNode.within_readiness (h : n.canAppend (n.nextEntry none) = true) :
    Within n.config (n.log ++ [n.nextEntry none]) n.commitIndex := by
  obtain ⟨-, hentries, hbytes⟩ := (n.canAppend_readiness_iff hsize hcommit).mp h
  have hreserve : reserve (n.log ++ [n.nextEntry none]) = 0 := by
    simp [reserve, RaftNode.nextEntry]
  refine ⟨?_, ?_⟩
  · rw [hreserve, List.length_append]
    exact hentries
  · rw [hreserve, bytesAbove_append hcommit, Nat.zero_mul]
    exact hbytes

theorem RaftNode.within_client {command : ClientCommand}
    (h : n.canAppendClient (n.nextEntry (some command)) = true) :
    Within n.config (n.log ++ [n.nextEntry (some command)]) n.commitIndex := by
  obtain ⟨hentries, hbytes⟩ := n.room_of_canAppendClient hsize hcommit h
  have hreserve : reserve (n.log ++ [n.nextEntry (some command)]) = 1 := by
    simp [reserve, RaftNode.nextEntry]
  refine ⟨?_, ?_⟩
  · rw [hreserve, List.length_append]
    exact hentries
  · rw [hreserve, bytesAbove_append hcommit, Nat.one_mul]
    exact hbytes

end Checks

/-! ### Every replica -/

variable {config : RaftConfig} {S S' : Cluster} {h : Chronicle} {i : NodeId} {n n' : RaftNode}
  {e : RaftEvent} {cause : Cause} {c c' : Ctx} {a : Action} {effects : List RaftEffect}
  {s : RecoveredState}

/-- **The bound travels with the appends.** -/
theorem carries_room (hsize : config.maxUncommittedBytes ≤ maxU64) :
    Carries config (fun _ s => Room config s.log s.commitIndex) fun h r => Room config
      ((h.leaderLog r.term).take (r.prevLogIndex + r.entries.length)) r.leaderCommit where
  empty h := Room.of_le le_rfl
  mono _ hs := hs
  append_mono {h h' m r} ht hm hg hr := by
    obtain ⟨sender, target, message⟩ := m
    obtain rfl : message = _ := hm
    obtain ⟨-, hlen, -⟩ := ht
    rwa [take_eq_of_isPrefix (hg.leaderLog_le _) hlen]
  plan {h n m cause batch k} := by
    rintro ⟨i, hconfig⟩ known plan hs
    have hle := known.formed.commit_le
    have hsize' : n.config.maxUncommittedBytes ≤ maxU64 := by rwa [hconfig]
    show Room config m.log m.commitIndex
    cases plan with
    | campaign hs' new core | adopt term k higher core => rwa [core.log, core.commitIndex]
    | grant candidate request w heard pos named term_le free fresh core =>
      rwa [core.log, core.commitIndex]
    | lead wins bound core =>
      have hroom := known.room wins (by simp [core.log])
      have hw := n.within_readiness hsize' hle hroom
      rw [core.log, core.commitIndex]
      rw [hconfig] at hw
      exact Room.append hs ⟨hw.entries, hw.bytes⟩
    | propose token command asked old ready acceptable admits bound room core =>
      have hw := n.within_client hsize' hle room
      rw [core.log, core.commitIndex]
      rw [hconfig] at hw
      exact Room.append hs ⟨hw.entries, hw.bytes⟩
    | commit target old core role peers above =>
      rw [core.log, core.commitIndex]
      exact Room.mono hs above.le
    | accept s request heard named fits keeps core =>
      obtain ⟨ht, hr⟩ := known.heard s request heard
      rw [core.log, core.commitIndex, acceptedLog_of_truthful known.inv known.traces fits ht]
      rcases splice_cases (h.leaderLog request.term) (Ctx.appendMatchIndex request) n.log with
        heq | ⟨-, heq⟩
      · rw [heq]
        exact Room.mono hs (le_max_left _ _)
      · rw [heq]
        rw [← fits.matchIndex] at hr
        rcases le_total request.leaderCommit (Ctx.appendMatchIndex request) with hc | hc
        · rw [min_eq_left hc]
          exact Room.mono hr (le_max_right _ _)
        · -- The leader had committed everything that it sent.
          rw [min_eq_right hc]
          exact Room.of_le ((List.length_take_le _ _).trans (le_max_right _ _))
  send {h n r} hlog hterm hlen hcommit _ hs := by
    rw [hterm, hcommit, take_eq_of_isPrefix hlog hlen]
    exact Room.of_isPrefix hs <| List.take_prefix _ _

/-- **Every replica respects the bounds of admission**: in every reachable state, for the
memory of every node and for what its storage has, the entries above the commit index are at
most `maxUncommittedEntries` and their bytes at most `maxUncommittedBytes`, a value of the
source's `size_t`. -/
theorem Cluster.uncommitted_bounded (hsize : config.maxUncommittedBytes ≤ maxU64)
    (hS : Reachable config S) (hs : S.Holds i s) :
    s.log.length - s.commitIndex ≤ config.maxUncommittedEntries ∧
      ((s.log.drop s.commitIndex).map entryBytes).sum ≤ config.maxUncommittedBytes := by
  obtain ⟨h, hr, hC⟩ := (carries_room hsize).reachable hS
  have hroom : Room config s.log s.commitIndex := by
    cases hs with
    | memory n on => exact hC.memory i n on
    | durable => exact hC.durable i
  rcases Nat.lt_or_ge s.commitIndex s.log.length with hlt | hge
  · obtain ⟨hentries, hbytes⟩ := hroom _ List.prefix_rfl hlt
    exact ⟨by omega, (Nat.le_add_right _ _).trans hbytes⟩
  · rw [List.drop_eq_nil_of_le hge]
    exact ⟨by omega, Nat.zero_le _⟩

/-- The leader of the sample run holds one uncommitted entry, its readiness entry. -/
theorem Cluster.uncommitted_bounded_elect :
    ((after Sample.config Sample.elect).durable 1).log.length -
        ((after Sample.config Sample.elect).durable 1).commitIndex ≤ 1024 ∧
      ((((after Sample.config Sample.elect).durable 1).log.drop
        ((after Sample.config Sample.elect).durable 1).commitIndex).map entryBytes).sum ≤
          Sample.config.maxUncommittedBytes :=
  Cluster.uncommitted_bounded (by decide) (reachable_after (by decide +kernel)) .durable

/-! ### The entry that makes a leader ready -/

/-- A new leader can append its readiness entry and hand it to storage. -/
structure RaftNode.CanEstablish (n : RaftNode) : Prop where
  index : n.log.length ≠ maxU64
  opId : n.nextStorageOpId ≠ 0
  append : n.canAppend (n.nextEntry none) = true

/-- A node announced that it leads. -/
def Announced (effects : List RaftEffect) : Prop :=
  ∃ r, .trace r ∈ effects ∧ r.kind = .roleChange ∧ r.detail = "became leader"

theorem canEstablish_iff {m : RaftNode} (hconfig : m.config = n.config)
    (hmem : m.memory = n.memory) (hid : m.nextStorageOpId = n.nextStorageOpId) :
    m.CanEstablish ↔ n.CanEstablish := by
  have hlog : m.log = n.log := congrArg RecoveredState.log hmem
  have hcommit : m.commitIndex = n.commitIndex := congrArg RecoveredState.commitIndex hmem
  have happend : m.canAppend (m.nextEntry none) = n.canAppend (n.nextEntry none) := by
    have hentry : entryBytes (m.nextEntry none) = entryBytes (n.nextEntry none) := rfl
    unfold RaftNode.canAppend RaftNode.uncommittedEntryCount RaftNode.uncommittedBytes
      RaftNode.lastLogIndex
    rw [hentry, hconfig, hlog, hcommit]
  constructor
  · rintro ⟨hindex, hop, happ⟩
    exact ⟨hlog ▸ hindex, hid ▸ hop, happend ▸ happ⟩
  · rintro ⟨hindex, hop, happ⟩
    exact ⟨hlog ▸ hindex, hid ▸ hop, happend ▸ happ⟩

section BecomeLeader

theorem appendReadiness_of_canEstablish (free : c.node.pendingStorage = none)
    (leader : c.node.role = .leader) (can : c.node.CanEstablish) :
    c.appendReadiness.node.role = .leader ∧
      c.appendReadiness.node.log = c.node.log ++ [c.node.nextEntry none] ∧
      c.appendReadiness.node.pendingStorage ≠ none := by
  have hindex : ¬c.node.lastLogIndex = maxU64 := can.index
  unfold Ctx.appendReadiness
  simp only
  rw [if_neg hindex, if_neg (by simp [can.append]), Ctx.beginPersist,
    if_neg (by simp [PersistBatch.isEmpty]),
    startPersist_of_free (by exact free) (by exact can.opId)]
  exact ⟨leader, rfl, by simp⟩

theorem appendReadiness_of_not (free : c.node.pendingStorage = none)
    (cannot : ¬c.node.CanEstablish) :
    c.appendReadiness.node.role = .follower ∨ c.appendReadiness.node.role = .unavailable := by
  unfold Ctx.appendReadiness
  simp only
  by_cases hindex : c.node.lastLogIndex = maxU64
  · rw [if_pos hindex, Ctx.failStorage_node]
    exact Or.inr rfl
  by_cases happend : c.node.canAppend (c.node.nextEntry none) = true
  · have hid : c.node.nextStorageOpId = 0 := by
      by_contra hid
      exact cannot ⟨hindex, hid, happend⟩
    rw [if_neg hindex, if_neg (by simp [happend]), Ctx.beginPersist,
      if_neg (by simp [PersistBatch.isEmpty]),
      startPersist_of_overflow (by exact free) (by exact hid), Ctx.failStorage_node]
    exact Or.inr rfl
  · rw [if_neg hindex, if_pos (by simpa using happend)]
    exact Or.inl rfl

/-- The winner of an election, before it appends its readiness entry. -/
theorem dispatch_eq_appendReadiness (wins : Wins c.node (.event e)) :
    ∃ c₁ : Ctx, c.dispatch e = c₁.appendReadiness ∧ c₁.node.role = .leader ∧
      c₁.node.pendingStorage = c.node.pendingStorage ∧ c₁.node.config = c.node.config ∧
      c₁.node.memory = c.node.memory ∧ c₁.node.nextStorageOpId = c.node.nextStorageOpId ∧
      c₁.node.leaderReady = false ∧ Announced c₁.effects := by
  obtain ⟨s, hs⟩ := dispatch_of_wins wins
  have hnode := Ctx.recordVote_node (c.trace .receive "protocol message received" 0) s
  refine ⟨_, hs, rfl, ?_, ?_, ?_, ?_, rfl,
    ⟨_, List.mem_append_right _ (List.mem_singleton_self _), rfl, rfl⟩⟩ <;>
    simp [hnode, RaftNode.memory]

theorem Announced.mono {effects effects' : List RaftEffect} (h : Announced effects)
    (hsub : effects ⊆ effects') : Announced effects' := by
  obtain ⟨r, hr, hwon⟩ := h
  exact ⟨r, hsub hr, hwon⟩

theorem Outcome.effects_subset (o : Outcome n cause c c') : c.effects ⊆ c'.effects := by
  obtain ⟨es, hes⟩ : ∃ es, c'.effects = c.effects ++ es := by
    cases o with
    | held hh => exact ⟨_, hh.emits.2.choose_spec.1⟩
    | waits batch k opId plan pending thrown effects => exact ⟨_, effects.choose_spec.1⟩
    | fails m batch k plan emits => exact ⟨_, emits.2.choose_spec.1⟩
  rw [hes]
  exact List.subset_append_left _ _

theorem announced_dispatch (free : c.node.pendingStorage = none)
    (wins : Wins c.node (.event e)) : Announced (c.dispatch e).effects := by
  obtain ⟨c₁, heq, hlead, hpending, -, -, -, hready, hannounced⟩ := dispatch_eq_appendReadiness wins
  have hmoves : Moves c.node (.event e) c₁ c₁.appendReadiness :=
    moves_appendReadiness (hpending.trans free) hlead hready
  rw [heq]
  exact hannounced.mono (effects_subset_of_moves hmoves)

/-- **A vote that completes a quorum is announced**, whether or not there is room for the readiness
entry. -/
theorem RaftNode.announced_of_wins (idle : n.Idle) (wins : Wins n (.event e)) :
    Announced (n.step e).effects := by
  obtain ⟨-, s, response, ⟨hcause, -⟩, -⟩ := id wins
  obtain rfl := Cause.event.inj hcause
  refine n.step_induction _ (I := fun c => Announced c.effects) (fun c hc => ?_) ?_
  · cases hc with
    | aside h =>
      cases h with
      | ignored _ _ _ down => exact absurd down idle.available
      | _ => simp [idle.free] at *
    | dispatched _ _ _ => exact announced_dispatch idle.free wins
  · intro c e' rest h idle' _
    exact h.mono (outcome_dispatch (c.pop rest) idle'.free e').effects_subset

end BecomeLeader

/-- **What becomes of an election within a step**: there is none, or it is won for good, or
the node is no leader for the rest of the step. -/
inductive Election (n : RaftNode) (c : Ctx) : Prop
  | quiet (silent : ¬Announced c.effects)
  | won (can : n.CanEstablish) (role : c.node.role = .leader)
      (log : c.node.log = n.log ++ [n.nextEntry none]) (waits : c.node.pendingStorage ≠ none)
  | lost (cannot : ¬n.CanEstablish) (role : c.node.role ≠ .leader)
      (candidate : c.node.role = .candidate → c.node.pendingStorage ≠ none)

theorem Plan.role_of_follower {m : RaftNode} {batch : PersistBatch} {k : Continuation}
    (plan : Plan n cause m batch k) (hn : n.role = .follower) : m.role ≠ .leader := by
  cases plan with
  | campaign hs new core role => simp [role]
  | adopt term k higher core role => simp [role]
  | grant candidate request w heard pos named term_le free fresh core role =>
    rcases role with role | ⟨-, role⟩ <;> simp [role, hn]
  | lead wins => exact absurd (hn.symm.trans wins.1) (by simp)
  | accept s request heard named fits keeps core role => simp [role]
  | propose token command asked old | commit target old =>
    exact absurd (hn.symm.trans old) (by simp)

/-- A follower does not become a leader in one reaction. -/
theorem Outcome.role_of_follower (o : Outcome n cause c c') (hn : n.role = .follower) :
    c'.node.role ≠ .leader ∧ (c'.node.role = .candidate → c'.node.pendingStorage ≠ none) := by
  cases o with
  | held hh =>
    cases hh.status with
    | same role => simp [role, hn]
    | tally s response heard term granted old => exact absurd (hn.symm.trans old) (by simp)
    | follower role | unavailable role => simp [role]
  | waits batch k opId plan pending =>
    exact ⟨plan.role_of_follower hn, fun _ => by simp [pending]⟩
  | fails m batch k plan emits core pending role => simp [role]

/-- A vote that completes a quorum decides the election at once. -/
theorem Election.of_wins (r : Reaction n e cause c c') (wins : Wins c.node cause) :
    Election n c' := by
  cases r with
  | resumed p =>
    obtain ⟨-, _, _, ⟨hcause, -⟩, -⟩ := wins
    cases hcause
  | event _ e' taken idle steady =>
    obtain ⟨c₁, heq, hlead, hpending, hconfig, hmem, hid, -⟩ := dispatch_eq_appendReadiness wins
    have hlog : c₁.node.log = n.log := congrArg RecoveredState.log (hmem.trans steady.memory)
    have hterm : c₁.node.currentTerm = n.currentTerm :=
      congrArg (fun s => s.hardState.currentTerm) (hmem.trans steady.memory)
    have hcan := canEstablish_iff (hconfig.trans steady.config) (hmem.trans steady.memory)
      (hid.trans steady.opId)
    have free := hpending.trans idle.free
    rw [heq]
    by_cases can : n.CanEstablish
    · obtain ⟨hrole, hlog', hwaits⟩ := appendReadiness_of_canEstablish free hlead (hcan.mpr can)
      refine .won can hrole ?_ hwaits
      rw [hlog', RaftNode.nextEntry, RaftNode.nextEntry, RaftNode.lastLogIndex,
        RaftNode.lastLogIndex, hlog, hterm]
    · rcases appendReadiness_of_not free fun h => can (hcan.mp h) with hrole | hrole
      · exact .lost can (by simp [hrole]) (by simp [hrole])
      · exact .lost can (by simp [hrole]) (by simp [hrole])

/-- **One reaction.** -/
theorem Election.react (r : Reaction n e cause c c') (hc : Election n c) : Election n c' := by
  cases hc with
  | won can role log waits => exact absurd r.idle.free waits
  | lost cannot role candidate =>
    have hfollower : c.node.role = .follower := by
      cases hrole : c.node.role with
      | follower => rfl
      | candidate => exact absurd r.idle.free (candidate hrole)
      | leader => exact absurd hrole role
      | unavailable => exact absurd hrole r.idle.available
    obtain ⟨hrole, hcandidate⟩ := r.outcome.role_of_follower hfollower
    exact .lost cannot hrole hcandidate
  | quiet silent =>
    by_cases hannounced : Announced c'.effects
    · obtain ⟨t, ht, hkind, hdetail⟩ := hannounced
      have hwins : Wins c.node cause := by
        rcases r.outcome.emitted ht (by simp) with hold | hok
        · exact absurd ⟨t, hold, hkind, hdetail⟩ silent
        · exact (hok hkind hdetail).1
      exact .of_wins r hwins
    · exact .quiet hannounced

/-- An event that is put aside announces nothing. -/
theorem Aside.silent (h : Aside n e c) : ¬Announced c.effects := by
  rintro ⟨r, hr, hkind, hdetail⟩
  have htolerant : Tolerant fun x => ∀ r, x = .trace r →
      ¬(r.kind = .roleChange ∧ r.detail = "became leader") := by
    refine ⟨fun r hr r' heq => ?_, fun t => by simp, fun a _ => by simp⟩
    cases heq
    exact hr
  obtain ⟨-, es, hes, hok⟩ := h.emits htolerant
  rw [hes, List.nil_append] at hr
  exact hok _ hr r rfl ⟨hkind, hdetail⟩

/-- **An election within a step**, in terms of the node before the step. -/
theorem Coherent.election {d : RecoveredState} {got : Set RaftEvent} (hco : Coherent d got n)
    (e : RaftEvent) : Election n (n.step e) := by
  refine TurnRule.step (I := Election n) ?_ hco
  refine ⟨fun c ha => .quiet ?_, fun _ => .quiet (by simp [Announced]), fun p _ => .quiet ?_, ?_,
    fun r hc => hc.react r⟩
  · exact ha.silent
  · simp [Announced, RaftNode.marked, Ctx.markDurable, Ctx.trace, Ctx.emit]
  · intro c _ rest _ _ hc
    cases hc with
    | quiet silent => exact .quiet silent
    | won can role log waits => exact .won can role log waits
    | lost cannot role candidate => exact .lost cannot role candidate

/-- **The room that a new leader finds**: its counters are not exhausted, one append can carry
its entry, and the uncommitted part of its log is empty, ends with a client's entry, or is
one entry below the bounds. -/
structure RaftNode.ReadinessRoom (n : RaftNode) : Prop where
  index : n.log.length ≠ maxU64
  opId : n.nextStorageOpId ≠ 0
  rpc : kAppendRpcOverhead + kEntryOverhead ≤ n.config.maxAppendBytesPerRpc
  suffix : n.log.length = n.commitIndex ∨ reserve n.log = 1 ∨
    (n.log.length + 1 ≤ n.commitIndex + n.config.maxUncommittedEntries ∧
      bytesAbove n.log n.commitIndex + kEntryOverhead ≤ n.config.maxUncommittedBytes)

/-- **A client's entry keeps its promise**: whoever inherits it as the last entry has room. -/
theorem RaftNode.canEstablish_iff_readinessRoom (hentries : 2 ≤ n.config.maxUncommittedEntries)
    (hbytes : 128 ≤ n.config.maxUncommittedBytes) (hsize : n.config.maxUncommittedBytes ≤ maxU64)
    (hcommit : n.commitIndex ≤ n.log.length) (hroom : Room n.config n.log n.commitIndex) :
    n.CanEstablish ↔ n.ReadinessRoom := by
  have hoverhead : kEntryOverhead = 64 := rfl
  have happend := n.canAppend_readiness_iff hsize hcommit
  constructor
  · rintro ⟨hindex, hid, happ⟩
    obtain ⟨hrpc, hlen, hsum⟩ := happend.mp happ
    exact ⟨hindex, hid, by omega, Or.inr (Or.inr ⟨hlen, hsum⟩)⟩
  · rintro ⟨hindex, hid, hrpc, hsuffix⟩
    refine ⟨hindex, hid, happend.mpr ⟨by omega, ?_⟩⟩
    rcases hsuffix with hempty | hclient | hfree
    · have hnone : bytesAbove n.log n.commitIndex = 0 := by
        simp [bytesAbove, ← hempty]
      omega
    · rcases hcommit.lt_or_eq with hlt | heq
      · obtain ⟨hlen, hsum⟩ := hroom _ List.prefix_rfl hlt
        rw [hclient] at hlen hsum
        omega
      · have hnone : bytesAbove n.log n.commitIndex = 0 := by
          simp [bytesAbove, heq]
        omega
    · exact hfree

/-! ### Reigns

The bounds of the sample runs allow two uncommitted entries. Node 1 is elected again and again by
node 2. Each time it crashes as soon as its readiness entry is durable, so nothing is committed; the
third time there is no room for another entry. -/

namespace Sample

/-- Room for two entries. -/
def tightConfig : RaftConfig := { Sample.config with maxUncommittedEntries := 2 }

/-- Node 1 restarts and asks node 2 for its vote. -/
def restart (term : ℕ) : List Action :=
  [.boot 1, .start 1, .timer 1 .election 1, .complete 1, ask 1 2 term (term - 1), .complete 2]

/-- Node 2 elects node 1, which crashes once its entry is durable. -/
def reign (term : ℕ) : List Action :=
  restart term ++ [grant 2 1 term, .complete 1, .crash 1 false]

/-- Node 1 asks for votes again after its first reign. -/
def returns : List Action := [.boot 2] ++ reign 1 ++ restart 2

/-- Two reigns and a third election. -/
def reigns : List Action := ([.boot 2] ++ reign 1) ++ (reign 2 ++ restart 3)

end Sample

/-- **When the winner of an election can establish its commit barrier.** A winner is a node that
announces it, as everyone does whose votes reach a quorum (`RaftNode.announced_of_wins`). -/
theorem Cluster.readiness_iff (hentries : 2 ≤ config.maxUncommittedEntries)
    (hbytes : 128 ≤ config.maxUncommittedBytes) (hsize : config.maxUncommittedBytes ≤ maxU64)
    (hS : Reachable config S) (hstep : S.step config a = some (S', effects))
    (hon : S.node a.actor = some n) (hon' : S'.node a.actor = some n')
    (hwon : Announced effects) :
    (n'.role = .leader ∧ n'.log = n.log ++ [n.nextEntry none]) ↔ n.ReadinessRoom := by
  obtain ⟨h, hr, hC⟩ := (carries_room hsize).reachable hS
  have hn := hr.on hon
  have hiff : n.CanEstablish ↔ n.ReadinessRoom := by
    refine n.canEstablish_iff_readinessRoom ?_ ?_ ?_ hn.coherent.formed.commit_le ?_
    · rwa [hn.config_eq]
    · rwa [hn.config_eq]
    · rwa [hn.config_eq]
    · rw [hn.config_eq]
      exact fun p hp hlt =>
        ⟨(hC.memory _ n hon p hp hlt).entries, (hC.memory _ n hon p hp hlt).bytes⟩
  have helection : Election n { node := n', effects := effects } := by
    cases Cluster.move_of_step hstep with
    | boot i n off created | crash i n keep on => exact .quiet (by simp [Announced])
    | start i n on =>
      refine .quiet ?_
      rcases start_cases n with heq | heq <;> simp [heq, Announced]
    | feed m feeds on actor =>
      subst actor
      obtain rfl := Option.some.inj (hon.symm.trans on)
      obtain rfl : (n.step _).node = n' := by simpa [Cluster.node] using hon'
      cases hn.coherent.election _ with
      | quiet silent => exact .quiet silent
      | won can role log waits => exact .won can role log waits
      | lost cannot role candidate => exact .lost cannot role candidate
  rw [← hiff]
  cases helection with
  | quiet silent => exact absurd hwon silent
  | won can role log => exact ⟨fun _ => can, fun _ => ⟨role, log⟩⟩
  | lost cannot role => exact ⟨fun hlead => absurd hlead.1 role, fun can => absurd can cannot⟩

/-- The second leader finds the entry of the first one, which is not committed. -/
theorem Cluster.readiness_iff_inherited :
    let S := after Sample.tightConfig Sample.returns
    let S' := after Sample.tightConfig (Sample.returns ++ [Sample.grant 2 1 2])
    (S.node 1).map (fun n => (n.log, n.commitIndex)) = some ([⟨1, 1, none⟩], 0) ∧
    ((S'.node 1).get (by decide +kernel)).role = .leader ∧
    ((S'.node 1).get (by decide +kernel)).log = [⟨1, 1, none⟩, ⟨2, 2, none⟩] :=
  ⟨by decide +kernel,
    (Cluster.readiness_iff (by decide) (by decide) (by decide)
      (reachable_after (by decide +kernel)) (step_after (by decide +kernel))
      (Option.some_get (by decide +kernel : ((after Sample.tightConfig Sample.returns).node
        (Sample.grant 2 1 2).actor).isSome)).symm
      (Option.some_get (by decide +kernel)).symm
      ⟨⟨.roleChange, 1, 2, 0, "became leader"⟩, by decide +kernel, rfl, rfl⟩).mpr
      ⟨by decide +kernel, by decide +kernel, by decide, Or.inr (Or.inr (by decide +kernel))⟩⟩

/-- **A quorum of votes is not enough**: a reachable state of a valid configuration in which
the winner of an election finds no room and is a follower again. -/
theorem Cluster.no_room_for_readiness :
    2 ≤ Sample.tightConfig.maxUncommittedEntries ∧ 128 ≤ Sample.tightConfig.maxUncommittedBytes ∧
    Reachable Sample.tightConfig (after Sample.tightConfig Sample.reigns) ∧
    (after Sample.tightConfig Sample.reigns).step Sample.tightConfig (Sample.grant 2 1 3) =
      some (after Sample.tightConfig (Sample.reigns ++ [Sample.grant 2 1 3]),
        effectsAfter Sample.tightConfig Sample.reigns (Sample.grant 2 1 3)) ∧
    .trace ⟨.roleChange, 1, 3, 0, "became leader"⟩ ∈
      effectsAfter Sample.tightConfig Sample.reigns (Sample.grant 2 1 3) ∧
    .trace ⟨.queueSaturated, 1, 3, 0, "no room for leader readiness entry"⟩ ∈
      effectsAfter Sample.tightConfig Sample.reigns (Sample.grant 2 1 3) ∧
    ((after Sample.tightConfig (Sample.reigns ++ [Sample.grant 2 1 3])).node 1).map
      RaftNode.role = some .follower :=
  ⟨by decide, by decide, reachable_after (by decide +kernel), step_after (by decide +kernel),
    by decide +kernel, by decide +kernel, by decide +kernel⟩

end DetLog
