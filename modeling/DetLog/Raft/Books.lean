import DetLog.Raft.Micro
import DetLog.Sessions

/-!
# The books of a node

What a node keeps for its clients: the state machine, the entries that clients wait for
(`pendingClients`), and for every session the index of its pending entry
(`pendingSessions`). `DetLog.Ledger` says that the books are right, for one node under
arbitrary events:

* the state machine is the replay of the applied prefix, which is durably committed;
* a pending entry is an unapplied entry of the log, and its waiters asked for it;
* a ready leader has every unapplied command of its log on the books, so that it can
  tell the next command of a session from a repetition;
* a successful reply reports what applying the requested command returned.

The third point rests on the readiness entry: a leader that is not ready yet has not
appended anything behind it, and it becomes ready once it has applied it.
-/

namespace DetLog

variable {clients : OrdMap ℕ PendingClientEntry} {sessions : OrdMap SessionId ℕ} {index : ℕ}

open Consensus

/-! ### The invariant -/

/-- Two commands that a node cannot tell apart. -/
structure SameRequest (c c' : ClientCommand) : Prop where
  session : c.session = c'.session
  sequence : c.sequence = c'.sequence
  digest : KvStateMachine.commandDigest c = KvStateMachine.commandDigest c'

theorem SameRequest.refl (c : ClientCommand) : SameRequest c c := ⟨rfl, rfl, rfl⟩

/-- A pending entry: not applied yet, part of the log, and asked for by its waiters. -/
structure PendingOk (got : Set RaftEvent) (log : List LogEntry) (lastApplied index : ℕ)
    (p : PendingClientEntry) : Prop where
  unapplied : lastApplied < index
  entry : ∃ e, entryAt log index = some e ∧ e.command = some p.command
  digest : p.digest = KvStateMachine.commandDigest p.command
  waiters : ∀ token ∈ p.waiters, ∃ command, .clientRequest token command ∈ got ∧
    SameRequest command p.command

/-- The two maps of the books belong together: a session points to a pending entry of
its own. -/
def Matched (clients : OrdMap ℕ PendingClientEntry) (sessions : OrdMap SessionId ℕ) : Prop :=
  ∀ s index, sessions.find s = some index →
    ∃ p, clients.find index = some p ∧ p.command.session = s

/-- An entry leaves the books together with the pointer of its session. -/
theorem Matched.drop (h : Matched clients sessions) {p : PendingClientEntry}
    (hp : clients.find index = some p) :
    Matched (clients.erase index)
      (if sessions.find p.command.session = some index then sessions.erase p.command.session
        else sessions) := by
  intro s k hk
  have hold : sessions.find s = some k ∧ k ≠ index := by
    split_ifs at hk with hs
    · rw [OrdMap.find_erase] at hk
      split_ifs at hk with hne
      refine ⟨hk, ?_⟩
      rintro rfl
      obtain ⟨p', hp', hs'⟩ := h s k hk
      obtain rfl : p = p' := Option.some.inj (hp.symm.trans hp')
      exact hne hs'.symm
    · refine ⟨hk, ?_⟩
      rintro rfl
      obtain ⟨p', hp', hs'⟩ := h s k hk
      obtain rfl : p = p' := Option.some.inj (hp.symm.trans hp')
      exact hs (hs' ▸ hk)
  obtain ⟨p', hp', hs'⟩ := h s k hold.1
  exact ⟨p', by rw [OrdMap.find_erase, if_neg hold.2, hp'], hs'⟩

/-- An entry enters the books together with the pointer of its session. -/
theorem Matched.put (h : Matched clients sessions) (hfree : clients.find index = none)
    (p : PendingClientEntry) :
    Matched (clients.insert index p) (sessions.insert p.command.session index) := by
  intro s k hk
  rw [OrdMap.find_insert] at hk
  split_ifs at hk with hs
  · obtain rfl := Option.some.inj hk
    exact ⟨p, OrdMap.find_insert_self _ _ _, hs.symm⟩
  · obtain ⟨q, hq, hsq⟩ := h s k hk
    refine ⟨q, ?_, hsq⟩
    rw [OrdMap.find_insert, if_neg, hq]
    rintro rfl
    exact absurd (hfree.symm.trans hq) (by simp)

/-- An entry may change as long as it stays with its session. -/
theorem Matched.replace (h : Matched clients sessions) {p q : PendingClientEntry}
    (hp : clients.find index = some p) (hs : q.command.session = p.command.session) :
    Matched (clients.insert index q) sessions := by
  intro s k hk
  obtain ⟨p', hp', hs'⟩ := h s k hk
  rw [OrdMap.find_insert]
  split_ifs with heq
  · subst heq
    obtain rfl : p = p' := Option.some.inj (hp.symm.trans hp')
    exact ⟨q, rfl, hs.trans hs'⟩
  · exact ⟨p', hp', hs'⟩

/-- What holds of the books in every role. -/
structure Filed (got : Set RaftEvent) (n : RaftNode) : Prop where
  applied_le : n.lastApplied ≤ n.durableCommitIndex
  length_le : n.lastApplied ≤ n.log.length
  durable_le : n.durableCommitIndex ≤ n.commitIndex
  machine : n.stateMachine = replay (n.log.take n.lastApplied)
  pending : ∀ index p, n.pendingClients.find index = some p →
    PendingOk got n.log n.lastApplied index p
  sessions : Matched n.pendingClients n.pendingSessions

/-- What holds of the books of a leader. -/
structure Led (n : RaftNode) : Prop where
  ready : n.role = .leader → n.leaderReady = true → ∀ index e command, n.lastApplied < index →
    entryAt n.log index = some e → e.command = some command →
    n.pendingSessions.find command.session = some index ∧
      ∃ p, n.pendingClients.find index = some p
  unready : n.role = .leader → n.leaderReady = false → n.readinessIndex ≠ 0 →
    n.log.length = n.readinessIndex

theorem led_of_ne_leader {n : RaftNode} (h : n.role ≠ .leader) : Led n :=
  ⟨fun hl => absurd hl h, fun hl => absurd hl h⟩

/-- A successful reply: the applied prefix holds the requested command, and the reply
carries what applying it returned. -/
def ReplyOk (got : Set RaftEvent) (applied : List LogEntry) (token : ClientToken)
    (value : Bytes) : Prop :=
  ∃ asked k e command, .clientRequest token asked ∈ got ∧ applied[k]? = some e ∧
    e.command = some command ∧ SameRequest asked command ∧
    ((replay (applied.take k)).apply command).2.status = .ok ∧
    ((replay (applied.take k)).apply command).2.value = value

theorem ReplyOk.mono {got : Set RaftEvent} {applied applied' : List LogEntry}
    {token : ClientToken} {value : Bytes} (h : ReplyOk got applied token value)
    (hp : applied <+: applied') : ReplyOk got applied' token value := by
  obtain ⟨s, rfl⟩ := hp
  obtain ⟨asked, k, e, command, hasked, hk, hrest⟩ := h
  obtain ⟨hlt, -⟩ := List.getElem?_eq_some_iff.mp hk
  refine ⟨asked, k, e, command, hasked, by rwa [List.getElem?_append_left hlt], ?_⟩
  rwa [List.take_append_of_le_length hlt.le]

/-- The applied prefix of the log. -/
def RaftNode.applied (n : RaftNode) : List LogEntry := n.log.take n.lastApplied

/-- Every success is of an applied command. -/
def RepliesOk (got : Set RaftEvent) (c : Ctx) : Prop :=
  ∀ r, .clientReply r ∈ c.effects → r.status = .ok → ReplyOk got c.node.applied r.token r.value

/-- **The books are right**, in a transition in progress. -/
structure Ledger (got : Set RaftEvent) (c : Ctx) : Prop where
  filed : Filed got c.node
  led : Led c.node
  replies : RepliesOk got c

/-! ### What leaves the books alone -/

/-- No successful reply. -/
def Unacknowledged (e : RaftEffect) : Prop := ∀ r, e = .clientReply r → r.status ≠ .ok

theorem tolerant_unacknowledged : Tolerant Unacknowledged :=
  ⟨fun _ _ _ h => by simp at h, fun _ _ h => by simp at h, fun _ h _ he => by
    obtain rfl := RaftEffect.clientReply.inj he
    exact h⟩

/-- The books of a node. -/
def RaftNode.books (n : RaftNode) :=
  (n.log, n.lastApplied, n.stateMachine, n.pendingClients, n.pendingSessions, n.durableCommitIndex)

/-- A change that leaves the books alone; it may raise the commit index or end the
node's leadership. -/
structure SameBooks (n m : RaftNode) : Prop where
  books : m.books = n.books
  commit : n.commitIndex ≤ m.commitIndex
  lead : m.role = .leader → n.role = .leader ∧ m.leaderReady = n.leaderReady ∧
    m.readinessIndex = n.readinessIndex

section Frame

variable {got : Set RaftEvent} {n m : RaftNode} {c c' : Ctx} {l : List LogEntry}
  {command : ClientCommand} {token : ClientToken} {index : ℕ}

theorem Filed.same (h : Filed got n) (hb : SameBooks n m) : Filed got m := by
  have hbooks := hb.books
  simp only [RaftNode.books, Prod.mk.injEq] at hbooks
  obtain ⟨hlog, happ, hsm, hpc, hps, hd⟩ := hbooks
  exact ⟨by rw [happ, hd]; exact h.applied_le, by rw [happ, hlog]; exact h.length_le,
    by rw [hd]; exact h.durable_le.trans hb.commit, by rw [hsm, hlog, happ]; exact h.machine,
    by rw [hpc, hlog, happ]; exact h.pending, by rw [hpc, hps]; exact h.sessions⟩

theorem Led.same (h : Led n) (hb : SameBooks n m) : Led m := by
  have hbooks := hb.books
  simp only [RaftNode.books, Prod.mk.injEq] at hbooks
  obtain ⟨hlog, happ, -, hpc, hps, -⟩ := hbooks
  refine ⟨fun hl hr => ?_, fun hl hr => ?_⟩
  · obtain ⟨hl', hr', -⟩ := hb.lead hl
    rw [hlog, happ, hpc, hps]
    exact h.ready hl' (hr' ▸ hr)
  · obtain ⟨hl', hr', hi⟩ := hb.lead hl
    rw [hlog, hi]
    exact h.unready hl' (hr' ▸ hr)

theorem RepliesOk.emits (h : RepliesOk got c) (he : Emits Unacknowledged c c')
    (happ : c.node.applied <+: c'.node.applied) : RepliesOk got c' := by
  obtain ⟨-, es, hes, hok⟩ := he
  intro r hr hstatus
  rw [hes, List.mem_append] at hr
  rcases hr with hr | hr
  · exact (h r hr hstatus).mono happ
  · exact absurd hstatus (hok _ hr r rfl)

theorem SameBooks.applied (hb : SameBooks n m) : m.applied = n.applied := by
  have hbooks := hb.books
  simp only [RaftNode.books, Prod.mk.injEq] at hbooks
  rw [RaftNode.applied, RaftNode.applied, hbooks.1, hbooks.2.1]

namespace Ledger

variable (h : Ledger got c)
include h

theorem frame (he : Emits Unacknowledged c c') (hb : SameBooks c.node c'.node) : Ledger got c' :=
  ⟨h.filed.same hb, h.led.same hb, h.replies.emits he (by rw [hb.applied])⟩

theorem setNode (hb : SameBooks c.node m) : Ledger got { c with node := m } :=
  h.frame ((Emits.refl c).setNode m) hb

theorem emits (he : Emits Unacknowledged c c') (hn : c'.node = c.node) : Ledger got c' :=
  h.frame he (by rw [hn]; exact ⟨rfl, le_rfl, fun h => ⟨h, rfl, rfl⟩⟩)

theorem trace (kind : TraceKind) (detail : String) (index : ℕ) :
    Ledger got (c.trace kind detail index) :=
  h.emits ((Emits.refl c).emit (by simp [Unacknowledged])) rfl

theorem emitReply {status : ClientStatus} {value : Bytes} (hs : status ≠ .ok) :
    Ledger got (c.emitReply token status value index) :=
  h.emits (tolerant_unacknowledged.replied (Emits.refl c) hs) rfl

theorem scheduleElection : Ledger got c.scheduleElection :=
  h.frame (tolerant_unacknowledged.election (Emits.refl c))
    ⟨rfl, le_rfl, fun h => ⟨h, rfl, rfl⟩⟩

theorem scheduleHeartbeat : Ledger got c.scheduleHeartbeat :=
  h.frame (tolerant_unacknowledged.heartbeat (Emits.refl c))
    ⟨rfl, le_rfl, fun h => ⟨h, rfl, rfl⟩⟩

theorem sendMessage (target : NodeId) (message : Message) :
    Ledger got (c.sendMessage target message) :=
  (h.trace _ _ _).emits ((Emits.refl _).emit (by simp [Unacknowledged])) rfl

end Ledger

/-- A node that stops answers its waiters and closes the books. -/
theorem ledger_failStorage (hf : Filed got c.node) (hr : RepliesOk got c) (detail : String) :
    Ledger got (c.failStorage detail) := by
  refine ⟨?_, ?_, hr.emits (tolerant_unacknowledged.failed (Emits.refl c)) ?_⟩
  · rw [Ctx.failStorage_node]
    exact ⟨hf.applied_le, hf.length_le, hf.durable_le, hf.machine, by simp, by simp [Matched]⟩
  · rw [Ctx.failStorage_node]
    exact led_of_ne_leader (by simp)
  · rw [Ctx.failStorage_node]
    exact List.prefix_rfl

theorem Ledger.failStorage (h : Ledger got c) (detail : String) :
    Ledger got (c.failStorage detail) :=
  ledger_failStorage h.filed h.replies detail

theorem Ledger.startPersist (h : Ledger got c) (batch : PersistBatch) (k : Continuation) :
    Ledger got (c.startPersist batch k) := by
  unfold Ctx.startPersist
  split_ifs
  · exact ⟨h.filed, h.led, h.replies⟩
  · exact h.failStorage _
  · refine Ledger.emits (Ledger.trace ?_ _ _ _) ((Emits.refl _).emit (by simp [Unacknowledged])) rfl
    exact h.setNode ⟨rfl, le_rfl, fun h => ⟨h, rfl, rfl⟩⟩

/-! ### Applying -/

theorem RepliesOk.emitReply {status : ClientStatus} {value : Bytes} (h : RepliesOk got c)
    (hr : status = .ok → ReplyOk got c.node.applied token value) :
    RepliesOk got (c.emitReply token status value index) := by
  intro r hmem hstatus
  simp only [Ctx.emitReply, Ctx.trace, Ctx.emit, List.mem_append, List.mem_singleton,
    RaftEffect.clientReply.injEq, reduceCtorEq, or_false] at hmem
  rcases hmem with hmem | rfl
  · exact h r hmem hstatus
  · exact hr hstatus

theorem RepliesOk.emitReplies {tokens : List ClientToken} {status : ClientStatus} {value : Bytes}
    (h : RepliesOk got c)
    (hr : status = .ok → ∀ token ∈ tokens, ReplyOk got c.node.applied token value) :
    RepliesOk got (c.emitReplies tokens status value index) := by
  induction tokens generalizing c with
  | nil => exact h
  | cons token rest ih =>
    refine ih (h.emitReply fun hs => hr hs token (by simp)) fun hs t ht => ?_
    exact hr hs t (by simp [ht])

/-- The applied prefix grows by one entry. -/
theorem take_lastApplied {e : LogEntry} (he : entryAt n.log (n.lastApplied + 1) = some e) :
    n.log.take (n.lastApplied + 1) = n.applied ++ [e] := by
  rw [entryAt_succ] at he
  rw [List.take_add_one, he]
  rfl

/-- The state machine after one more entry. -/
def RaftNode.applying (n : RaftNode) (e : LogEntry) : KvStateMachine × ApplyResult :=
  match e.command with
  | some command => n.stateMachine.apply command
  | none => (n.stateMachine, {})

/-- The books after the next entry `e` has been applied: it is no longer pending. -/
structure Retires (n : RaftNode) (e : LogEntry) (m : RaftNode) : Prop where
  log : m.log = n.log
  lastApplied : m.lastApplied = n.lastApplied + 1
  machine : m.stateMachine = (n.applying e).1
  commit : m.commitIndex = n.commitIndex ∧ m.durableCommitIndex = n.durableCommitIndex
  lead : m.role = n.role ∧ m.leaderReady = n.leaderReady ∧ m.readinessIndex = n.readinessIndex
  clients : ∀ index, m.pendingClients.find index =
    if index = n.lastApplied + 1 then none else n.pendingClients.find index
  sessions : ∀ s index, index ≠ n.lastApplied + 1 → n.pendingSessions.find s = some index →
    m.pendingSessions.find s = some index
  matched : Matched n.pendingClients n.pendingSessions →
    Matched m.pendingClients m.pendingSessions

/-- The state machine replays the applied prefix. -/
theorem Retires.replays {e : LogEntry} (hm : Retires n e m)
    (h : n.stateMachine = replay (n.log.take n.lastApplied))
    (he : entryAt n.log (n.lastApplied + 1) = some e) :
    m.stateMachine = replay (m.log.take m.lastApplied) := by
  rw [hm.machine, hm.log, hm.lastApplied, take_lastApplied he, RaftNode.applying, h]
  cases hc : e.command with
  | none => exact (replay_concat_none hc).symm
  | some command => exact (replay_concat_some hc).symm

theorem Filed.retires (h : Filed got n) {e : LogEntry} (hm : Retires n e m)
    (he : entryAt n.log (n.lastApplied + 1) = some e)
    (hd : n.lastApplied < n.durableCommitIndex) : Filed got m := by
  refine ⟨?_, ?_, ?_, hm.replays h.machine he, fun index p hp => ?_, hm.matched h.sessions⟩
  · rw [hm.lastApplied, hm.commit.2]
    exact hd
  · rw [entryAt_succ] at he
    rw [hm.lastApplied, hm.log]
    exact (List.getElem?_eq_some_iff.mp he).1
  · rw [hm.commit.1, hm.commit.2]
    exact h.durable_le
  · rw [hm.clients] at hp
    split_ifs at hp with hidx
    have hok := h.pending index p hp
    rw [hm.log, hm.lastApplied]
    exact { hok with unapplied := lt_of_le_of_ne hok.unapplied (Ne.symm hidx) }

theorem Led.retires (h : Led n) {e : LogEntry} (hm : Retires n e m) : Led m := by
  obtain ⟨hrole, hready, hidx⟩ := hm.lead
  refine ⟨?_, ?_⟩
  · rw [hrole, hready, hm.log, hm.lastApplied]
    intro hl hr index e command hlt he hcommand
    obtain ⟨hs, p, hp⟩ := h.ready hl hr index e command (by omega) he hcommand
    refine ⟨hm.sessions _ _ (by omega) hs, p, ?_⟩
    rw [hm.clients, if_neg (by omega), hp]
  · rw [hrole, hready, hm.log, hidx]
    exact h.unready

theorem retires_applyEntry (c : Ctx) (e : LogEntry) :
    Retires c.node e (Ctx.applyEntry
      { c with node := { c.node with lastApplied := c.node.lastApplied + 1 } }
      (c.node.lastApplied + 1) e).node := by
  unfold Ctx.applyEntry
  simp only [Ctx.trace_node]
  cases hp : c.node.pendingClients.find (c.node.lastApplied + 1) with
  | none =>
    refine ⟨rfl, rfl, rfl, ⟨rfl, rfl⟩, ⟨rfl, rfl, rfl⟩, fun index => ?_, fun _ _ _ h => h,
      id⟩
    by_cases h : index = c.node.lastApplied + 1
    · rw [if_pos h, h]
      exact hp
    · rw [if_neg h]
      rfl
  | some p =>
    simp only [Ctx.emitReplies_node, Ctx.trace_node]
    refine ⟨rfl, rfl, rfl, ⟨rfl, rfl⟩, ⟨rfl, rfl, rfl⟩, fun index => OrdMap.find_erase .., ?_,
      fun h => h.drop hp⟩
    intro s index hne hs
    by_cases hps : c.node.pendingSessions.find p.command.session = some (c.node.lastApplied + 1)
    · simp only [if_pos hps]
      rw [OrdMap.find_erase, if_neg]
      · exact hs
      · rintro rfl
        exact hne (Option.some.inj (hs.symm.trans hps))
    · simp only [if_neg hps]
      exact hs

/-- **One round of `apply_committed`** keeps the books. -/
theorem Ledger.applyEntry (h : Ledger got c) {e : LogEntry}
    (he : entryAt c.node.log (c.node.lastApplied + 1) = some e)
    (hd : c.node.lastApplied < c.node.durableCommitIndex) :
    Ledger got (Ctx.applyEntry
      { c with node := { c.node with lastApplied := c.node.lastApplied + 1 } }
      (c.node.lastApplied + 1) e) := by
  have hretires := retires_applyEntry c e
  refine ⟨h.filed.retires hretires he hd, h.led.retires hretires, ?_⟩
  -- Replies that were sent before the entry speak about a shorter applied prefix.
  have hgrow : c.node.applied <+: c.node.log.take (c.node.lastApplied + 1) := by
    rw [take_lastApplied he]
    exact List.prefix_append _ _
  have hold : ∀ sm, RepliesOk got (Ctx.trace
      { c with node := { c.node with
        lastApplied := c.node.lastApplied + 1, stateMachine := sm } } .apply
      (if e.command.isSome then "applied client command" else "applied no-op")
      (c.node.lastApplied + 1)) := fun sm =>
    h.replies.emits (((Emits.refl c).setNode _).emit (by simp [Unacknowledged])) hgrow
  unfold Ctx.applyEntry
  simp only [Ctx.trace_node]
  cases hp : c.node.pendingClients.find (c.node.lastApplied + 1) with
  | none => exact hold _
  | some p =>
    -- The waiters asked for the entry that has just been applied.
    have hok := h.filed.pending _ p hp
    obtain ⟨e', he', hcommand⟩ := hok.entry
    obtain rfl : e = e' := Option.some.inj (he.symm.trans he')
    refine RepliesOk.emitReplies (hold _) fun hstatus token htoken => ?_
    obtain ⟨asked, hasked, hsame⟩ := hok.waiters token htoken
    simp only [hcommand] at hstatus
    have hlen : c.node.applied.length = c.node.lastApplied := by
      rw [entryAt_succ] at he
      obtain ⟨hlt, -⟩ := List.getElem?_eq_some_iff.mp he
      simp only [RaftNode.applied, List.length_take]
      omega
    refine ⟨asked, c.node.lastApplied, e, p.command, hasked, ?_, hcommand, hsame, ?_⟩
    · simp only [Ctx.trace_node, RaftNode.applied]
      rw [take_lastApplied he]
      rw [List.getElem?_append_right hlen.le, hlen]
      simp
    · simp only [Ctx.trace_node, RaftNode.applied, hcommand]
      rw [take_lastApplied he, List.take_append_of_le_length hlen.ge,
        List.take_of_length_le hlen.le, RaftNode.applied, ← h.filed.machine]
      exact ⟨hstatus, rfl⟩

/-- What a node may apply: the commit index is durable and within the log. -/
def RaftNode.Settles (n : RaftNode) : Prop :=
  n.commitIndex ≤ n.durableCommitIndex ∧ n.commitIndex ≤ n.log.length

/-- A leader that has applied its readiness entry has nothing unapplied in its log. -/
theorem Ledger.becomeReady (h : Ledger got c) (hindex : c.node.readinessIndex ≠ 0)
    (hready : c.node.readinessIndex ≤ c.node.lastApplied) :
    Ledger got { c with node := { c.node with leaderReady := true } } := by
  refine ⟨{ h.filed with }, ⟨fun hl _ => ?_, fun _ hr => by simp at hr⟩, h.replies⟩
  cases hr : c.node.leaderReady with
  | true => exact h.led.ready hl hr
  | false =>
    intro index e command hlt he
    have hlen := h.led.unready hl hr hindex
    rw [entryAt_eq_some] at he
    obtain ⟨hle, -⟩ := List.getElem?_eq_some_iff.mp he.2
    have hlt : c.node.lastApplied < index := hlt
    have hle : index - 1 < c.node.log.length := hle
    omega

/-! ### Changes of the log -/

section

variable {log : List LogEntry} {lastApplied index : ℕ} {p : PendingClientEntry}
    (h : PendingOk got log lastApplied index p)
include h

theorem PendingOk.index_le : index ≤ log.length := by
  obtain ⟨e, he, -⟩ := h.entry
  obtain ⟨hlt, -⟩ := List.getElem?_eq_some_iff.mp (entryAt_eq_some.mp he).2
  omega

theorem PendingOk.append (l : List LogEntry) : PendingOk got (log ++ l) lastApplied index p := by
  obtain ⟨e, he, hcommand⟩ := h.entry
  exact { h with entry := ⟨e, entryAt_of_isPrefix (List.prefix_append _ _) he, hcommand⟩ }

end

/-- New entries behind the log, and a pending entry for one of them perhaps. -/
theorem Filed.append (h : Filed got n) (l : List LogEntry) (clients : OrdMap ℕ PendingClientEntry)
    (hclients : ∀ index p, clients.find index = some p →
      PendingOk got (n.log ++ l) n.lastApplied index p) (hsessions : Matched clients sessions)
    (readiness : ℕ) :
    Filed got { n with log := n.log ++ l, pendingClients := clients, pendingSessions := sessions,
                       readinessIndex := readiness } where
  applied_le := h.applied_le
  length_le := by
    rw [List.length_append]
    exact h.length_le.trans (Nat.le_add_right _ _)
  durable_le := h.durable_le
  machine := by
    simp only [List.take_append_of_le_length h.length_le]
    exact h.machine
  pending := hclients
  sessions := hsessions

theorem RepliesOk.append (h : RepliesOk got c) (hlen : c.node.lastApplied ≤ c.node.log.length)
    (hm : m.log = c.node.log ++ l) (happ : m.lastApplied = c.node.lastApplied) :
    RepliesOk got { c with node := m } := by
  refine h.emits ((Emits.refl c).setNode m) ?_
  simp only [RaftNode.applied]
  rw [hm, happ, List.take_append_of_le_length hlen]

/-- The log is cut above the applied prefix. -/
theorem Filed.truncate (h : Filed got n) (hi : n.lastApplied < index)
    (clients : OrdMap ℕ PendingClientEntry)
    (hclients : ∀ k p, clients.find k = some p → n.pendingClients.find k = some p ∧ k < index)
    (hsessions : Matched clients sessions) :
    Filed got { n with log := n.log.take (index - 1), pendingClients := clients,
                       pendingSessions := sessions } where
  applied_le := h.applied_le
  length_le := by
    have := h.length_le
    simp only [List.length_take]
    omega
  durable_le := h.durable_le
  machine := by
    simp only [List.take_take]
    rw [min_eq_left (by omega)]
    exact h.machine
  pending k p hp := by
    obtain ⟨hk, hlt⟩ := hclients k p hp
    have hok := h.pending k p hk
    obtain ⟨e, he, hcommand⟩ := hok.entry
    refine { hok with entry := ⟨e, ?_, hcommand⟩ }
    rw [entryAt_eq_some] at he ⊢
    exact ⟨he.1, by rw [List.getElem?_take_of_lt (by omega), he.2]⟩
  sessions := hsessions

/-- An entry leaves the books of a node that does not lead. -/
theorem Ledger.removePending (h : Ledger got c) {p : PendingClientEntry}
    (hp : c.node.pendingClients.find index = some p) (hrole : c.node.role ≠ .leader) :
    Ledger got (c.removePending (index, p)) := by
  have hnode : (c.removePending (index, p)).node = { c.node with
      pendingClients := c.node.pendingClients.erase index
      pendingSessions :=
        if c.node.pendingSessions.find p.command.session = some index then
          c.node.pendingSessions.erase p.command.session
        else c.node.pendingSessions } := by
    simp [Ctx.removePending]
  refine ⟨?_, ?_, ?_⟩
  · rw [hnode]
    refine { h.filed with pending := fun k q hq => ?_, sessions := h.filed.sessions.drop hp }
    rw [OrdMap.find_erase] at hq
    split_ifs at hq
    exact h.filed.pending k q hq
  · rw [hnode]
    exact led_of_ne_leader hrole
  · refine h.replies.emits ((tolerant_unacknowledged.repliedAll (Emits.refl c) (by simp)).setNode _)
      ?_
    rw [hnode]
    exact List.prefix_rfl

/-! ### Every move -/

/-- The books are right, and a node that waits for nothing may apply what it has committed. -/
structure Squared (got : Set RaftEvent) (c : Ctx) : Prop where
  ledger : Ledger got c
  settled : c.node.Idle → c.node.commitIndex ≤ c.node.durableCommitIndex

theorem not_idle_failStorage (c : Ctx) (detail : String) : ¬(c.failStorage detail).node.Idle := by
  rw [Ctx.failStorage_node]
  exact fun idle => idle.available rfl

theorem not_idle_startPersist (free : c.node.pendingStorage = none) (batch : PersistBatch)
    (k : Continuation) : ¬(c.startPersist batch k).node.Idle :=
  startPersist_rule (I := fun n => ¬n.Idle) free (fun _ => not_idle_failStorage c _)
    fun _ idle => nomatch idle.free

namespace Squared

/-- A move that leaves the books and the commit index alone. -/
theorem frame (h : Squared got c) (he : Emits Unacknowledged c c')
    (hb : SameBooks c.node c'.node) (hcommit : c'.node.commitIndex = c.node.commitIndex)
    (hidle : c'.node.Idle → c.node.Idle) : Squared got c' := by
  refine ⟨h.ledger.frame he hb, fun idle => ?_⟩
  have hdurable : c'.node.durableCommitIndex = c.node.durableCommitIndex := by
    have hbooks := hb.books
    simp only [RaftNode.books, Prod.mk.injEq] at hbooks
    exact hbooks.2.2.2.2.2
  rw [hcommit, hdurable]
  exact h.settled (hidle idle)

/-- A change of a field that is not in the books. -/
theorem setNode (h : Squared got c) (hb : SameBooks c.node m)
    (hcommit : m.commitIndex = c.node.commitIndex) (hidle : m.Idle → c.node.Idle) :
    Squared got { c with node := m } :=
  h.frame ((Emits.refl c).setNode m) hb hcommit hidle

/-- **Every move keeps the books.** -/
theorem micro (h : Squared got c) {n₀ : RaftNode} {cause : Cause} (hm : Micro n₀ cause c c') :
    Squared got c' := by
  have hT := tolerant_unacknowledged
  have hsame : SameBooks c.node c.node := ⟨rfl, le_rfl, fun hl => ⟨hl, rfl, rfl⟩⟩
  have hl := h.ledger
  have hf := hl.filed
  cases hm with
  | trace kind detail index regular =>
    exact h.frame ((Emits.refl c).emit (by simp [Unacknowledged])) hsame rfl id
  | send target message => exact ⟨hl.sendMessage target message, h.settled⟩
  | election => exact ⟨hl.scheduleElection, fun i => h.settled ⟨i.free, i.available⟩⟩
  | heartbeat => exact ⟨hl.scheduleHeartbeat, fun i => h.settled ⟨i.free, i.available⟩⟩
  | exhausted detail counter =>
    exact ⟨hl.failStorage detail, fun i => absurd i (not_idle_failStorage c detail)⟩
  | persist batch k free =>
    exact ⟨hl.startPersist batch k, fun i => absurd i (not_idle_startPersist free batch k)⟩
  | commit target batch k free above =>
    refine ⟨Ledger.startPersist ?_ batch k, fun i => absurd i (not_idle_startPersist ?_ batch k)⟩
    · exact hl.setNode ⟨rfl, above.le, fun hl => ⟨hl, rfl, rfl⟩⟩
    · exact free
  | append peer progress leader free found idle id =>
    unfold Ctx.sendAppendTo
    simp only [if_neg id]
    refine ⟨Ledger.sendMessage ?_ _ _, fun i => h.settled ⟨i.free, i.available⟩⟩
    exact hl.setNode ⟨rfl, le_rfl, fun hl => ⟨hl, rfl, rfl⟩⟩
  | apply e idle behind found =>
    refine ⟨hl.applyEntry found (behind.trans_le (h.settled idle)), fun _ => ?_⟩
    rw [(retires_applyEntry c e).commit.1, (retires_applyEntry c e).commit.2]
    exact h.settled idle
  | ready leader index reached =>
    exact ⟨hl.becomeReady index reached, fun i => h.settled ⟨i.free, i.available⟩⟩
  | lead candidate =>
    refine ⟨⟨{ hf with },
      ⟨fun _ hr => (by cases hr), fun _ _ hindex => absurd rfl hindex⟩, hl.replies⟩, fun i => ?_⟩
    exact h.settled ⟨i.free, by simp [candidate]⟩
  | readiness leader unready bound room =>
    -- Whatever the log of a new leader holds lies before the readiness entry.
    refine ⟨⟨hf.append _ _ (fun index p hp => (hf.pending index p hp).append _) hf.sessions _,
      ⟨fun _ hr => absurd (unready.symm.trans hr) (by simp), fun _ _ _ => ?_⟩,
      hl.replies.append hf.length_le rfl rfl⟩, fun i => h.settled ⟨i.free, i.available⟩⟩
    simp [RaftNode.nextEntry, RaftNode.lastLogIndex]
  | remove index p found follower =>
    refine ⟨hl.removePending found (by simp [follower]), fun i => ?_⟩
    unfold Ctx.removePending at i ⊢
    simp only [Ctx.emitReplies_node] at i ⊢
    exact h.settled ⟨i.free, i.available⟩
  | cut index follower above cleared =>
    have hlt : c.node.lastApplied < index :=
      (hf.applied_le.trans hf.durable_le).trans_lt above
    refine ⟨⟨hf.truncate hlt _ (fun k p hp => ⟨hp, cleared k p hp⟩) hf.sessions,
      led_of_ne_leader (by simp [follower]), hl.replies.emits ((Emits.refl c).setNode _) ?_⟩,
      fun i => h.settled ⟨i.free, i.available⟩⟩
    simp only [RaftNode.applied]
    rw [List.take_take, min_eq_left (by omega)]
  | extend entries follower =>
    exact ⟨⟨hf.append _ _ (fun index p hp => (hf.pending index p hp).append _) hf.sessions _,
      led_of_ne_leader (by simp [follower]), hl.replies.append hf.length_le rfl rfl⟩,
      fun i => h.settled ⟨i.free, i.available⟩⟩
  | overwrite s request e =>
    exact ⟨hl.failStorage _, fun i => absurd i (not_idle_failStorage c _)⟩
  | forget session index found absent =>
    obtain ⟨p, hp, -⟩ := hf.sessions session index found
    exact absurd (hp.symm.trans absent) (by simp)
  | retire hint available | campaign available bound =>
    exact h.setNode ⟨rfl, le_rfl, fun hl => by cases hl⟩ rfl fun i => ⟨i.free, available⟩
  | abort leader full =>
    exact h.setNode ⟨rfl, le_rfl, fun hl => by cases hl⟩ rfl fun i => ⟨i.free, by simp [leader]⟩
  | term | vote | tally | follow | note | age =>
    exact h.setNode ⟨rfl, le_rfl, fun hl => ⟨hl, rfl, rfl⟩⟩ rfl fun i => ⟨i.free, i.available⟩

end Squared

/-! ### Client requests -/

/-- Nothing is pending at the next index. -/
theorem Filed.find_next (h : Filed got n) :
    n.pendingClients.find (n.lastLogIndex + 1) = none := by
  cases hp : n.pendingClients.find (n.lastLogIndex + 1) with
  | none => rfl
  | some p =>
    have hle := (h.pending _ p hp).index_le
    simp only [RaftNode.lastLogIndex] at hle
    omega

/-- The pending entry of an admitted command. -/
theorem Filed.pendingOk_next (h : Filed got n) (hgot : .clientRequest token command ∈ got) :
    PendingOk got (n.log ++ [n.nextEntry (some command)]) n.lastApplied (n.lastLogIndex + 1)
      { command, digest := KvStateMachine.commandDigest command, waiters := [token] } := by
  refine ⟨Nat.lt_succ_of_le h.length_le, ⟨n.nextEntry (some command), ?_, rfl⟩, rfl, ?_⟩
  · simp [RaftNode.lastLogIndex]
  · intro t ht
    obtain rfl : t = token := by simpa using ht
    exact ⟨command, hgot, SameRequest.refl _⟩

/-- **A ready leader still has every unapplied command on its books** after it has
admitted one of a session with nothing pending. -/
theorem Led.find_next (h : Led n) (hl : n.role = .leader) (hr : n.leaderReady = true)
    {command command' : ClientCommand} (hfree : n.pendingSessions.find command.session = none)
    (p : PendingClientEntry) {e : LogEntry} (hlt : n.lastApplied < index)
    (he : entryAt (n.log ++ [n.nextEntry (some command)]) index = some e)
    (hcommand : e.command = some command') :
    (n.pendingSessions.insert command.session (n.lastLogIndex + 1)).find command'.session =
        some index ∧
      ∃ q, (n.pendingClients.insert (n.lastLogIndex + 1) p).find index = some q := by
  obtain ⟨hpos, he⟩ := entryAt_eq_some.mp he
  rcases lt_or_ge (index - 1) n.log.length with hold | hnew
  · -- An older entry has its own session, or the command would not be admitted.
    rw [List.getElem?_append_left hold] at he
    obtain ⟨hs, q, hq⟩ := h.ready hl hr index e command' hlt
      (entryAt_eq_some.mpr ⟨hpos, he⟩) hcommand
    have hne : command'.session ≠ command.session := by
      intro heq
      exact absurd (hs.symm.trans (heq ▸ hfree)) (by simp)
    have hidx : index ≠ n.lastLogIndex + 1 := by
      simp only [RaftNode.lastLogIndex]
      omega
    exact ⟨by rw [OrdMap.find_insert, if_neg hne, hs], q,
      by rw [OrdMap.find_insert, if_neg hidx, hq]⟩
  · rw [List.getElem?_append_right hnew] at he
    obtain ⟨hidx, rfl⟩ := List.getElem?_eq_some_iff.mp he
    have hidx : index = n.lastLogIndex + 1 := by
      simp only [List.length_singleton] at hidx
      simp only [RaftNode.lastLogIndex]
      omega
    simp only [List.getElem_singleton, RaftNode.nextEntry, Option.some.injEq] at hcommand
    subst hcommand hidx
    exact ⟨OrdMap.find_insert_self _ _ _, p, OrdMap.find_insert_self _ _ _⟩

section

variable (h : Ledger got c) (hgot : .clientRequest token command ∈ got)
include h hgot

/-- **An admitted command is put on the books.** -/
theorem Ledger.admitClient (hready : c.node.leaderReady = true)
    (hfree : c.node.pendingSessions.find command.session = none) :
    Ledger got (c.admitClient token command) := by
  unfold Ctx.admitClient
  split_ifs
  · exact h.emitReply (by simp)
  · simp only
    split_ifs
    · exact (h.trace _ _ _).emitReply (by simp)
    · refine Ledger.startPersist (Ledger.trace ⟨?_, ⟨fun hl hr => ?_, fun hl hr => ?_⟩, ?_⟩ _ _ _)
        _ _
      · refine h.filed.append _ _ (fun index p hp => ?_)
          (h.filed.sessions.put h.filed.find_next ⟨command, _, _⟩) _
        rw [OrdMap.find_insert] at hp
        split_ifs at hp with hidx
        · obtain rfl := Option.some.inj hp
          subst hidx
          exact h.filed.pendingOk_next hgot
        · exact (h.filed.pending index p hp).append _
      · intro index e command' hlt he hcommand
        exact h.led.find_next hl hr hfree _ hlt he hcommand
      · exact absurd (hready.symm.trans hr) (by simp)
      · exact h.replies.append h.filed.length_le rfl rfl

theorem Ledger.joinPending (hready : c.node.leaderReady = true) :
    Ledger got (c.joinPending token command) := by
  unfold Ctx.joinPending
  cases hs : c.node.pendingSessions.find command.session with
  | none => exact h.admitClient hgot hready hs
  | some index =>
    -- The branch for a session that points nowhere is never taken.
    obtain ⟨p, hp, hsession⟩ := h.filed.sessions _ _ hs
    have hok := h.filed.pending index p hp
    simp only [hp]
    split_ifs with hseq hdigest hfull
    · exact h.emitReply (by simp)
    · exact h.emitReply (by simp)
    · exact h.emitReply (by simp)
    · push Not at hseq hdigest
      refine ⟨{ h.filed with pending := ?_, sessions := h.filed.sessions.replace hp rfl },
        ⟨fun hl hr k e command' hlt he hcommand => ?_, h.led.unready⟩, h.replies⟩
      · intro k q hq
        rw [OrdMap.find_insert] at hq
        split_ifs at hq with hk
        · obtain rfl := Option.some.inj hq
          subst hk
          refine { hok with waiters := fun t ht => ?_ }
          rcases List.mem_append.mp ht with ht | ht
          · exact hok.waiters t ht
          · obtain rfl : t = token := by simpa using ht
            exact ⟨command, hgot, hsession.symm, hseq.symm, (hok.digest.symm.trans hdigest).symm⟩
        · exact h.filed.pending k q hq
      · obtain ⟨hs', q, hq⟩ := h.led.ready hl hr k e command' hlt he hcommand
        refine ⟨hs', ?_⟩
        rw [OrdMap.find_insert]
        split_ifs
        · exact ⟨_, rfl⟩
        · exact ⟨q, hq⟩

/-- **A repeated request is answered from the session table**, which knows what applying
the command returned. -/
theorem Ledger.cachedReply {record : SessionRecord}
    (hr : c.node.stateMachine.session command.session = some record)
    (hseq : command.sequence = record.sequence)
    (hdigest : KvStateMachine.commandDigest command = record.commandDigest) (index : ℕ) :
    Ledger got (c.emitReply token record.status record.result index) := by
  refine ⟨h.filed, h.led, h.replies.emitReply fun hok => ?_⟩
  rw [h.filed.machine] at hr
  obtain ⟨k, e, command', hk, hcommand, hs, hseq', hdigest', hstatus, hvalue⟩ :=
    exists_of_session hr
  exact ⟨command, k, e, command', hgot, hk, hcommand, ⟨hs.symm, hseq.trans hseq'.symm,
    hdigest.trans hdigest'.symm⟩, hstatus.trans hok, hvalue⟩

theorem Ledger.onClientRequest : Ledger got (c.onClientRequest token command) := by
  unfold Ctx.onClientRequest
  by_cases hdown : c.node.role = .unavailable
  · rw [if_pos hdown]
    exact h.emitReply (by simp)
  rw [if_neg hdown]
  by_cases hlead : c.node.role ≠ .leader
  · rw [if_pos hlead]
    exact h.emitReply (by simp)
  rw [if_neg hlead]
  by_cases hready : c.node.leaderReady = false
  · rw [if_pos hready]
    exact h.emitReply (by simp)
  rw [if_neg hready]
  have hready : c.node.leaderReady = true := by simpa using hready
  by_cases hbad : commandAcceptable c.node.config command = false
  · rw [if_pos hbad]
    exact h.emitReply (by simp)
  rw [if_neg hbad]
  split
  · next record hrecord =>
    split_ifs with hstale hsame hconflict hgap
    · exact h.emitReply (by simp)
    · exact h.emitReply (by simp)
    · exact h.cachedReply hgot hrecord hsame (not_not.mp hconflict) _
    · exact h.emitReply (by simp)
    · exact h.joinPending hgot hready
  · split_ifs
    · exact h.emitReply (by simp)
    · exact h.joinPending hgot hready

end

/-! ### Events -/

/-- **Every event an idle node dispatches keeps the books.** -/
theorem Ledger.dispatch (h : Ledger got c) (idle : c.node.Idle)
    (hs : c.node.commitIndex ≤ c.node.durableCommitIndex) (hgot : e ∈ got) :
    Ledger got (c.dispatch e) := by
  have hmoves : e.IsInternal → Ledger got (c.dispatch e) := fun he =>
    ((moves_dispatch idle he).keeps (I := Squared got) (fun _ _ hm h => h.micro hm)
      ⟨h, fun _ => hs⟩).ledger
  cases e with
  | timerFired kind generation | messageReceived envelope => exact hmoves trivial
  | storageComplete opId success error =>
    simp only [Ctx.dispatch, Ctx.onStorageComplete, idle.free]
    exact h.trace _ _ _
  | clientRequest token command => exact h.onClientRequest hgot

/-! ### Whole steps -/

variable {d : RecoveredState} {e : RaftEvent} {p : PendingStorage}

/-- A node that has just written a batch may apply what it has committed. -/
theorem Coherent.settles (h : Coherent d got n) (hr : n.role ≠ .unavailable)
    (hp : n.pendingStorage = none) : n.Settles := by
  refine ⟨?_, h.formed.commit_le⟩
  rw [h.commitIndex, ← h.ready hr hp, RaftNode.memory_commitIndex]

/-- The books once the outstanding batch is durable. -/
theorem Ledger.marked (h : Ledger got { node := n }) (hco : Coherent d got n)
    (hp : n.pendingStorage = some p) :
    Ledger got (Ctx.markDurable { node := { n with pendingStorage := none } } p.batch) := by
  obtain ⟨hco', hr, -⟩ := hco.complete hp
  have hcommit : n.commitIndex ≤ p.batch.commitIndex.getD n.durableCommitIndex :=
    (hco'.settles hr rfl).1
  have hle : p.batch.commitIndex.getD n.durableCommitIndex ≤ n.commitIndex := by
    have hd := hco'.commitIndex
    rw [← hco'.ready hr rfl] at hd
    exact hd.le
  exact ⟨{ h.filed with
      applied_le := h.filed.applied_le.trans (h.filed.durable_le.trans hcommit)
      durable_le := hle }, ⟨h.led.ready, h.led.unready⟩,
    by simp [RepliesOk, Ctx.markDurable]⟩

theorem Ledger.complete (h : Ledger got { node := n }) (hco : Coherent d got n)
    (hp : n.pendingStorage = some p) :
    Ledger got (((Ctx.markDurable { node := { n with pendingStorage := none } } p.batch).trace
      .storageComplete "storage operation completed" 0).resume p.afterSuccess) := by
  obtain ⟨hco', hr, -⟩ := hco.complete hp
  have hs := hco'.settles hr rfl
  have hmoves : Moves n (.resumed p.afterSuccess) _ _ := moves_resume
    (c := (Ctx.markDurable { node := { n with pendingStorage := none } } p.batch).trace
      .storageComplete "storage operation completed" 0) ⟨rfl, hr⟩ p.afterSuccess fun _ => hs.2
  exact (hmoves.keeps (I := Squared got) (fun _ _ hm h => h.micro hm)
    ⟨(h.marked hco hp).trace _ _ _, fun _ => hs.1⟩).ledger

/-- **Every step keeps the gate and the books.** -/
theorem Coherent.bookRule (h : Coherent d got n) (hl : Ledger got { node := n }) (he : e ∈ got) :
    StepRule (fun c => Gated (durableAfter d n e) got c ∧ Ledger got c) n e := by
  have hgate := h.stepRule e
  rw [Set.insert_eq_of_mem he] at hgate
  exact
    { noise := fun hne c hc hemits => ⟨hgate.noise hne c hc hemits,
        hl.emits (hemits _ tolerant_unacknowledged) hc⟩
      defers := fun hne hp => ⟨hgate.defers hne hp,
        hl.setNode ⟨rfl, le_rfl, fun hl => ⟨hl, rfl, rfl⟩⟩⟩
      fails := fun p hc detail => ⟨hgate.fails p hc detail,
        Ledger.failStorage (hl.setNode ⟨rfl, le_rfl, fun hl => ⟨hl, rfl, rfl⟩⟩) detail⟩
      completes := fun p hc => ⟨hgate.completes p hc, hl.complete h hc.1⟩
      dispatches := fun hp hr =>
        ⟨hgate.dispatches hp hr, hl.dispatch ⟨hp, hr⟩ (h.settles hr hp).1 he⟩
      pops := fun c e' rest hc hp hr hrest => by
        refine ⟨hgate.pops c e' rest hc.1 hp hr hrest, ?_⟩
        have hpop : Ledger got (c.pop rest) :=
          hc.2.setNode ⟨rfl, le_rfl, fun hl => ⟨hl, rfl, rfl⟩⟩
        exact hpop.dispatch ⟨hp, hr⟩ (hc.1.coherent.settles hr hp).1
          (hc.1.coherent.deferred e' (by simp [hrest])) }

/-! ### Between two transitions -/

theorem Ledger.mono {got' : Set RaftEvent} (hl : Ledger got { node := n })
    (hsub : ∀ e ∈ got, e ∈ got') : Ledger got' { node := n } := by
  refine ⟨{ hl.filed with pending := fun index p hp => ?_ }, hl.led, by simp [RepliesOk]⟩
  have hok := hl.filed.pending index p hp
  refine { hok with waiters := fun token ht => ?_ }
  obtain ⟨command, hc, hsame⟩ := hok.waiters token ht
  exact ⟨command, hsub _ hc, hsame⟩

/-- Between two transitions there are no replies to answer for. -/
theorem Ledger.forget (hl : Ledger got c) :
    Ledger got { node := c.node } :=
  ⟨hl.filed, hl.led, by simp [RepliesOk]⟩

theorem ledger_create {config : RaftConfig} {s : RecoveredState}
    (hc : RaftNode.create config s = .ok n) : Ledger got { node := n } := by
  obtain ⟨⟨-, -, hform, -⟩, rfl⟩ := RaftNode.create_eq_ok.mp hc
  refine ⟨⟨le_rfl, hform.commit_le, le_rfl, rfl, ?_, ?_⟩,
    led_of_ne_leader (by simp [RaftNode.ofRecovered]), by simp [RepliesOk]⟩
  · simp [RaftNode.ofRecovered]
  · simp [RaftNode.ofRecovered, Matched]

/-! ### The next command of a session -/

theorem structurallyValid_of_acceptable {config : RaftConfig} {entry : LogEntry}
    (h : entryAcceptable config entry = true) (hc : entry.command = some command) :
    KvStateMachine.structurallyValid command = true := by
  simp only [entryAcceptable, hc, commandAcceptable, Bool.and_eq_true] at h
  exact h.1

/-- **A command that a ready leader admits is the next one of its session**, counted over
the whole log and not only over the applied part. -/
theorem Admits.sequence_eq (ha : Admits n command) (hf : Filed got n) (hl : Led n)
    (hrole : n.role = .leader) (hready : n.leaderReady = true)
    (hform : WellFormed n.config n.memory) (hord : Orderly n.log) :
    command.sequence = (sequences command.session n.log).length + 1 := by
  -- Nothing of the session is left to apply.
  have hrest : sequences command.session (n.log.drop n.lastApplied) = [] := by
    rw [sequences, List.filterMap_eq_nil_iff]
    intro x hx
    obtain ⟨k, hk⟩ := List.mem_iff_getElem?.mp hx
    rw [List.getElem?_drop] at hk
    cases hc : x.command with
    | none => simp [LogEntry.sequenceIn, hc]
    | some command' =>
      by_cases hs : command'.session = command.session
      · obtain ⟨hps, p, hp⟩ := hl.ready hrole hready (n.lastApplied + k + 1) x command' (by omega)
          (by rw [entryAt_succ]; exact hk) hc
        exact absurd (hp.symm.trans (ha.2 _ (hs ▸ hps))) (by simp)
      · simp [LogEntry.sequenceIn, hc, hs]
  -- The session table then counts the applied commands of the session, which are all.
  have hcounts : Counts n.stateMachine n.applied := by
    rw [hf.machine]
    refine counts_replay (hord.of_isPrefix <| List.take_prefix _ _)
      ((List.length_take_le' _ _).trans hform.length_le) fun x hx command hc => ?_
    exact structurallyValid_of_acceptable (hform.entries x (List.mem_of_mem_take hx)).2.2 hc
  have hsplit : sequences command.session n.log = sequences command.session n.applied := by
    conv_lhs => rw [← List.take_append_drop n.lastApplied n.log]
    rw [sequences_append, hrest, List.append_nil]
    rfl
  have hnext := ha.1
  rw [hsplit, ← hcounts command.session, KvStateMachine.lastSequence]
  unfold KvStateMachine.session at hnext
  split at hnext
  · next record hrecord => simp [hrecord, hnext.2]
  · next hnone => simp [hnone, hnext]

end Frame

end DetLog
