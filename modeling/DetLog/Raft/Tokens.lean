import DetLog.Raft.Structure
import Mathlib.Algebra.Order.Group.Multiset
import Mathlib.Algebra.BigOperators.Group.Multiset.Basic

/-!
# The tokens of the clients

A client names each of its requests by a token and waits for the reply that carries it. In
between the token is with the node: in a deferred request, or among the waiters of a pending
entry. `DetLog.Ctx.tokens` counts where the tokens are, replies included. Every move of a
handler keeps this count, only the intake of a request adds to it, and adds its own token
once (`DetLog.tokens_micro`, `DetLog.tokens_intake`). So no token is lost and none is
answered twice (`DetLog.Driven.tokens_conserved`).
-/

namespace DetLog

/-! ### Where the tokens are -/

/-- The token that an effect answers. -/
def RaftEffect.answered : RaftEffect → Option ClientToken
  | .clientReply reply => some reply.token
  | _ => none

/-- The token of a request. -/
def RaftEvent.asked : RaftEvent → Option ClientToken
  | .clientRequest token _ => some token
  | _ => none

/-- The answered tokens. -/
def answered (effects : List RaftEffect) : Multiset ClientToken :=
  (effects.filterMap RaftEffect.answered : List ClientToken)

/-- The tokens of a list of events. -/
def asked (events : List RaftEvent) : Multiset ClientToken :=
  (events.filterMap RaftEvent.asked : List ClientToken)

/-- The tokens that wait for a pending entry, each as often as it waits. -/
def waiting (clients : OrdMap ℕ PendingClientEntry) : Multiset ClientToken :=
  (clients.entries.map fun e => (e.2.waiters : Multiset ClientToken)).sum

/-- The tokens that a node holds. -/
def RaftNode.held (n : RaftNode) : Multiset ClientToken :=
  asked n.deferredEvents + waiting n.pendingClients

/-- The tokens that a transition answers or holds. -/
def Ctx.tokens (c : Ctx) : Multiset ClientToken := answered c.effects + c.node.held

section Counting

variable {clients : OrdMap ℕ PendingClientEntry} {k : ℕ} {p : PendingClientEntry}

theorem answered_append (l l' : List RaftEffect) :
    answered (l ++ l') = answered l + answered l' := by
  simp [answered, List.filterMap_append]

theorem asked_append (l l' : List RaftEvent) : asked (l ++ l') = asked l + asked l' := by
  simp [asked, List.filterMap_append]

@[simp] theorem waiting_empty : waiting ∅ = 0 := rfl

theorem waiting_of_find (h : clients.find k = some p) :
    waiting clients = (p.waiters : Multiset ClientToken) + waiting (clients.erase k) := by
  unfold waiting
  rw [((OrdMap.entries_perm_of_find h).map _).sum_eq, List.map_cons, List.sum_cons]

theorem waiting_insert (clients : OrdMap ℕ PendingClientEntry) (k : ℕ) (p : PendingClientEntry) :
    waiting (clients.insert k p) =
      (p.waiters : Multiset ClientToken) + waiting (clients.erase k) := by
  unfold waiting
  rw [((clients.entries_insert_perm k p).map _).sum_eq, List.map_cons, List.sum_cons]

theorem waiting_erase_of_none (h : clients.find k = none) :
    waiting (clients.erase k) = waiting clients := by
  congr 1
  ext k' : 1
  rw [OrdMap.find_erase]
  split_ifs with hk
  · rw [hk, h]
  · rfl

end Counting

section Ctx

variable {c c' : Ctx}

/-- What is no reply answers nothing. -/
theorem answered_emit {e : RaftEffect} (h : e.answered = none) :
    answered (c.emit e).effects = answered c.effects := by
  simp [Ctx.emit, answered, h]

theorem answered_emitReply (c : Ctx) (token : ClientToken) (status : ClientStatus)
    (value : Bytes) (index : ℕ) :
    answered (c.emitReply token status value index).effects = {token} + answered c.effects := by
  rw [Ctx.emitReply, Ctx.trace, answered_emit rfl, Ctx.emit, answered_append, add_comm]
  rfl

theorem answered_foldl {α : Type*} {f : Ctx → α → Ctx} {g : α → Multiset ClientToken}
    (hf : ∀ c a, answered (f c a).effects = g a + answered c.effects) (l : List α) (c : Ctx) :
    answered (l.foldl f c).effects = (l.map g).sum + answered c.effects := by
  induction l generalizing c with
  | nil => simp
  | cons a l ih =>
    rw [List.foldl_cons, ih, hf, List.map_cons, List.sum_cons, add_assoc, add_left_comm]

theorem answered_emitReplies (c : Ctx) (tokens : List ClientToken) (status : ClientStatus)
    (value : Bytes) (index : ℕ) : answered (c.emitReplies tokens status value index).effects =
      (tokens : Multiset ClientToken) + answered c.effects := by
  have hsum : (tokens.map fun token => ({token} : Multiset ClientToken)).sum = tokens := by
    induction tokens with
    | nil => rfl
    | cons token rest ih =>
      rw [List.map_cons, List.sum_cons, ih, Multiset.singleton_add, Multiset.cons_coe]
  rw [Ctx.emitReplies, answered_foldl fun c token => answered_emitReply c token status value index,
    hsum]

theorem answered_failDeferred (c : Ctx) (e : RaftEvent) :
    answered (c.failDeferred e).effects = asked [e] + answered c.effects := by
  cases e with
  | clientRequest token command => exact answered_emitReply _ _ _ _ _
  | _ => exact (zero_add _).symm

theorem asked_eq_sum (events : List RaftEvent) :
    asked events = (events.map fun e => asked [e]).sum := by
  induction events with
  | nil => rfl
  | cons e rest ih =>
    rw [List.map_cons, List.sum_cons, ← ih, ← asked_append]
    rfl

/-- **A node that stops answers everyone** it holds a token of. -/
theorem answered_failStorage (c : Ctx) (detail : String) :
    answered (c.failStorage detail).effects = c.node.held + answered c.effects := by
  simp only [Ctx.failStorage]
  rw [answered_foldl answered_failDeferred, ← asked_eq_sum]
  simp only [Ctx.foldl_node fun (c : Ctx) (e : ℕ × PendingClientEntry) =>
    c.emitReplies_node e.2.waiters .storageError [] e.1]
  rw [answered_foldl fun c (e : ℕ × PendingClientEntry) =>
    answered_emitReplies c e.2.waiters .storageError [] e.1, Ctx.trace, answered_emit rfl,
    RaftNode.held, add_assoc]
  rfl

theorem held_failStorage (c : Ctx) (detail : String) : (c.failStorage detail).node.held = 0 := by
  rw [Ctx.failStorage_node]
  rfl

theorem tokens_emit {e : RaftEffect} (h : e.answered = none) : (c.emit e).tokens = c.tokens := by
  rw [Ctx.tokens, answered_emit h]
  rfl

theorem tokens_emitReply (c : Ctx) (token : ClientToken) (status : ClientStatus) (value : Bytes)
    (index : ℕ) : (c.emitReply token status value index).tokens = {token} + c.tokens := by
  rw [Ctx.tokens, answered_emitReply, Ctx.emitReply_node, add_assoc]
  rfl

theorem tokens_failStorage (c : Ctx) (detail : String) :
    (c.failStorage detail).tokens = c.tokens := by
  rw [Ctx.tokens, answered_failStorage, held_failStorage, add_zero, add_comm]
  rfl

theorem tokens_startPersist (free : c.node.pendingStorage = none) (batch : PersistBatch)
    (k : Continuation) : (c.startPersist batch k).tokens = c.tokens := by
  unfold Ctx.startPersist
  rw [if_neg (by simp [free])]
  split_ifs
  · exact tokens_failStorage c _
  · exact (tokens_emit rfl).trans (tokens_emit rfl)

/-- A change of the node counts by what the node holds. -/
theorem tokens_setNode {m : RaftNode} (h : m.held = c.node.held) :
    Ctx.tokens { c with node := m } = c.tokens := by
  simp only [Ctx.tokens, h]

/-- An entry is answered and removed. -/
theorem tokens_retire {index : ℕ} {p : PendingClientEntry}
    (found : c.node.pendingClients.find index = some p) (status : ClientStatus) (value : Bytes)
    (sessions : OrdMap SessionId ℕ) :
    Ctx.tokens
      { c.emitReplies p.waiters status value index with
        node := { (c.emitReplies p.waiters status value index).node with
          pendingSessions := sessions
          pendingClients := (c.emitReplies p.waiters status value index).node.pendingClients.erase
            index } } = c.tokens := by
  simp only [Ctx.tokens, answered_emitReplies, RaftNode.held, Ctx.emitReplies_node,
    waiting_of_find found]
  abel

/-- One round of `apply_committed` answers the waiters of its entry. -/
theorem tokens_applyEntry (c : Ctx) (index : ℕ) (e : LogEntry) :
    (c.applyEntry index e).tokens = c.tokens := by
  unfold Ctx.applyEntry
  simp only
  split
  · exact tokens_emit rfl
  · next p hp =>
    exact (tokens_retire hp _ _ _).trans (tokens_emit rfl)

end Ctx

/-! ### Moves -/

section Moves

variable {n : RaftNode} {cause : Cause} {c c' : Ctx} {token : ClientToken}
  {command : ClientCommand}

/-- **Every move keeps the tokens.** -/
theorem tokens_micro (m : Micro n cause c c') : c'.tokens = c.tokens := by
  cases m with
  | trace kind detail index | election | heartbeat => exact tokens_emit rfl
  | send target message => exact (tokens_emit rfl).trans (tokens_emit rfl)
  | exhausted detail => exact tokens_failStorage c detail
  | overwrite => exact tokens_failStorage c _
  | persist batch k free => exact tokens_startPersist free batch k
  | commit target batch k free =>
    refine (tokens_startPersist ?_ batch k).trans rfl
    exact free
  | append peer progress leader free found idle id =>
    unfold Ctx.sendAppendTo
    simp only
    rw [if_neg id]
    exact (tokens_emit rfl).trans (tokens_emit rfl)
  | apply e idle => exact tokens_applyEntry _ _ e
  | remove index p found => exact tokens_retire found _ _ _
  | _ => exact tokens_setNode rfl

/-- **The intake of a request adds its token**, provided that its index is free. -/
theorem tokens_intake (hin : Intake token command c c')
    (fresh : c.node.pendingClients.find (c.node.log.length + 1) = none) :
    c'.tokens = {token} + c.tokens := by
  cases hin with
  | refuse status value index => exact tokens_emitReply c token status value index
  | join index p session found =>
    simp only [Ctx.tokens, RaftNode.held, waiting_insert, waiting_of_find found,
      ← Multiset.coe_add, Multiset.coe_singleton]
    abel
  | enroll leader ready session =>
    have hindex : (c.node.nextEntry (some command)).index = c.node.log.length + 1 := rfl
    simp only [Ctx.tokens, RaftNode.held, waiting_insert, Multiset.coe_singleton, hindex,
      waiting_erase_of_none fresh]
    abel

/-- What the intake of a request relies on: pending entries are part of the log, so that the
next index is free. A stopped node has none. -/
structure Shelved (n : RaftNode) : Prop where
  keyed : ∀ k p, n.pendingClients.find k = some p → k ≤ n.log.length
  stopped : n.role = .unavailable → n.pendingClients = ∅

theorem Shelved.fresh (h : Shelved n) : n.pendingClients.find (n.log.length + 1) = none := by
  by_contra hne
  obtain ⟨p, hp⟩ := Option.ne_none_iff_exists'.mp hne
  exact absurd (h.keyed _ p hp) (by omega)

theorem shelved_failStorage (c : Ctx) (detail : String) : Shelved (c.failStorage detail).node := by
  rw [Ctx.failStorage_node]
  exact ⟨by simp, fun _ => rfl⟩

theorem Shelved.startPersist (h : Shelved c.node) (free : c.node.pendingStorage = none)
    (batch : PersistBatch) (k : Continuation) : Shelved (c.startPersist batch k).node :=
  startPersist_rule free (fun _ => shelved_failStorage c _) fun _ => ⟨h.keyed, h.stopped⟩

theorem Shelved.grow (h : Shelved n) (l : List LogEntry) {k : ℕ} {p : PendingClientEntry}
    (hp : n.pendingClients.find k = some p) : k ≤ (n.log ++ l).length := by
  rw [List.length_append]
  exact (h.keyed k p hp).trans (Nat.le_add_right _ _)

theorem Shelved.micro (m : Micro n cause c c') (h : Shelved c.node) : Shelved c'.node := by
  cases m with
  | exhausted detail => exact shelved_failStorage c detail
  | overwrite => exact shelved_failStorage c _
  | persist batch k free => exact h.startPersist free batch k
  | commit target batch k free =>
    refine Shelved.startPersist (c := { c with node := { c.node with commitIndex := target } })
      ?_ ?_ batch k
    · exact ⟨h.keyed, h.stopped⟩
    · exact free
  | append peer progress leader free found idle id =>
    unfold Ctx.sendAppendTo
    simp only
    rw [if_neg id]
    exact ⟨h.keyed, h.stopped⟩
  | apply e idle =>
    have hretires := retires_applyEntry c e
    refine ⟨fun k p hp => ?_, fun hr => ?_⟩
    · rw [hretires.clients] at hp
      split_ifs at hp
      rw [hretires.log]
      exact h.keyed k p hp
    · exact absurd (hretires.lead.1.symm.trans hr) idle.available
  | retire hint | campaign | lead | abort => exact ⟨h.keyed, by simp⟩
  | readiness leader | extend entries follower => exact ⟨fun k p hp => h.grow _ hp, h.stopped⟩
  | cut index follower above cleared =>
    refine ⟨fun k p hp => ?_, h.stopped⟩
    have hlt := cleared k p hp
    have hle := h.keyed k p hp
    rw [List.length_take]
    omega
  | remove index p found =>
    simp only [Ctx.removePending, Ctx.emitReplies_node]
    refine ⟨fun k q hq => ?_, fun hr => ?_⟩
    · rw [OrdMap.find_erase] at hq
      split_ifs at hq
      exact h.keyed k q hq
    · rw [h.stopped hr] at found
      simp at found
  | _ => exact ⟨h.keyed, h.stopped⟩

theorem Shelved.intake (hin : Intake token command c c') (h : Shelved c.node) :
    Shelved c'.node := by
  cases hin with
  | refuse => exact ⟨h.keyed, h.stopped⟩
  | join index p session found =>
    refine ⟨fun k q hq => ?_, fun hr => ?_⟩
    · rw [OrdMap.find_insert] at hq
      split_ifs at hq with hk
      · exact hk ▸ h.keyed index p found
      · exact h.keyed k q hq
    · rw [h.stopped hr] at found
      simp at found
  | enroll leader ready session =>
    refine ⟨fun k q hq => ?_, fun hr => by simp [leader] at hr⟩
    rw [OrdMap.find_insert] at hq
    split_ifs at hq with hk
    · rw [hk, List.length_append]
      rfl
    · exact h.grow _ hq

/-- **A dispatch adds the token of its event.** -/
theorem tokens_dispatch (idle : c.node.Idle) (h : Shelved c.node) (e : RaftEvent) :
    (c.dispatch e).tokens = asked [e] + c.tokens := by
  have hkeeps : ∀ {c₁ c₂ : Ctx}, Moves c.node (.event e) c₁ c₂ → c₂.tokens = c₁.tokens :=
    fun {c₁ _} m => m.keeps (I := fun c => c.tokens = c₁.tokens)
      (fun _ _ m h => (tokens_micro m).trans h) rfl
  cases e with
  | timerFired kind generation | messageReceived envelope =>
    exact (hkeeps (moves_dispatch idle trivial)).trans (zero_add _).symm
  | storageComplete opId success error =>
    simp only [Ctx.dispatch, Ctx.onStorageComplete, idle.free]
    exact (tokens_emit rfl).trans (zero_add _).symm
  | clientRequest token command =>
    obtain ⟨c₁, c₂, hbefore, hin, hafter⟩ : TakesIn c.node (.event (.clientRequest token command))
        token command c _ := takesIn_onClientRequest idle token command
    have hfresh : Shelved c₁.node :=
      hbefore.keeps (I := fun c => Shelved c.node) (fun _ _ m h => h.micro m) h
    refine (hkeeps hafter).trans ?_
    rw [tokens_intake hin hfresh.fresh, hkeeps hbefore]
    rfl

theorem Shelved.dispatch (idle : c.node.Idle) (h : Shelved c.node) (e : RaftEvent) :
    Shelved (c.dispatch e).node :=
  dispatch_keeps (I := fun c => Shelved c.node) idle (fun _ _ m h => h.micro m)
    (fun _ _ _ _ hin h => h.intake hin) (fun _ h => h) h

end Moves

/-! ### One step -/

section Step

variable {n : RaftNode} {e : RaftEvent} {c : Ctx} {d : RecoveredState} {got : Set RaftEvent}

theorem tokens_node (n : RaftNode) : Ctx.tokens { node := n } = n.held := zero_add _

theorem asked_of_isInternal (he : e.IsInternal) : asked [e] = 0 := by
  cases e with
  | clientRequest token command => exact absurd he id
  | _ => rfl

/-- Putting an event aside answers or defers its token. -/
theorem Aside.tokens (ha : Aside n e c) : c.tokens = asked [e] + n.held := by
  have hnone : ∀ {e : RaftEvent} {t : Multiset ClientToken}, asked [e] = 0 → t = n.held →
      t = asked [e] + n.held := fun he ht => by rw [he, zero_add, ht]
  cases ha with
  | unexpected | oversized => exact hnone rfl ((tokens_emit rfl).trans (tokens_node n))
  | failed p error pending => exact hnone rfl ((tokens_failStorage _ _).trans (tokens_node _))
  | invalid token command | stopped token command =>
    rw [tokens_emitReply, tokens_node]
    rfl
  | busy token command =>
    rw [tokens_emitReply, Ctx.trace, tokens_emit rfl, tokens_node]
    rfl
  | dropped e internal =>
    exact hnone (asked_of_isInternal internal) ((tokens_emit rfl).trans (tokens_node n))
  | deferred e event =>
    rw [tokens_node, RaftNode.held, RaftNode.held, asked_append]
    abel
  | ignored e internal => exact hnone (asked_of_isInternal internal) (tokens_node n)

theorem Aside.shelved (ha : Aside n e c) (h : Shelved n) : Shelved c.node := by
  cases ha with
  | failed p error pending => exact shelved_failStorage _ _
  | _ => exact ⟨h.keyed, h.stopped⟩

/-- **A step answers or keeps the tokens it finds and the one it is given.** -/
theorem Shelved.step (h : Shelved n) (hco : Coherent d got n) (e : RaftEvent) :
    (n.step e).tokens = asked [e] + n.held ∧ Shelved (n.step e).node := by
  refine n.step_induction e (I := fun c => c.tokens = asked [e] + n.held ∧ Shelved c.node)
    (fun c hc => ?_) ?_
  · cases hc with
    | aside ha => exact ⟨ha.tokens, ha.shelved h⟩
    | completed p error pending =>
      have hmoves : Moves n (.resumed p.afterSuccess) (n.marked p) _ :=
        moves_resume ⟨rfl, (hco.complete pending).2.1⟩ p.afterSuccess
          fun _ => hco.formed.commit_le
      refine hmoves.keeps (I := fun c => c.tokens = asked [.storageComplete p.opId true error] +
        n.held ∧ Shelved c.node) ?_ ⟨?_, ⟨h.keyed, h.stopped⟩⟩
      · exact fun _ _ m hc => ⟨(tokens_micro m).trans hc.1, hc.2.micro m⟩
      · exact (tokens_emit rfl).trans rfl
    | dispatched e event idle =>
      refine ⟨(tokens_dispatch idle h e).trans ?_, Shelved.dispatch idle h e⟩
      rw [tokens_node]
  · rintro c e' rest ⟨htokens, hshelved⟩ idle hq
    have hpop : Shelved (c.pop rest).node := ⟨hshelved.keyed, hshelved.stopped⟩
    have hidle : (c.pop rest).node.Idle := ⟨idle.free, idle.available⟩
    refine ⟨(tokens_dispatch hidle hpop e').trans (Eq.trans ?_ htokens), hpop.dispatch hidle e'⟩
    -- The event moves from the queue to the intake.
    have hcons : asked c.node.deferredEvents = asked [e'] + asked rest := by
      rw [hq, ← asked_append]
      rfl
    simp only [Ctx.tokens, RaftNode.held, hcons, Ctx.pop]
    abel

end Step

/-! ### Whole runs -/

/-- Where a client's token can be. -/
inductive Place where
  | replied
  | deferred
  | pending (index : ℕ)

/-- How often a token is at a place, for a node that has emitted the given effects. -/
def Place.count (effects : List RaftEffect) (n : RaftNode) (token : ClientToken) : Place → ℕ
  | replied => (effects.filterMap RaftEffect.answered).count token
  | deferred => (n.deferredEvents.filterMap RaftEvent.asked).count token
  | pending index =>
    match n.pendingClients.find index with
    | some p => p.waiters.count token
    | none => 0

section Place

variable {effects : List RaftEffect} {n : RaftNode} {token : ClientToken}
  {clients : OrdMap ℕ PendingClientEntry}

theorem count_waiting_of_find {k : ℕ} {p : PendingClientEntry} (h : clients.find k = some p)
    (token : ClientToken) : (waiting clients).count token =
      p.waiters.count token + (waiting (clients.erase k)).count token := by
  rw [waiting_of_find h, Multiset.count_add, Multiset.coe_count]

/-- A token that waits does so at some entry. -/
theorem mem_waiting : token ∈ waiting clients ↔
    ∃ k p, clients.find k = some p ∧ token ∈ p.waiters := by
  have hsum : ∀ l : List (ℕ × PendingClientEntry),
      token ∈ (l.map fun e => (e.2.waiters : Multiset ClientToken)).sum ↔
        ∃ e ∈ l, token ∈ e.2.waiters := by
    intro l
    induction l with
    | nil => simp
    | cons e l ih => simp [ih]
  rw [waiting, hsum]
  constructor
  · rintro ⟨⟨k, p⟩, he, htoken⟩
    exact ⟨k, p, OrdMap.mem_entries_iff.mp he, htoken⟩
  · rintro ⟨k, p, hp, htoken⟩
    exact ⟨(k, p), OrdMap.mem_entries_iff.mpr hp, htoken⟩

/-- A place among the pending entries has no more than all of them. -/
theorem count_pending_le (k : ℕ) :
    (Place.pending k).count effects n token ≤ (waiting n.pendingClients).count token := by
  cases hp : n.pendingClients.find k with
  | none => simp [Place.count, hp]
  | some p =>
    rw [count_waiting_of_find hp]
    simp only [Place.count, hp]
    exact Nat.le_add_right _ _

/-- **A token that is counted once is at exactly one place.** -/
theorem exists_place (h : (answered effects + n.held).count token = 1) :
    ∃ place : Place, place.count effects n token = 1 ∧
      ∀ other, other ≠ place → other.count effects n token = 0 := by
  rw [RaftNode.held, Multiset.count_add, Multiset.count_add, answered, asked, Multiset.coe_count,
    Multiset.coe_count] at h
  have hpending : ∀ k, (Place.pending k).count effects n token ≤
      (waiting n.pendingClients).count token := count_pending_le
  by_cases hreplied : (effects.filterMap RaftEffect.answered).count token = 0
  · by_cases hdeferred : (n.deferredEvents.filterMap RaftEvent.asked).count token = 0
    · have hmem : token ∈ waiting n.pendingClients := Multiset.count_pos.mp (by omega)
      obtain ⟨k, p, hp, hwaits⟩ := mem_waiting.mp hmem
      have hone := List.count_pos_iff.mpr hwaits
      have hsplit := count_waiting_of_find hp token
      refine ⟨.pending k, ?_, fun other hne => ?_⟩
      · simp only [Place.count, hp]
        omega
      · cases other with
        | replied => exact hreplied
        | deferred => exact hdeferred
        | pending k' =>
          -- The other entries stay when this one is removed.
          have hk : k' ≠ k := fun hk => hne (hk ▸ rfl)
          simp only [Place.count]
          cases hq : n.pendingClients.find k' with
          | none => rfl
          | some q =>
            have hq' : (n.pendingClients.erase k).find k' = some q := by
              rw [OrdMap.find_erase, if_neg hk, hq]
            have hrest := count_waiting_of_find hq' token
            simp only
            omega
    · refine ⟨.deferred, by simp only [Place.count]; omega, fun other hne => ?_⟩
      cases other with
      | replied => exact hreplied
      | deferred => exact absurd rfl hne
      | pending k =>
        have hle := hpending k
        omega
  · refine ⟨.replied, by simp only [Place.count]; omega, fun other hne => ?_⟩
    cases other with
    | replied => exact absurd rfl hne
    | deferred =>
      simp only [Place.count]
      omega
    | pending k =>
      have hle := hpending k
      omega

end Place

namespace Driven

/-- The effects of a run. -/
def outputs (s : Driven) : List Input → List RaftEffect
  | [] => []
  | i :: rest => (s.ctx i).effects ++ (s.step i).outputs rest

/-- The tokens that a list of inputs submits. -/
def submitted (inputs : List Input) : List ClientToken :=
  inputs.filterMap fun
    | .start => none
    | .event e => e.asked

variable {s : Driven}

/-- **One input** answers or keeps the tokens it finds and the one it submits. -/
theorem tokens_ctx (hk : s.Kept) (h : Shelved s.node) (i : Input) :
    (s.ctx i).tokens = submitted [i] + s.node.held ∧ Shelved (s.ctx i).node := by
  cases i with
  | event e =>
    obtain ⟨htokens, hshelved⟩ := h.step hk.coherent e
    refine ⟨htokens.trans ?_, hshelved⟩
    cases e <;> rfl
  | start =>
    rcases start_cases s.node with heq | heq
    · simp only [Driven.ctx, heq]
      exact ⟨rfl, h⟩
    · simp only [Driven.ctx, heq]
      exact ⟨rfl, h.keyed, h.stopped⟩

/-- **A whole run.** -/
theorem tokens_run (hk : s.Kept) (h : Shelved s.node) (inputs : List Input) :
    answered (s.outputs inputs) + (s.run inputs).node.held = submitted inputs + s.node.held ∧
      Shelved (s.run inputs).node := by
  induction inputs generalizing s with
  | nil => exact ⟨rfl, h⟩
  | cons i rest ih =>
    obtain ⟨htokens, hshelved⟩ := tokens_ctx hk h i
    obtain ⟨hrest, hend⟩ := ih (hk.step i) hshelved
    refine ⟨?_, hend⟩
    have hcons : (submitted (i :: rest) : Multiset ClientToken) =
        submitted [i] + submitted rest := by
      rw [Multiset.coe_add, submitted, submitted, submitted, ← List.filterMap_append]
      rfl
    rw [outputs, answered_append, hcons]
    calc answered (s.ctx i).effects + answered ((s.step i).outputs rest) +
          (s.run (i :: rest)).node.held
        = answered (s.ctx i).effects + (submitted rest + (s.step i).node.held) := by
          rw [add_assoc]
          exact congrArg _ hrest
      _ = submitted rest + (s.ctx i).tokens := by
          rw [Ctx.tokens, add_left_comm]
          rfl
      _ = submitted [i] + submitted rest + s.node.held := by
          rw [htokens, add_left_comm, add_assoc]

/-- A stopped node holds no token. -/
theorem held_of_stopped (hk : s.Kept) (h : Shelved s.node) (hr : s.node.role = .unavailable) :
    s.node.held = 0 := by
  rw [RaftNode.held, h.stopped hr, hk.tidy.queue.stopped hr]
  rfl

/-- A batch that is reported as failed stops the node. -/
theorem role_step_failed {n : RaftNode} {p : PendingStorage} (hp : n.pendingStorage = some p)
    (error : String) :
    (n.step (.storageComplete p.opId false error)).node.role = .unavailable := by
  change (Ctx.drain (Ctx.onStorageComplete { node := n } p.opId false error) _).node.role = _
  unfold Ctx.onStorageComplete
  simp only [hp, ne_eq, not_true_eq_false, if_false, if_true]
  rw [drain_of_busy (busy_failStorage _ _), Ctx.failStorage_node]

/-- **Client tokens are conserved.** When the submitted tokens are distinct, none is answered
twice, and each of them is at exactly one place: among the replies, in a deferred request, or
among the waiters of one pending entry. A node that stops answers all the tokens it holds in
the same step and holds none afterwards; and it stops when its batch is reported as failed. -/
theorem tokens_conserved {config : RaftConfig} {recovered : RecoveredState} {n : RaftNode}
    (hn : RaftNode.create config recovered = .ok n) (inputs : List Input)
    (distinct : (submitted inputs).Nodup) :
    let s₀ : Driven := { node := n, durable := recovered }
    (∀ token, ((s₀.outputs inputs).filterMap RaftEffect.answered).count token ≤ 1) ∧
    (∀ token ∈ submitted inputs, ∃ place : Place,
      place.count (s₀.outputs inputs) (s₀.run inputs).node token = 1 ∧
        ∀ other, other ≠ place → other.count (s₀.outputs inputs) (s₀.run inputs).node token = 0) ∧
    (∀ i, ((s₀.run inputs).ctx i).node.role = .unavailable →
      (∀ token ∈ (s₀.run inputs).node.held,
        token ∈ ((s₀.run inputs).ctx i).effects.filterMap RaftEffect.answered) ∧
      ((s₀.run inputs).ctx i).node.held = 0) ∧
    ∀ p error, (s₀.run inputs).node.pendingStorage = some p →
      ((s₀.run inputs).ctx (.event (.storageComplete p.opId false error))).node.role =
        .unavailable := by
  intro s₀
  have hk := kept_create hn
  have hshelved : Shelved s₀.node := by
    obtain ⟨-, rfl⟩ := RaftNode.create_eq_ok.mp hn
    exact ⟨by simp [s₀, RaftNode.ofRecovered], fun _ => rfl⟩
  have hheld : s₀.node.held = 0 := by
    obtain ⟨-, rfl⟩ := RaftNode.create_eq_ok.mp hn
    rfl
  obtain ⟨htokens, hend⟩ := tokens_run hk hshelved inputs
  rw [hheld, add_zero] at htokens
  refine ⟨fun token => ?_, fun token htoken => ?_, fun i hr => ?_,
    fun p error hp => role_step_failed hp error⟩
  · have hle := List.nodup_iff_count_le_one.mp distinct token
    rw [← Multiset.coe_count, ← htokens, Multiset.count_add, answered, Multiset.coe_count] at hle
    exact (Nat.le_add_right _ _).trans hle
  · refine exists_place ?_
    rw [htokens, Multiset.coe_count]
    exact List.count_eq_one_of_mem distinct htoken
  · obtain ⟨hctx, hshelved'⟩ := tokens_ctx (hk.run inputs) hend i
    have hnone := held_of_stopped ((hk.run inputs).step i) hshelved' hr
    have hnone' : ((s₀.run inputs).ctx i).node.held = 0 := hnone
    refine ⟨fun token htoken => ?_, hnone'⟩
    rw [Ctx.tokens, hnone', add_zero] at hctx
    have hmem : token ∈ answered ((s₀.run inputs).ctx i).effects := by
      rw [hctx]
      exact Multiset.mem_add.mpr (Or.inr htoken)
    exact Multiset.mem_coe.mp hmem

/-- The token of the sample run waits at the pending entry with index 2. -/
theorem tokens_conserved_sample :
    let s₀ : Driven := { node := RaftNode.ofRecovered sampleConfig {}, durable := {} }
    (submitted sampleInputs).Nodup ∧
    (Place.pending 2).count (s₀.outputs sampleInputs) (s₀.run sampleInputs).node 7 = 1 ∧
    ∃ place : Place, place.count (s₀.outputs sampleInputs) (s₀.run sampleInputs).node 7 = 1 ∧
      ∀ other, other ≠ place →
        other.count (s₀.outputs sampleInputs) (s₀.run sampleInputs).node 7 = 0 := by
  have hcreate : RaftNode.create sampleConfig {} =
      .ok (RaftNode.ofRecovered sampleConfig {}) := by decide +kernel
  exact ⟨by decide, by decide +kernel,
    (tokens_conserved hcreate sampleInputs (by decide)).2.1 7 (by decide)⟩

end Driven

end DetLog
