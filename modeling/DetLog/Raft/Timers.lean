import DetLog.Raft.Structure

/-!
# Timer ownership

A follower and a candidate wait for an election timer, a leader for a heartbeat timer, and
a timer counts only while its generation is the current one of its kind. A node that has no
such timer and waits for no storage is stranded: nothing will make it act again on its own.

`DetLog.Clocked` puts a node beside the timers that it has armed and that have not fired.
Between a change of role and the timer of the new role there may be a batch, and then the
continuation has to arm the timer; `DetLog.Due` says that it will, or that the timer is
still there. The invariant carries through every handler (`DetLog.due_dispatch`) and so
through every step.

It has one leak. A timer that fires while a batch is outstanding is deferred, but when the
queue is full it is dropped like any other event, and its host will not fire it again.
`DetLog.Clocked.stranded` is a run that ends there, and `DetLog.Clocked.owns_timer_run` is
the property for all runs in which no timer that the node waits for is dropped.
-/

namespace DetLog

/-- A timer as its firing names it. -/
abbrev Timer := TimerKind × ℕ

/-- The timer that a node in its role waits for. -/
def RaftNode.awaited (n : RaftNode) : Option Timer :=
  match n.role with
  | .follower | .candidate => some (.election, n.electionGeneration)
  | .leader => some (.heartbeat, n.heartbeatGeneration)
  | .unavailable => none

/-- The timers among the effects. -/
def timers (effects : List RaftEffect) : List Timer :=
  effects.filterMap fun
    | .scheduleTimer timer => some (timer.kind, timer.generation)
    | _ => none

/-- The timers whose firing an event is. -/
def RaftEvent.fired : RaftEvent → Set Timer
  | .timerFired kind generation => {(kind, generation)}
  | _ => ∅

theorem mem_timers {timer : TimerRequest} {effects : List RaftEffect}
    (h : .scheduleTimer timer ∈ effects) : (timer.kind, timer.generation) ∈ timers effects :=
  List.mem_filterMap.mpr ⟨_, h, rfl⟩

theorem timers_subset {es es' : List RaftEffect} (h : es ⊆ es') : timers es ⊆ timers es' := by
  intro t ht
  obtain ⟨e, he, hte⟩ := List.mem_filterMap.mp ht
  exact List.mem_filterMap.mpr ⟨e, h he, hte⟩

theorem tolerant_true : Tolerant fun _ => True :=
  ⟨fun _ _ => trivial, fun _ => trivial, fun _ _ => trivial⟩

/-! ### Owning a timer -/

/-- **The node owns its timer**: it is armed, or the transition arms it, or it has fired and
waits in the queue. -/
def Owns (armed : Set Timer) (c : Ctx) : Prop :=
  ∀ t, c.node.awaited = some t →
    t ∈ armed ∨ t ∈ timers c.effects ∨ .timerFired t.1 t.2 ∈ c.node.deferredEvents

/-- The continuations that arm the timer of a role. -/
def Continuation.Arms (role : RaftRole) : Continuation → Prop
  | .campaign => role = .candidate
  | .voteReply _ grant wasLeader => role ≠ .leader ∧ (grant || wasLeader) = true
  | .rearm | .appendReject .. | .appendAccept .. => role ≠ .leader
  | .leaderEstablished => role = .leader
  | .clientAppended | .commitAdvanced => False

/-- **A timer is due**: the node owns its timer, or it waits for storage and arms the timer
afterwards. -/
def Due (armed : Set Timer) (c : Ctx) : Prop :=
  Owns armed c ∨ ∃ p, c.node.pendingStorage = some p ∧ p.afterSuccess.Arms c.node.role

/-- What leaves the timers of a node alone, or stops the node. -/
structure Calm (c c' : Ctx) : Prop where
  effects : c.effects ⊆ c'.effects
  node : c'.node.role = .unavailable ∧ c'.node.pendingStorage = none ∨
    c'.node.role = c.node.role ∧ c'.node.electionGeneration = c.node.electionGeneration ∧
      c'.node.heartbeatGeneration = c.node.heartbeatGeneration ∧
      c'.node.pendingStorage = c.node.pendingStorage ∧
      c'.node.deferredEvents = c.node.deferredEvents

section Owns

variable {armed : Set Timer} {c c' c'' : Ctx} {k : Continuation}

theorem owns_of_stopped (h : c.node.role = .unavailable) : Owns armed c := by
  intro t ht
  simp [RaftNode.awaited, h] at ht

theorem Owns.mono {armed' : Set Timer} (h : Owns armed c) (hsub : armed ⊆ armed') :
    Owns armed' c := fun t ht => (h t ht).imp_left fun ht => hsub ht

/-- The election timer is the one of every role but the leader's. -/
theorem owns_scheduleElection (h : c.node.role = .leader → Owns armed c) :
    Owns armed c.scheduleElection := by
  intro t ht
  by_cases hl : c.node.role = .leader
  · -- A leader waits for its heartbeat, which is still the same.
    have hold : c.node.awaited = some t := by
      simpa [RaftNode.awaited, Ctx.scheduleElection, hl] using ht
    exact (h hl t hold).imp_right
      (Or.imp_left fun h => timers_subset (List.subset_append_left _ _) h)
  · have heq : t = (.election, incU64 c.node.electionGeneration) := by
      cases hr : c.node.role <;>
        simp [RaftNode.awaited, Ctx.scheduleElection, hr] at ht hl <;> exact ht.symm
    subst heq
    exact Or.inr (Or.inl (mem_timers (List.mem_append_right _ (List.mem_singleton.mpr rfl))))

theorem owns_scheduleHeartbeat (h : c.node.role = .leader ∨ c.node.role = .unavailable) :
    Owns armed c.scheduleHeartbeat := by
  rcases h with hl | hdown
  · intro t ht
    obtain rfl : (.heartbeat, incU64 c.node.heartbeatGeneration) = t := by
      simpa [RaftNode.awaited, Ctx.scheduleHeartbeat, hl] using ht
    exact Or.inr (Or.inl (mem_timers (List.mem_append_right _ (List.mem_singleton.mpr rfl))))
  · exact owns_of_stopped hdown

/-! ### What leaves the timers alone -/

namespace Calm

theorem refl (c : Ctx) : Calm c c :=
  ⟨List.Subset.refl _, Or.inr ⟨rfl, rfl, rfl, rfl, rfl⟩⟩

theorem trans (h : Calm c c') (h' : Calm c' c'') : Calm c c'' := by
  refine ⟨List.Subset.trans h.effects h'.effects, ?_⟩
  rcases h'.node with hdown | ⟨hr, he, hh, hp, hq⟩
  · exact Or.inl hdown
  · rw [hr, he, hh, hp, hq]
    exact h.node

/-- An assignment to other members. -/
theorem setNode (h : Calm c c') (m : RaftNode) (role : m.role = c'.node.role)
    (election : m.electionGeneration = c'.node.electionGeneration)
    (heartbeat : m.heartbeatGeneration = c'.node.heartbeatGeneration)
    (pending : m.pendingStorage = c'.node.pendingStorage)
    (deferred : m.deferredEvents = c'.node.deferredEvents) : Calm c { c' with node := m } :=
  h.trans ⟨List.Subset.refl _, Or.inr ⟨role, election, heartbeat, pending, deferred⟩⟩

theorem emit (c : Ctx) (e : RaftEffect) : Calm c (c.emit e) :=
  ⟨List.subset_append_left _ _, Or.inr ⟨rfl, rfl, rfl, rfl, rfl⟩⟩

theorem trace (c : Ctx) (kind : TraceKind) (detail : String) (index : ℕ) :
    Calm c (c.trace kind detail index) := emit c _

theorem emitReply (c : Ctx) (token : ClientToken) (status : ClientStatus) (value : Bytes)
    (index : ℕ) : Calm c (c.emitReply token status value index) :=
  (emit c _).trans (trace _ _ _ _)

theorem sendMessage (c : Ctx) (target : NodeId) (message : Message) :
    Calm c (c.sendMessage target message) := (trace c _ _ _).trans (emit _ _)

theorem foldl {α : Type*} {f : Ctx → α → Ctx} (hf : ∀ c a, Calm c (f c a)) (l : List α)
    (c : Ctx) : Calm c (l.foldl f c) := by
  induction l generalizing c with
  | nil => exact refl c
  | cons a l ih => exact (hf c a).trans (ih (f c a))

theorem emitReplies (c : Ctx) (tokens : List ClientToken) (status : ClientStatus) (value : Bytes)
    (index : ℕ) : Calm c (c.emitReplies tokens status value index) :=
  foldl (fun c token => emitReply c token status value index) tokens c

theorem failStorage (c : Ctx) (detail : String) : Calm c (c.failStorage detail) := by
  obtain ⟨-, es, hes, -⟩ : Emits _ c (c.failStorage detail) := tolerant_true.failed (Emits.refl c)
  refine ⟨hes ▸ List.subset_append_left _ _, Or.inl ?_⟩
  rw [Ctx.failStorage_node]
  exact ⟨rfl, rfl⟩

theorem sendAppend (c : Ctx) (peer : NodeId) : Calm c (c.sendAppend peer) := by
  unfold Ctx.sendAppend
  split_ifs
  · exact refl c
  split
  · exact refl c
  split_ifs
  · exact refl c
  unfold Ctx.sendAppendTo
  simp only
  by_cases hid : c.node.nextRpcId = 0
  · rw [if_pos hid, failStorage_setPeers]
    exact failStorage c _
  · rw [if_neg hid]
    refine Calm.trans ?_ (sendMessage _ _ _)
    exact (refl c).setNode _ rfl rfl rfl rfl rfl

theorem sendAllAppends (c : Ctx) : Calm c c.sendAllAppends := by
  unfold Ctx.sendAllAppends
  split_ifs
  · exact refl c
  · exact foldl sendAppend _ c

theorem requestVotes (c : Ctx) : Calm c c.requestVotes := by
  refine foldl (fun c member => ?_) _ c
  split_ifs
  · exact sendMessage c _ _
  · exact refl c

theorem removePending (c : Ctx) (e : ℕ × PendingClientEntry) : Calm c (c.removePending e) :=
  (emitReplies c _ _ _ _).setNode _ rfl rfl rfl rfl rfl

theorem removePendingFrom (c : Ctx) (index : ℕ) : Calm c (c.removePendingFrom index) :=
  foldl removePending _ c

theorem applyEntry (c : Ctx) (index : ℕ) (e : LogEntry) : Calm c (c.applyEntry index e) := by
  unfold Ctx.applyEntry
  simp only
  have htrace := fun machine => ((refl c).setNode { c.node with stateMachine := machine }
    rfl rfl rfl rfl rfl).trans (trace _ .apply
      (if e.command.isSome then "applied client command" else "applied no-op") index)
  split
  · exact htrace _
  · exact ((htrace _).trans (emitReplies _ _ _ _ _)).setNode _ rfl rfl rfl rfl rfl

theorem applyRounds (fuel : ℕ) (c : Ctx) : Calm c (c.applyRounds fuel) := by
  induction fuel generalizing c with
  | zero => exact refl c
  | succ fuel ih =>
    rw [Ctx.applyRounds]
    split_ifs
    · have hnext := (refl c).setNode { c.node with lastApplied := c.node.lastApplied + 1 }
        rfl rfl rfl rfl rfl
      simp only
      split
      · exact hnext.trans (failStorage _ _)
      · exact (hnext.trans (applyEntry _ _ _)).trans (ih _)
    · exact refl c

end Calm

theorem Owns.frame (h : Owns armed c) (heffects : c.effects ⊆ c'.effects)
    (hawaited : c'.node.awaited = c.node.awaited)
    (hdeferred : c'.node.deferredEvents = c.node.deferredEvents) : Owns armed c' := by
  intro t ht
  rw [hdeferred]
  exact (h t (hawaited ▸ ht)).imp_right (Or.imp_left fun h => timers_subset heffects h)

theorem Owns.calm (h : Owns armed c) (hc : Calm c c') : Owns armed c' := by
  rcases hc.node with ⟨hdown, -⟩ | ⟨hr, he, hh, -, hq⟩
  · exact owns_of_stopped hdown
  · refine h.frame hc.effects ?_ hq
    rw [RaftNode.awaited, RaftNode.awaited, hr, he, hh]

theorem Due.calm (h : Due armed c) (hc : Calm c c') : Due armed c' := by
  rcases h with ho | ⟨p, hp, ha⟩
  · exact Or.inl (ho.calm hc)
  · rcases hc.node with ⟨hdown, -⟩ | ⟨hr, -, -, hpending, -⟩
    · exact Or.inl (owns_of_stopped hdown)
    · exact Or.inr ⟨p, hpending.trans hp, hr ▸ ha⟩

/-- Without a write under way, a timer that is due is owned. -/
theorem Due.owns (h : Due armed c) (free : c.node.pendingStorage = none) : Owns armed c := by
  rcases h with ho | ⟨p, hp, -⟩
  · exact ho
  · rw [free] at hp
    cases hp

theorem Calm.free (h : Calm c c') (free : c.node.pendingStorage = none) :
    c'.node.pendingStorage = none := by
  rcases h.node with ⟨-, hp⟩ | ⟨-, -, -, hp, -⟩
  · exact hp
  · exact hp.trans free

theorem Calm.not_leader (h : Calm c c') (hr : c.node.role ≠ .leader) : c'.node.role ≠ .leader := by
  rcases h.node with ⟨hdown, -⟩ | ⟨hsame, -⟩
  · simp [hdown]
  · rwa [hsame]

/-! ### Persistence and continuations -/

theorem due_failStorage (c : Ctx) (detail : String) : Due armed (c.failStorage detail) := by
  refine Or.inl (owns_of_stopped ?_)
  rw [Ctx.failStorage_node]

theorem due_startPersist (free : c.node.pendingStorage = none) (batch : PersistBatch)
    (h : Owns armed c ∨ k.Arms c.node.role) :
    Due armed (c.startPersist batch k) := by
  by_cases hid : c.node.nextStorageOpId = 0
  · rw [startPersist_of_overflow free hid]
    exact due_failStorage c _
  · have hnode := startPersist_of_free free hid batch k
    rcases h with ho | ha
    · refine Or.inl (ho.frame ?_ ?_ ?_)
      · unfold Ctx.startPersist
        rw [if_neg (by simp [free]), if_neg hid]
        exact ((Calm.trace _ _ _ _).trans (Calm.emit _ _)).effects
      · rw [hnode]
        rfl
      · rw [hnode]
    · refine Or.inr ⟨_, by rw [hnode], ?_⟩
      rw [hnode]
      exact ha

theorem due_maybeAdvanceCommit (h : Owns armed c) : Due armed c.maybeAdvanceCommit := by
  unfold Ctx.maybeAdvanceCommit
  split_ifs with hbusy
  · exact Or.inl h
  · push Not at hbusy
    simp only
    split_ifs
    · exact Or.inl h
    · exact due_startPersist (by simpa using hbusy.2) _
        (Or.inl (h.calm ((Calm.refl c).setNode _ rfl rfl rfl rfl rfl)))

/-- **A continuation that is due leaves the timer due.** -/
theorem due_resume (h : Owns armed c ∨ k.Arms c.node.role) :
    Due armed (c.resume k) := by
  cases k with
  | campaign =>
    simp only [Ctx.resume]
    split_ifs with hr
    · exact Or.inl (h.resolve_right hr)
    · have hc : c.node.role = .candidate := not_not.mp hr
      exact Or.inl ((owns_scheduleElection (by simp [hc])).calm (Calm.requestVotes _))
  | voteReply candidate grant wasLeader =>
    simp only [Ctx.resume]
    refine Or.inl (Owns.calm ?_ (Calm.sendMessage _ _ _))
    have hgrant : Calm c (if grant then c.trace .vote "granted vote" 0 else c) := by
      split_ifs
      · exact Calm.trace c _ _ _
      · exact Calm.refl c
    by_cases hga : (grant || wasLeader) = true
    · rw [if_pos hga]
      refine owns_scheduleElection fun hl => ?_
      have hl' : c.node.role = .leader := by
        split_ifs at hl <;> exact hl
      exact (h.resolve_right fun ha => ha.1 hl').calm hgrant
    · rw [if_neg hga]
      exact (h.resolve_right fun ha => hga ha.2).calm hgrant
  | rearm => exact Or.inl (owns_scheduleElection fun hl => h.resolve_right fun ha => ha hl)
  | leaderEstablished =>
    simp only [Ctx.resume]
    split_ifs with hr
    · exact Or.inl (h.resolve_right hr)
    · refine due_maybeAdvanceCommit (owns_scheduleHeartbeat ?_)
      rcases (Calm.sendAllAppends c).node with ⟨hdown, -⟩ | ⟨hsame, -⟩
      · exact Or.inr hdown
      · exact Or.inl (hsame.trans (not_not.mp hr))
  | appendReject leader rpcId conflictIndex conflictTerm =>
    exact Or.inl ((owns_scheduleElection fun hl => h.resolve_right fun ha => ha hl).calm
      (Calm.sendMessage _ _ _))
  | appendAccept leader rpcId matchIndex apply =>
    simp only [Ctx.resume]
    refine Or.inl (Owns.calm (owns_scheduleElection fun hl => ?_) (Calm.sendMessage _ _ _))
    have hcalm : Calm c (if apply then (c.trace .commit "learned committed prefix from leader"
        c.node.commitIndex).applyCommitted else c) := by
      split_ifs
      · exact (Calm.trace c _ _ _).trans (Calm.applyRounds _ _)
      · exact Calm.refl c
    refine (h.resolve_right fun ha => ha ?_).calm hcalm
    rcases hcalm.node with ⟨hdown, -⟩ | ⟨hsame, -⟩
    · rw [hdown] at hl
      cases hl
    · exact hsame.symm.trans hl
  | clientAppended =>
    have ho := h.resolve_right id
    simp only [Ctx.resume]
    split_ifs
    · exact Or.inl ho
    · exact due_maybeAdvanceCommit (ho.calm (Calm.sendAllAppends c))
  | commitAdvanced =>
    have ho := h.resolve_right id
    have hcalm := (Calm.trace c .commit "leader durably advanced commit index"
      c.node.commitIndex).trans (Calm.applyRounds (c.node.commitIndex - c.node.lastApplied) _)
    simp only [Ctx.resume]
    refine Or.inl ((ho.calm (hcalm.trans ?_)).calm (Calm.sendAllAppends _))
    split_ifs
    · exact (Calm.refl _).setNode _ rfl rfl rfl rfl rfl
    · exact Calm.refl _

theorem due_beginPersist (free : c.node.pendingStorage = none) (batch : PersistBatch)
    (h : Owns armed c ∨ k.Arms c.node.role) :
    Due armed (c.beginPersist batch k) := by
  unfold Ctx.beginPersist
  split_ifs
  · exact due_resume h
  · exact due_startPersist free batch h

/-! ### The handlers -/

/-- A higher term makes the node a follower, and only a leader loses its timer by that. -/
theorem owns_stepDown (h : Owns armed c) (hr : c.node.role ≠ .leader)
    (available : c.node.role ≠ .unavailable) (term : ℕ) (hint : Option NodeId) :
    Owns armed (c.stepDown term hint false) := by
  refine h.frame ?_ ?_ ?_
  · obtain ⟨-, es, hes, -⟩ : Emits _ c (c.stepDown term hint false) :=
      tolerant_true.steppedDown (Emits.refl c)
    exact hes ▸ List.subset_append_left _ _
  · rw [Ctx.stepDown_node]
    cases hrole : c.node.role <;> simp [RaftNode.awaited, hrole] at hr available ⊢
  · rw [Ctx.stepDown_node]

section

variable (free : c.node.pendingStorage = none)
include free

theorem free_stepDown (term : ℕ) (hint : Option NodeId) :
    (c.stepDown term hint false).node.pendingStorage = none ∧
      (c.stepDown term hint false).node.role = .follower := by
  rw [Ctx.stepDown_node]
  exact ⟨free, rfl⟩

theorem due_adoptTerm (term : ℕ) : Due armed (c.adoptTerm term) := by
  obtain ⟨hp, hf⟩ := free_stepDown free term none
  exact due_beginPersist hp _ (Or.inr (by simp [Continuation.Arms, hf]))

theorem due_beginElection : Due armed c.beginElection := by
  unfold Ctx.beginElection
  split_ifs
  · exact due_failStorage c _
  · refine due_beginPersist ?_ _ (Or.inr rfl)
    exact free

theorem due_decideVote (sender : NodeId) (request : RequestVote) (observed : Bool)
    {wasLeader : Bool} (h : Owns armed c ∨ c.node.role ≠ .leader ∧ wasLeader = true) :
    Due armed (c.decideVote sender request observed wasLeader) := by
  obtain ⟨m, batch, grant, heq, -, hm⟩ := decideVote_eq c sender request observed wasLeader
  have hvote : Calm c { c with node := m } ∧ m.role = c.node.role := by
    rcases hm with rfl | rfl
    · exact ⟨Calm.refl c, rfl⟩
    · exact ⟨(Calm.refl c).setNode _ rfl rfl rfl rfl rfl, rfl⟩
  rw [heq]
  exact due_beginPersist (hvote.1.free free) _
    (h.imp (fun ho => ho.calm hvote.1) fun ⟨hne, hw⟩ => ⟨hvote.2 ▸ hne, by simp [hw]⟩)

end

theorem due_onRequestVote (idle : c.node.Idle) (h : Owns armed c) (sender : NodeId)
    (request : RequestVote) : Due armed (c.onRequestVote sender request) := by
  unfold Ctx.onRequestVote
  split_ifs
  · exact Or.inl h
  · exact Or.inl (h.calm (Calm.sendMessage _ _ _))
  · simp only
    split_ifs
    · obtain ⟨hp, hf⟩ := free_stepDown idle.free request.term none
      refine due_decideVote hp sender request _ ?_
      by_cases hl : c.node.role = .leader
      · exact Or.inr ⟨by simp [hf], by simp [hl]⟩
      · exact Or.inl (owns_stepDown h hl idle.available _ _)
    · exact due_decideVote idle.free sender request _ (Or.inl h)

section

variable (free : c.node.pendingStorage = none)
include free

theorem due_becomeLeader : Due armed c.becomeLeader := by
  unfold Ctx.becomeLeader Ctx.appendReadiness
  simp only
  split_ifs
  · exact due_failStorage _ _
  · exact Or.inl (owns_scheduleElection (by simp))
  · refine due_beginPersist ?_ _ (Or.inr rfl)
    exact free

theorem due_onRequestVoteResponse (h : Owns armed c) (sender : NodeId)
    (response : RequestVoteResponse) : Due armed (c.onRequestVoteResponse sender response) := by
  have hcalm : Calm c (c.recordVote sender) := by
    simp only [Ctx.recordVote]
    have hadd := (Calm.refl c).setNode { c.node with
      votesReceived := insert sender c.node.votesReceived } rfl rfl rfl rfl rfl
    split_ifs
    · exact hadd.trans (Calm.trace _ _ _ _)
    · exact hadd
  unfold Ctx.onRequestVoteResponse
  split_ifs
  · exact due_adoptTerm free _
  · exact Or.inl h
  · simp only
    split_ifs
    · exact due_becomeLeader (hcalm.free free)
    · exact Or.inl (h.calm hcalm)

section

variable (hr : c.node.role ≠ .leader) (sender : NodeId) (request : AppendEntries)
    (batch : PersistBatch)
include hr sender request batch

/-- Whatever becomes of an append, its follower arms the election timer. -/
theorem due_finishAppend : Due armed (c.finishAppend sender request batch) := by
  simp only [Ctx.finishAppend, beginPersist_of_test]
  refine due_beginPersist ?_ _ (Or.inr ?_)
  · split_ifs <;> exact free
  · split_ifs <;> exact hr

theorem due_rejectAppend (conflictIndex ct : ℕ) :
    Due armed (c.rejectAppend sender request batch conflictIndex ct) := by
  simp only [Ctx.rejectAppend, beginPersist_of_test]
  exact due_beginPersist free _ (Or.inr hr)

theorem due_acceptAppend : Due armed (c.acceptAppend sender request batch) := by
  unfold Ctx.acceptAppend
  generalize request.entries.drop (matchingEntries c.node.log request.entries) = suffix
  simp only
  cases suffix with
  | nil => exact due_finishAppend free hr sender request batch
  | cons e rest =>
    simp only
    split_ifs
    · exact due_failStorage c _
    · have hcalm := Calm.removePendingFrom c e.index
      refine due_finishAppend ?_ ?_ sender request _
      · exact hcalm.free free
      · exact hcalm.not_leader hr
    · refine due_finishAppend ?_ ?_ sender request _
      · exact free
      · exact hr

theorem due_examineAppend : Due armed (c.examineAppend sender request batch) := by
  unfold Ctx.examineAppend
  simp only
  split_ifs
  · exact due_rejectAppend free hr sender request batch _ _
  · exact due_rejectAppend free hr sender request batch _ _
  · exact due_rejectAppend free hr sender request batch _ _
  · exact due_acceptAppend free hr sender request batch

end

/-- An append leaves the timer armed, or to be armed once storage answers. -/
theorem due_onAppendEntries (h : Owns armed c) (sender : NodeId) (request : AppendEntries) :
    Due armed (c.onAppendEntries sender request) := by
  unfold Ctx.onAppendEntries
  split_ifs
  · exact Or.inl h
  · exact Or.inl (h.calm (Calm.sendMessage _ _ _))
  · simp only
    by_cases hdown : (decide (c.node.currentTerm < request.term) ||
        decide (c.node.role ≠ .follower)) = true
    · rw [if_pos hdown]
      obtain ⟨hp, hf⟩ := free_stepDown free request.term (some sender)
      exact due_examineAppend hp (by simp [hf]) sender request _
    · rw [if_neg hdown]
      simp only [Bool.or_eq_true, decide_eq_true_eq, not_or, not_not] at hdown
      refine due_examineAppend ?_ ?_ sender request _
      · exact free
      · simp [hdown.2]

theorem due_onAppendEntriesResponse (h : Owns armed c) (sender : NodeId)
    (response : AppendEntriesResponse) : Due armed (c.onAppendEntriesResponse sender response) := by
  refine Ctx.onAppendEntriesResponse_rule (fun _ => due_adoptTerm free _) (Or.inl h)
    fun progress sent progress' _ _ _ _ _ _ => ?_
  have hset : Owns armed
      { c with node := { c.node with peers := c.node.peers.insert sender progress' } } :=
    h.calm ((Calm.refl c).setNode _ rfl rfl rfl rfl rfl)
  have hdue := due_maybeAdvanceCommit hset
  exact ⟨Or.inl hset, Or.inl (hset.calm (Calm.sendAppend _ _)),
    Ctx.sendRest_rule hdue fun _ _ => hdue.calm (Calm.sendAppend _ _)⟩

theorem due_admitClient (h : Owns armed c) (token : ClientToken) (command : ClientCommand) :
    Due armed (c.admitClient token command) := by
  unfold Ctx.admitClient
  split_ifs
  · exact Or.inl (h.calm (Calm.emitReply _ _ _ _ _))
  · simp only
    split_ifs
    · exact Or.inl (h.calm ((Calm.trace _ _ _ _).trans (Calm.emitReply _ _ _ _ _)))
    · refine due_beginPersist ?_ _ (Or.inl (Owns.calm ?_ (Calm.trace _ _ _ _)))
      · exact free
      · exact h.calm ((Calm.refl c).setNode _ rfl rfl rfl rfl rfl)

theorem due_joinPending (h : Owns armed c) (token : ClientToken) (command : ClientCommand) :
    Due armed (c.joinPending token command) := by
  unfold Ctx.joinPending
  split
  · exact due_admitClient free h token command
  · split
    · refine due_admitClient ?_ ?_ token command
      · exact free
      · exact h.calm ((Calm.refl c).setNode _ rfl rfl rfl rfl rfl)
    · split_ifs
      · exact Or.inl (h.calm (Calm.emitReply _ _ _ _ _))
      · exact Or.inl (h.calm (Calm.emitReply _ _ _ _ _))
      · exact Or.inl (h.calm (Calm.emitReply _ _ _ _ _))
      · exact Or.inl (h.calm ((Calm.refl c).setNode _ rfl rfl rfl rfl rfl))

end

theorem due_onClientRequest (free : c.node.pendingStorage = none) (h : Owns armed c)
    (token : ClientToken) (command : ClientCommand) :
    Due armed (c.onClientRequest token command) := by
  have hreply : ∀ status value index, Due armed (c.emitReply token status value index) :=
    fun status value index => Or.inl (h.calm (Calm.emitReply c token status value index))
  have hjoin := due_joinPending free h token command
  unfold Ctx.onClientRequest
  cases c.node.stateMachine.session command.session with
  | none | some applied =>
    simp only
    split_ifs <;> first | exact hreply _ _ _ | exact hjoin

/-- **The timer that fires** is the only one that the node may rely on no longer. -/
theorem due_onTimer (free : c.node.pendingStorage = none) (kind : TimerKind) (generation : ℕ)
    (h : Owns (armed ∪ {(kind, generation)}) c) : Due armed (c.onTimer kind generation) := by
  -- A firing that the handler ignores is not the one that the node waits for.
  have hignored : c.node.awaited ≠ some (kind, generation) → Owns armed c := by
    intro hne t ht
    refine (h t ht).imp_left fun hmem => hmem.resolve_right ?_
    rintro rfl
    exact hne ht
  cases kind with
  | election =>
    simp only [Ctx.onTimer]
    split_ifs with hskip
    · refine Or.inl (hignored fun ht => ?_)
      cases hr : c.node.role <;> simp [RaftNode.awaited, hr] at ht hskip <;> exact hskip ht.symm
    · exact due_beginElection free
  | heartbeat =>
    simp only [Ctx.onTimer]
    split_ifs with hskip
    · refine Or.inl (hignored fun ht => ?_)
      cases hr : c.node.role <;> simp [RaftNode.awaited, hr] at ht hskip
      exact hskip ht.symm
    · push Not at hskip
      refine Or.inl (owns_scheduleHeartbeat ?_)
      rcases (Calm.sendAllAppends { c with node := { c.node with
        peers := c.node.peers.mapValues (Ctx.ageInflight c.node.config) } }).node with
        ⟨hdown, -⟩ | ⟨hsame, -⟩
      · exact Or.inr hdown
      · exact Or.inl (hsame.trans hskip.2)

theorem due_onMessage (idle : c.node.Idle) (h : Owns armed c) (envelope : MessageEnvelope) :
    Due armed (c.onMessage envelope) := by
  unfold Ctx.onMessage
  split_ifs
  · exact Or.inl h
  · have ho := h.calm (Calm.trace c .receive "protocol message received" 0)
    have hidle : (c.trace .receive "protocol message received" 0).node.Idle := idle
    simp only
    split
    · exact due_onRequestVote hidle ho _ _
    · exact due_onRequestVoteResponse hidle.free ho _ _
    · exact due_onAppendEntries hidle.free ho _ _
    · exact due_onAppendEntriesResponse hidle.free ho _ _

/-- **Every reaction leaves the timer due.** -/
theorem due_dispatch (idle : c.node.Idle) (e : RaftEvent) (h : Owns (armed ∪ e.fired) c) :
    Due armed (c.dispatch e) := by
  cases e with
  | timerFired kind generation => exact due_onTimer idle.free kind generation h
  | messageReceived envelope =>
    exact due_onMessage idle (h.mono (by simp [RaftEvent.fired])) envelope
  | storageComplete opId success error =>
    simp only [Ctx.dispatch, Ctx.onStorageComplete, idle.free]
    exact Or.inl ((h.mono (by simp [RaftEvent.fired])).calm (Calm.trace _ _ _ _))
  | clientRequest token command =>
    exact due_onClientRequest idle.free (h.mono (by simp [RaftEvent.fired])) token command

end Owns

/-! ### One step -/

/-- **A timer is lost**: the node waits for it, and it fires while a batch is outstanding and
the queue is full. -/
def RaftNode.Loses (n : RaftNode) : RaftEvent → Prop
  | .timerFired kind generation =>
    n.pendingStorage.isSome ∧ n.config.maxDeferredEvents ≤ n.deferredEvents.length ∧
      n.awaited = some (kind, generation)
  | _ => False

instance (n : RaftNode) : DecidablePred n.Loses
  | .timerFired kind generation => inferInstanceAs (Decidable (n.pendingStorage.isSome ∧
      n.config.maxDeferredEvents ≤ n.deferredEvents.length ∧ n.awaited = some (kind, generation)))
  | .messageReceived _ | .storageComplete _ _ _ | .clientRequest _ _ =>
    inferInstanceAs (Decidable False)

section Step

variable {n : RaftNode} {e : RaftEvent} {armed armed' : Set Timer} {c : Ctx}

/-- A firing that the node does not wait for can be done without. -/
theorem Owns.spared (h : Owns armed c) (hsub : armed ⊆ armed' ∪ e.fired)
    (hne : ∀ t ∈ e.fired, c.node.awaited ≠ some t) : Owns armed' c := by
  intro t ht
  exact (h t ht).imp_left fun hmem => (hsub hmem).resolve_right fun hf => hne t hf ht

theorem Due.spared (h : Due armed c) (hsub : armed ⊆ armed' ∪ e.fired)
    (hne : ∀ t ∈ e.fired, c.node.awaited ≠ some t) : Due armed' c :=
  h.imp_left fun ho => ho.spared hsub hne

theorem Due.aside (ha : Aside n e c) (h : Due armed { node := n })
    (hsub : armed ⊆ armed' ∪ e.fired) (hkept : ¬n.Loses e) : Due armed' c := by
  have hcalm : (∀ t ∈ e.fired, n.awaited ≠ some t) → Calm { node := n } c → Due armed' c :=
    fun hne hc => (h.spared hsub hne).calm hc
  cases ha with
  | unexpected | oversized => exact hcalm (by simp [RaftEvent.fired]) (Calm.trace _ _ _ _)
  | failed p error pending => exact due_failStorage _ _
  | invalid => exact hcalm (by simp [RaftEvent.fired]) (Calm.emitReply _ _ _ _ _)
  | busy =>
    exact hcalm (by simp [RaftEvent.fired])
      ((Calm.trace _ _ _ _).trans (Calm.emitReply _ _ _ _ _))
  | dropped e internal waits full =>
    refine hcalm (fun t ht hawaited => ?_) (Calm.trace _ _ _ _)
    cases e with
    | timerFired kind generation =>
      obtain rfl : t = (kind, generation) := ht
      exact hkept ⟨waits, full, hawaited⟩
    | _ => exact ht.elim
  | deferred e event waits room =>
    -- The timer that has fired is found in the queue from now on.
    refine h.imp (fun ho t ht => ?_) id
    rcases ho t ht with hmem | hmem | hmem
    · rcases hsub hmem with hmem | hmem
      · exact Or.inl hmem
      · refine Or.inr (Or.inr (List.mem_append_right _ ?_))
        cases e with
        | timerFired kind generation =>
          obtain rfl : t = (kind, generation) := hmem
          exact List.mem_singleton.mpr rfl
        | _ => exact hmem.elim
    · exact Or.inr (Or.inl hmem)
    · exact Or.inr (Or.inr (List.mem_append_left _ hmem))
  | stopped token command free down | ignored e internal free down =>
    exact Or.inl (owns_of_stopped down)

/-- **A step that loses no timer leaves the timer due.** -/
theorem Due.step (h : Due armed { node := n }) (hsub : armed ⊆ armed' ∪ e.fired)
    (hkept : ¬n.Loses e) : Due armed' (n.step e) := by
  refine n.step_induction e ?_ ?_
  · intro c hc
    cases hc with
    | aside ha => exact h.aside ha hsub hkept
    | completed p error pending =>
      refine due_resume ?_
      rcases h.spared hsub (by simp [RaftEvent.fired]) with ho | ⟨q, hq, ha⟩
      · exact Or.inl (ho.frame (List.nil_subset _) rfl rfl)
      · obtain rfl : p = q := Option.some.inj (pending.symm.trans hq)
        exact Or.inr ha
    | dispatched e event idle => exact due_dispatch idle e ((h.owns idle.free).mono hsub)
  · intro c x rest hc idle hq
    refine due_dispatch (c := c.pop rest) ⟨idle.free, idle.available⟩ x fun t ht => ?_
    rcases hc.owns idle.free t ht with hmem | hmem | hmem
    · exact Or.inl (Or.inl hmem)
    · exact Or.inr (Or.inl hmem)
    · rw [hq, List.mem_cons] at hmem
      rcases hmem with rfl | hmem
      · exact Or.inl (Or.inr rfl)
      · exact Or.inr (Or.inr hmem)

end Step

/-! ### Whole runs -/

/-- A node and the timers that it has armed and that have not fired. -/
structure Clocked where
  driven : Driven
  armed : List Timer

namespace Clocked

/-- A node that has just been started. -/
def launch (n : RaftNode) (recovered : RecoveredState) : Clocked where
  driven := Driven.step { node := n, durable := recovered } .start
  armed := timers n.start.effects

/-- The timers that are left when an event comes; a firing uses its timer up. -/
def left (s : Clocked) : RaftEvent → List Timer
  | .timerFired kind generation => s.armed.erase (kind, generation)
  | _ => s.armed

/-- An event and its timers. -/
def step (s : Clocked) (e : RaftEvent) : Clocked where
  driven := s.driven.step (.event e)
  armed := s.left e ++ timers (s.driven.node.step e).effects

/-- Event after event. -/
def run (s : Clocked) (events : List RaftEvent) : Clocked := events.foldl step s

/-- The rule for the adapter: a timer fires only while it is armed, so at most once for each
time it was armed. -/
def Delivers (s : Clocked) (e : RaftEvent) : Prop := ∀ t ∈ e.fired, t ∈ s.armed

/-- No timer that the node waits for is lost. -/
def Keeps (s : Clocked) (e : RaftEvent) : Prop := ¬s.driven.node.Loses e

instance (s : Clocked) : DecidablePred s.Keeps :=
  fun e => inferInstanceAs (Decidable ¬s.driven.node.Loses e)

/-- **Timer ownership**: a node that waits for no storage and has not stopped has the timer
of its role armed, with the current generation. -/
def OwnsTimer (s : Clocked) : Prop :=
  s.driven.node.pendingStorage = none → ∀ t, s.driven.node.awaited = some t → t ∈ s.armed

/-- What is kept along a run. -/
structure Kept (s : Clocked) : Prop where
  driven : s.driven.Kept
  due : Due {t | t ∈ s.armed} { node := s.driven.node }

variable {s : Clocked}

theorem kept_launch {config : RaftConfig} {recovered : RecoveredState} {n : RaftNode}
    (hn : RaftNode.create config recovered = .ok n) : (launch n recovered).Kept := by
  refine ⟨(Driven.kept_create hn).step .start, Or.inl fun t ht => Or.inl ?_⟩
  obtain ⟨-, rfl⟩ := RaftNode.create_eq_ok.mp hn
  obtain rfl : (.election, incU64 0) = t := Option.some.inj ht
  exact List.mem_singleton.mpr rfl

theorem armed_subset (s : Clocked) (e : RaftEvent) :
    {t | t ∈ s.armed} ⊆ {t | t ∈ s.left e} ∪ e.fired := by
  intro t ht
  cases e with
  | timerFired kind generation =>
    by_cases heq : t = (kind, generation)
    · exact Or.inr heq
    · exact Or.inl ((List.mem_erase_of_ne heq).mpr ht)
  | _ => exact Or.inl ht

theorem Kept.step (h : s.Kept) {e : RaftEvent} (hk : s.Keeps e) : (s.step e).Kept := by
  refine ⟨h.driven.step (.event e), ?_⟩
  refine (h.due.step (s.armed_subset e) hk).imp (fun ho t ht => ?_) id
  rcases ho t ht with hmem | hmem | hmem
  · exact Or.inl (List.mem_append_left _ hmem)
  · exact Or.inl (List.mem_append_right _ hmem)
  · exact Or.inr (Or.inr hmem)

theorem Kept.run {events : List RaftEvent} (h : s.Kept) (hk : Along Clocked.step Keeps s events) :
    (s.run events).Kept := by
  induction events generalizing s with
  | nil => exact h
  | cons e rest ih => exact ih (h.step hk.1) hk.2

/-- In a node that waits for nothing the queue is empty, so the timer is armed. -/
theorem Kept.ownsTimer (h : s.Kept) : s.OwnsTimer := by
  intro hp t ht
  rcases h.due.owns hp t ht with hmem | hmem | hmem
  · exact hmem
  · cases hmem
  · rw [h.driven.drained hp] at hmem
    cases hmem

/-- **No stranded node**, in every run of a started node in which no timer that it waits for
is lost to a full queue. -/
theorem owns_timer_run {config : RaftConfig} {recovered : RecoveredState} {n : RaftNode}
    (hn : RaftNode.create config recovered = .ok n) (events : List RaftEvent)
    (hk : Along Clocked.step Keeps (launch n recovered) events) :
    ((launch n recovered).run events).OwnsTimer :=
  ((kept_launch hn).run hk).ownsTimer

/-- A node is elected and loses its office to a higher term. The timer of its next election
is armed. -/
theorem owns_timer_run_deposed :
    let events : List RaftEvent :=
      [.timerFired .election 1, .storageComplete 1 true "",
       .messageReceived ⟨2, 1, .requestVoteResponse ⟨1, true⟩⟩, .storageComplete 2 true "",
       .timerFired .heartbeat 2, .messageReceived ⟨3, 1, .requestVote ⟨2, 3, 0, 0⟩⟩,
       .storageComplete 3 true ""]
    let s := (launch (RaftNode.ofRecovered Driven.sampleConfig {}) {}).run events
    (s.driven.node.pendingStorage = none ∧ s.driven.node.role = .follower ∧
      s.driven.node.currentTerm = 2 ∧ s.armed = [(.election, 2), (.heartbeat, 3), (.election, 4)]) ∧
      s.OwnsTimer := by
  have hcreate : RaftNode.create Driven.sampleConfig {} =
      .ok (RaftNode.ofRecovered Driven.sampleConfig {}) := by decide +kernel
  exact ⟨by decide +kernel, owns_timer_run hcreate _ (by decide +kernel)⟩

/-- **A stranded node.** A follower with one entry denies its vote to a candidate of a higher
term without one, and keeps its timer. The timer fires while the new term is written, behind
a vote that fills the queue. Once the write is done the node waits for a timer that nobody
will fire. -/
theorem stranded :
    let config : RaftConfig := { nodeId := 1, members := [1, 2, 3], maxDeferredEvents := 1 }
    let recovered : RecoveredState :=
      { hardState := ⟨1, none⟩, log := [{ index := 1, term := 1, command := none }] }
    let events : List RaftEvent :=
      [.messageReceived ⟨2, 1, .requestVote ⟨2, 2, 0, 0⟩⟩,
       .messageReceived ⟨3, 1, .requestVoteResponse ⟨1, true⟩⟩,
       .timerFired .election 1, .storageComplete 1 true ""]
    let n := RaftNode.ofRecovered config recovered
    let s := (launch n recovered).run events
    RaftNode.create config recovered = .ok n ∧
      Along Clocked.step Delivers (launch n recovered) events ∧
      (s.driven.node.role = .follower ∧ s.driven.node.pendingStorage = none ∧ s.armed = []) ∧
      ¬s.OwnsTimer := by
  intro config recovered events n s
  have hstate : s.driven.node.role = .follower ∧ s.driven.node.pendingStorage = none ∧
      s.armed = [] ∧ s.driven.node.awaited = some (.election, 1) := by decide +kernel
  obtain ⟨hrole, hp, harmed, hawaited⟩ := hstate
  have htimer : (.election, 1) ∈
      (((launch n recovered).step (.messageReceived ⟨2, 1, .requestVote ⟨2, 2, 0, 0⟩⟩)).step
        (.messageReceived ⟨3, 1, .requestVoteResponse ⟨1, true⟩⟩)).armed := by decide +kernel
  refine ⟨by decide +kernel, ⟨?_, ?_, ?_, ?_, trivial⟩, ⟨hrole, hp, harmed⟩, fun howns => ?_⟩
  · exact fun t ht => ht.elim
  · exact fun t ht => ht.elim
  · rintro t rfl
    exact htimer
  · exact fun t ht => ht.elim
  · have hmem := howns hp _ hawaited
    rw [harmed] at hmem
    cases hmem

end Clocked

end DetLog
