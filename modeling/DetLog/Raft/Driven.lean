import DetLog.Raft.Gate

/-!
# One node under arbitrary events

A node is constructed from a recovered state and driven by `start` and `step` with
whatever comes: timers of any generation, messages nobody sent, completions of
operations nobody started. `DetLog.Driven` keeps beside it what is durable, that is the
recovered state with every batch whose completion the node has been told of, and the
events it has received.

`DetLog.Driven.coherent_run` is the invariant of all such runs, and
`DetLog.Driven.sends_gated` says what it is for: no message leaves the node before the
state it speaks about is durable.
-/

namespace DetLog

/-! ### Runs under a condition -/

section Along

variable {σ α : Type*} {step : σ → α → σ} {P Q : σ → α → Prop}

/-- What holds of every input of a run when its turn comes. -/
def Along (step : σ → α → σ) (P : σ → α → Prop) : σ → List α → Prop
  | _, [] => True
  | s, a :: rest => P s a ∧ Along step P (step s a) rest

instance decidableAlong [∀ s, DecidablePred (P s)] : ∀ s inputs, Decidable (Along step P s inputs)
  | _, [] => inferInstanceAs (Decidable True)
  | s, a :: rest =>
    have := decidableAlong (step s a) rest
    inferInstanceAs (Decidable (P s a ∧ Along step P (step s a) rest))

theorem Along.mono {s : σ} {inputs : List α} (h : ∀ s a, P s a → Q s a)
    (ha : Along step P s inputs) : Along step Q s inputs := by
  induction inputs generalizing s with
  | nil => trivial
  | cons a rest ih => exact ⟨h s a ha.1, ih ha.2⟩

end Along

/-! ### The node and its storage -/

/-- What a host calls: `start`, or `step` with an event. -/
inductive Input where
  | start
  | event (e : RaftEvent)
  deriving DecidableEq

/-- A first start arms the election timer; any other one does nothing. -/
theorem start_cases (n : RaftNode) : n.start = { node := n } ∨
    n.start = { node := { n with started := true
                                 electionGeneration := incU64 n.electionGeneration }
                effects := [.scheduleTimer { kind := .election, delay := n.config.electionTimeout,
                                             generation := incU64 n.electionGeneration }] } := by
  unfold RaftNode.start
  split_ifs
  · exact Or.inl rfl
  · exact Or.inr rfl

/-- A node, what is durable of it, and what it has received. -/
structure Driven where
  node : RaftNode
  durable : RecoveredState
  received : List RaftEvent := []

namespace Driven

/-- The received events. -/
def got (s : Driven) : Set RaftEvent := {e | e ∈ s.received}

/-- The transition of an input. -/
def ctx (s : Driven) : Input → Ctx
  | .start => s.node.start
  | .event e => s.node.step e

/-- One input. -/
def step (s : Driven) (i : Input) : Driven where
  node := (s.ctx i).node
  durable := match i with
    | .start => s.durable
    | .event e => durableAfter s.durable s.node e
  received := match i with
    | .start => s.received
    | .event e => s.received ++ [e]

/-- Input after input. -/
def run (s : Driven) (inputs : List Input) : Driven := inputs.foldl step s

theorem gated_start {d : RecoveredState} {received : Set RaftEvent} {n : RaftNode}
    (h : Coherent d received n) : Gated d received n.start := by
  rcases start_cases n with heq | heq <;> rw [heq]
  · exact ⟨h, rfl, by simp⟩
  · refine ⟨{ h with phase := ?_ },
      rfl, by simp⟩
    cases h.phase with
    | ready available pending memory => exact .ready available pending memory
    | waiting p available pending memory promise =>
      exact .waiting p available pending memory promise
    | down stopped pending => exact .down stopped pending

/-- **Every input keeps the gate.** -/
theorem gated_step (s : Driven) (h : Coherent s.durable s.got s.node) (i : Input) :
    Gated (s.step i).durable (s.step i).got (s.ctx i) := by
  cases i with
  | start => exact gated_start h
  | event e =>
    have hgot : (s.step (.event e)).got = insert e s.got := by
      ext x
      simp [got, step, or_comm]
    rw [hgot]
    exact (h.stepRule e).step

theorem coherent_run (s : Driven) (h : Coherent s.durable s.got s.node)
    (inputs : List Input) :
    Coherent (s.run inputs).durable (s.run inputs).got (s.run inputs).node := by
  induction inputs generalizing s with
  | nil => exact h
  | cons i rest ih => exact ih (s.step i) (s.gated_step h i).coherent

theorem config_run (s : Driven) (inputs : List Input) :
    (s.run inputs).node.config = s.node.config := by
  induction inputs generalizing s with
  | nil => rfl
  | cons i rest ih =>
    refine (ih (s.step i)).trans ?_
    cases i with
    | start => rcases start_cases s.node with heq | heq <;> simp only [step, ctx, heq]
    | event e => exact s.node.step_config e

/-- **Write-ahead gating.** In every run from a recovered state that the constructor
accepts, a message that is emitted speaks only about what is durable at that moment. -/
theorem sends_gated {config : RaftConfig} {recovered : RecoveredState} {n : RaftNode}
    (hn : RaftNode.create config recovered = .ok n) (inputs : List Input) (i : Input)
    {envelope : MessageEnvelope}
    (hs : .send envelope ∈ ((run { node := n, durable := recovered } inputs).ctx i).effects) :
    envelope.sender = config.nodeId ∧
      Gate (run { node := n, durable := recovered } (inputs ++ [i])).durable
        (run { node := n, durable := recovered } (inputs ++ [i])).got envelope := by
  set s : Driven := { node := n, durable := recovered } with hs₀
  have hrun : s.run (inputs ++ [i]) = (s.run inputs).step i := by simp [run]
  have hgated := (s.run inputs).gated_step (s.coherent_run (coherent_create hn _) inputs) i
  obtain ⟨hsender, hgate⟩ := hgated.sends envelope hs
  rw [hrun]
  refine ⟨?_, hgate⟩
  have hconfig : ((s.run inputs).ctx i).node.config = n.config := by
    have := s.config_run (inputs ++ [i])
    rwa [hrun] at this
  rw [hsender, hconfig]
  obtain ⟨-, rfl⟩ := RaftNode.create_eq_ok.mp hn
  rfl

/-- A follower that has just made a leader's entry durable acknowledges it. -/
theorem sends_gated_acknowledgement :
    let config : RaftConfig := { nodeId := 2, members := [1, 2, 3] }
    let request : AppendEntries :=
      { term := 1, leaderId := 1, rpcId := 7, prevLogIndex := 0, prevLogTerm := 0,
        entries := [{ index := 1, term := 1, command := none }], leaderCommit := 0 }
    let received : RaftEvent :=
      .messageReceived { sender := 1, target := 2, message := .appendEntries request }
    let response : MessageEnvelope :=
      { sender := 2, target := 1, message := .appendEntriesResponse
          { term := 1, rpcId := 7, success := true, matchIndex := 1, conflictIndex := 0,
            conflictTerm := 0 } }
    let s : Driven := { node := RaftNode.ofRecovered config {}, durable := {} }
    let i : Input := .event (.storageComplete 1 true "")
    .send response ∈ ((s.run [.start, .event received]).ctx i).effects ∧
      Gate (s.run [.start, .event received, i]).durable
        (s.run [.start, .event received, i]).got response := by
  intro config request received response s i
  have hcreate : RaftNode.create config {} = .ok (RaftNode.ofRecovered config {}) := by
    decide +kernel
  have hsent : .send response ∈ ((s.run [.start, .event received]).ctx i).effects := by
    decide +kernel
  exact ⟨hsent, (sends_gated hcreate [.start, .event received] i hsent).2⟩

end Driven

end DetLog
