import DetLog.Raft.Step
import DetLog.Wal
import Mathlib.Logic.Relation

/-!
# A cluster

Nodes with one configuration, their storage, and the network between them, under every
interleaving: `DetLog.Cluster.step` performs one action of the environment. A message that
has been emitted may be delivered at any time, any number of times, or never; a timer may
fire at any time with any generation, the node itself drops the stale ones; a batch that
has been handed to storage completes or fails.

A host keeps the batches its storage has completed, and a node is built from the state
they leave. A crash loses the memory of the node. A batch that is outstanding at that
moment is on the medium entirely or not at all, and so is a batch whose write was
reported as failed.
-/

namespace DetLog

/-! ### Hosts -/

/-- The storage device of a host. -/
inductive Disk where
  | idle
  | writing (p : PersistEffect)
  | failed (p : PersistEffect)
  deriving DecidableEq, Repr

/-- The batch that a crash may leave on the medium or not. -/
def Disk.outstanding : Disk → List PersistBatch
  | idle => []
  | writing p => [p.batch]
  | failed p => [p.batch]

/-- A node and its disk. -/
structure Host where
  node : Option RaftNode := none
  completed : List PersistBatch := []
  disk : Disk := .idle
  deriving DecidableEq

/-- **The durable state of a host.** -/
def Host.durable (host : Host) : RecoveredState := written host.completed

/-- The messages of a transition. -/
def Ctx.sends (c : Ctx) : List MessageEnvelope :=
  c.effects.filterMap fun
    | .send envelope => some envelope
    | _ => none

theorem mem_sends {c : Ctx} {m : MessageEnvelope} (hm : m ∈ c.sends) : .send m ∈ c.effects := by
  obtain ⟨e, he, hem⟩ := List.mem_filterMap.mp hm
  split at hem
  · obtain rfl := Option.some.inj hem
    exact he
  · cases hem

/-- The batch a transition hands to storage; it is never more than one. -/
def Ctx.persisted (c : Ctx) : Option PersistEffect :=
  c.effects.findSome? fun
    | .persist p => some p
    | _ => none

/-- The device after a transition. -/
def Ctx.diskAfter (c : Ctx) (disk : Disk) : Disk := (c.persisted.map Disk.writing).getD disk

/-! ### The cluster -/

/-- The nodes, and what was ever sent and asked. -/
structure Cluster where
  hosts : NodeId → Host
  sent : List MessageEnvelope
  submitted : List (NodeId × ClientToken × ClientCommand)

/-- What the environment can do. -/
inductive Action where
  /-- Construct the node of a host from its durable state. -/
  | boot (i : NodeId)
  | start (i : NodeId)
  | timer (i : NodeId) (kind : TimerKind) (generation : ℕ)
  | deliver (envelope : MessageEnvelope)
  | submit (i : NodeId) (token : ClientToken) (command : ClientCommand)
  /-- The outstanding batch is durable. -/
  | complete (i : NodeId)
  | fail (i : NodeId) (error : String)
  /-- Lose the memory of a node; `keep` says whether an outstanding batch survives. -/
  | crash (i : NodeId) (keep : Bool)
  deriving DecidableEq

/-- The node that takes part in an action. -/
def Action.actor : Action → NodeId
  | .boot i | .start i | .timer i _ _ | .submit i _ _ | .complete i | .fail i _ | .crash i _ => i
  | .deliver envelope => envelope.target

/-- The configuration of a node: all nodes share the limits. -/
def RaftConfig.forNode (config : RaftConfig) (i : NodeId) : RaftConfig :=
  { config with nodeId := i }

namespace Cluster

variable {config : RaftConfig}

/-- Nothing has happened, and no node is running. -/
def initial : Cluster where
  hosts _ := {}
  sent := []
  submitted := []

/-- A host changes. -/
def setHost (S : Cluster) (i : NodeId) (host : Host) : Cluster :=
  { S with hosts := Function.update S.hosts i host }

/-- A transition of the node of a host: its messages go to the network, and its batch
to the device. -/
def absorb (S : Cluster) (i : NodeId) (host : Host) (c : Ctx) : Cluster :=
  { S.setHost i { host with node := some c.node, disk := c.diskAfter host.disk } with
    sent := S.sent ++ c.sends }

/-- The node of a host, if it is running, makes a transition. -/
def react (S : Cluster) (i : NodeId) (host : Host) (transition : RaftNode → Ctx) :
    Option (Cluster × List RaftEffect) :=
  host.node.map fun n => (S.absorb i host (transition n), (transition n).effects)

/-- A storage completion reaches the node. -/
def answer (S : Cluster) (i : NodeId) (host : Host) (p : PersistEffect) (success : Bool)
    (error : String) : Option (Cluster × List RaftEffect) :=
  S.react i host fun n => n.step (.storageComplete p.opId success error)

/-- **One action**, with the effects of the node that takes part in it. -/
def step (config : RaftConfig) (S : Cluster) : Action → Option (Cluster × List RaftEffect)
  | .boot i =>
    match (S.hosts i).node, RaftNode.create (config.forNode i) (S.hosts i).durable with
    | none, .ok n => some (S.setHost i { S.hosts i with node := some n }, [])
    | _, _ => none
  | .start i => S.react i (S.hosts i) RaftNode.start
  | .timer i kind generation => S.react i (S.hosts i) fun n => n.step (.timerFired kind generation)
  | .deliver envelope =>
    if envelope ∈ S.sent then
      S.react envelope.target (S.hosts envelope.target) fun n => n.step (.messageReceived envelope)
    else none
  | .submit i token command =>
    { S with submitted := S.submitted ++ [(i, token, command)] }.react i (S.hosts i) fun n =>
      n.step (.clientRequest token command)
  | .complete i =>
    let host := S.hosts i
    match host.disk with
    | .writing p =>
      S.answer i { host with completed := host.completed ++ [p.batch], disk := .idle } p true ""
    | _ => none
  | .fail i error =>
    let host := S.hosts i
    match host.disk with
    | .writing p => S.answer i { host with disk := .failed p } p false error
    | _ => none
  | .crash i keep =>
    let host := S.hosts i
    if host.node.isNone then none
    else
      some (S.setHost i
        { completed := host.completed ++ (if keep then host.disk.outstanding else []) }, [])

/-- A run of the cluster from a given state. -/
def run (config : RaftConfig) : Cluster → List Action → Option Cluster
  | S, [] => some S
  | S, a :: rest => (S.step config a).bind fun next => next.1.run config rest

/-- One action leads from a state to another. -/
def Next (config : RaftConfig) (S S' : Cluster) : Prop :=
  ∃ a effects, S.step config a = some (S', effects)

/-- **Any number of actions.** -/
def Reaches (config : RaftConfig) : Cluster → Cluster → Prop :=
  Relation.ReflTransGen (Next config)

/-- **The states of the cluster.** -/
def Reachable (config : RaftConfig) (S : Cluster) : Prop := Reaches config initial S

/-- A run that goes through leads from one state to the other. -/
theorem reaches_of_run {S S' : Cluster} {actions : List Action}
    (h : S.run config actions = some S') : Reaches config S S' := by
  induction actions generalizing S with
  | nil =>
    obtain rfl : S = S' := Option.some.inj h
    exact .refl
  | cons a rest ih =>
    obtain ⟨⟨S₁, effects⟩, hstep, hrest⟩ := Option.bind_eq_some_iff.mp h
    exact .head ⟨a, effects, hstep⟩ (ih hrest)

/-- Where a list of actions leads, if the environment can take them all. -/
def after (config : RaftConfig) (actions : List Action) : Cluster :=
  (initial.run config actions).getD initial

theorem reachable_after {actions : List Action} (h : (initial.run config actions).isSome) :
    Reachable config (after config actions) := by
  obtain ⟨S, hS⟩ := Option.isSome_iff_exists.mp h
  rw [after, hS, Option.getD_some]
  exact reaches_of_run hS

/-- A run is taken in two parts. -/
theorem run_append (S : Cluster) (l l' : List Action) :
    S.run config (l ++ l') = (S.run config l).bind fun S' => S'.run config l' := by
  induction l generalizing S with
  | nil => rfl
  | cons a l ih =>
    simp only [List.cons_append, run]
    cases S.step config a with
    | none => rfl
    | some next => exact ih next.1

theorem reaches_after {l l' : List Action} (h : (initial.run config (l ++ l')).isSome) :
    Reaches config (after config l) (after config (l ++ l')) := by
  obtain ⟨S', hS'⟩ := Option.isSome_iff_exists.mp h
  have hsplit := hS'
  rw [run_append] at hsplit
  obtain ⟨S, hS, hrest⟩ := Option.bind_eq_some_iff.mp hsplit
  rw [after, after, hS, hS', Option.getD_some, Option.getD_some]
  exact reaches_of_run hrest

/-- The effects of an action after others. -/
def effectsAfter (config : RaftConfig) (actions : List Action) (a : Action) : List RaftEffect :=
  (((after config actions).step config a).map Prod.snd).getD []

theorem step_after {l : List Action} {a : Action} (h : (initial.run config (l ++ [a])).isSome) :
    (after config l).step config a =
      some (after config (l ++ [a]), effectsAfter config l a) := by
  obtain ⟨S', hS'⟩ := Option.isSome_iff_exists.mp h
  have hsplit := hS'
  rw [run_append] at hsplit
  obtain ⟨S, hS, hrest⟩ := Option.bind_eq_some_iff.mp hsplit
  obtain ⟨⟨S₁, effects⟩, hstep, hlast⟩ := Option.bind_eq_some_iff.mp hrest
  obtain rfl : S₁ = S' := Option.some.inj hlast
  have hafter : after config l = S := by rw [after, hS, Option.getD_some]
  rw [effectsAfter, hafter, hstep, after, hS']
  rfl

/-- The running node of a host. -/
def node (S : Cluster) (i : NodeId) : Option RaftNode := (S.hosts i).node

/-- What a node would recover. -/
def durable (S : Cluster) (i : NodeId) : RecoveredState := (S.hosts i).durable

/-- The events a node can have received. -/
def events (S : Cluster) (i : NodeId) : Set RaftEvent
  | .messageReceived envelope => envelope ∈ S.sent
  | .clientRequest token command => (i, token, command) ∈ S.submitted
  | _ => True

section Hosts

variable (S : Cluster) (i : NodeId) (host : Host) (c : Ctx) {j : NodeId}

@[simp] theorem hosts_setHost_self : (S.setHost i host).hosts i = host :=
  Function.update_self ..

theorem hosts_setHost_of_ne (h : j ≠ i) : (S.setHost i host).hosts j = S.hosts j :=
  Function.update_of_ne h ..

@[simp] theorem hosts_absorb_self : (S.absorb i host c).hosts i =
    { host with node := some c.node, disk := c.diskAfter host.disk } :=
  Function.update_self ..

theorem hosts_absorb_of_ne (h : j ≠ i) : (S.absorb i host c).hosts j = S.hosts j :=
  Function.update_of_ne h ..

end Hosts

/-! ### One inversion of the actions -/

/-- **The actions that feed an event to a node**: the host as the node finds it, and the
cluster with the submission recorded. -/
inductive Feeds (S : Cluster) : NodeId → RaftEvent → Host → Cluster → Prop
  | timer (i : NodeId) (kind : TimerKind) (generation : ℕ) :
      Feeds S i (.timerFired kind generation) (S.hosts i) S
  | deliver (envelope : MessageEnvelope) (sent : envelope ∈ S.sent) :
      Feeds S envelope.target (.messageReceived envelope) (S.hosts envelope.target) S
  | submit (i : NodeId) (token : ClientToken) (command : ClientCommand) :
      Feeds S i (.clientRequest token command) (S.hosts i)
        { S with submitted := S.submitted ++ [(i, token, command)] }
  | complete (i : NodeId) (p : PersistEffect) (writing : (S.hosts i).disk = .writing p) :
      Feeds S i (.storageComplete p.opId true "")
        { S.hosts i with completed := (S.hosts i).completed ++ [p.batch], disk := .idle } S
  | fail (i : NodeId) (p : PersistEffect) (writing : (S.hosts i).disk = .writing p)
      (error : String) :
      Feeds S i (.storageComplete p.opId false error) { S.hosts i with disk := .failed p } S

/-- **Everything an action can do.** -/
inductive Move (config : RaftConfig) (S : Cluster) : Action → Cluster → List RaftEffect → Prop
  | boot (i : NodeId) (n : RaftNode) (off : S.node i = none)
      (created : RaftNode.create (config.forNode i) (S.durable i) = .ok n) :
      Move config S (.boot i) (S.setHost i { S.hosts i with node := some n }) []
  | start (i : NodeId) (n : RaftNode) (on : S.node i = some n) :
      Move config S (.start i) (S.absorb i (S.hosts i) n.start) n.start.effects
  | feed {a : Action} {i : NodeId} {e : RaftEvent} {host : Host} {S₀ : Cluster} (n : RaftNode)
      (feeds : Feeds S i e host S₀) (on : S.node i = some n) (actor : a.actor = i)
      (live : ∀ keep, a ≠ .crash i keep) :
      Move config S a (S₀.absorb i host (n.step e)) (n.step e).effects
  | crash (i : NodeId) (n : RaftNode) (keep : Bool) (on : S.node i = some n) :
      Move config S (.crash i keep) (S.setHost i
        { completed := (S.hosts i).completed ++
            (if keep then (S.hosts i).disk.outstanding else []) }) []

section Move

variable {config : RaftConfig} {S S' : Cluster} {a : Action} {effects : List RaftEffect}

/-- Only a node that is up reacts. -/
theorem react_eq_some {i : NodeId} {host : Host} {f : RaftNode → Ctx}
    (h : S.react i host f = some (S', effects)) :
    ∃ n, host.node = some n ∧ S' = S.absorb i host (f n) ∧ effects = (f n).effects := by
  obtain ⟨n, hn, heq⟩ := Option.map_eq_some_iff.mp h
  obtain ⟨rfl, rfl⟩ := Prod.mk.inj heq
  exact ⟨n, hn, rfl, rfl⟩

/-- **Every step is one of the moves.** -/
theorem move_of_step (h : S.step config a = some (S', effects)) : Move config S a S' effects := by
  cases a with
  | boot i =>
    simp only [step] at h
    split at h
    · next n hoff hcreated =>
      obtain ⟨rfl, rfl⟩ := Prod.mk.inj (Option.some.inj h)
      exact .boot i n hoff hcreated
    · cases h
  | start i =>
    obtain ⟨n, hn, rfl, rfl⟩ := react_eq_some h
    exact .start i n hn
  | timer i kind generation =>
    obtain ⟨n, hn, rfl, rfl⟩ := react_eq_some h
    exact .feed n (.timer i kind generation) hn rfl (by simp)
  | deliver envelope =>
    simp only [step] at h
    split_ifs at h with hsent
    obtain ⟨n, hn, rfl, rfl⟩ := react_eq_some h
    exact .feed n (.deliver envelope hsent) hn rfl (by simp)
  | submit i token command =>
    obtain ⟨n, hn, rfl, rfl⟩ := react_eq_some h
    exact .feed n (.submit i token command) hn rfl (by simp)
  | complete i =>
    simp only [step] at h
    split at h
    · next p hp =>
      obtain ⟨n, hn, rfl, rfl⟩ := react_eq_some h
      exact .feed n (.complete i p hp) hn rfl (by simp)
    · cases h
  | fail i error =>
    simp only [step] at h
    split at h
    · next p hp =>
      obtain ⟨n, hn, rfl, rfl⟩ := react_eq_some h
      exact .feed n (.fail i p hp error) hn rfl (by simp)
    · cases h
  | crash i keep =>
    simp only [step] at h
    cases hnode : (S.hosts i).node with
    | none => simp [hnode] at h
    | some n =>
      simp only [hnode, Option.isNone_some, Bool.false_eq_true, if_false] at h
      obtain ⟨rfl, rfl⟩ := Prod.mk.inj (Option.some.inj h)
      exact .crash i n keep hnode

theorem feeds_mem {i : NodeId} {e : RaftEvent} {host : Host} {S₀ : Cluster}
    (hf : Feeds S i e host S₀) :
    e ∈ S₀.events i ∧ S₀.sent = S.sent ∧ (∀ x ∈ S.submitted, x ∈ S₀.submitted) ∧
      S₀.hosts = S.hosts := by
  cases hf with
  | deliver envelope sent => exact ⟨sent, rfl, fun _ h => h, rfl⟩
  | submit _ token command =>
    refine ⟨?_, rfl, fun x hx => List.mem_append_left _ hx, rfl⟩
    exact List.mem_append_right _ (List.mem_singleton.mpr rfl)
  | _ => exact ⟨trivial, rfl, fun _ h => h, rfl⟩

/-- **What the effects of an action come from**, unless it reports a storage failure: a node
starts, or reacts to an event that is no such report. -/
theorem effects_of_step (h : S.step config a = some (S', effects))
    (hfail : ∀ i error, a ≠ .fail i error) :
    effects = [] ∨ (∃ i n, S.node i = some n ∧ effects = n.start.effects) ∨
      ∃ i e host S₀ n, Feeds S i e host S₀ ∧ S.node i = some n ∧ effects = (n.step e).effects ∧
        ∀ opId error, e ≠ .storageComplete opId false error := by
  cases a with
  | boot i =>
    simp only [step] at h
    split at h
    · exact Or.inl (Prod.mk.inj (Option.some.inj h)).2.symm
    · cases h
  | start i =>
    obtain ⟨n, hn, -, rfl⟩ := react_eq_some h
    exact Or.inr (Or.inl ⟨i, n, hn, rfl⟩)
  | timer i kind generation =>
    obtain ⟨n, hn, -, rfl⟩ := react_eq_some h
    exact Or.inr (Or.inr ⟨_, _, _, _, n, .timer i kind generation, hn, rfl, by simp⟩)
  | deliver envelope =>
    simp only [step] at h
    split_ifs at h with hsent
    obtain ⟨n, hn, -, rfl⟩ := react_eq_some h
    exact Or.inr (Or.inr ⟨_, _, _, _, n, .deliver envelope hsent, hn, rfl, by simp⟩)
  | submit i token command =>
    obtain ⟨n, hn, -, rfl⟩ := react_eq_some h
    exact Or.inr (Or.inr ⟨_, _, _, _, n, .submit i token command, hn, rfl, by simp⟩)
  | complete i =>
    simp only [step] at h
    split at h
    · next p hp =>
      obtain ⟨n, hn, -, rfl⟩ := react_eq_some h
      exact Or.inr (Or.inr ⟨_, _, _, _, n, .complete i p hp, hn, rfl, by simp⟩)
    · cases h
  | fail i error => exact absurd rfl (hfail i error)
  | crash i keep =>
    simp only [step] at h
    split_ifs at h <;> exact Or.inl (Prod.mk.inj (Option.some.inj h)).2.symm

/-- **An action leaves the other hosts alone.** -/
theorem Move.hosts_of_ne (h : Move config S a S' effects) {j : NodeId} (hj : j ≠ a.actor) :
    S'.hosts j = S.hosts j := by
  cases h with
  | boot i n off created => exact hosts_setHost_of_ne S i _ hj
  | start i n on => exact hosts_absorb_of_ne S i _ _ hj
  | feed n feeds on actor live =>
    rw [actor] at hj
    rw [hosts_absorb_of_ne _ _ _ _ hj, (feeds_mem feeds).2.2.2]
  | crash i n keep on => exact hosts_setHost_of_ne S i _ hj

/-! ### Invariants of the running nodes -/

/-- **An invariant of the running nodes and of the messages.** `P sent i n` may depend on what
has been sent, which only grows. -/
structure NodeRule (config : RaftConfig) (P : List MessageEnvelope → NodeId → RaftNode → Prop)
    (Q : MessageEnvelope → Prop) : Prop where
  mono : ∀ {sent sent' i n}, sent ⊆ sent' → P sent i n → P sent' i n
  create : ∀ {sent i n d}, RaftNode.create (config.forNode i) d = .ok n → P sent i n
  start : ∀ {sent i n}, P sent i n →
    (∀ m ∈ n.start.sends, Q m) ∧ P (sent ++ n.start.sends) i n.start.node
  step : ∀ {S S₀ : Cluster} {i : NodeId} {n : RaftNode} {e : RaftEvent} {host : Host},
    Reachable config S → (∀ m ∈ S.sent, Q m) → Feeds S i e host S₀ → S.node i = some n →
    P S.sent i n → (∀ m ∈ (n.step e).sends, Q m) ∧ P (S.sent ++ (n.step e).sends) i (n.step e).node

/-- **The invariant rule**: what every reaction keeps holds in every reachable state. -/
theorem NodeRule.reachable {P : List MessageEnvelope → NodeId → RaftNode → Prop}
    {Q : MessageEnvelope → Prop} (rule : NodeRule config P Q) (hS : Reachable config S) :
    (∀ m ∈ S.sent, Q m) ∧ ∀ i n, S.node i = some n → P S.sent i n := by
  induction hS with
  | refl => exact ⟨by simp [initial], fun i n hn => nomatch hn⟩
  | @tail S S' hS hnext ih =>
    obtain ⟨a, effects, hstep⟩ := hnext
    obtain ⟨hsent, hnodes⟩ := ih
    have hmove := move_of_step hstep
    -- The nodes that take no part only see more messages.
    have hother : ∀ i n, i ≠ a.actor → S'.node i = some n → S.sent ⊆ S'.sent → P S'.sent i n := by
      intro i n hi hn hsub
      have hhost : S'.node i = S.node i := congrArg Host.node (hmove.hosts_of_ne hi)
      exact rule.mono hsub (hnodes i n (hhost ▸ hn))
    cases hmove with
    | boot j m off created =>
      refine ⟨hsent, fun i n hn => ?_⟩
      rcases eq_or_ne i j with rfl | hi
      · rw [node, hosts_setHost_self] at hn
        obtain rfl : m = n := Option.some.inj hn
        exact rule.create created
      · exact hother i n hi hn (List.Subset.refl _)
    | start j m on =>
      obtain ⟨hnew, hnext⟩ := rule.start (hnodes j m on)
      refine ⟨List.forall_mem_append.mpr ⟨hsent, hnew⟩, fun i n hn => ?_⟩
      rcases eq_or_ne i j with rfl | hi
      · rw [node, hosts_absorb_self] at hn
        obtain rfl : m.start.node = n := Option.some.inj hn
        exact hnext
      · exact hother i n hi hn (List.subset_append_left _ _)
    | @feed _ j e host S₀ m feeds on actor live =>
      obtain ⟨hnew, hnext⟩ := rule.step hS hsent feeds on (hnodes j m on)
      have hall : (S₀.absorb j host (m.step e)).sent = S.sent ++ (m.step e).sends := by
        rw [← (feeds_mem feeds).2.1]
        rfl
      rw [hall] at hother ⊢
      refine ⟨List.forall_mem_append.mpr ⟨hsent, hnew⟩, fun i n hn => ?_⟩
      rcases eq_or_ne i j with rfl | hi
      · rw [node, hosts_absorb_self] at hn
        obtain rfl : (m.step e).node = n := Option.some.inj hn
        exact hnext
      · exact hother i n (actor ▸ hi) hn (List.subset_append_left _ _)
    | crash j m keep on =>
      refine ⟨hsent, fun i n hn => ?_⟩
      rcases eq_or_ne i j with rfl | hi
      · rw [node, hosts_setHost_self] at hn
        cases hn
      · exact hother i n hi hn (List.Subset.refl _)

end Move

end Cluster

/-! ### A sample run

Node 1 of three is elected by node 2 and replicates its readiness entry to it
(`DetLog.Sample.elect`). Then it commits this entry and serves a client
(`DetLog.Sample.serve`), or node 2 succeeds it in term 2 (`DetLog.Sample.succeed`). -/

namespace Sample

/-- Three members, with the default limits. -/
def config : RaftConfig := { nodeId := 1, members := [1, 2, 3] }

/-- A node asks another for its vote; the term of its last entry is its index. -/
def ask (i j term last : ℕ) : Action := .deliver ⟨i, j, .requestVote ⟨term, i, last, last⟩⟩

/-- The vote arrives. -/
def grant (i j term : ℕ) : Action := .deliver ⟨i, j, .requestVoteResponse ⟨term, true⟩⟩

/-- Node 1, the leader of term 1, replicates to node 2. -/
def append (rpcId prev : ℕ) (entries : List LogEntry) (commit : ℕ) : Action :=
  .deliver ⟨1, 2, .appendEntries ⟨1, 1, rpcId, prev, min prev 1, entries, commit⟩⟩

/-- Node 2 has accepted what node 1 sent. -/
def accepted (rpcId matchIndex : ℕ) : Action :=
  .deliver ⟨2, 1, .appendEntriesResponse ⟨1, rpcId, true, matchIndex, 0, 0⟩⟩

/-- The command of a client. -/
def command : ClientCommand :=
  { session := ⟨0, 5⟩, sequence := 1, kind := .put
    key := [⟨107, by decide⟩], value := [⟨118, by decide⟩] }

/-- Node 1 campaigns, and node 2 has written its vote. -/
def campaign : List Action :=
  [.boot 1, .boot 2, .boot 3, .start 1, .timer 1 .election 1, .complete 1, ask 1 2 1 0,
   .complete 2]

/-- The readiness entry of node 1 reaches the disk of node 2. -/
def replicate : List Action := [.complete 1, append 1 0 [⟨1, 1, none⟩] 0, .complete 2]

/-- Node 1 is elected. -/
def elect : List Action := (campaign ++ [grant 2 1 1]) ++ replicate

/-- Node 1 takes a command, and node 2 accepts it. -/
def serve : List Action :=
  [accepted 1 1, .complete 1, .submit 1 7 command, .complete 1, append 3 1 [] 1, .complete 2,
   accepted 3 1, append 4 1 [⟨2, 1, some command⟩] 1, .complete 2, accepted 4 2]

/-- The command of the client is acknowledged. -/
abbrev acknowledged : List Action := (elect ++ serve) ++ [.complete 1]

/-- A second command of the same client. -/
def second : ClientCommand := { command with sequence := 2 }

/-- It is replicated and committed in the same way. -/
def proceed : List Action :=
  [.submit 1 8 second, .complete 1, append 5 2 [] 2, .complete 2, accepted 5 2,
   append 6 2 [⟨3, 1, some second⟩] 2, .complete 2, accepted 6 3, .complete 1]

/-- Node 2 is elected by node 3 in the second term. -/
def succeed : List Action :=
  [.timer 2 .election 2, .complete 2, ask 2 3 2 1, .complete 3, grant 3 2 2]

end Sample

end DetLog
