import DetLog.Tcp

/-!
# Frames on a connection

What a connection carries behind the handshake should be whole frames, one after the other, and at
its end at most the beginning of one more: the other side finds the frames by their lengths, and a
frame that begins inside another one is read as rubbish.

The position inside a frame is kept with the frame in the queue of the peer. It is right as long as
the queue and the active connection belong together (`DetLog.Tcp.Streams.position`), so it is reset
when the connection changes. But the queue is also emptied when the peer is cut off, and the
connection stays open until the I/O thread notices. If the peer is reachable again by then, and the
connection ended inside a frame, the next frame begins there (`DetLog.Tcp.framing_broken`). This is
the only way to go wrong: `DetLog.Tcp.framing_run`.
-/

namespace DetLog

namespace Tcp

variable {accepted : List (NodeId × Bytes)}

/-! ### Whole frames and a beginning -/

/-- The bytes of some accepted frames. -/
def wires (accepted : List (NodeId × Bytes)) (tickets : List ℕ) : Bytes :=
  tickets.flatMap fun k => (accepted[k]?.map Prod.snd).getD []

/-- **A connection is framed**: it carries whole frames for its peer, in the order in which they
have been accepted, and then nothing or a proper beginning of one. -/
structure Connection.Framed (accepted : List (NodeId × Bytes)) (c : Connection) : Prop where
  taken : ∀ k ∈ c.whole, ∃ wire, accepted[k]? = some (c.peer, wire)
  ordered : c.whole.Pairwise (· < ·)
  written : ∃ tail, c.written = wires accepted c.whole ++ tail ∧
    (tail = [] ∨ ∃ (k : ℕ) (wire : Bytes), accepted[k]? = some (c.peer, wire) ∧ tail <+: wire ∧
      tail ≠ wire)

/-- **Every connection is framed**, those that have been closed as well, and no frame is written to
its end on two of them. -/
structure Framing (t : Transport) : Prop where
  framed : ∀ serial c, t.connections.find serial = some c → c.Framed t.accepted
  once : ∀ serial serial' c c' k, t.connections.find serial = some c →
    t.connections.find serial' = some c' → k ∈ c.whole → k ∈ c'.whole → serial = serial'

theorem wires_append (accepted more : List (NodeId × Bytes)) {tickets : List ℕ}
    (h : ∀ k ∈ tickets, k < accepted.length) :
    wires (accepted ++ more) tickets = wires accepted tickets := by
  unfold wires
  refine List.flatMap_congr fun k hk => ?_
  rw [List.getElem?_append_left (h k hk)]

theorem wires_concat {k : ℕ} {entry : NodeId × Bytes} (h : accepted[k]? = some entry)
    (tickets : List ℕ) :
    wires accepted (tickets ++ [k]) = wires accepted tickets ++ entry.2 := by
  simp [wires, h]

theorem lt_of_accepted {k : ℕ} {entry : NodeId × Bytes} (h : accepted[k]? = some entry) :
    k < accepted.length :=
  (List.getElem?_eq_some_iff.mp h).1

theorem Connection.Framed.mono {c : Connection} (h : c.Framed accepted)
    (more : List (NodeId × Bytes)) : c.Framed (accepted ++ more) := by
  have hlift : ∀ k entry, accepted[k]? = some entry → (accepted ++ more)[k]? = some entry :=
    fun k entry hk => (List.getElem?_append_left (lt_of_accepted hk)).trans hk
  obtain ⟨tail, hwritten, htail⟩ := h.written
  refine ⟨fun k hk => ?_, h.ordered, tail, ?_, ?_⟩
  · obtain ⟨wire, hwire⟩ := h.taken k hk
    exact ⟨wire, hlift _ _ hwire⟩
  · rw [wires_append accepted more fun k hk => ?_]
    · exact hwritten
    · obtain ⟨wire, hwire⟩ := h.taken k hk
      exact lt_of_accepted hwire
  · rcases htail with rfl | ⟨k, wire, hk, hprefix, hne⟩
    · exact Or.inl rfl
    · exact Or.inr ⟨k, wire, hlift _ _ hk, hprefix, hne⟩

/-! ### The queue and the active connection -/

/-- What has been written of the first frame in the queue. -/
def PeerState.begun (p : PeerState) : Bytes :=
  (p.outbound.head?.map fun frame => frame.wireBytes.take frame.offset).getD []

/-- **The queue of a peer** holds accepted frames in their order. Only of the first one has
something been written, and nothing if the peer is not connected. -/
structure QueueOk (accepted : List (NodeId × Bytes)) (id : NodeId) (p : PeerState) : Prop where
  taken : ∀ frame ∈ p.outbound, accepted[frame.ticket]? = some (id, frame.wireBytes) ∧
    frame.offset < frame.wireBytes.length
  ordered : p.outbound.Pairwise fun frame frame' => frame.ticket < frame'.ticket
  tail : ∀ frame ∈ p.outbound.tail, frame.offset = 0
  partitioned : p.partitioned = true → p.outbound = []
  offline : p.connected = false → ∀ frame ∈ p.outbound, frame.offset = 0

/-- No two connections have something in common. -/
def Apart (R : Connection → Connection → Prop) (connections : OrdMap ℕ Connection) : Prop :=
  ∀ serial serial' c c', connections.find serial = some c → connections.find serial' = some c' →
    R c c' → serial = serial'

/-- A frame was written to both. -/
def SharesWhole (c c' : Connection) : Prop := ∃ k ∈ c.whole, k ∈ c'.whole

/-- Both have the same socket. -/
def SharesSocket (c c' : Connection) : Prop := ∃ s, c.socket = some s ∧ c'.socket = some s

/-- The active connection of a peer, in a list of connections. -/
def HasActive (connections : OrdMap ℕ Connection) (id : NodeId) (p : PeerState) : Prop :=
  ∃ serial c s, connections.find serial = some c ∧ p.activeSocket = some s ∧
    c.socket = some s ∧ c.phase = .established ∧ c.peer = id

/-- **What holds between the connections and the queues.** -/
structure Streams (accepted : List (NodeId × Bytes)) (created : ℕ)
    (connections : OrdMap ℕ Connection) (peers : OrdMap NodeId PeerState) : Prop where
  framed : ∀ serial c, connections.find serial = some c → c.Framed accepted
  once : Apart SharesWhole connections
  fresh : ∀ serial c, connections.find serial = some c → serial < created
  idle : ∀ serial c, connections.find serial = some c → c.phase ≠ .established →
    c.written = [] ∧ c.whole = []
  sockets : Apart SharesSocket connections
  active : ∀ id p, peers.find id = some p → p.connected = true → HasActive connections id p
  queue : ∀ id p, peers.find id = some p → QueueOk accepted id p
  after : ∀ id p, peers.find id = some p → ∀ serial c, connections.find serial = some c →
    c.peer = id → ∀ k ∈ c.whole, ∀ frame ∈ p.outbound, k < frame.ticket
  position : ∀ id p, peers.find id = some p → p.connected = true → p.partitioned = false →
    ∀ serial c, connections.find serial = some c → ∀ s, p.activeSocket = some s →
      c.socket = some s → c.written = wires accepted c.whole ++ p.begun

/-- The invariant of a transport. -/
def Transport.Flows (t : Transport) : Prop :=
  Streams t.accepted t.created t.connections t.peers

section Streams

variable {accepted : List (NodeId × Bytes)} {created : ℕ} {connections : OrdMap ℕ Connection}
  {peers : OrdMap NodeId PeerState} {c c' : Connection} {id : NodeId} {p : PeerState} {serial : ℕ}

theorem SharesWhole.symm : SharesWhole c c' → SharesWhole c' c :=
  fun ⟨k, h, h'⟩ => ⟨k, h', h⟩

theorem SharesSocket.symm : SharesSocket c c' → SharesSocket c' c :=
  fun ⟨s, h, h'⟩ => ⟨s, h', h⟩

/-- A connection that comes in, or in the place of an old one. -/
theorem Apart.insert {R : Connection → Connection → Prop} (h : Apart R connections)
    (hsymm : ∀ {c c'}, R c c' → R c' c)
    (hnew : ∀ serial' c', connections.find serial' = some c' → R c c' → serial' = serial) :
    Apart R (connections.insert serial c) := by
  intro serial₁ serial₂ c₁ c₂ h₁ h₂ hr
  rcases OrdMap.find_insert_cases h₁ with ⟨rfl, rfl⟩ | ⟨hne, hold⟩
  · rcases OrdMap.find_insert_cases h₂ with ⟨rfl, -⟩ | ⟨-, hold⟩
    · rfl
    · exact (hnew _ _ hold hr).symm
  · rcases OrdMap.find_insert_cases h₂ with ⟨rfl, rfl⟩ | ⟨-, hold'⟩
    · exact absurd (hnew _ _ hold (hsymm hr)) hne
    · exact h _ _ _ _ hold hold' hr

/-- A change of a connection that writes nothing. It may be closed, and its peer is settled when it
is established. -/
structure Tame (c c' : Connection) : Prop where
  written : c'.written = c.written
  whole : c'.whole = c.whole
  phase : c.phase = .established → c'.phase = .established
  peer : c.phase = .established → c'.peer = c.peer
  socket : c'.socket = c.socket ∨ c'.socket = none

theorem Tame.refl (c : Connection) : Tame c c := ⟨rfl, rfl, id, fun _ => rfl, Or.inl rfl⟩

theorem Tame.socket_eq (h : Tame c c') {s : Socket} (hs : c'.socket = some s) :
    c.socket = some s := by
  rcases h.socket with heq | hnone
  · exact heq ▸ hs
  · rw [hnone] at hs
    cases hs

/-- Nothing is written, and no active connection is closed. -/
theorem Streams.tame (h : Streams accepted created connections peers)
    {connections' : OrdMap ℕ Connection}
    (htame : ∀ serial c', connections'.find serial = some c' →
      ∃ c, connections.find serial = some c ∧ Tame c c')
    (hactive : ∀ id p, peers.find id = some p → p.connected = true →
      HasActive connections' id p) :
    Streams accepted created connections' peers := by
  -- a connection with frames on it is established, so its peer stays
  have hpeer : ∀ serial c c', connections.find serial = some c → Tame c c' →
      c.written ≠ [] ∨ c.whole ≠ [] → c'.peer = c.peer := by
    intro serial c c' hc ht hne
    refine ht.peer (by_contra fun hphase => ?_)
    obtain ⟨hwritten, hwhole⟩ := h.idle serial c hc hphase
    exact hne.elim (fun hne => hne hwritten) fun hne => hne hwhole
  have hapart : ∀ {R : Connection → Connection → Prop}, Apart R connections →
      (∀ {c c' d d'}, Tame c c' → Tame d d' → R c' d' → R c d) → Apart R connections' := by
    intro R hr himp serial serial' c' d' hc' hd' hshare
    obtain ⟨c, hc, ht⟩ := htame serial c' hc'
    obtain ⟨d, hd, ht'⟩ := htame serial' d' hd'
    exact hr serial serial' c d hc hd (himp ht ht' hshare)
  refine ⟨fun serial c' hc' => ?_, hapart h.once ?_, fun serial c' hc' => ?_,
    fun serial c' hc' hphase => ?_, hapart h.sockets ?_, hactive, h.queue, ?_, ?_⟩
  · obtain ⟨c, hc, ht⟩ := htame serial c' hc'
    have hf := h.framed serial c hc
    by_cases hne : c.written ≠ [] ∨ c.whole ≠ []
    · refine ⟨?_, ht.whole ▸ hf.ordered, ?_⟩
      · rw [ht.whole, hpeer serial c c' hc ht hne]
        exact hf.taken
      · rw [ht.whole, ht.written, hpeer serial c c' hc ht hne]
        exact hf.written
    · rw [not_or, not_not, not_not] at hne
      refine ⟨by simp [ht.whole, hne.2], by simp [ht.whole, hne.2], [], ?_, Or.inl rfl⟩
      rw [ht.written, ht.whole, hne.1, hne.2]
      rfl
  · rintro c c' d d' ht ht' ⟨k, hk, hk'⟩
    exact ⟨k, ht.whole ▸ hk, ht'.whole ▸ hk'⟩
  · obtain ⟨c, hc, -⟩ := htame serial c' hc'
    exact h.fresh serial c hc
  · obtain ⟨c, hc, ht⟩ := htame serial c' hc'
    rw [ht.written, ht.whole]
    exact h.idle serial c hc (mt ht.phase hphase)
  · rintro c c' d d' ht ht' ⟨s, hs, hs'⟩
    exact ⟨s, ht.socket_eq hs, ht'.socket_eq hs'⟩
  · intro id p hp serial c' hc' hid k hk
    obtain ⟨c, hc, ht⟩ := htame serial c' hc'
    rw [ht.whole] at hk
    have hsame := hpeer serial c c' hc ht (Or.inr (List.ne_nil_of_mem hk))
    exact h.after id p hp serial c hc (hsame ▸ hid) k hk
  · intro id p hp hconnected hreachable serial c' hc' s hs hs'
    obtain ⟨c, hc, ht⟩ := htame serial c' hc'
    rw [ht.written, ht.whole]
    exact h.position id p hp hconnected hreachable serial c hc s hs (ht.socket_eq hs')

/-- The record of a peer changes. -/
theorem Streams.setPeer (h : Streams accepted created connections peers) {p p' : PeerState}
    (hp : peers.find id = some p) (hqueue : QueueOk accepted id p')
    (hactive : p'.connected = true → HasActive connections id p')
    (hsub : ∀ frame ∈ p'.outbound, ∃ frame₀ ∈ p.outbound, frame₀.ticket = frame.ticket)
    (hposition : p'.connected = true → p'.partitioned = false → ∀ serial c,
      connections.find serial = some c → ∀ s, p'.activeSocket = some s → c.socket = some s →
        c.written = wires accepted c.whole ++ p'.begun) :
    Streams accepted created connections (peers.insert id p') := by
  refine { h with
    active := OrdMap.forall_insert hactive h.active
    queue := OrdMap.forall_insert hqueue h.queue
    after := OrdMap.forall_insert (fun serial c hc hid k hk frame hframe => ?_) h.after
    position := OrdMap.forall_insert hposition h.position }
  obtain ⟨frame₀, hframe₀, hticket⟩ := hsub frame hframe
  exact hticket ▸ h.after id p hp serial c hc hid k hk frame₀ hframe₀

/-- The positions are reset. -/
theorem QueueOk.reset {p p' : PeerState} (h : QueueOk accepted id p)
    (hout : p'.outbound = p.outbound.map fun frame => { frame with offset := 0 })
    (hpart : p'.partitioned = p.partitioned) : QueueOk accepted id p' := by
  have hframe : ∀ frame ∈ p'.outbound, ∃ frame₀ ∈ p.outbound,
      frame = { frame₀ with offset := 0 } := by
    intro frame hframe
    rw [hout] at hframe
    obtain ⟨frame₀, hmem, rfl⟩ := List.mem_map.mp hframe
    exact ⟨frame₀, hmem, rfl⟩
  have hzero : ∀ frame ∈ p'.outbound, frame.offset = 0 := by
    intro frame hmem
    obtain ⟨frame₀, -, rfl⟩ := hframe frame hmem
    rfl
  refine ⟨fun frame hmem => ?_, ?_, fun frame hmem => hzero frame (List.mem_of_mem_tail hmem),
    fun hp => ?_, fun _ => hzero⟩
  · obtain ⟨frame₀, hmem₀, rfl⟩ := hframe frame hmem
    exact ⟨(h.taken frame₀ hmem₀).1, (Nat.zero_le _).trans_lt (h.taken frame₀ hmem₀).2⟩
  · rw [hout, List.pairwise_map]
    exact h.ordered
  · rw [hout, h.partitioned (hpart ▸ hp)]
    rfl

theorem begun_of_offset (h : ∀ frame ∈ p.outbound, frame.offset = 0) :
    p.begun = [] := by
  unfold PeerState.begun
  cases hout : p.outbound with
  | nil => rfl
  | cons frame rest => simp [h frame (by simp [hout])]

section

variable (h : Streams accepted created connections peers)
include h

/-- No peer is connected, and no queue has a frame. -/
theorem Streams.silence {peers' : OrdMap NodeId PeerState}
    (hpeers : ∀ id p', peers'.find id = some p' → p'.connected = false ∧ p'.outbound = []) :
    Streams accepted created connections peers' := by
  refine { h with
    active := fun id p hp hconnected => ?_
    queue := fun id p hp => ?_
    after := fun id p hp serial c _ _ k _ frame hframe => ?_
    position := fun id p hp hconnected => ?_ }
  · rw [(hpeers id p hp).1] at hconnected
    cases hconnected
  · have hout := (hpeers id p hp).2
    exact ⟨by simp [hout], by simp [hout], by simp [hout], fun _ => hout, by simp [hout]⟩
  · simp [(hpeers id p hp).2] at hframe
  · rw [(hpeers id p hp).1] at hconnected
    cases hconnected

/-- The peer is no longer connected. -/
theorem Streams.disconnect (hp : peers.find id = some p) :
    Streams accepted created connections (peers.insert id (Transport.resetOutboundOffsets
      { p with connected := false, activeSocket := none })) := by
  refine h.setPeer hp ((h.queue id p hp).reset rfl rfl) (fun hc => by cases hc) ?_
    fun hc => by cases hc
  intro frame hframe
  obtain ⟨frame₀, hmem, rfl⟩ := List.mem_map.mp hframe
  exact ⟨frame₀, hmem, rfl⟩

/-- More is accepted, and no queue changes. -/
theorem Streams.mono (more : List (NodeId × Bytes)) :
    Streams (accepted ++ more) created connections peers := by
  refine { h with
    framed := fun serial c hc => (h.framed serial c hc).mono more
    queue := fun id p hp => { h.queue id p hp with
      taken := fun frame hframe => ?_ }
    position := fun id p hp hconnected hreachable serial c hc s hs hs' => ?_ }
  · obtain ⟨htaken, hlt⟩ := (h.queue id p hp).taken frame hframe
    exact ⟨(List.getElem?_append_left (lt_of_accepted htaken)).trans htaken, hlt⟩
  · rw [wires_append]
    · exact h.position id p hp hconnected hreachable serial c hc s hs hs'
    · intro k hk
      obtain ⟨wire, hk⟩ := (h.framed serial c hc).taken k hk
      exact lt_of_accepted hk

/-- **A frame is accepted.** -/
theorem Streams.accept (hp : peers.find id = some p) (hreachable : p.partitioned = false)
    {wire : Bytes} (hne : wire ≠ []) (queuedBytes : ℕ) :
    Streams (accepted ++ [(id, wire)]) created connections (peers.insert id { p with
      outbound := p.outbound ++ [{ wireBytes := wire, ticket := accepted.length }]
      queuedBytes }) := by
  have hq := h.queue id p hp
  have hmono := h.mono [(id, wire)]
  refine { hmono with
    active := OrdMap.forall_insert (h.active id p hp) h.active
    queue := OrdMap.forall_insert ?_ hmono.queue
    after := OrdMap.forall_insert (fun serial c hc hid k hk frame hframe => ?_) h.after
    position := OrdMap.forall_insert (fun hconnected _ serial c hc s hs hs' => ?_)
      hmono.position }
  · refine ⟨fun frame hframe => ?_, ?_, fun frame hframe => ?_, fun hpart => ?_,
      fun hoffline frame hframe => ?_⟩
    · rcases List.mem_append.mp hframe with hold | hnew
      · exact (hmono.queue id p hp).taken frame hold
      · rw [List.mem_singleton.mp hnew]
        exact ⟨by simp, List.length_pos_iff.mpr hne⟩
    · refine List.pairwise_append.mpr ⟨hq.ordered, List.pairwise_singleton _ _, ?_⟩
      intro frame hframe frame' hframe'
      rw [List.mem_singleton.mp hframe']
      exact lt_of_accepted (hq.taken frame hframe).1
    · have hmem : frame ∈ p.outbound.tail ++
          [{ wireBytes := wire, ticket := accepted.length }] := by
        rcases hout : p.outbound with - | ⟨first, later⟩
        · simp [hout] at hframe
        · simpa [hout] using hframe
      rcases List.mem_append.mp hmem with hold | hnew
      · exact hq.tail frame hold
      · rw [List.mem_singleton.mp hnew]
    · rw [hreachable] at hpart
      cases hpart
    · rcases List.mem_append.mp hframe with hold | hnew
      · exact hq.offline hoffline frame hold
      · rw [List.mem_singleton.mp hnew]
  · rcases List.mem_append.mp hframe with hold | hnew
    · exact h.after id p hp serial c hc hid k hk frame hold
    · rw [List.mem_singleton.mp hnew]
      obtain ⟨wire', hk'⟩ := (h.framed serial c hc).taken k hk
      exact lt_of_accepted hk'
  · rw [hmono.position id p hp hconnected hreachable serial c hc s hs hs']
    unfold PeerState.begun
    rcases p.outbound with - | ⟨first, later⟩
    · rfl
    · rfl

end

/-- One connection changes. -/
theorem tame_insert (hc : connections.find serial = some c) (ht : Tame c c') :
    ∀ serial' d', (connections.insert serial c').find serial' = some d' →
      ∃ d, connections.find serial' = some d ∧ Tame d d' :=
  OrdMap.forall_insert ⟨c, hc, ht⟩ fun _ d hd => ⟨d, hd, .refl d⟩

/-- The active connection is another one, or keeps its socket. -/
theorem HasActive.insert (h : HasActive connections id p) (hc : connections.find serial = some c)
    (hkeep : ∀ s, p.activeSocket = some s → c.socket = some s → c.phase = .established →
      c.peer = id → c'.socket = some s ∧ c'.phase = .established ∧ c'.peer = id) :
    HasActive (connections.insert serial c') id p := by
  obtain ⟨serial', d, s, hd, hs, hsocket, hphase, hpeer⟩ := h
  by_cases hserial : serial' = serial
  · subst hserial
    obtain rfl := Option.some.inj (hc.symm.trans hd)
    obtain ⟨hsocket', hphase', hpeer'⟩ := hkeep s hs hsocket hphase hpeer
    exact ⟨serial', c', s, OrdMap.find_insert_self _ _ _, hs, hsocket', hphase', hpeer'⟩
  · exact ⟨serial', d, s, (OrdMap.find_insert_of_ne _ _ hserial).trans hd, hs, hsocket, hphase,
      hpeer⟩

end Streams

section Write

variable {accepted : List (NodeId × Bytes)} {created : ℕ} {connections : OrdMap ℕ Connection}
  {peers : OrdMap NodeId PeerState} {serial : ℕ} {c c' : Connection} {p p' : PeerState} {s : Socket}

/-- **The active connection and the queue of its peer change together.** -/
theorem Streams.write (h : Streams accepted created connections peers)
    (hc : connections.find serial = some c) (hp : peers.find c.peer = some p)
    (hs : c.socket = some s) (hsocket : c'.socket = c.socket) (hphase : c'.phase = .established)
    (hpeer : c'.peer = c.peer)
    (hactive' : p'.activeSocket = some s) (hframed : c'.Framed accepted)
    (hwhole : ∀ k ∈ c'.whole, k ∈ c.whole ∨ ((∃ frame ∈ p.outbound, frame.ticket = k) ∧
      ∀ frame ∈ p'.outbound, k < frame.ticket))
    (hsub : ∀ frame ∈ p'.outbound, ∃ frame₀ ∈ p.outbound, frame₀.ticket = frame.ticket)
    (hqueue : QueueOk accepted c.peer p')
    (hposition : c'.written = wires accepted c'.whole ++ p'.begun) :
    Streams accepted created (connections.insert serial c') (peers.insert c.peer p') := by
  refine ⟨OrdMap.forall_insert hframed h.framed, h.once.insert .symm ?_,
    OrdMap.forall_insert (h.fresh serial c hc) h.fresh,
    OrdMap.forall_insert (absurd hphase) h.idle, h.sockets.insert .symm ?_,
    OrdMap.forall_insert (fun _ => ?_) fun id q hq hconnected => ?_,
    OrdMap.forall_insert hqueue h.queue, fun id q hq => ?_, fun id q hq hconnected hreachable => ?_⟩
  -- a frame that lies in the queue has not been written to its end
  · rintro serial' d hd ⟨k, hk, hk'⟩
    rcases hwhole k hk with hold | ⟨⟨frame, hframe, rfl⟩, -⟩
    · exact h.once serial' serial d c hd hc ⟨k, hk', hold⟩
    · obtain ⟨wire, hwire⟩ := (h.framed serial' d hd).taken _ hk'
      have hentry := hwire.symm.trans ((h.queue _ p hp).taken frame hframe).1
      have hid : d.peer = c.peer := (Prod.mk.inj (Option.some.inj hentry)).1
      exact absurd (h.after _ p hp serial' d hd hid _ hk' frame hframe) (lt_irrefl _)
  · rintro serial' d hd ⟨s', hs', hs''⟩
    exact h.sockets serial' serial d c hd hc ⟨s', hs'', hsocket ▸ hs'⟩
  · exact ⟨serial, c', s, OrdMap.find_insert_self _ _ _, hactive', hsocket.trans hs, hphase, hpeer⟩
  · refine HasActive.insert (h.active id q hq hconnected) hc fun s' _ hs' _ hid => ?_
    exact ⟨hsocket.trans hs', hphase, hpeer.trans hid⟩
  · rcases OrdMap.find_insert_cases hq with ⟨rfl, rfl⟩ | ⟨hne, hq⟩
    · have hafter : ∀ serial' d, connections.find serial' = some d → d.peer = c.peer →
          ∀ k ∈ d.whole, ∀ frame ∈ q.outbound, k < frame.ticket := by
        intro serial' d hd hid k hk frame hframe
        obtain ⟨frame₀, hframe₀, hticket⟩ := hsub frame hframe
        exact hticket ▸ h.after _ p hp serial' d hd hid k hk frame₀ hframe₀
      refine OrdMap.forall_insert (fun _ k hk frame hframe => ?_) hafter
      rcases hwhole k hk with hk | ⟨-, hlt⟩
      · exact hafter serial c hc rfl k hk frame hframe
      · exact hlt frame hframe
    · exact OrdMap.forall_insert (fun hid => absurd (hid.symm.trans hpeer) hne) (h.after id q hq)
  · rcases OrdMap.find_insert_cases hq with ⟨rfl, rfl⟩ | ⟨hne, hq⟩
    · intro serial' d hd s' hs' hs''
      obtain rfl := Option.some.inj (hactive'.symm.trans hs')
      rcases OrdMap.find_insert_cases hd with ⟨-, rfl⟩ | ⟨hserial, hold⟩
      · exact hposition
      · exact absurd (h.sockets serial' serial d c hold hc ⟨s, hs'', hs⟩) hserial
    · refine OrdMap.forall_insert (fun s' hs' hs'' => ?_)
        (h.position id q hq hconnected hreachable)
      -- the connection is that of another peer
      obtain ⟨serial₀, d₀, s₀, hd₀, hactive₀, hs₀, -, hpeer₀⟩ := h.active id q hq hconnected
      obtain rfl := Option.some.inj (hs'.symm.trans hactive₀)
      obtain rfl := h.sockets serial₀ serial d₀ c hd₀ hc ⟨s', hs₀, hsocket ▸ hs''⟩
      obtain rfl := Option.some.inj (hc.symm.trans hd₀)
      exact absurd hpeer₀.symm hne

end Write

/-! ### Steps -/

namespace Transport

variable {t : Transport} {serial : ℕ} {c : Connection} {s : Socket}

theorem Flows.framing (h : t.Flows) : Framing t :=
  ⟨h.framed, fun serial serial' c c' k hc hc' hk hk' =>
    h.once serial serial' c c' hc hc' ⟨k, hk, hk'⟩⟩

theorem Flows.report (h : t.Flows) (event : Event) : (t.report event).Flows := by
  unfold Flows
  rw [accepted_report, created_report, connections_report, peers_report]
  exact h

/-- A connection that is not the active one of its peer changes or is closed. -/
theorem Flows.update (h : t.Flows) (hc : t.connections.find serial = some c) {c' : Connection}
    (ht : Tame c c')
    (hother : ∀ p, t.peers.find c.peer = some p → p.connected = true → c.phase = .established →
      p.activeSocket = c.socket → c'.socket = c.socket) :
    ({ t with connections := t.connections.insert serial c' }).Flows := by
  refine Streams.tame h (tame_insert hc ht) fun id p hp hconnected => ?_
  refine HasActive.insert (h.active id p hp hconnected) hc fun s hs hsocket hphase hpeer => ?_
  subst hpeer
  exact ⟨(hother p hp hconnected hphase (hs.trans hsocket.symm)).trans hsocket,
    ht.phase hphase, ht.peer hphase⟩

theorem Flows.closeConnection (h : t.Flows) (serial : ℕ) (error : TransportErrorCode)
    (notify : Bool) : (t.closeConnection serial error notify).Flows := by
  unfold Transport.closeConnection
  cases hc : t.connections.find serial with
  | none => exact h
  | some c =>
    have ht : Tame c { c with socket := none } := ⟨rfl, rfl, id, fun _ => rfl, Or.inr rfl⟩
    simp only
    by_cases hphase : c.phase ≠ .established
    · rw [if_pos hphase]
      exact h.update hc ht fun p _ _ hestablished => absurd hestablished hphase
    rw [if_neg hphase]
    cases hp : t.peers.find c.peer with
    | none =>
      refine h.update hc ht fun p hp' => ?_
      rw [hp] at hp'
      cases hp'
    | some p =>
      simp only
      by_cases hsocket : p.activeSocket = c.socket
      · rw [if_neg (not_not.mpr hsocket)]
        -- the peer is disconnected first; then nobody needs the connection
        have hdisconnected : ({ t with peers := t.peers.insert c.peer (resetOutboundOffsets
            { p with connected := false, activeSocket := none }) }).Flows :=
          Streams.disconnect h hp
        have hclosed : ({ t with
            connections := t.connections.insert serial { c with socket := none }
            peers := t.peers.insert c.peer (resetOutboundOffsets
              { p with connected := false, activeSocket := none }) }).Flows := by
          refine hdisconnected.update hc ht fun q hq hconnected => ?_
          obtain rfl := Option.some.inj ((OrdMap.find_insert_self _ _ _).symm.trans hq)
          cases hconnected
        split_ifs
        · exact hclosed.report _
        · exact hclosed
      · rw [if_pos hsocket]
        refine h.update hc ht fun q hq _ _ heq => ?_
        obtain rfl := Option.some.inj (hp.symm.trans hq)
        exact absurd heq hsocket

theorem Flows.handshakeProgress (h : t.Flows) (serial sent : ℕ) (received : Bytes) :
    (t.handshakeProgress serial sent received).Flows := by
  unfold Transport.handshakeProgress
  cases hc : t.connections.find serial with
  | none => exact h
  | some c =>
    simp only
    split_ifs with hguard
    · exact h
    · rw [not_or] at hguard
      exact h.update hc ⟨rfl, rfl, fun hphase => absurd hphase hguard.2,
        fun hphase => absurd hphase hguard.2, Or.inl rfl⟩ fun _ _ _ hphase => absurd hphase hguard.2

theorem Flows.push (h : t.Flows) (hwritten : c.written = []) (hwhole : c.whole = [])
    (hs : c.socket = some s) (hfree : t.socketFree s = true) :
    (t.push c).Flows := by
  have hnew : t.connections.find t.created = none := by
    by_contra hne
    obtain ⟨d, hd⟩ := Option.ne_none_iff_exists'.mp hne
    exact absurd (h.fresh _ d hd) (lt_irrefl _)
  have hsocket : ∀ serial d, t.connections.find serial = some d → d.socket ≠ some s := by
    intro serial d hd
    exact of_decide_eq_true (List.all_eq_true.mp hfree _ (OrdMap.mem_entries_iff.mpr hd))
  refine ⟨OrdMap.forall_insert ?_ h.framed, h.once.insert .symm fun serial d _ ⟨k, hk, _⟩ => ?_,
    OrdMap.forall_insert (Nat.lt_succ_self _) fun serial d hd => (h.fresh serial d hd).trans
      (Nat.lt_succ_self _), OrdMap.forall_insert (fun _ => ⟨hwritten, hwhole⟩) h.idle,
    h.sockets.insert .symm fun serial d hd ⟨s', hs', hd'⟩ => ?_, fun id p hp hconnected => ?_,
    h.queue, fun id p hp => OrdMap.forall_insert (by simp [hwhole]) (h.after id p hp),
    fun id p hp hconnected hreachable => OrdMap.forall_insert (fun s' hp' hs' => ?_)
      (h.position id p hp hconnected hreachable)⟩
  · exact ⟨by simp [hwhole], by simp [hwhole], [], by simp [hwritten, hwhole, wires], Or.inl rfl⟩
  · simp [hwhole] at hk
  · obtain rfl := Option.some.inj (hs.symm.trans hs')
    exact absurd hd' (hsocket serial d hd)
  · obtain ⟨serial, d, s', hd, hp', hd', hphase, hpeer⟩ := h.active id p hp hconnected
    refine ⟨serial, d, s', (OrdMap.find_insert_of_ne _ _ ?_).trans hd, hp', hd', hphase, hpeer⟩
    rintro rfl
    rw [hnew] at hd
    cases hd
  · -- the socket of an active connection is not free
    obtain ⟨serial', d', s'', hd'', hp'', hs'', -, -⟩ := h.active id p hp hconnected
    obtain rfl := Option.some.inj (hs.symm.trans hs')
    obtain rfl := Option.some.inj (hp'.symm.trans hp'')
    exact absurd hs'' (hsocket serial' d' hd'')

theorem Flows.takeNonce (h : t.Flows) : t.takeNonce.2.Flows := by
  unfold Transport.takeNonce
  split_ifs <;> exact h

theorem socketFree_takeNonce (t : Transport) (s : Socket) :
    t.takeNonce.2.socketFree s = t.socketFree s := by
  unfold Transport.takeNonce
  split_ifs <;> rfl

section

variable (h : t.Flows)
include h

theorem Flows.attemptOutgoing (id : NodeId) (s : Socket) (answer : ConnectAnswer) :
    (t.attemptOutgoing id s answer).Flows := by
  unfold Transport.attemptOutgoing
  cases hp : t.peers.find id with
  | none => exact h
  | some p =>
    simp only
    by_cases hguard : p.hasOutboundEndpoint = false ∨ t.hasConnectionFor id = true ∨
        p.connected = true ∨ p.partitioned = true ∨
        t.config.maxPendingConnections ≤ t.pending ∨ t.socketFree s = false
    · rw [if_pos hguard]
      exact h
    rw [if_neg hguard]
    by_cases hfailed : answer = .failed
    · rw [if_pos hfailed]
      exact h.takeNonce
    rw [if_neg hfailed]
    refine h.takeNonce.push rfl rfl rfl ?_
    rw [socketFree_takeNonce]
    simp only [not_or, Bool.not_eq_false] at hguard
    exact hguard.2.2.2.2.2

theorem Flows.acceptConnection (s : Socket) : (t.acceptConnection s).Flows := by
  unfold Transport.acceptConnection
  split_ifs with hfree
  · exact h
  · exact h.report _
  · refine h.takeNonce.push rfl rfl rfl ?_
    rw [socketFree_takeNonce]
    simpa using hfree

theorem Flows.sweep : t.sweep.Flows := by
  refine Streams.tame h (fun serial c' hc' => ?_) fun id p hp hconnected => ?_
  · rw [Transport.sweep, OrdMap.find_mapValues, Option.map_eq_some_iff] at hc'
    obtain ⟨c, hc, rfl⟩ := hc'
    refine ⟨c, hc, ?_⟩
    split_ifs
    · exact ⟨rfl, rfl, id, fun _ => rfl, Or.inl rfl⟩
    · exact .refl c
  · obtain ⟨serial, c, s, hc, hs, hsocket, hphase, hpeer⟩ := h.active id p hp hconnected
    refine ⟨serial, c, s, ?_, hs, hsocket, hphase, hpeer⟩
    rw [Transport.sweep, OrdMap.find_mapValues, hc, Option.map_some, if_neg (by simp [hsocket])]

theorem Flows.finish : t.finish.Flows := by
  have hpeers : ∀ id p', t.finish.peers.find id = some p' →
      p'.connected = false ∧ p'.outbound = [] := by
    intro id p' hp'
    rw [Transport.finish, OrdMap.find_mapValues, Option.map_eq_some_iff] at hp'
    obtain ⟨p, -, rfl⟩ := hp'
    exact ⟨rfl, rfl⟩
  refine Streams.tame (Streams.silence h hpeers) (fun serial c' hc' => ?_)
    fun id p' hp' hconnected => ?_
  · rw [Transport.finish, OrdMap.find_mapValues, Option.map_eq_some_iff] at hc'
    obtain ⟨c, hc, rfl⟩ := hc'
    exact ⟨c, hc, rfl, rfl, id, fun _ => rfl, Or.inr rfl⟩
  · rw [(hpeers id p' hp').1] at hconnected
    cases hconnected

theorem Flows.send (id : NodeId) (codecFrame : Bytes) : (t.send id codecFrame).2.Flows := by
  unfold Transport.send
  by_cases hsize : codecFrame = [] ∨ t.config.limits.maxFrameBytes < codecFrame.length ∨
      Codec.maxU32 < codecFrame.length
  · rw [if_pos hsize]
    exact h
  rw [if_neg hsize]
  cases hp : t.peers.find id with
  | none => exact h
  | some p =>
    simp only
    split_ifs with hfatal hpart hdown hfull
    · exact h
    · exact h
    · exact h
    · exact h
    · refine Streams.accept h hp (by simpa using hpart) ?_ _
      exact List.append_ne_nil_of_right_ne_nil _ (not_or.mp hsize).1

/-- The active connection of a peer ends between two frames. -/
def Between (t : Transport) (id : NodeId) : Prop :=
  ∀ p, t.peers.find id = some p → p.partitioned = true → p.connected = true → ∀ serial c,
    t.connections.find serial = some c → c.socket ≠ none → p.activeSocket = c.socket →
      c.written = wires t.accepted c.whole

/-- A peer is cut off, or reachable again. -/
theorem Flows.setPeerPartitioned (id : NodeId) (partitioned : Bool)
    (hbetween : partitioned = false → t.Between id) :
    (t.setPeerPartitioned id partitioned).Flows := by
  unfold Transport.setPeerPartitioned
  cases hp : t.peers.find id with
  | none => exact h
  | some p =>
    have hq := h.queue id p hp
    simp only
    split_ifs with hsame hheal
    · exact h
    · subst hheal
      have hpart : p.partitioned = true := by simpa using hsame
      have hempty := hq.partitioned hpart
      refine Streams.setPeer h hp { hq with
          partitioned := fun _ => hempty } (h.active id p hp) (fun frame hframe => ⟨frame, hframe,
        rfl⟩) ?_
      intro hconnected _ serial c hc s hs hs'
      have hwritten := hbetween rfl p hp hpart hconnected serial c hc (by simp [hs'])
        (hs.trans hs'.symm)
      have hbegun : ({ p with partitioned := false } : PeerState).begun = [] :=
        begun_of_offset (by simp [hempty])
      rw [hbegun, List.append_nil]
      exact hwritten
    · have hpart : partitioned = true := by simpa using hheal
      refine Streams.setPeer h hp ⟨by simp, by simp, by simp, fun _ => rfl, by simp⟩
        (h.active id p hp) (by simp) ?_
      intro _ hreachable
      rw [hpart] at hreachable
      cases hreachable

/-- **A connection becomes active**, on which nothing has been written. -/
theorem Flows.activate {p : PeerState} (hp : t.peers.find c.peer = some p)
    (hconnected : p.connected = false) (hc : t.connections.find serial = some c)
    (hphase : c.phase ≠ .established) (hs : c.socket = some s) {p' : PeerState}
    (hout : p'.outbound = p.outbound) (hpart : p'.partitioned = p.partitioned)
    (hactive : p'.activeSocket = some s) : ({ t with
      peers := t.peers.insert c.peer p'
      connections := t.connections.insert serial { c with phase := .established } }).Flows := by
  obtain ⟨hwritten, hwhole⟩ := h.idle serial c hc hphase
  have hq := h.queue c.peer p hp
  have hzero : ∀ frame ∈ p'.outbound, frame.offset = 0 := hout ▸ hq.offline hconnected
  have ht : Tame c { c with phase := .established } :=
    ⟨rfl, rfl, fun _ => rfl, fun _ => rfl, Or.inl rfl⟩
  have hestablished := h.update hc ht fun _ _ _ hp => absurd hp hphase
  refine Streams.setPeer hestablished hp { hq with
      taken := hout ▸ hq.taken
      ordered := hout ▸ hq.ordered
      tail := hout ▸ hq.tail
      partitioned := fun hp' => hout.trans (hq.partitioned (hpart ▸ hp'))
      offline := fun _ => hzero }
    (fun _ => ⟨serial, _, s, OrdMap.find_insert_self _ _ _, hactive, hs, rfl, rfl⟩)
    (fun frame hframe => ⟨frame, hout ▸ hframe, rfl⟩) ?_
  intro _ _ serial' d hd s' hs' hs''
  obtain rfl := Option.some.inj (hactive.symm.trans hs')
  rw [begun_of_offset hzero, List.append_nil]
  rcases OrdMap.find_insert_cases hd with ⟨-, rfl⟩ | ⟨hserial, hd⟩
  · simp [hwritten, hwhole, wires]
  · exact absurd (h.sockets serial' serial d c hd hc ⟨s, hs'', hs⟩) hserial

theorem Flows.establish {p : PeerState} (hp : t.peers.find c.peer = some p)
    (hc : t.connections.find serial = some c) (hphase : c.phase ≠ .established)
    (hs : c.socket = some s) : (t.establish serial c p).Flows := by
  unfold Transport.establish
  refine Flows.report ?_ _
  -- the peer is disconnected, then the connection that is replaced is closed
  have hdisconnected : ({ t with peers := t.peers.insert c.peer (resetOutboundOffsets
      { p with connected := false, activeSocket := none }) }).Flows := Streams.disconnect h hp
  have hreplaced : ∀ serial' d s', t.connections.find serial' = some d → d.socket = some s' →
      d.socket = (if p.connected then p.activeSocket else none) →
        d.phase = .established ∧ d.peer = c.peer := by
    intro serial' d s' hd hs' heq
    split_ifs at heq with hconnected
    · obtain ⟨serial₀, d₀, s₀, hd₀, hactive₀, hs₀, hphase₀, hpeer₀⟩ :=
        h.active c.peer p hp hconnected
      obtain rfl := Option.some.inj (hs'.symm.trans (heq.trans hactive₀))
      obtain rfl := h.sockets serial₀ serial' d₀ d hd₀ hd ⟨s', hs₀, hs'⟩
      obtain rfl := Option.some.inj (hd.symm.trans hd₀)
      exact ⟨hphase₀, hpeer₀⟩
    · rw [hs'] at heq
      cases heq
  have hclosed : ({ t with
      peers := t.peers.insert c.peer (resetOutboundOffsets
        { p with connected := false, activeSocket := none })
      connections := t.connections.mapValues fun existing =>
        if existing.socket = (if p.connected then p.activeSocket else none)
          then { existing with socket := none } else existing }).Flows := by
    refine Streams.tame hdisconnected (fun serial' d' hd' => ?_) fun id q hq hconnected => ?_
    · rw [OrdMap.find_mapValues, Option.map_eq_some_iff] at hd'
      obtain ⟨d, hd, rfl⟩ := hd'
      refine ⟨d, hd, ?_⟩
      by_cases hsocket : d.socket = (if p.connected then p.activeSocket else none)
      · rw [if_pos hsocket]
        exact ⟨rfl, rfl, id, fun _ => rfl, Or.inr rfl⟩
      · rw [if_neg hsocket]
        exact .refl d
    · rcases OrdMap.find_insert_cases hq with ⟨-, rfl⟩ | ⟨hne, hq⟩
      · cases hconnected
      · obtain ⟨serial', d, s', hd, hs', hsocket, hphase', hpeer⟩ := h.active id q hq hconnected
        refine ⟨serial', d, s', ?_, hs', hsocket, hphase', hpeer⟩
        rw [OrdMap.find_mapValues, hd, Option.map_some, if_neg]
        exact fun heq => hne (hpeer.symm.trans (hreplaced serial' d s' hd hsocket heq).2)
  have hfind : (t.connections.mapValues fun existing =>
      if existing.socket = (if p.connected then p.activeSocket else none)
        then { existing with socket := none } else existing).find serial = some c := by
    rw [OrdMap.find_mapValues, hc, Option.map_some, if_neg]
    exact fun heq => hphase (hreplaced serial c s hc hs heq).1
  have hout : (resetOutboundOffsets { p with
      connected := true
      activeSocket := c.socket
      activeKey := c.key
      peerIncarnation := c.peerIncarnation }).outbound = (resetOutboundOffsets
        { p with connected := false, activeSocket := none }).outbound := rfl
  have hdone := hclosed.activate (OrdMap.find_insert_self _ _ _) rfl hfind hphase hs hout rfl hs
  rw [OrdMap.insert_insert] at hdone
  exact hdone

end

theorem Flows.finishHandshake (h : t.Flows) (serial : ℕ) : (t.finishHandshake serial).Flows := by
  unfold Transport.finishHandshake
  cases hc : t.connections.find serial with
  | none => exact h
  | some c =>
    simp only
    by_cases hguard : c.socket = none ∨ c.phase ≠ .handshake ∨ c.handshakeSent ≠ kHandshakeBytes ∨
        c.remoteHandshake.length ≠ kHandshakeBytes
    · rw [if_pos hguard]
      exact h
    rw [if_neg hguard]
    simp only [not_or, not_not] at hguard
    obtain ⟨hsocket, hphase, -, -⟩ := hguard
    obtain ⟨s, hs⟩ := Option.ne_none_iff_exists'.mp hsocket
    have hopen : c.phase ≠ .established := by simp [hphase]
    cases parseHandshake c.remoteHandshake with
    | error error => exact (h.report _).closeConnection serial error false
    | ok remote =>
      simp only
      by_cases hvalid : t.validateRemote c remote ≠ .none
      · rw [if_pos hvalid]
        exact (h.report _).closeConnection serial _ false
      rw [if_neg hvalid]
      -- the connection learns who is at its other end
      have hknown : ({ t with connections := t.connections.insert serial { c with
          peer := remote.identity.nodeId.toNat
          peerIncarnation := remote.incarnation
          key := t.connectionKey c remote } }).Flows :=
        h.update hc ⟨rfl, rfl, id, fun hp => absurd hp hopen, Or.inl rfl⟩ fun _ _ _ hp =>
          absurd hp hopen
      cases hp : t.peers.find remote.identity.nodeId.toNat with
      | none => exact hknown
      | some p =>
        simp only
        split_ifs
        · exact hknown.closeConnection serial .partitioned false
        · exact (hknown.report _).closeConnection serial .duplicatePeer false
        · exact hknown.establish hp (OrdMap.find_insert_self _ _ _) hopen hs

/-- **Bytes are written.** They continue what the connection ends with. -/
theorem Flows.writeFrame (h : t.Flows) (serial count : ℕ) : (t.writeFrame serial count).Flows := by
  unfold Transport.writeFrame
  cases hc : t.connections.find serial with
  | none => exact h
  | some c =>
    simp only
    cases hp : t.peers.find c.peer with
    | none => exact h
    | some p =>
      simp only
      by_cases hguard : c.phase ≠ .established ∨ c.socket = none ∨ p.connected = false ∨
          p.activeSocket ≠ c.socket
      · rw [if_pos hguard]
        exact h
      rw [if_neg hguard]
      cases hout : p.outbound with
      | nil => exact h
      | cons frame rest =>
        simp only
        by_cases hcount : count = 0 ∨ frame.wireBytes.length < frame.offset + count
        · rw [if_pos hcount]
          exact h
        rw [if_neg hcount]
        simp only [not_or, not_not, Bool.not_eq_false, not_lt] at hguard hcount
        obtain ⟨hphase, hopen, hconnected, hactive⟩ := hguard
        obtain ⟨s, hs⟩ := Option.ne_none_iff_exists'.mp hopen
        rw [hs] at hactive
        have hq := h.queue c.peer p hp
        have hf := h.framed serial c hc
        have htaken := (hq.taken frame (by simp [hout])).1
        have hordered := hq.ordered
        have hzero := hq.tail
        rw [hout, List.pairwise_cons] at hordered
        rw [hout, List.tail_cons] at hzero
        have hreachable : p.partitioned = false := by
          by_contra hpart
          have hnil := hq.partitioned (by simpa using hpart)
          rw [hout] at hnil
          cases hnil
        have hwritten : c.written ++ (frame.wireBytes.drop frame.offset).take count =
            wires t.accepted c.whole ++ frame.wireBytes.take (frame.offset + count) := by
          rw [h.position c.peer p hp hconnected hreachable serial c hc s hactive hs,
            PeerState.begun, hout, List.append_assoc, List.take_add]
          rfl
        split_ifs with hend
        -- the frame is at its end
        · refine Streams.write h hc hp hs rfl hphase rfl hactive
            ⟨fun k hk => ?_, ?_, [], ?_, Or.inl rfl⟩ (fun k hk => ?_)
            (fun frame' hframe' => ⟨frame', by simp [hout, hframe'], rfl⟩)
            ⟨fun frame' hframe' => hq.taken frame' (by simp [hout, hframe']), hordered.2,
              fun frame' hframe' => hzero frame' (List.mem_of_mem_tail hframe'), fun hpart => ?_,
              fun _ => hzero⟩ ?_
          · rcases List.mem_append.mp hk with hk | hk
            · exact hf.taken k hk
            · exact ⟨_, (List.mem_singleton.mp hk) ▸ htaken⟩
          · refine List.pairwise_append.mpr ⟨hf.ordered, List.pairwise_singleton _ _, ?_⟩
            intro k hk k' hk'
            rw [List.mem_singleton.mp hk']
            exact h.after c.peer p hp serial c hc rfl k hk frame (by simp [hout])
          · rw [hwritten, hend, List.take_length, wires_concat htaken, List.append_nil]
          · rcases List.mem_append.mp hk with hk | hk
            · exact Or.inl hk
            · rw [List.mem_singleton.mp hk]
              exact Or.inr ⟨⟨frame, by simp [hout], rfl⟩, hordered.1⟩
          · change p.partitioned = true at hpart
            rw [hreachable] at hpart
            cases hpart
          · rw [hwritten, hend, List.take_length, wires_concat htaken, begun_of_offset hzero,
              List.append_nil]
        -- something of the frame is left
        · have hless : frame.offset + count < frame.wireBytes.length :=
            lt_of_le_of_ne hcount.2 hend
          refine Streams.write h hc hp hs rfl hphase rfl hactive
            ⟨hf.taken, hf.ordered, _, hwritten, Or.inr ⟨_, _, htaken, List.take_prefix _ _, ?_⟩⟩
            (fun k hk => Or.inl hk) (fun frame' hframe' => ?_)
            ⟨fun frame' hframe' => ?_, List.pairwise_cons.mpr hordered, hzero, fun hpart => ?_,
              fun hoffline => ?_⟩ hwritten
          · intro heq
            have hlen := congrArg List.length heq
            rw [List.length_take] at hlen
            omega
          · rcases List.mem_cons.mp hframe' with rfl | hframe'
            · exact ⟨frame, by simp [hout], rfl⟩
            · exact ⟨frame', by simp [hout, hframe'], rfl⟩
          · rcases List.mem_cons.mp hframe' with rfl | hframe'
            · exact ⟨htaken, hless⟩
            · exact hq.taken frame' (by simp [hout, hframe'])
          · change p.partitioned = true at hpart
            rw [hreachable] at hpart
            cases hpart
          · change p.connected = false at hoffline
            rw [hconnected] at hoffline
            cases hoffline

/-- **A step is calm**: a peer that is cut off is made reachable again only if its connection, in
case it is still open, ends between two frames. -/
def Calm (t : Transport) : Step → Prop
  | .setPeerPartitioned peer false => t.Between peer
  | _ => True

theorem Flows.step (h : t.Flows) (step : Step) (hcalm : t.Calm step) : (t.step step).Flows := by
  cases step with
  | send peer codecFrame => exact h.send peer codecFrame
  | setPeerPartitioned peer partitioned =>
    refine h.setPeerPartitioned peer partitioned ?_
    rintro rfl
    exact hcalm
  | poll maximum => exact h
  | attemptOutgoing peer socket answer => exact h.attemptOutgoing peer socket answer
  | acceptConnection socket => exact h.acceptConnection socket
  | handshakeProgress serial sent received => exact h.handshakeProgress serial sent received
  | finishHandshake serial => exact h.finishHandshake serial
  | writeFrame serial count => exact h.writeFrame serial count
  | closeConnection serial error notify => exact h.closeConnection serial error notify
  | sweep => exact h.sweep
  | fail => exact Flows.report (t := { t with fatalError := true }) h _
  | finish => exact h.finish

theorem flows_start (config : Config) : (start config).Flows := by
  have hempty : Streams [] 0 ∅ ∅ := by constructor <;> simp [Apart]
  refine hempty.silence fun id p hp => ?_
  obtain ⟨endpoint, rfl⟩ := eq_of_find_start hp
  exact ⟨rfl, rfl⟩

/-- The steps of a run are calm. -/
def CalmRun : Transport → List Step → Prop
  | _, [] => True
  | t, step :: rest => t.Calm step ∧ CalmRun (t.step step) rest

theorem Flows.run (h : t.Flows) {steps : List Step} (hcalm : CalmRun t steps) :
    (t.run steps).Flows := by
  induction steps generalizing t with
  | nil => exact h
  | cons step rest ih => exact ih (h.step step hcalm.1) hcalm.2

end Transport

/-- **Connections carry frames.** In every run of a transport in which no peer is made reachable
again while its connection ends inside a frame, every connection carries whole frames that `send`
has accepted for its peer and then at most the beginning of one, and no frame is written to its end
on two connections. -/
theorem framing_run (config : Config) {steps : List Step}
    (hcalm : (Transport.start config).CalmRun steps) :
    Framing ((Transport.start config).run steps) :=
  ((Transport.flows_start config).run hcalm).framing

namespace Sample

/-- A node with one peer. -/
def alone : Config where
  identity := ⟨7, 7, 1⟩
  incarnation := 5
  peers := [{ nodeId := 2, port := 4000 }]

/-- It is connected, and has written five of the six bytes of a frame. -/
def insideFrame : List Step :=
  [.attemptOutgoing 2 3 .atOnce, .handshakeProgress 0 56 (makeHandshake ⟨7, 7, 2⟩ 6 1 false),
    .finishHandshake 0, .send 2 [7, 7], .writeFrame 0 5]

/-- The peer is cut off, and reachable again before the I/O thread notices. -/
def healsEarly : List Step :=
  insideFrame ++ [.setPeerPartitioned 2 true, .setPeerPartitioned 2 false, .send 2 [9],
    .writeFrame 0 5]

/-- The I/O thread closes the connection first. -/
def healsLate : List Step :=
  insideFrame ++ [.setPeerPartitioned 2 true, .closeConnection 0 .partitioned true,
    .setPeerPartitioned 2 false]

theorem run_healsEarly : ((Transport.start alone).run healsEarly).accepted =
      [(2, [0, 0, 0, 2, 7, 7]), (2, [0, 0, 0, 1, 9])] ∧
    (((Transport.start alone).run healsEarly).connections.find 0).map Connection.written =
      some [0, 0, 0, 2, 7, 0, 0, 0, 1, 9] := by
  decide +kernel

end Sample

/-- **A frame begins inside another one.** A peer is cut off while a frame for it has been written
in part, and reachable again before the I/O thread has closed the connection. What the connection
carries is no longer whole frames and the beginning of one. -/
theorem framing_broken :
    ∃ c, ((Transport.start Sample.alone).run Sample.healsEarly).connections.find 0 = some c ∧
      ∀ (whole : List Bytes) (tail : Bytes),
        (∀ wire ∈ whole, wire ∈
          ((Transport.start Sample.alone).run Sample.healsEarly).accepted.map Prod.snd) →
        c.written = whole.flatten ++ tail →
        ¬(tail = [] ∨ ∃ wire ∈
          ((Transport.start Sample.alone).run Sample.healsEarly).accepted.map Prod.snd,
            tail <+: wire) := by
  obtain ⟨haccepted, hwritten⟩ := Sample.run_healsEarly
  obtain ⟨c, hc, hbytes⟩ := Option.map_eq_some_iff.mp hwritten
  refine ⟨c, hc, fun whole tail hwhole hsplit htail => ?_⟩
  rw [haccepted] at hwhole htail
  rw [hbytes] at hsplit
  cases whole with
  | nil =>
    -- there are more bytes than in any frame
    rw [List.flatten_nil, List.nil_append] at hsplit
    subst hsplit
    rcases htail with hnil | ⟨wire, hwire, hprefix⟩
    · cases hnil
    · have hlen := hprefix.length_le
      simp only [List.map_cons, List.map_nil, List.mem_cons, List.not_mem_nil, or_false] at hwire
      rcases hwire with rfl | rfl <;> simp at hlen
  | cons first rest =>
    -- the first frame is neither of the two
    have hfirst := hwhole first (by simp)
    simp only [List.map_cons, List.map_nil, List.mem_cons, List.not_mem_nil, or_false] at hfirst
    rcases hfirst with rfl | rfl <;> simp at hsplit

/-- The connection is closed before the peer is reachable again. -/
theorem framing_run_healsLate :
    (((Transport.start Sample.alone).run Sample.healsLate).connections.find 0).map
      Connection.written = some [0, 0, 0, 2, 7] ∧
    Framing ((Transport.start Sample.alone).run Sample.healsLate) := by
  refine ⟨by decide +kernel, framing_run Sample.alone ?_⟩
  have hdown : (((Transport.start Sample.alone).run (Sample.healsLate.take 7)).peers.find 2).map
      PeerState.connected = some false := by decide +kernel
  refine ⟨trivial, trivial, trivial, trivial, trivial, trivial, trivial, ?_, trivial⟩
  intro p hp _ hconnected
  obtain ⟨q, hq, hfalse⟩ := Option.map_eq_some_iff.mp hdown
  obtain rfl := Option.some.inj (hq.symm.trans hp)
  rw [hconnected] at hfalse
  cases hfalse

end Tcp

end DetLog
