import DetLog.Tcp

/-!
# Which connection stays

Two nodes may have opened several connections to each other, and each of them keeps one. They do
not ask each other which: each side computes a key for every connection whose handshake is complete,
and a connection takes the place of the active one if its key is greater.

The two sides see the same handshakes from opposite ends. The key takes the incarnations in the
order of the nodes and not of the sides, and names the side that has opened the connection with the
nonce of that side; so it is the same at both ends (`DetLog.Tcp.Link.key_comm`,
`DetLog.Tcp.EndOf.connectionKey`). The order of the keys is total, so however the handshakes are
completed, the greatest key wins on both sides: `DetLog.Tcp.selection_agrees`.
-/

namespace DetLog

namespace Tcp

/-! ### The order of the keys -/

/-- The fields of a key as a tuple. -/
def ConnectionKey.tuple (k : ConnectionKey) : ℕ ×ₗ ℕ ×ₗ ℕ ×ₗ ℕ :=
  toLex (k.lowerNodeIncarnation.toNat, toLex (k.higherNodeIncarnation.toNat,
    toLex (k.initiator, k.nonce.toNat)))

theorem ConnectionKey.tuple_injective : Function.Injective ConnectionKey.tuple := by
  rintro ⟨lower, higher, initiator, nonce⟩ ⟨lower', higher', initiator', nonce'⟩ h
  simp only [tuple, EmbeddingLike.apply_eq_iff_eq, Prod.mk.injEq, UInt64.toNat_inj] at h
  obtain ⟨rfl, rfl, rfl, rfl⟩ := h
  rfl

theorem keyLess_iff {k k' : ConnectionKey} : keyLess k k' = true ↔ k.tuple < k'.tuple := by
  simp only [keyLess, decide_eq_true_eq, ConnectionKey.tuple, Prod.Lex.toLex_lt_toLex,
    UInt64.lt_iff_toNat_lt, UInt64.toNat_inj]

/-- **The keys are totally ordered.** -/
theorem isStrictTotalOrder_keyLess :
    IsStrictTotalOrder ConnectionKey fun k k' => keyLess k k' = true where
  irrefl k h := lt_irrefl _ (keyLess_iff.mp h)
  trans k k' k'' h h' := keyLess_iff.mpr ((keyLess_iff.mp h).trans (keyLess_iff.mp h'))
  trichotomous k k' h h' := by
    rw [keyLess_iff] at h h'
    exact ConnectionKey.tuple_injective (le_antisymm (not_lt.mp h') (not_lt.mp h))

/-! ### Connections from both ends -/

/-- A connection between two nodes, as both of them know it: the node that has opened it, and the
nonces of the two sides. -/
structure Link where
  opener : NodeId
  nonce : UInt64
  reply : UInt64
  deriving DecidableEq

/-- What a node sends on a connection. -/
def Link.handshake (l : Link) (config : Config) : Bytes :=
  makeHandshake config.identity config.incarnation
    (if l.opener = config.nodeId then l.nonce else l.reply) (decide (l.opener = config.nodeId))

/-- The key of a connection, by the nodes it is between. -/
def Link.key (l : Link) (config config' : Config) : ConnectionKey where
  lowerNodeIncarnation :=
    if config.nodeId < config'.nodeId then config.incarnation else config'.incarnation
  higherNodeIncarnation :=
    if config.nodeId < config'.nodeId then config'.incarnation else config.incarnation
  initiator := l.opener
  nonce := l.nonce

/-- Two nodes of a cluster. -/
structure Mates (config config' : Config) : Prop where
  high : config.identity.clusterIdHigh = config'.identity.clusterIdHigh
  low : config.identity.clusterIdLow = config'.identity.clusterIdLow
  ne : config.nodeId ≠ config'.nodeId
  incarnation : config.incarnation ≠ 0
  incarnation' : config'.incarnation ≠ 0

theorem Mates.symm {config config' : Config} (h : Mates config config') : Mates config' config :=
  ⟨h.high.symm, h.low.symm, h.ne.symm, h.incarnation', h.incarnation⟩

/-- The connection is between these two nodes. -/
structure Link.Between (l : Link) (config config' : Config) : Prop where
  opener : l.opener = config.nodeId ∨ l.opener = config'.nodeId
  nonce : l.nonce ≠ 0

/-- **One end of a connection** whose handshake has been sent and received. -/
structure EndOf (me other : Config) (l : Link) (c : Connection) : Prop where
  socket : c.socket ≠ none
  phase : c.phase = .handshake
  outbound : c.outbound = decide (l.opener = me.nodeId)
  nonce : c.localNonce = if l.opener = me.nodeId then l.nonce else l.reply
  expected : c.expectedPeer = if l.opener = me.nodeId then some other.nodeId else none
  sent : c.handshakeSent = kHandshakeBytes
  received : c.remoteHandshake = l.handshake other

section Ends

variable {me other : Config} {l : Link} {c : Connection} {t : Transport}

/-- The key does not depend on the side. -/
theorem Link.key_comm (h : Mates me other) (l : Link) : l.key me other = l.key other me := by
  unfold Link.key
  rcases lt_or_gt_of_ne h.ne with hlt | hlt
  · rw [if_pos hlt, if_pos hlt, if_neg hlt.le.not_gt, if_neg hlt.le.not_gt]
  · rw [if_neg hlt.le.not_gt, if_neg hlt.le.not_gt, if_pos hlt, if_pos hlt]

/-- The keys of different connections differ if their nonces do. -/
theorem Link.key_inj {l l' : Link} (h : l.key me other = l'.key me other) :
    l.opener = l'.opener ∧ l.nonce = l'.nonce :=
  ⟨congrArg ConnectionKey.initiator h, congrArg ConnectionKey.nonce h⟩

/-- What an end of a connection has received. -/
def Link.remote (l : Link) (other : Config) : Handshake where
  identity := other.identity
  incarnation := other.incarnation
  nonce := if l.opener = other.nodeId then l.nonce else l.reply
  initiator := decide (l.opener = other.nodeId)

theorem EndOf.parse (h : EndOf me other l c) :
    parseHandshake c.remoteHandshake = .ok (l.remote other) := by
  rw [h.received, Link.handshake, parseHandshake_make]
  rfl

theorem length_makeHandshake (identity : TcpIdentity) (incarnation nonce : UInt64)
    (initiator : Bool) :
    (makeHandshake identity incarnation nonce initiator).length = kHandshakeBytes := by
  simp [makeHandshake, Codec.length_beBytes, kHandshakeMagic, kHandshakeBytes]

/-- **Both ends compute the same key.** -/
theorem EndOf.connectionKey (h : EndOf me other l c) (hl : l.Between me other)
    (hm : Mates me other) (ht : t.config = me) :
    t.connectionKey c (l.remote other) = l.key me other := by
  unfold Transport.connectionKey Link.key Link.remote
  rw [ht, h.outbound, h.nonce]
  have hlt : me.identity.nodeId < other.identity.nodeId ↔ me.nodeId < other.nodeId :=
    UInt32.lt_iff_toNat_lt
  simp only [hlt, ConnectionKey.mk.injEq, true_and]
  rcases hl.opener with ho | ho
  · simp [ho]
  · rw [ho, decide_eq_false hm.ne.symm]
    exact ⟨rfl, if_pos rfl⟩

/-- The remote side is accepted. -/
theorem EndOf.validateRemote (h : EndOf me other l c) (hl : l.Between me other)
    (hm : Mates me other) (ht : t.config = me) (hpeer : (t.peers.find other.nodeId).isSome) :
    t.validateRemote c (l.remote other) = .none := by
  have hopener : decide (l.opener = other.nodeId) ≠ decide (l.opener = me.nodeId) := by
    rcases hl.opener with ho | ho
    · rw [ho, decide_eq_false hm.ne, decide_eq_true rfl]
      decide
    · rw [ho, decide_eq_false hm.ne.symm, decide_eq_true rfl]
      decide
  have hid : other.identity.nodeId ≠ me.identity.nodeId := fun heq =>
    hm.ne (congrArg UInt32.toNat heq).symm
  have hknown : (t.peers.find other.identity.nodeId.toNat).isNone = false := by
    rw [← Option.not_isSome]
    exact congrArg not hpeer
  have hexpected :
      (c.expectedPeer.any fun peer => decide (peer ≠ other.identity.nodeId.toNat)) = false := by
    rw [h.expected]
    split_ifs
    · exact decide_eq_false (not_not.mpr rfl)
    · rfl
  unfold Transport.validateRemote Link.remote
  rw [ht, h.outbound, if_neg, if_neg, if_neg hid, if_neg (Bool.eq_false_iff.mp hknown),
    if_neg (Bool.eq_false_iff.mp hexpected)]
  · exact not_or.mpr ⟨not_not.mpr hm.high.symm, not_not.mpr hm.low.symm⟩
  · rintro (heq | hzero | ⟨hinit, hzero⟩)
    · exact hopener heq
    · exact hm.incarnation' hzero
    · rw [if_pos (of_decide_eq_true hinit)] at hzero
      exact hl.nonce hzero

end Ends

/-! ### One endpoint -/

section Endpoint

variable {me other : Config} {todo : List Link} {serial : Link → ℕ} {t : Transport}
  {chosen : Option (Link × Socket)} {l : Link}

/-- The peer has this connection as the active one. -/
def Active (t : Transport) (peer : NodeId) (socket : Option Socket) (key : ConnectionKey) : Prop :=
  ∃ p, t.peers.find peer = some p ∧ p.connected = true ∧ p.activeSocket = socket ∧
    p.activeKey = key

/-- **An endpoint during the selection.** It has its end of every connection that it has still to
look at, with sockets of their own, and the connection that has been chosen so far is active. Before
the selection none is. -/
structure Selecting (t : Transport) (me other : Config) (todo : List Link) (serial : Link → ℕ)
    (chosen : Option (Link × Socket)) : Prop where
  config : t.config = me
  peer : ∃ p, t.peers.find other.nodeId = some p ∧ p.partitioned = false ∧
    p.connected = chosen.isSome ∧
    ∀ l s, chosen = some (l, s) → p.activeSocket = some s ∧ p.activeKey = l.key me other
  ends : ∀ l ∈ todo, ∃ c, t.connections.find (serial l) = some c ∧ EndOf me other l c ∧
    ∀ l₀ s, chosen = some (l₀, s) → c.socket ≠ some s
  apart : ∀ l ∈ todo, ∀ l' ∈ todo, serial l = serial l' → l = l'
  socket : ∀ l ∈ todo, ∀ l' ∈ todo, ∀ c c', t.connections.find (serial l) = some c →
    t.connections.find (serial l') = some c' → c.socket = c'.socket → l = l'

/-- What a connection has to offer that is looked at: it is turned away if the active one has a
greater key, and takes its place otherwise. -/
theorem finishHandshake_eq {c : Connection} {p : PeerState} (ht : t.config = me)
    (hm : Mates me other) (hl : l.Between me other) (hp : t.peers.find other.nodeId = some p)
    (hopen : p.partitioned = false) (hc : t.connections.find (serial l) = some c)
    (hend : EndOf me other l c) :
    t.finishHandshake (serial l) =
      let c := { c with
        peer := other.nodeId
        peerIncarnation := other.incarnation
        key := l.key me other }
      let t := { t with connections := t.connections.insert (serial l) c }
      if p.connected = true ∧ keyLess p.activeKey (l.key me other) = false then
        (t.report ⟨.peerRejected, other.nodeId, other.incarnation, .duplicatePeer⟩
          ).closeConnection (serial l) .duplicatePeer false
      else t.establish (serial l) c p := by
  have hlen : c.remoteHandshake.length = kHandshakeBytes := by
    rw [hend.received, Link.handshake, length_makeHandshake]
  have hguard : ¬(c.socket = none ∨ c.phase ≠ .handshake ∨ c.handshakeSent ≠ kHandshakeBytes ∨
      c.remoteHandshake.length ≠ kHandshakeBytes) := by
    rintro (h | h | h | h)
    · exact hend.socket h
    · exact h hend.phase
    · exact h hend.sent
    · exact h hlen
  have hvalid : t.validateRemote c (l.remote other) = .none :=
    hend.validateRemote hl hm ht (by rw [hp]; rfl)
  have hkey : t.connectionKey c (l.remote other) = l.key me other :=
    hend.connectionKey hl hm ht
  unfold Transport.finishHandshake
  simp only [hc]
  rw [if_neg hguard, hend.parse]
  simp only [hvalid, ne_eq, not_true_eq_false, if_false, hkey]
  have hremote : (l.remote other).identity.nodeId.toNat = other.nodeId := rfl
  simp only [hremote, hp, hopen, Bool.false_eq_true, if_false]
  rfl

theorem keyLess_eq_false {k k' : ConnectionKey} : keyLess k k' = false ↔ k'.tuple ≤ k.tuple := by
  rw [← not_lt, ← keyLess_iff, Bool.not_eq_true]

/-- The selection goes on with the ends that it has not looked at. -/
theorem Selecting.next {chosen' : Option (Link × Socket)} {t' : Transport}
    (h : Selecting t me other (l :: todo) serial chosen) (hconfig : t'.config = me)
    (hpeer : ∃ p, t'.peers.find other.nodeId = some p ∧ p.partitioned = false ∧
      p.connected = chosen'.isSome ∧
      ∀ l s, chosen' = some (l, s) → p.activeSocket = some s ∧ p.activeKey = l.key me other)
    (hsame : ∀ l' ∈ todo, t'.connections.find (serial l') = t.connections.find (serial l'))
    (hother : ∀ l' ∈ todo, ∀ c, t.connections.find (serial l') = some c →
      ∀ l₀ s, chosen' = some (l₀, s) → c.socket ≠ some s) :
    Selecting t' me other todo serial chosen' := by
  refine ⟨hconfig, hpeer, fun l' hl' => ?_, fun l' hl' l'' hl'' => ?_, fun l' hl' l'' hl'' => ?_⟩
  · obtain ⟨c, hc, hend, -⟩ := h.ends l' (List.mem_cons_of_mem _ hl')
    exact ⟨c, (hsame l' hl').trans hc, hend, hother l' hl' c hc⟩
  · exact h.apart l' (List.mem_cons_of_mem _ hl') l'' (List.mem_cons_of_mem _ hl'')
  · rw [hsame l' hl', hsame l'' hl'']
    exact h.socket l' (List.mem_cons_of_mem _ hl') l'' (List.mem_cons_of_mem _ hl'')

/-- A connection is looked at: it is chosen if no greater key has been. -/
theorem Selecting.step (h : Selecting t me other (l :: todo) serial chosen) (hm : Mates me other)
    (hl : l.Between me other) (hnew : l ∉ todo) :
    ∃ chosen', Selecting (t.finishHandshake (serial l)) me other todo serial chosen' ∧
      (∀ l' ∈ todo, (t.finishHandshake (serial l)).connections.find (serial l') =
        t.connections.find (serial l')) ∧
      ((chosen' = chosen ∧ ∃ l₀ s₀, chosen = some (l₀, s₀) ∧
          (l.key me other).tuple ≤ (l₀.key me other).tuple) ∨
        ∃ c s, t.connections.find (serial l) = some c ∧ c.socket = some s ∧
          chosen' = some (l, s) ∧ ∀ l₀ s₀, chosen = some (l₀, s₀) →
            (l₀.key me other).tuple ≤ (l.key me other).tuple) := by
  obtain ⟨p, hp, hopen, hconnected, hactive⟩ := h.peer
  obtain ⟨c, hc, hend, hother⟩ := h.ends l (by simp)
  obtain ⟨s, hs⟩ := Option.ne_none_iff_exists'.mp hend.socket
  have hserial : ∀ l' ∈ todo, serial l' ≠ serial l := fun l' hl' heq => by
    obtain rfl := h.apart l' (List.mem_cons_of_mem _ hl') l (by simp) heq
    exact hnew hl'
  rw [finishHandshake_eq h.config hm hl hp hopen hc hend]
  simp only
  split_ifs with hkey
  -- the connection is turned away
  · obtain ⟨l₀, s₀, hchosen⟩ : ∃ l₀ s₀, chosen = some (l₀, s₀) := by
      rw [hconnected] at hkey
      obtain ⟨⟨l₀, s₀⟩, hchosen⟩ := Option.isSome_iff_exists.mp hkey.1
      exact ⟨l₀, s₀, hchosen⟩
    have hle : (l.key me other).tuple ≤ (l₀.key me other).tuple := by
      rw [← keyLess_eq_false, ← (hactive l₀ s₀ hchosen).2]
      exact hkey.2
    rw [Transport.closeConnection_of_phase
      ((congrArg (OrdMap.find · _) (Transport.connections_report _ _)).trans
        (OrdMap.find_insert_self _ _ _)) (by rw [hend.phase]; decide)]
    have hsame : ∀ l' ∈ todo, ∀ x y, ((t.connections.insert (serial l) x).insert (serial l) y).find
        (serial l') = t.connections.find (serial l') := fun l' hl' x y => by
      rw [OrdMap.find_insert_of_ne _ _ (hserial l' hl'),
        OrdMap.find_insert_of_ne _ _ (hserial l' hl')]
    refine ⟨chosen, h.next (by simp [h.config]) ⟨p, by simpa using hp, hopen, hconnected, hactive⟩
      (fun l' hl' => ?_) (fun l' hl' c' hc' => ?_), fun l' hl' => ?_,
      Or.inl ⟨rfl, l₀, s₀, hchosen, hle⟩⟩
    · simpa only [Transport.connections_report] using hsame l' hl' _ _
    · obtain ⟨c'', hc'', -, hne⟩ := h.ends l' (List.mem_cons_of_mem _ hl')
      obtain rfl := Option.some.inj (hc''.symm.trans hc')
      exact hne
    · simpa only [Transport.connections_report] using hsame l' hl' _ _
  -- the connection is established, and the chosen one closed
  · have hsame : ∀ l' ∈ todo, ((t.connections.insert (serial l) { c with
        peer := other.nodeId, peerIncarnation := other.incarnation
        key := l.key me other }).mapValues
          fun existing => if existing.socket = (if p.connected then p.activeSocket else none)
            then { existing with socket := none } else existing).find (serial l') =
        t.connections.find (serial l') := fun l' hl' => by
      obtain ⟨c', hc', hend', hne⟩ := h.ends l' (List.mem_cons_of_mem _ hl')
      rw [OrdMap.find_mapValues, OrdMap.find_insert_of_ne _ _ (hserial l' hl'), hc',
        Option.map_some, if_neg]
      intro heq
      cases hchosen : chosen with
      | none =>
        rw [hconnected, hchosen] at heq
        exact hend'.socket heq
      | some x =>
        rw [hconnected, hchosen, Option.isSome_some, if_pos rfl, (hactive x.1 x.2 hchosen).1] at heq
        exact hne x.1 x.2 hchosen heq
    refine ⟨some (l, s), h.next ?_ ?_ (fun l' hl' => ?_) ?_, fun l' hl' => ?_,
      Or.inr ⟨c, s, hc, hs, rfl, ?_⟩⟩
    any_goals simp only [Transport.establish, Transport.connections_report, Transport.config_report,
      Transport.peers_report]
    · exact h.config
    · refine ⟨_, OrdMap.find_insert_self _ _ _, hopen, rfl, ?_⟩
      rintro l₀ s₀ ⟨⟩
      exact ⟨hs, rfl⟩
    · rw [OrdMap.find_insert_of_ne _ _ (hserial l' hl')]
      exact hsame l' hl'
    · rintro l' hl' c' hc' l₀ s₀ ⟨⟩ heq
      obtain rfl := h.socket l' (List.mem_cons_of_mem _ hl') l (by simp) c' c hc' hc
        (heq.trans hs.symm)
      exact hnew hl'
    · rw [OrdMap.find_insert_of_ne _ _ (hserial l' hl')]
      exact hsame l' hl'
    · intro l₀ s₀ hchosen
      rw [hconnected, hchosen, (hactive l₀ s₀ hchosen).2] at hkey
      by_contra hlt
      exact hkey ⟨rfl, keyLess_eq_false.mpr (not_le.mp hlt).le⟩

/-- **The whole selection**: what it chooses has the greatest key. -/
theorem Selecting.run {order : List Link} (h : Selecting t me other order serial chosen)
    (hm : Mates me other) (hl : ∀ l ∈ order, l.Between me other) (hnodup : order.Nodup) :
    ∃ chosen', Selecting (order.foldl (fun t l => t.finishHandshake (serial l)) t) me other []
        serial chosen' ∧
      (chosen' = chosen ∨ ∃ l ∈ order, ∃ c s, t.connections.find (serial l) = some c ∧
        c.socket = some s ∧ chosen' = some (l, s)) ∧
      ∀ l₀, (l₀ ∈ order ∨ ∃ s₀, chosen = some (l₀, s₀)) →
        ∃ l s, chosen' = some (l, s) ∧ (l₀.key me other).tuple ≤ (l.key me other).tuple := by
  induction order generalizing t chosen with
  | nil =>
    refine ⟨chosen, h, Or.inl rfl, ?_⟩
    rintro l₀ (hmem | ⟨s₀, hs₀⟩)
    · cases hmem
    · exact ⟨l₀, s₀, hs₀, le_rfl⟩
  | cons l todo ih =>
    obtain ⟨hnew, hrest⟩ := List.nodup_cons.mp hnodup
    obtain ⟨chosen₁, h₁, hsame, hstep⟩ := h.step hm (hl l (by simp)) hnew
    obtain ⟨chosen', h', hfrom, hbest⟩ :=
      ih h₁ (fun l' hl' => hl l' (List.mem_cons_of_mem _ hl')) hrest
    refine ⟨chosen', h', ?_, ?_⟩
    · rcases hfrom with heq | ⟨l', hl', c, s, hc, hs, hchosen⟩
      · rcases hstep with ⟨hold, -⟩ | ⟨c, s, hc, hs, hchosen, -⟩
        · exact Or.inl (heq.trans hold)
        · exact Or.inr ⟨l, by simp, c, s, hc, hs, heq.trans hchosen⟩
      · exact Or.inr ⟨l', List.mem_cons_of_mem _ hl', c, s, (hsame l' hl').symm.trans hc, hs,
          hchosen⟩
    · -- what has been looked at or chosen before is not greater than what this step leaves
      have hle : ∀ l₀, (l₀ = l ∨ ∃ s₀, chosen = some (l₀, s₀)) → ∃ l₁ s₁, chosen₁ = some (l₁, s₁) ∧
          (l₀.key me other).tuple ≤ (l₁.key me other).tuple := by
        rcases hstep with ⟨hold, l₁, s₁, hchosen, hle⟩ | ⟨c, s, -, -, hchosen, hle⟩
        · rintro l₀ (rfl | ⟨s₀, hs₀⟩)
          · exact ⟨l₁, s₁, hold.trans hchosen, hle⟩
          · exact ⟨l₀, s₀, hold.trans hs₀, le_rfl⟩
        · rintro l₀ (rfl | ⟨s₀, hs₀⟩)
          · exact ⟨l₀, s, hchosen, le_rfl⟩
          · exact ⟨l, s, hchosen, hle l₀ s₀ hs₀⟩
      intro l₀ hl₀
      have hcases : l₀ ∈ todo ∨ l₀ = l ∨ ∃ s₀, chosen = some (l₀, s₀) := by
        rcases hl₀ with hmem | hs₀
        · rcases List.mem_cons.mp hmem with rfl | hmem
          · exact Or.inr (Or.inl rfl)
          · exact Or.inl hmem
        · exact Or.inr (Or.inr hs₀)
      rcases hcases with hmem | hbefore
      · exact hbest l₀ (Or.inl hmem)
      · obtain ⟨l₁, s₁, hchosen₁, hle₁⟩ := hle l₀ hbefore
        obtain ⟨l₂, s₂, hchosen₂, hle₂⟩ := hbest l₁ (Or.inr ⟨s₁, hchosen₁⟩)
        exact ⟨l₂, s₂, hchosen₂, hle₁.trans hle₂⟩

/-- In any order, the connection with the greatest key ends up active. -/
theorem Selecting.active {links order : List Link} (h : Selecting t me other links serial none)
    (hm : Mates me other) (hl : ∀ l ∈ links, l.Between me other) (hnodup : links.Nodup)
    (hmem : l ∈ links)
    (hgreatest : ∀ l' ∈ links, l' ≠ l → keyLess (l'.key me other) (l.key me other) = true)
    (hperm : order.Perm links) :
    ∃ c, t.connections.find (serial l) = some c ∧
      Active (order.foldl (fun t l => t.finishHandshake (serial l)) t) other.nodeId c.socket
        (l.key me other) := by
  have horder : Selecting t me other order serial none :=
    ⟨h.config, h.peer, fun l' hl' => h.ends l' (hperm.mem_iff.mp hl'),
      fun l' hl' l'' hl'' => h.apart l' (hperm.mem_iff.mp hl') l'' (hperm.mem_iff.mp hl''),
      fun l' hl' l'' hl'' => h.socket l' (hperm.mem_iff.mp hl') l'' (hperm.mem_iff.mp hl'')⟩
  obtain ⟨chosen', h', hfrom, hbest⟩ :=
    horder.run hm (fun l' hl' => hl l' (hperm.mem_iff.mp hl')) (hperm.nodup_iff.mpr hnodup)
  obtain ⟨l', s', hchosen, hle⟩ := hbest l (Or.inl (hperm.mem_iff.mpr hmem))
  rcases hfrom with heq | ⟨l'', hl'', c, s, hc, hs, hchosen'⟩
  · rw [hchosen] at heq
    cases heq
  obtain ⟨rfl, rfl⟩ := Prod.mk.inj (Option.some.inj (hchosen.symm.trans hchosen'))
  obtain rfl : l' = l := by
    by_contra hne
    have hlt := keyLess_iff.mp (hgreatest l' (hperm.mem_iff.mp hl'') hne)
    exact absurd hle hlt.not_ge
  obtain ⟨p, hp, -, hconnected, hactive⟩ := h'.peer
  obtain ⟨hsocket, hkey⟩ := hactive l' s' hchosen
  rw [hchosen] at hconnected
  exact ⟨c, hc, p, hp, hconnected, hsocket.trans hs.symm, hkey⟩

end Endpoint

/-- **Both sides keep the same connection.** Take two nodes of a cluster and connections between
them whose handshakes are complete, with different nonces for those that the same node has opened.
Both ends of a connection compute the same key, the keys are totally ordered, and there is a
connection with the greatest key. In whatever order each side completes the handshakes, this is the
connection that is active at both ends. -/
theorem selection_agrees {a b : Config} (hm : Mates a b) {links : List Link}
    (hlinks : ∀ l ∈ links, l.Between a b)
    (hnonces : links.Pairwise fun l l' => l.opener = l'.opener → l.nonce ≠ l'.nonce)
    {ta tb : Transport} {sa sb : Link → ℕ} (ha : Selecting ta a b links sa none)
    (hb : Selecting tb b a links sb none) :
    (∀ l ∈ links, ∃ ca cb ra rb, ta.connections.find (sa l) = some ca ∧
      tb.connections.find (sb l) = some cb ∧ parseHandshake ca.remoteHandshake = .ok ra ∧
      parseHandshake cb.remoteHandshake = .ok rb ∧
      ta.connectionKey ca ra = tb.connectionKey cb rb) ∧
    IsStrictTotalOrder ConnectionKey (fun k k' => keyLess k k' = true) ∧
    (links ≠ [] → ∃ l ∈ links,
      (∀ l' ∈ links, l' ≠ l → keyLess (l'.key a b) (l.key a b) = true) ∧
      ∀ order order' : List Link, order.Perm links → order'.Perm links →
        ∃ ca cb, ta.connections.find (sa l) = some ca ∧ tb.connections.find (sb l) = some cb ∧
          Active (order.foldl (fun t l => t.finishHandshake (sa l)) ta) b.nodeId ca.socket
            (l.key a b) ∧
          Active (order'.foldl (fun t l => t.finishHandshake (sb l)) tb) a.nodeId cb.socket
            (l.key a b)) := by
  have hlinks' : ∀ l ∈ links, l.Between b a := fun l hl =>
    ⟨(hlinks l hl).opener.symm, (hlinks l hl).nonce⟩
  have hnodup : links.Nodup := hnonces.imp fun h heq => h (congrArg _ heq) (congrArg _ heq)
  have hinj : ∀ l ∈ links, ∀ l' ∈ links, l.key a b = l'.key a b → l = l' := by
    intro l hl l' hl' heq
    by_contra hne
    obtain ⟨hopener, hnonce⟩ := Link.key_inj heq
    have hsymm : Std.Symm fun l l' : Link => l.opener = l'.opener → l.nonce ≠ l'.nonce :=
      ⟨fun l l' h ho hn => h ho.symm hn.symm⟩
    exact hnonces.forall hl hl' hne hopener hnonce
  refine ⟨fun l hl => ?_, isStrictTotalOrder_keyLess, fun hne => ?_⟩
  · obtain ⟨ca, hca, hea, -⟩ := ha.ends l hl
    obtain ⟨cb, hcb, heb, -⟩ := hb.ends l hl
    refine ⟨ca, cb, _, _, hca, hcb, hea.parse, heb.parse, ?_⟩
    rw [hea.connectionKey (hlinks l hl) hm ha.config,
      heb.connectionKey (hlinks' l hl) hm.symm hb.config, Link.key_comm hm]
  · -- the greatest key, as one of the orders finds it
    obtain ⟨chosen, -, hfrom, hbest⟩ := ha.run hm hlinks hnodup
    obtain ⟨l₀, hl₀⟩ := List.exists_mem_of_ne_nil links hne
    obtain ⟨l, s, hchosen, -⟩ := hbest l₀ (Or.inl hl₀)
    have hl : l ∈ links := by
      rcases hfrom with heq | ⟨l', hl', _, _, _, _, heq⟩
      · rw [hchosen] at heq
        cases heq
      · obtain ⟨rfl, -⟩ := Prod.mk.inj (Option.some.inj (hchosen.symm.trans heq))
        exact hl'
    have hgreatest : ∀ l' ∈ links, l' ≠ l → keyLess (l'.key a b) (l.key a b) = true := by
      intro l' hl' hne'
      obtain ⟨l'', s'', hchosen'', hle⟩ := hbest l' (Or.inl hl')
      obtain ⟨rfl, -⟩ := Prod.mk.inj (Option.some.inj (hchosen''.symm.trans hchosen))
      refine keyLess_iff.mpr (lt_of_le_of_ne hle fun heq => hne' ?_)
      exact hinj l' hl' l'' hl (ConnectionKey.tuple_injective heq)
    refine ⟨l, hl, hgreatest, fun order order' hperm hperm' => ?_⟩
    obtain ⟨ca, hca, hactive⟩ := ha.active hm hlinks hnodup hl hgreatest hperm
    obtain ⟨cb, hcb, hactive'⟩ := hb.active hm.symm hlinks' hnodup hl
      (fun l' hl' hne' => by
        rw [Link.key_comm hm.symm, Link.key_comm hm.symm]
        exact hgreatest l' hl' hne') hperm'
    rw [Link.key_comm hm.symm] at hactive'
    exact ⟨ca, cb, hca, hcb, hactive, hactive'⟩

/-! ### Two connections at once -/

namespace Sample

/-- A node with one peer. -/
def node (id peer : UInt32) : Config where
  identity := ⟨7, 7, id⟩
  incarnation := 5
  peers := [{ nodeId := peer.toNat, port := 4000 }]

/-- Both nodes have opened a connection. -/
def links : List Link := [⟨1, 1, 2⟩, ⟨2, 1, 2⟩]

/-- One end of a connection. -/
def endOf (me other : Config) (socket : Socket) (l : Link) : Connection where
  socket := some socket
  outbound := decide (l.opener = me.nodeId)
  expectedPeer := if l.opener = me.nodeId then some other.nodeId else none
  localNonce := if l.opener = me.nodeId then l.nonce else l.reply
  localHandshake := l.handshake me
  handshakeSent := kHandshakeBytes
  remoteHandshake := l.handshake other

/-- The node with the ends of both connections. -/
def endpoint (me other : Config) : Transport :=
  { Transport.start me with
    connections := (OrdMap.insert ∅ 1 (endOf me other 1 ⟨1, 1, 2⟩)).insert 2
      (endOf me other 2 ⟨2, 1, 2⟩)
    created := 3 }

theorem find_endpoint (me other : Config) : ∀ l ∈ links,
    (endpoint me other).connections.find l.opener = some (endOf me other l.opener l) := by
  simp [links, endpoint, OrdMap.find_insert]

theorem selecting_endpoint (me other : Config)
    (hpeer : (Transport.start me).peers.find other.nodeId =
      some { hasOutboundEndpoint := true }) :
    Selecting (endpoint me other) me other links Link.opener none := by
  have hopener : ∀ l ∈ links, ∀ l' ∈ links, l.opener = l'.opener → l = l' := by decide
  refine ⟨rfl, ⟨_, hpeer, rfl, rfl, by simp⟩, fun l hl => ?_, hopener, ?_⟩
  · exact ⟨_, find_endpoint me other l hl, ⟨by simp [endOf], rfl, rfl, rfl, rfl, rfl, rfl⟩, by simp⟩
  · intro l hl l' hl' c c' hc hc' hsocket
    obtain rfl := Option.some.inj ((find_endpoint me other l hl).symm.trans hc)
    obtain rfl := Option.some.inj ((find_endpoint me other l' hl').symm.trans hc')
    exact hopener l hl l' hl' (Option.some.inj hsocket)

end Sample

/-- Both nodes keep the connection that the second one has opened. -/
theorem selection_agrees_sample : ∃ l ∈ Sample.links, l.opener = 2 ∧
    Active ((Sample.links.foldl (fun t l => t.finishHandshake l.opener)
      (Sample.endpoint (Sample.node 1 2) (Sample.node 2 1)))) 2 (some 2)
        (l.key (Sample.node 1 2) (Sample.node 2 1)) ∧
    Active ((Sample.links.reverse.foldl (fun t l => t.finishHandshake l.opener)
      (Sample.endpoint (Sample.node 2 1) (Sample.node 1 2)))) 1 (some 2)
        (l.key (Sample.node 1 2) (Sample.node 2 1)) := by
  have hm : Mates (Sample.node 1 2) (Sample.node 2 1) :=
    ⟨rfl, rfl, by decide, by decide, by decide⟩
  have hbetween : ∀ l ∈ Sample.links, l.Between (Sample.node 1 2) (Sample.node 2 1) := by
    intro l hl
    have hall : ∀ l ∈ Sample.links, (l.opener = (Sample.node 1 2).nodeId ∨
        l.opener = (Sample.node 2 1).nodeId) ∧ l.nonce ≠ 0 := by decide
    exact ⟨(hall l hl).1, (hall l hl).2⟩
  obtain ⟨-, -, hagree⟩ := selection_agrees hm hbetween (by decide)
    (Sample.selecting_endpoint (Sample.node 1 2) (Sample.node 2 1) rfl)
    (Sample.selecting_endpoint (Sample.node 2 1) (Sample.node 1 2) rfl)
  obtain ⟨l, hl, hgreatest, horders⟩ := hagree (by decide)
  have hopener : l.opener = 2 := by
    have hall : ∀ l ∈ Sample.links, (∀ l' ∈ Sample.links, l' ≠ l →
      keyLess (l'.key (Sample.node 1 2) (Sample.node 2 1))
        (l.key (Sample.node 1 2) (Sample.node 2 1)) = true) → l.opener = 2 := by decide
    exact hall l hl hgreatest
  obtain ⟨ca, cb, hca, hcb, ha, hb⟩ := horders _ _ (List.Perm.refl _) (List.reverse_perm _)
  obtain rfl := Option.some.inj ((Sample.find_endpoint _ _ l hl).symm.trans hca)
  obtain rfl := Option.some.inj ((Sample.find_endpoint _ _ l hl).symm.trans hcb)
  have hsocket : ∀ me other : Config, (Sample.endOf me other l.opener l).socket = some 2 :=
    fun me other => congrArg some hopener
  rw [hsocket] at ha hb
  exact ⟨l, hl, hopener, ha, hb⟩

end Tcp

end DetLog
