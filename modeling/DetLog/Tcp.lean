import DetLog.Codec.Roundtrip
import DetLog.Config

/-!
# The TCP transport

One thread owns the listener and the connections; the rest of a node only puts frames into the
queues of its peers and says which peers it wants to be cut off from. What the threads share is
guarded by one lock, so an operation of the transport is a stretch of a thread that holds it, or a
step of the loop of the I/O thread (`DetLog.Tcp.Step`).

A peer has at most one *active* connection. Both sides may open connections to each other at the
same time, and each of them selects one by a key that is computed from what the two sides have told
each other in the handshake (`DetLog.Tcp.Transport.finishHandshake`).

A frame lies in the queue of its peer with the number of its bytes that have been written. These
bytes have gone to the connection that was active, so they mean nothing to the next one: the numbers
are reset when the active connection changes.

Time is not modelled: an attempt to connect may be made at any moment, and a connection may be
closed at any moment. Nor is what arrives after the handshake. Some fields are not in the source;
they record what has happened, and no operation looks at them.
-/

namespace DetLog

namespace Tcp

open Codec

/-! ### The handshake -/

/-- Why a connection or a frame was given up. -/
inductive TransportErrorCode where
  | none
  | invalidConfiguration
  | selfPeer
  | unknownPeer
  | duplicatePeer
  | wrongCluster
  | wrongVersion
  | protocolError
  | frameTooLarge
  | queueFull
  | connectionDown
  | partitioned
  | ioError
  | stopped
  deriving DecidableEq, Repr

/-- `DTLGPEER` -/
def kHandshakeMagic : Bytes := [68, 84, 76, 71, 80, 69, 69, 82]

/-- The length of a handshake. -/
def kHandshakeBytes : ℕ := 56

/-- The flag of the side that connects. -/
def kInitiatorFlag : ℕ := 1

/-- What precedes a frame on a connection. -/
def kLengthPrefixBytes : ℕ := 4

/-- The only version there is. -/
def protocolVersion : ℕ := 1

/-- What the other side says about itself. -/
structure Handshake where
  identity : TcpIdentity
  incarnation : UInt64
  nonce : UInt64
  initiator : Bool
  deriving DecidableEq

/-- The bytes of a handshake. -/
def makeHandshake (identity : TcpIdentity) (incarnation nonce : UInt64) (initiator : Bool) :
    Bytes :=
  kHandshakeMagic ++ (beBytes 2 protocolVersion ++ (beBytes 2 kHandshakeBytes ++
    (beBytes 4 (if initiator then kInitiatorFlag else 0) ++
      (beBytes 8 identity.clusterIdHigh.toNat ++ (beBytes 8 identity.clusterIdLow.toNat ++
        (beBytes 4 identity.nodeId.toNat ++ (beBytes 4 0 ++ (beBytes 8 incarnation.toNat ++
          beBytes 8 nonce.toNat))))))))

/-- The number that stands at an offset. -/
def getNumber (bytes : Bytes) (offset width : ℕ) : ℕ := beValue ((bytes.drop offset).take width)

/-- The fields of a handshake, checked in this order. -/
def parseHandshake (bytes : Bytes) : Except TransportErrorCode Handshake :=
  if bytes.take 8 ≠ kHandshakeMagic then .error .protocolError
  else if getNumber bytes 8 2 ≠ protocolVersion then .error .wrongVersion
  else if getNumber bytes 10 2 ≠ kHandshakeBytes ∨ getNumber bytes 36 4 ≠ 0 then
    .error .protocolError
  else
    let flags := getNumber bytes 12 4
    if flags &&& (2 ^ 32 - 1 - kInitiatorFlag) ≠ 0 then .error .protocolError
    else .ok {
      identity := {
        clusterIdHigh := .ofNat (getNumber bytes 16 8)
        clusterIdLow := .ofNat (getNumber bytes 24 8)
        nodeId := .ofNat (getNumber bytes 32 4) }
      incarnation := .ofNat (getNumber bytes 40 8)
      nonce := .ofNat (getNumber bytes 48 8)
      initiator := decide (flags &&& kInitiatorFlag ≠ 0) }

/-- The number at an offset behind other bytes. -/
theorem getNumber_append {bytes front rest : Bytes} {offset width value : ℕ}
    (hsplit : bytes = front ++ (beBytes width value ++ rest)) (hoffset : front.length = offset)
    (hvalue : value < 256 ^ width) : getNumber bytes offset width = value := by
  unfold getNumber
  rw [hsplit, List.drop_left' hoffset, List.take_left' (length_beBytes _ _), beValue_eq, beBytes,
    List.reverse_reverse, Wire.leValue_leBytes hvalue]

/-- **A handshake is read back.** -/
theorem parseHandshake_make (identity : TcpIdentity) (incarnation nonce : UInt64)
    (initiator : Bool) : parseHandshake (makeHandshake identity incarnation nonce initiator) =
      .ok ⟨identity, incarnation, nonce, initiator⟩ := by
  have hu64 : ∀ x : UInt64, x.toNat < 256 ^ 8 := fun x => x.toNat_lt
  have hu32 : identity.nodeId.toNat < 256 ^ 4 := identity.nodeId.toNat_lt
  generalize hbytes : makeHandshake identity incarnation nonce initiator = bytes
  have hsplit := hbytes.symm
  unfold makeHandshake at hsplit
  have hmagic : bytes.take 8 = kHandshakeMagic := by
    rw [hsplit]
    exact List.take_left' rfl
  have hversion : getNumber bytes 8 2 = protocolVersion :=
    getNumber_append hsplit rfl (by decide)
  rw [← List.append_assoc] at hsplit
  have hsize : getNumber bytes 10 2 = kHandshakeBytes :=
    getNumber_append hsplit (by simp [length_beBytes, kHandshakeMagic]) (by decide)
  rw [← List.append_assoc] at hsplit
  have hflags : getNumber bytes 12 4 = if initiator then kInitiatorFlag else 0 :=
    getNumber_append hsplit (by simp [length_beBytes, kHandshakeMagic]) (by
      split_ifs <;> decide)
  rw [← List.append_assoc] at hsplit
  have hhigh : getNumber bytes 16 8 = identity.clusterIdHigh.toNat :=
    getNumber_append hsplit (by simp [length_beBytes, kHandshakeMagic]) (hu64 _)
  rw [← List.append_assoc] at hsplit
  have hlow : getNumber bytes 24 8 = identity.clusterIdLow.toNat :=
    getNumber_append hsplit (by simp [length_beBytes, kHandshakeMagic]) (hu64 _)
  rw [← List.append_assoc] at hsplit
  have hnode : getNumber bytes 32 4 = identity.nodeId.toNat :=
    getNumber_append hsplit (by simp [length_beBytes, kHandshakeMagic]) hu32
  rw [← List.append_assoc] at hsplit
  have hreserved : getNumber bytes 36 4 = 0 :=
    getNumber_append hsplit (by simp [length_beBytes, kHandshakeMagic]) (by decide)
  rw [← List.append_assoc] at hsplit
  have hincarnation : getNumber bytes 40 8 = incarnation.toNat :=
    getNumber_append hsplit (by simp [length_beBytes, kHandshakeMagic]) (hu64 _)
  rw [← List.append_assoc, ← List.append_nil (beBytes 8 nonce.toNat)] at hsplit
  have hnonce : getNumber bytes 48 8 = nonce.toNat :=
    getNumber_append hsplit (by simp [length_beBytes, kHandshakeMagic]) (hu64 _)
  unfold parseHandshake
  rw [if_neg (by simp [hmagic]), if_neg (by simp [hversion]), if_neg (by simp [hsize, hreserved]),
    hflags, hhigh, hlow, hnode, hincarnation, hnonce]
  cases initiator <;> simp [kInitiatorFlag]

/-! ### Connections and peers -/

/-- What both sides know of a connection; the greater key wins. -/
structure ConnectionKey where
  lowerNodeIncarnation : UInt64 := 0
  higherNodeIncarnation : UInt64 := 0
  initiator : NodeId := 0
  nonce : UInt64 := 0
  deriving DecidableEq

/-- The fields are compared from the first to the last. -/
def keyLess (lhs rhs : ConnectionKey) : Bool :=
  decide (lhs.lowerNodeIncarnation < rhs.lowerNodeIncarnation ∨
    lhs.lowerNodeIncarnation = rhs.lowerNodeIncarnation ∧
      (lhs.higherNodeIncarnation < rhs.higherNodeIncarnation ∨
        lhs.higherNodeIncarnation = rhs.higherNodeIncarnation ∧
          (lhs.initiator < rhs.initiator ∨
            lhs.initiator = rhs.initiator ∧ lhs.nonce < rhs.nonce)))

/-- A descriptor. -/
abbrev Socket := ℕ

/-- A frame in the queue of a peer. -/
structure OutboundFrame where
  wireBytes : Bytes
  offset : ℕ := 0
  /-- Which of the accepted frames it is. -/
  ticket : ℕ
  deriving DecidableEq

/-- How far a connection has come. -/
inductive ConnectionPhase where
  | connecting
  | handshake
  | established
  deriving DecidableEq, Repr

/-- One connection, ours or the other side's. -/
structure Connection where
  /-- None once it is closed. -/
  socket : Option Socket
  phase : ConnectionPhase := .handshake
  outbound : Bool
  expectedPeer : Option NodeId := none
  localNonce : UInt64
  localHandshake : Bytes
  handshakeSent : ℕ := 0
  /-- What has been received of it. -/
  remoteHandshake : Bytes := []
  peer : NodeId := 0
  peerIncarnation : UInt64 := 0
  key : ConnectionKey := {}
  /-- A closed connection is taken from the list at the next round of the loop. -/
  erased : Bool := false
  /-- What has been written to it behind the handshake. -/
  written : Bytes := []
  /-- The frames that have been written to it to their ends. -/
  whole : List ℕ := []
  deriving DecidableEq

/-- What is known about a peer, and what waits for it. -/
structure PeerState where
  hasOutboundEndpoint : Bool := false
  partitioned : Bool := false
  connected : Bool := false
  activeSocket : Option Socket := none
  activeKey : ConnectionKey := {}
  peerIncarnation : UInt64 := 0
  outbound : List OutboundFrame := []
  queuedBytes : ℕ := 0
  deriving DecidableEq

/-- What the transport tells its owner. -/
inductive EventKind where
  | peerUp
  | peerDown
  | message
  | peerRejected
  | transportError
  deriving DecidableEq, Repr

/-- A report to the owner. -/
structure Event where
  kind : EventKind
  peer : NodeId
  peerIncarnation : UInt64
  error : TransportErrorCode := .none
  deriving DecidableEq

/-- What `send` says about a frame. -/
inductive SendStatus where
  | queued
  | wouldBlock
  | down
  | error
  deriving DecidableEq, Repr

/-- The answer of `send`. -/
structure SendResult where
  status : SendStatus
  error : TransportErrorCode
  peerQueuedBytes : ℕ
  deriving DecidableEq

/-- Where a peer listens. -/
structure PeerEndpoint where
  nodeId : NodeId
  port : ℕ := 0
  deriving DecidableEq

/-- What `connect` answers: the connection is there, will be there, or fails. -/
inductive ConnectAnswer where
  | atOnce
  | pending
  | failed
  deriving DecidableEq

/-- The incarnation has been chosen: it is not zero. -/
structure Config where
  identity : TcpIdentity
  incarnation : UInt64
  peers : List PeerEndpoint
  limits : TcpTransportLimits := {}
  maxInboundEvents : ℕ := 1024
  maxPendingConnections : ℕ := 32
  deriving DecidableEq

/-- Our own id. -/
def Config.nodeId (config : Config) : NodeId := config.identity.nodeId.toNat

/-- **The transport.** The connections are kept in the order of their creation. -/
structure Transport where
  config : Config
  peers : OrdMap NodeId PeerState
  connections : OrdMap ℕ Connection := ∅
  created : ℕ := 0
  events : List Event := []
  totalQueuedBytes : ℕ := 0
  nextNonce : UInt64 := 1
  running : Bool := true
  fatalError : Bool := false
  /-- The frames that `send` has accepted, with their peers. -/
  accepted : List (NodeId × Bytes) := []
  deriving DecidableEq

namespace Transport

/-- A transport that has been started. -/
def start (config : Config) : Transport where
  config
  peers := config.peers.foldl
    (fun peers endpoint =>
      peers.insert endpoint.nodeId { hasOutboundEndpoint := decide (endpoint.port ≠ 0) }) ∅

/-- At the start a peer has no connection and nothing in its queue. -/
theorem eq_of_find_start {config : Config} {id : NodeId} {p : PeerState}
    (hp : (start config).peers.find id = some p) :
    ∃ endpoint, p = { hasOutboundEndpoint := endpoint } := by
  have hpeers : ∀ (endpoints : List PeerEndpoint) (peers : OrdMap NodeId PeerState),
      (∀ id p, peers.find id = some p → ∃ endpoint, p = { hasOutboundEndpoint := endpoint }) →
      ∀ id p, (endpoints.foldl (fun peers endpoint => peers.insert endpoint.nodeId
        { hasOutboundEndpoint := decide (endpoint.port ≠ 0) }) peers).find id = some p →
          ∃ endpoint, p = { hasOutboundEndpoint := endpoint } := by
    intro endpoints
    induction endpoints with
    | nil => exact fun peers h => h
    | cons endpoint rest ih => exact fun peers h => ih _ (OrdMap.forall_insert ⟨_, rfl⟩ h)
  exact hpeers config.peers ∅ (by simp) id p hp

/-! ### What the owner does -/

/-- A frame behind its length. -/
def wireOf (codecFrame : Bytes) : Bytes :=
  beBytes kLengthPrefixBytes codecFrame.length ++ codecFrame

/-- Queues a frame for a connected peer. -/
def send (t : Transport) (peerId : NodeId) (codecFrame : Bytes) : SendResult × Transport :=
  if codecFrame = [] ∨ t.config.limits.maxFrameBytes < codecFrame.length ∨
      maxU32 < codecFrame.length then
    (⟨.error, .frameTooLarge, 0⟩, t)
  else
    let wireSize := kLengthPrefixBytes + codecFrame.length
    match t.peers.find peerId with
    | none => (⟨.error, .unknownPeer, 0⟩, t)
    | some peer =>
      if t.fatalError then (⟨.error, .ioError, peer.queuedBytes⟩, t)
      else if peer.partitioned then (⟨.down, .partitioned, peer.queuedBytes⟩, t)
      else if t.running = false ∨ peer.connected = false then
        (⟨.down, .connectionDown, peer.queuedBytes⟩, t)
      else if t.config.limits.maxOutboundBytesPerPeer < wireSize ∨
          t.config.limits.maxTotalOutboundBytes < wireSize ∨
          t.config.limits.maxOutboundBytesPerPeer - wireSize < peer.queuedBytes ∨
          t.config.limits.maxTotalOutboundBytes - wireSize < t.totalQueuedBytes then
        (⟨.wouldBlock, .queueFull, peer.queuedBytes⟩, t)
      else
        (⟨.queued, .none, peer.queuedBytes + wireSize⟩,
          { t with
            peers := t.peers.insert peerId { peer with
              outbound := peer.outbound ++
                [{ wireBytes := wireOf codecFrame, ticket := t.accepted.length }]
              queuedBytes := peer.queuedBytes + wireSize }
            totalQueuedBytes := t.totalQueuedBytes + wireSize
            accepted := t.accepted ++ [(peerId, wireOf codecFrame)] })

/-- A partition drops the queue and the messages that were not polled. -/
def setPeerPartitioned (t : Transport) (peerId : NodeId) (partitioned : Bool) : Transport :=
  match t.peers.find peerId with
  | none => t
  | some peer =>
    if peer.partitioned = partitioned then t
    else if partitioned = false then
      { t with peers := t.peers.insert peerId { peer with partitioned } }
    else
      { t with
        peers := t.peers.insert peerId { peer with partitioned, outbound := [], queuedBytes := 0 }
        totalQueuedBytes := t.totalQueuedBytes - peer.queuedBytes
        events := t.events.filter fun event =>
          !(decide (event.peer = peerId) && decide (event.kind = .message)) }

/-! ### What the I/O thread does -/

/-- A report is lost when the owner has too many. -/
def report (t : Transport) (event : Event) : Transport :=
  if t.config.maxInboundEvents ≤ t.events.length then t
  else { t with events := t.events ++ [event] }

section

variable (t : Transport) (event : Event)
include t event

@[simp] theorem peers_report : (t.report event).peers = t.peers := by
  unfold report
  split_ifs <;> rfl

@[simp] theorem connections_report : (t.report event).connections = t.connections := by
  unfold report
  split_ifs <;> rfl

@[simp] theorem config_report : (t.report event).config = t.config := by
  unfold report
  split_ifs <;> rfl

@[simp] theorem accepted_report : (t.report event).accepted = t.accepted := by
  unfold report
  split_ifs <;> rfl

@[simp] theorem created_report : (t.report event).created = t.created := by
  unfold report
  split_ifs <;> rfl

end

/-- A new connection starts frames from the beginning. -/
def resetOutboundOffsets (peer : PeerState) : PeerState :=
  { peer with outbound := peer.outbound.map fun frame => { frame with offset := 0 } }

/-- The frames of a peer outlive its connection. -/
def closeConnection (t : Transport) (serial : ℕ) (error : TransportErrorCode) (notify : Bool) :
    Transport :=
  match t.connections.find serial with
  | none => t
  | some c =>
    let t := { t with connections := t.connections.insert serial { c with socket := none } }
    if c.phase ≠ .established then t
    else
      match t.peers.find c.peer with
      | none => t
      | some peer =>
        if peer.activeSocket ≠ c.socket then t
        else
          let t := { t with peers := t.peers.insert c.peer (resetOutboundOffsets
            { peer with connected := false, activeSocket := none }) }
          if notify then t.report ⟨.peerDown, c.peer, c.peerIncarnation, error⟩ else t

/-- Before the handshake is complete, no peer knows of the connection. -/
theorem closeConnection_of_phase {t : Transport} {serial : ℕ} {c : Connection}
    (hc : t.connections.find serial = some c) (hphase : c.phase ≠ .established)
    (error : TransportErrorCode) (notify : Bool) : t.closeConnection serial error notify =
      { t with connections := t.connections.insert serial { c with socket := none } } := by
  unfold closeConnection
  simp only [hc]
  exact if_pos hphase

/-- The number of connections in the list. -/
def pending (t : Transport) : ℕ :=
  (t.connections.entries.filter fun entry => entry.2.erased = false).length

/-- A peer that we have or try a connection to. -/
def hasConnectionFor (t : Transport) (peer : NodeId) : Bool :=
  t.connections.entries.any fun entry =>
    entry.2.socket.isSome && (decide (entry.2.expectedPeer = some peer) ||
      (decide (entry.2.phase = .established) && decide (entry.2.peer = peer)))

/-- No two open connections have the same socket. -/
def socketFree (t : Transport) (socket : Socket) : Bool :=
  t.connections.entries.all fun entry => decide (entry.2.socket ≠ some socket)

/-- The nonce of the next connection; zero is passed over. -/
def takeNonce (t : Transport) : UInt64 × Transport :=
  if t.nextNonce = 0 then (1, { t with nextNonce := 2 })
  else (t.nextNonce, { t with nextNonce := t.nextNonce + 1 })

/-- A connection gets the next number. -/
def push (t : Transport) (c : Connection) : Transport :=
  { t with connections := t.connections.insert t.created c, created := t.created + 1 }

/-- One round of `attempt_outgoing`, with the socket that the system gives, and the answer of
`connect`. The nonce is used up also when the connection fails. -/
def attemptOutgoing (t : Transport) (peerId : NodeId) (socket : Socket) (answer : ConnectAnswer) :
    Transport :=
  match t.peers.find peerId with
  | none => t
  | some peer =>
    if peer.hasOutboundEndpoint = false ∨ t.hasConnectionFor peerId = true ∨
        peer.connected = true ∨ peer.partitioned = true ∨
        t.config.maxPendingConnections ≤ t.pending ∨ t.socketFree socket = false then t
    else
      let (nonce, t) := t.takeNonce
      if answer = .failed then t
      else
        t.push {
          socket := some socket
          phase := if answer = .atOnce then .handshake else .connecting
          outbound := true
          expectedPeer := some peerId
          localNonce := nonce
          localHandshake := makeHandshake t.config.identity t.config.incarnation nonce true }

/-- The other side connects. -/
def acceptConnection (t : Transport) (socket : Socket) : Transport :=
  if t.socketFree socket = false then t
  else if t.config.maxPendingConnections ≤ t.pending then
    t.report ⟨.peerRejected, 0, 0, .protocolError⟩
  else
    let (nonce, t) := t.takeNonce
    t.push {
      socket := some socket
      outbound := false
      localNonce := nonce
      localHandshake := makeHandshake t.config.identity t.config.incarnation nonce false }

/-- The connection is there, or some bytes of the handshake go out or come in. -/
def handshakeProgress (t : Transport) (serial : ℕ) (sent : ℕ) (received : Bytes) : Transport :=
  match t.connections.find serial with
  | none => t
  | some c =>
    if c.socket = none ∨ c.phase = .established then t
    else
      { t with connections := t.connections.insert serial { c with
          phase := .handshake
          handshakeSent := min kHandshakeBytes (c.handshakeSent + sent)
          remoteHandshake := (c.remoteHandshake ++ received).take kHandshakeBytes } }

/-- Who the other side may be. -/
def validateRemote (t : Transport) (c : Connection) (remote : Handshake) : TransportErrorCode :=
  if remote.initiator = c.outbound ∨ remote.incarnation = 0 ∨
      (remote.initiator = true ∧ remote.nonce = 0) then .protocolError
  else if remote.identity.clusterIdHigh ≠ t.config.identity.clusterIdHigh ∨
      remote.identity.clusterIdLow ≠ t.config.identity.clusterIdLow then .wrongCluster
  else if remote.identity.nodeId = t.config.identity.nodeId then .selfPeer
  else if (t.peers.find remote.identity.nodeId.toNat).isNone then .unknownPeer
  else if (c.expectedPeer.any fun peer => decide (peer ≠ remote.identity.nodeId.toNat)) then
    .unknownPeer
  else .none

/-- The key of a connection, the same on both sides. -/
def connectionKey (t : Transport) (c : Connection) (remote : Handshake) : ConnectionKey where
  lowerNodeIncarnation :=
    if t.config.identity.nodeId < remote.identity.nodeId then t.config.incarnation
    else remote.incarnation
  higherNodeIncarnation :=
    if t.config.identity.nodeId < remote.identity.nodeId then remote.incarnation
    else t.config.incarnation
  initiator := if c.outbound then t.config.nodeId else remote.identity.nodeId.toNat
  nonce := if c.outbound then c.localNonce else remote.nonce

/-- A connection becomes the active one of its peer; the one before it is closed. -/
def establish (t : Transport) (serial : ℕ) (c : Connection) (peer : PeerState) : Transport :=
  let replaced := if peer.connected then peer.activeSocket else none
  let connections := t.connections.mapValues fun existing =>
    if existing.socket = replaced then { existing with socket := none } else existing
  ({ t with
    peers := t.peers.insert c.peer (resetOutboundOffsets { peer with
      connected := true
      activeSocket := c.socket
      activeKey := c.key
      peerIncarnation := c.peerIncarnation })
    connections := connections.insert serial { c with phase := .established } }).report
      ⟨.peerUp, c.peer, c.peerIncarnation, .none⟩

/-- **A handshake is complete.** -/
def finishHandshake (t : Transport) (serial : ℕ) : Transport :=
  match t.connections.find serial with
  | none => t
  | some c =>
    if c.socket = none ∨ c.phase ≠ .handshake ∨ c.handshakeSent ≠ kHandshakeBytes ∨
        c.remoteHandshake.length ≠ kHandshakeBytes then t
    else
      match parseHandshake c.remoteHandshake with
      | .error error =>
        (t.report ⟨.peerRejected, 0, 0, error⟩).closeConnection serial error false
      | .ok remote =>
        let error := t.validateRemote c remote
        if error ≠ .none then
          (t.report ⟨.peerRejected, remote.identity.nodeId.toNat, remote.incarnation, error⟩
            ).closeConnection serial error false
        else
          let c := { c with
            peer := remote.identity.nodeId.toNat
            peerIncarnation := remote.incarnation
            key := t.connectionKey c remote }
          let t := { t with connections := t.connections.insert serial c }
          match t.peers.find c.peer with
          | none => t
          | some peer =>
            if peer.partitioned then t.closeConnection serial .partitioned false
            else if peer.connected = true ∧ keyLess peer.activeKey c.key = false then
              (t.report ⟨.peerRejected, c.peer, c.peerIncarnation, .duplicatePeer⟩
                ).closeConnection serial .duplicatePeer false
            else t.establish serial c peer

/-- Bytes of the first frame in the queue go to the active connection. How many, the system
decides. -/
def writeFrame (t : Transport) (serial : ℕ) (count : ℕ) : Transport :=
  match t.connections.find serial with
  | none => t
  | some c =>
    match t.peers.find c.peer with
    | none => t
    | some peer =>
      if c.phase ≠ .established ∨ c.socket = none ∨ peer.connected = false ∨
          peer.activeSocket ≠ c.socket then t
      else
        match peer.outbound with
        | [] => t
        | frame :: rest =>
          if count = 0 ∨ frame.wireBytes.length < frame.offset + count then t
          else
            let bytes := (frame.wireBytes.drop frame.offset).take count
            if frame.offset + count = frame.wireBytes.length then
              { t with
                peers := t.peers.insert c.peer { peer with
                  outbound := rest
                  queuedBytes := peer.queuedBytes - frame.wireBytes.length }
                totalQueuedBytes := t.totalQueuedBytes - frame.wireBytes.length
                connections := t.connections.insert serial { c with
                  written := c.written ++ bytes
                  whole := c.whole ++ [frame.ticket] } }
            else
              { t with
                peers := t.peers.insert c.peer { peer with
                  outbound := { frame with offset := frame.offset + count } :: rest }
                connections := t.connections.insert serial
                  { c with written := c.written ++ bytes } }

/-- Closed connections are taken from the list. -/
def sweep (t : Transport) : Transport :=
  { t with connections := t.connections.mapValues fun c =>
      if c.socket = none then { c with erased := true } else c }

/-- The loop of the I/O thread ends. -/
def finish (t : Transport) : Transport :=
  { t with
    connections := t.connections.mapValues fun c => { c with socket := none }
    peers := t.peers.mapValues fun peer =>
      { peer with connected := false, activeSocket := none, outbound := [], queuedBytes := 0 }
    totalQueuedBytes := 0
    running := false }

end Transport

/-! ### Runs -/

/-- A stretch of one of the threads. -/
inductive Step where
  | send (peer : NodeId) (codecFrame : Bytes)
  | setPeerPartitioned (peer : NodeId) (partitioned : Bool)
  | poll (maximum : ℕ)
  | attemptOutgoing (peer : NodeId) (socket : Socket) (answer : ConnectAnswer)
  | acceptConnection (socket : Socket)
  | handshakeProgress (serial sent : ℕ) (received : Bytes)
  | finishHandshake (serial : ℕ)
  | writeFrame (serial count : ℕ)
  | closeConnection (serial : ℕ) (error : TransportErrorCode) (notify : Bool)
  | sweep
  | fail
  | finish
  deriving DecidableEq

/-- One step of the event loop or its owner. -/
def Transport.step (t : Transport) : Step → Transport
  | .send peer codecFrame => (t.send peer codecFrame).2
  | .setPeerPartitioned peer partitioned => t.setPeerPartitioned peer partitioned
  | .poll maximum => { t with events := t.events.drop maximum }
  | .attemptOutgoing peer socket answer => t.attemptOutgoing peer socket answer
  | .acceptConnection socket => t.acceptConnection socket
  | .handshakeProgress serial sent received => t.handshakeProgress serial sent received
  | .finishHandshake serial => t.finishHandshake serial
  | .writeFrame serial count => t.writeFrame serial count
  | .closeConnection serial error notify => t.closeConnection serial error notify
  | .sweep => t.sweep
  | .fail => { t with fatalError := true }.report ⟨.transportError, 0, 0, .ioError⟩
  | .finish => t.finish

/-- Step after step. -/
def Transport.run (t : Transport) (steps : List Step) : Transport := steps.foldl Transport.step t

end Tcp

end DetLog
