import Synapse.Crypto.Handshake
import Synapse.P2P.Message
import Synapse.P2P.Pool
import Synapse.Topology.Manager

/-!
# The node (`Network` in `reputation.go`)

A `Network` is a state machine. Its goroutines (the accept loop, one task per connection
running `handleConnectionWithEncryption`, the pool's sweeper) and the calls of `Start` and
`Stop` change the state in steps, and `Action` lists them with what the world supplies: the
line a socket read returned, the clock, whether a write went through. A step is one
goroutine's work between two reads of a socket, taken as atomic. Closing a socket or
cancelling the context stops a task at its next read, but a read already under way may
still return a line, so a task may read in any state; `readEnd` is the read that fails. On a
node `Start` never ran, `n.ctx` is `nil` and the first `select` of `readMessages` panics,
which ends the process: there the model takes no read step.

A step also reports `Event`s: what `VerifyHandshakeMessage` accepted, what a HELLO named,
what `Start` and `Stop` returned. They are not part of the node; the theorems about who is
registered are stated against them. Writes to sockets change nothing the model keeps; a
handler's writes are returned by `processMessage`.
-/

namespace Synapse.P2P

open Synapse.Json Synapse.Crypto

/-- The readings of `time.Now()` a step makes. -/
structure Clock where
  /-- `time.Now().Unix()`. -/
  unix : Int
  /-- `time.Now().UnixNano()`. -/
  unixNano : Int
  /-- `time.Now()`. -/
  wall : Time

/-- The clock at the start of 2024, UTC. -/
def clock2024 : Clock :=
  ⟨1704067200, 1704067200000000000,
    ⟨2024, 1, 1, 0, 0, 0, 0, 0, by decide, by decide, by decide, by decide, by decide, by decide⟩⟩

/-- `NewMessage`: the id is the type, a dash and the clock in nanoseconds. -/
def newMessage (msgType sender : Bytes) (payload : Value) (clock : Clock) : Message :=
  ⟨msgType, msgType ++ 0x2D :: intLiteral clock.unixNano, sender, clock.wall, payload⟩

/-- `n.listener`: `nil`, listening, or closed by `Stop`. -/
inductive Listener where
  | none | listening | closed
  deriving DecidableEq, Repr

/-- Where the task of `handleConnectionWithEncryption` on a connection stands. -/
inductive Phase where
  /-- `performSecureHandshake` is still to run. -/
  | handshake (incoming : Bool)
  /-- In the loop of `readMessages`. -/
  | reading
  /-- Returned, after its deferred teardown. -/
  | finished
  deriving DecidableEq, Repr

/-- A connection's task: its `Connection`'s address and where it stands. -/
structure Task where
  address : Bytes
  phase : Phase
  deriving DecidableEq, Repr

/-- The fields of `Network` the model keeps, and the tasks and sockets of its connections. -/
structure Network where
  nodeID : Bytes
  handshakeMgr : HandshakeManager
  listener : Listener
  /-- Whether `n.ctx` is done. -/
  ctxDone : Bool
  /-- Whether `n.cancel` is set. -/
  hasCancel : Bool
  /-- Whether `shutdownOnce` has run. -/
  shutdownDone : Bool
  peers : GoMap Bytes Peer
  pool : ConnectionPool
  topologyMgr : Topology.Manager
  tasks : GoMap ConnId Task
  /-- The sockets closed so far. -/
  closed : List ConnId
  /-- The identity of the next connection. -/
  nextConn : ConnId

/-- What a step reports. -/
inductive Event where
  /-- `VerifyHandshakeMessage` accepted a message with this `NodeID` on connection `c`. -/
  | verified (id : Bytes) (c : ConnId)
  /-- `handleHelloMessage` read this `NodeID` from a HELLO on connection `c`. -/
  | hello (id : Bytes) (c : ConnId)
  /-- `Start` returned, `nil` when `ok`. -/
  | started (ok : Bool)
  /-- `Stop` returned, `nil` when `ok`. -/
  | stopped (ok : Bool)
  deriving DecidableEq, Repr

namespace Network

/-- `New` with key pair `key`: an empty node. The node id must not be empty. -/
def new (key : KeyId) (nodeID : Bytes) (maxPeers : Int) : Option Network :=
  if nodeID = [] then none else some
    { nodeID, handshakeMgr := ⟨key, nodeID⟩, listener := .none, ctxDone := false,
      hasCancel := false, shutdownDone := false, peers := ∅,
      pool := ConnectionPool.new maxPeers DefaultConnectionTimeout,
      topologyMgr := Topology.Manager.new maxPeers, tasks := ∅, closed := [], nextConn := 0 }

theorem handshakeMgr_of_new {key : KeyId} {nodeID : Bytes} {maxPeers : Int} {n : Network}
    (h : Network.new key nodeID maxPeers = some n) : n.handshakeMgr = ⟨key, nodeID⟩ := by
  unfold Network.new at h
  split at h <;> cases h
  rfl

theorem nodeID_of_new {key : KeyId} {nodeID : Bytes} {maxPeers : Int} {n : Network}
    (h : Network.new key nodeID maxPeers = some n) : n.nodeID = nodeID := by
  unfold Network.new at h
  split at h <;> cases h
  rfl

/-- `Start`, where `listenOk` says whether `net.Listen` succeeded. A fresh context and its
cancel function are made before the listener. -/
def start (n : Network) (listenOk : Bool) : Network × Bool :=
  if n.listener ≠ .none then (n, false)
  else
    ({ n with
        ctxDone := false, hasCancel := true,
        listener := if listenOk then .listening else .none }, listenOk)

/-- `Stop`: its body runs once, under `shutdownOnce`; it closes the pooled connections
and clears `n.peers`. The result says whether it returned `nil`. -/
def stop (n : Network) : Network × Bool :=
  if n.shutdownDone then (n, true)
  else
    ({ n with
        shutdownDone := true, ctxDone := n.ctxDone || n.hasCancel,
        listener := if n.listener = .none then .none else .closed,
        closed := n.pool.connections.keys ++ n.closed, peers := ∅ }, n.listener ≠ .none)

/-- The start of `handleConnectionWithEncryption` on a new connection: `AddConnection`,
and on failure the socket is closed. -/
def openConnection (n : Network) (address : Bytes) (incoming : Bool) (clock : Clock) : Network :=
  let c := n.nextConn
  match n.pool.addConnection ⟨c, address, clock.unixNano⟩ with
  | .error _ => { n with nextConn := c + 1, closed := c :: n.closed }
  | .ok pool =>
    { n with
        nextConn := c + 1, pool := pool, tasks := n.tasks.insert c ⟨address, .handshake incoming⟩ }

/-- A new connection is closed at once, or pooled with its task about to shake hands. -/
theorem openConnection_cases (n : Network) (address : Bytes) (incoming : Bool) (clock : Clock) :
    n.openConnection address incoming clock =
      { n with nextConn := n.nextConn + 1, closed := n.nextConn :: n.closed } ∨
    ∃ pool, n.pool.addConnection ⟨n.nextConn, address, clock.unixNano⟩ = .ok pool ∧
      n.openConnection address incoming clock = { n with
        nextConn := n.nextConn + 1, pool := pool,
        tasks := n.tasks.insert n.nextConn ⟨address, .handshake incoming⟩ } := by
  simp only [openConnection]
  split
  · exact .inl rfl
  · exact .inr ⟨_, ‹_›, rfl⟩

/-- `registerPeer` of `peerID` on connection `c` at time `now`. -/
def registerPeer (n : Network) (peerID : Bytes) (c : ConnId) (address : Bytes) (now : Int) :
    Network :=
  let peer := (newPeer peerID address (ascii "1.0.0") now).setConnection c
  { n with
      peers := n.peers.insert peerID peer, pool := n.pool.addPeer peer,
      topologyMgr := n.topologyMgr.addPeer ⟨peer.id, peer.address, peer.version, peer.lastSeen⟩ now }

/-- `performSecureHandshake` on connection `c`: `line` is what the read returned and
`written` whether our own handshake message went out. The dialer writes first and reads
the answer; the acceptor reads, registers, and answers. The result: the node, the events,
and whether the handshake returned `nil`. -/
def performSecureHandshake (P : Primitives) (n : Network) (c : ConnId) (address : Bytes)
    (incoming : Bool) (line : Bytes) (clock : Clock) (written : Bool) :
    Network × List Event × Bool :=
  if !incoming && !written then (n, [], false) else
  match (receiveHandshakeMessage line).bind fun msg =>
      if (verifyHandshakeMessage P clock.unix msg).toBool then some msg else none with
  | none => (n, [], false)
  | some msg => (n.registerPeer msg.nodeID c address clock.unixNano, [.verified msg.nodeID c], written)

/-- The handshake either changes nothing, or registers the peer its verified message names. -/
theorem performSecureHandshake_cases (P : Primitives) (n : Network) (c : ConnId) (address : Bytes)
    (incoming : Bool) (line : Bytes) (clock : Clock) (written : Bool) :
    n.performSecureHandshake P c address incoming line clock written = (n, [], false) ∨
    ∃ id, n.performSecureHandshake P c address incoming line clock written =
      (n.registerPeer id c address clock.unixNano, [.verified id c], written) := by
  unfold performSecureHandshake
  split
  · exact .inl rfl
  · split
    · exact .inl rfl
    · exact .inr ⟨_, rfl⟩

/-- A handshake whose line reads as a message that verifies registers the id the message
names, and returns whether its own write went out. -/
theorem performSecureHandshake_verified {P : Primitives} {n : Network} {c : ConnId}
    {address : Bytes} {incoming : Bool} {line : Bytes} {clock : Clock} {written : Bool}
    {msg : HandshakeMessage} (hw : incoming = true ∨ written = true)
    (hr : receiveHandshakeMessage line = some msg)
    (hv : verifyHandshakeMessage P clock.unix msg = .ok ()) :
    n.performSecureHandshake P c address incoming line clock written =
      (n.registerPeer msg.nodeID c address clock.unixNano, [.verified msg.nodeID c], written) := by
  have hgo : (!incoming && !written) = false := by rcases hw with rfl | rfl <;> simp
  simp [performSecureHandshake, hgo, hr, hv, Except.toBool]

/-- A handshake whose line reads as no message, or as one that does not verify, changes
nothing and fails. -/
theorem performSecureHandshake_unverified {P : Primitives} {n : Network} {c : ConnId}
    {address : Bytes} {incoming : Bool} {line : Bytes} {clock : Clock} {written : Bool}
    (h : ∀ msg, receiveHandshakeMessage line = some msg →
      verifyHandshakeMessage P clock.unix msg ≠ .ok ()) :
    n.performSecureHandshake P c address incoming line clock written = (n, [], false) := by
  unfold performSecureHandshake
  split
  · rfl
  · split
    · rfl
    · rename_i msg hm
      simp only [Option.bind_eq_some, Option.ite_none_right_eq_some, Option.some.injEq] at hm
      obtain ⟨m, hr, hv, rfl⟩ := hm
      revert hv
      cases hver : verifyHandshakeMessage P clock.unix m with
      | error e => simp [Except.toBool]
      | ok u => exact absurd hver (h m hr)

/-- A task's new phase. -/
def setPhase (n : Network) (c : ConnId) (address : Bytes) (ph : Phase) : Network :=
  { n with tasks := n.tasks.insert c ⟨address, ph⟩ }

/-- The deferred teardown of `handleConnectionWithEncryption`: `RemoveConnection`, then
`conn.Close()`; the task has returned. -/
def teardown (n : Network) (c : ConnId) (address : Bytes) : Network :=
  { n with
      pool := (n.pool.removeConnection c).1, closed := c :: n.closed,
      tasks := n.tasks.insert c ⟨address, .finished⟩ }

/-! ## Handlers -/

/-- What a handler did: the node after it, its events, and the messages it wrote back on
the connection. -/
structure Handled where
  net : Network
  events : List Event
  sent : List Message

/-- `PeerInfo` of a pooled peer as `json.Marshal` writes it. -/
def peerInfoValue (p : Peer) : Value :=
  .obj [(ascii "id", .str p.id), (ascii "address", .str p.address),
    (ascii "version", .str p.version), (ascii "last_seen", .num (Number.ofInt (p.lastSeen / 10 ^ 9)))]

/-- The message `sendPeerList` writes: the pool's peers, in the pool's order. -/
def peerListMessage (n : Network) (clock : Clock) : Message :=
  newMessage MessageTypePeerList n.nodeID
    (.obj [(ascii "peers", .arr (n.pool.peers.entries.map fun e => peerInfoValue e.2))]) clock

/-- `handleHelloMessage`: the payload's node id is bound to this connection in `n.peers`
and in the pool, and the peer list is sent back. -/
def handleHelloMessage (n : Network) (msg : Message) (c : ConnId) (address : Bytes)
    (clock : Clock) : Handled :=
  match helloPayload msg.payload with
  | none => ⟨n, [], []⟩
  | some hp =>
    let peer := (newPeer hp.nodeID address hp.version clock.unixNano).setConnection c
    let n := { n with peers := n.peers.insert hp.nodeID peer, pool := n.pool.addPeer peer }
    ⟨n, [.hello hp.nodeID c], [n.peerListMessage clock]⟩

/-- `handleHeartbeatMessage`: a heartbeat is answered with a heartbeat. -/
def handleHeartbeatMessage (n : Network) (msg : Message) (c : ConnId) (clock : Clock) : Handled :=
  match heartbeatPayload msg.payload with
  | none => ⟨n, [], []⟩
  | some _ =>
    ⟨{ n with pool := n.pool.touch c clock.unixNano }, [],
      [newMessage MessageTypeHeartbeat n.nodeID (HeartbeatPayload.toValue ⟨n.nodeID, clock.unix⟩)
        clock]⟩

/-- `handlePingMessage`: a PONG with the request's id; the map's keys are written sorted. -/
def handlePingMessage (n : Network) (msg : Message) (clock : Clock) : Handled :=
  ⟨n, [], [newMessage MessageTypePong n.nodeID
    (.obj [(ascii "request_id", .str msg.id), (ascii "timestamp", .num (Number.ofInt clock.unix))])
    clock]⟩

/-- `processMessage`. A PEER_LIST or a PONG is only logged, and any other type is queued
on `messageChan`, whose reader only logs it. -/
def processMessage (n : Network) (msg : Message) (c : ConnId) (address : Bytes) (clock : Clock) :
    Handled :=
  if msg.type = MessageTypeHello then n.handleHelloMessage msg c address clock
  else if msg.type = MessageTypeHeartbeat then n.handleHeartbeatMessage msg c clock
  else if msg.type = MessageTypePing then n.handlePingMessage msg clock
  else ⟨n, [], []⟩

/-- One turn of the loop of `readMessages` on the line `data` read from connection `c`. -/
def readMessage (n : Network) (c : ConnId) (address : Bytes) (data : Bytes) (clock : Clock) :
    Handled :=
  let n := { n with pool := n.pool.touch c clock.unixNano }
  match deserializeMessage data with
  | none => ⟨n, [], []⟩
  | some msg =>
    match msg.validate with
    | .error _ => ⟨n, [], []⟩
    | .ok () => n.processMessage msg c address clock

/-- A handler either only touches the connection, or binds the id a HELLO names to it. -/
theorem processMessage_cases (n : Network) (msg : Message) (c : ConnId) (address : Bytes)
    (clock : Clock) :
    let h := n.processMessage msg c address clock
    (h.events = [] ∧ (h.net = n ∨ h.net = { n with pool := n.pool.touch c clock.unixNano })) ∨
    ∃ peer : Peer, peer.connection = some c ∧ h.events = [.hello peer.id c] ∧
      h.net = { n with peers := n.peers.insert peer.id peer, pool := n.pool.addPeer peer } := by
  simp only [processMessage]
  split
  · unfold handleHelloMessage
    split
    · exact .inl ⟨rfl, .inl rfl⟩
    · rename_i hp _
      exact .inr ⟨(newPeer hp.nodeID address hp.version clock.unixNano).setConnection c, rfl, rfl, rfl⟩
  · split
    · unfold handleHeartbeatMessage
      split
      · exact .inl ⟨rfl, .inl rfl⟩
      · exact .inl ⟨rfl, .inr rfl⟩
    · split
      · exact .inl ⟨rfl, .inl rfl⟩
      · exact .inl ⟨rfl, .inl rfl⟩

/-- One turn of `readMessages` touches the connection, and then does what a handler does. -/
theorem readMessage_cases (n : Network) (c : ConnId) (address data : Bytes) (clock : Clock) :
    ∃ msg, n.readMessage c address data clock = ⟨{ n with pool := n.pool.touch c clock.unixNano },
      [], []⟩ ∨
    n.readMessage c address data clock =
      ({ n with pool := n.pool.touch c clock.unixNano } : Network).processMessage msg c address clock := by
  unfold readMessage
  split
  · exact ⟨⟨[], [], [], Time.zero, .null⟩, .inl rfl⟩
  · rename_i msg _
    split
    · exact ⟨msg, .inl rfl⟩
    · exact ⟨msg, .inr rfl⟩

end Network

/-! ## Steps and runs -/

/-- What can happen to a node. -/
inductive Action where
  /-- `Start`; `listenOk` says whether `net.Listen` succeeded. -/
  | start (listenOk : Bool)
  | stop
  /-- The accept loop takes a connection. -/
  | accept (address : Bytes) (clock : Clock)
  /-- `Connect` dials one. -/
  | connect (address : Bytes) (clock : Clock)
  /-- A connection's task runs its handshake. -/
  | handshake (c : ConnId) (line : Bytes) (clock : Clock) (written : Bool)
  /-- A connection's task reads a line. -/
  | readLine (c : ConnId) (data : Bytes) (clock : Clock)
  /-- A connection's read fails, or finds the context done. -/
  | readEnd (c : ConnId)
  /-- The pool's sweeper runs `cleanInactiveConnections`. -/
  | sweep (clock : Clock)

namespace Network

/-- One step of the node. -/
def step (P : Primitives) (n : Network) : Action → Network × List Event
  | .start ok => ((n.start ok).1, [.started (n.start ok).2])
  | .stop => (n.stop.1, [.stopped n.stop.2])
  | .accept address clock =>
    (if n.listener = .listening then n.openConnection address true clock else n, [])
  | .connect address clock => (n.openConnection address false clock, [])
  | .handshake c line clock written =>
    match n.tasks.lookup c with
    | some ⟨address, .handshake incoming⟩ =>
      let r := n.performSecureHandshake P c address incoming line clock written
      (if r.2.2 then r.1.setPhase c address .reading else r.1.teardown c address, r.2.1)
    | _ => (n, [])
  | .readLine c data clock =>
    match n.hasCancel, n.tasks.lookup c with
    | true, some ⟨address, .reading⟩ =>
      let h := n.readMessage c address data clock
      (h.net, h.events)
    | _, _ => (n, [])
  | .readEnd c =>
    match n.hasCancel, n.tasks.lookup c with
    | true, some ⟨address, .reading⟩ => (n.teardown c address, [])
    | _, _ => (n, [])
  | .sweep clock =>
    if n.listener = .none then (n, [])
    else
      let r := n.pool.cleanInactiveConnections clock.unixNano
      ({ n with pool := r.1, closed := r.2 ++ n.closed }, [])

/-- A task that reads, on a started node, handles the line it read. -/
theorem step_readLine (P : Primitives) {n : Network} {c : ConnId} {address : Bytes}
    (hc : n.hasCancel = true) (hl : n.tasks.lookup c = some ⟨address, .reading⟩) (data : Bytes)
    (clock : Clock) :
    n.step P (.readLine c data clock) =
      ((n.readMessage c address data clock).net, (n.readMessage c address data clock).events) := by
  simp only [step, hc, hl]

/-- A run: the node after the actions, and every event, in order. -/
def run (P : Primitives) : Network → List Action → Network × List Event
  | n, [] => (n, [])
  | n, a :: as => ((run P (n.step P a).1 as).1, (n.step P a).2 ++ (run P (n.step P a).1 as).2)

@[simp] theorem run_nil (P : Primitives) (n : Network) : run P n [] = (n, []) := rfl

@[simp] theorem run_cons (P : Primitives) (n : Network) (a : Action) (as : List Action) :
    run P n (a :: as) =
      ((run P (n.step P a).1 as).1, (n.step P a).2 ++ (run P (n.step P a).1 as).2) := rfl

/-- A run of `as ++ bs` is the run of `as`, then the run of `bs` from where it ended. -/
theorem run_append (P : Primitives) (n : Network) (as bs : List Action) :
    run P n (as ++ bs) =
      ((run P (run P n as).1 bs).1, (run P n as).2 ++ (run P (run P n as).1 bs).2) := by
  induction as generalizing n with
  | nil => rfl
  | cons a as ih => simp [ih]

variable {P : Primitives}

/-- A property of a node and the events so far that every step of a kind keeps holds after
every run of steps of that kind. -/
theorem run_induction (Good : Action → Prop) (Inv : Network → List Event → Prop)
    (hstep : ∀ n evs a, Good a → Inv n evs → Inv (n.step P a).1 (evs ++ (n.step P a).2))
    (n : Network) (evs : List Event) (h : Inv n evs) (acts : List Action)
    (hacts : ∀ a ∈ acts, Good a) : Inv (run P n acts).1 (evs ++ (run P n acts).2) := by
  induction acts generalizing n evs with
  | nil => simpa using h
  | cons a as ih =>
    simpa [List.append_assoc] using
      ih _ _ (hstep n evs a (hacts a (List.mem_cons_self _ _)) h) fun b hb =>
        hacts b (List.mem_cons_of_mem _ hb)

end Network

end Synapse.P2P
