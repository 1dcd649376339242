import Synapse.P2P.Network
import Synapse.P2P.Serialization

/-!
# Who is registered, and on which connection

A node keeps three registries: `n.peers`, the pool's peer map and the topology manager's.
`registerPeer` writes all three once a handshake verifies; `handleHelloMessage` writes the
first two with whatever id the HELLO names; teardown and the sweep remove connections and
leave the peers; `Stop` clears `n.peers` only. `Invariant` says what holds of every node a
run reaches, together with the events of the run: a peer is only ever bound to a connection
whose handshake verified, and bound under the verified id or one a HELLO on it named; the
registries are nested; and a bound connection is pooled or closed.
-/

namespace Synapse.P2P.Network

open Synapse.Crypto

/-- Peer `id` is bound to connection `c`: the `Peer` that `n.peers` or the pool's peer map
holds for `id` has `c` as its `Connection`. -/
def Binds (n : Network) (id : Bytes) (c : ConnId) : Prop :=
  (n.peers.lookup id).bind Peer.connection = some c ∨
    (n.pool.peers.lookup id).bind Peer.connection = some c

instance (n : Network) (id : Bytes) (c : ConnId) : Decidable (n.Binds id c) :=
  inferInstanceAs (Decidable (_ ∨ _))

/-- Connection `c`'s task is in the loop of `readMessages`. -/
def Reading (n : Network) (c : ConnId) : Prop :=
  ∃ address, n.tasks.lookup c = some ⟨address, .reading⟩

/-- Connection `c`'s task has not returned. -/
def Active (n : Network) (c : ConnId) : Prop :=
  ∃ t : Task, n.tasks.lookup c = some t ∧ t.phase ≠ .finished

theorem Reading.active {n : Network} {c : ConnId} (h : n.Reading c) : n.Active c :=
  let ⟨_, h⟩ := h
  ⟨_, h, nofun⟩

/-- Connection `c` is in the pool, or its socket has been closed. -/
def Live (n : Network) (c : ConnId) : Prop := c ∈ n.pool.connections ∨ c ∈ n.closed

/-- What holds of every node a run reaches, with the events of the run. -/
structure Invariant (n : Network) (evs : List Event) : Prop where
  /-- A peer is bound only to a connection whose handshake verified, and only under the
  verified id or an id a HELLO on that connection named. -/
  binds : ∀ id c, n.Binds id c →
    (∃ id', Event.verified id' c ∈ evs) ∧ (Event.verified id c ∈ evs ∨ Event.hello id c ∈ evs)
  /-- A task reads frames only after its handshake verified. -/
  reading : ∀ c, n.Reading c → ∃ id, Event.verified id c ∈ evs
  peers_sub : ∀ id, id ∈ n.peers → id ∈ n.pool.peers
  topology_sub : ∀ id, id ∈ n.topologyMgr.peers → id ∈ n.pool.peers
  pool_sub : n.shutdownDone = false → ∀ id, id ∈ n.pool.peers → id ∈ n.peers
  /-- The once is used only by a `Stop`. -/
  once : n.shutdownDone = true → ∃ ok, Event.stopped ok ∈ evs
  bound_live : ∀ id c, n.Binds id c → n.Live c
  active_live : ∀ c, n.Active c → n.Live c

variable {n n' : Network} {evs evs' : List Event}

/-- A step that leaves the peer maps and the once alone keeps the invariant, when the tasks
it starts reading were verified, its closed sockets stay closed, and its new tasks are
pooled. -/
theorem Invariant.frame (h : Invariant n evs) (hev : evs ⊆ evs')
    (hpeers : n'.peers = n.peers) (hpool : n'.pool.peers = n.pool.peers)
    (htopo : n'.topologyMgr.peers = n.topologyMgr.peers) (hdone : n'.shutdownDone = n.shutdownDone)
    (hread : ∀ c, n'.Reading c → n.Reading c ∨ ∃ id, Event.verified id c ∈ evs')
    (hlive : ∀ c, n.Live c → n'.Live c)
    (hactive : ∀ c, n'.Active c → n.Active c ∨ c ∈ n'.pool.connections) : Invariant n' evs' := by
  have hb : ∀ id c, n'.Binds id c ↔ n.Binds id c := fun id c => by
    unfold Binds; rw [hpeers, hpool]
  refine ⟨fun id c hc => ?_, fun c hc => ?_, ?_, ?_, ?_, ?_, ?_, ?_⟩
  · obtain ⟨⟨id', h1⟩, h2⟩ := h.binds id c ((hb id c).mp hc)
    exact ⟨⟨id', hev h1⟩, h2.imp (@hev _) (@hev _)⟩
  · rcases hread c hc with hc | hc
    · obtain ⟨id, h1⟩ := h.reading c hc
      exact ⟨id, hev h1⟩
    · exact hc
  · rw [hpeers, hpool]; exact h.peers_sub
  · rw [htopo, hpool]; exact h.topology_sub
  · rw [hdone, hpeers, hpool]; exact h.pool_sub
  · rw [hdone]
    exact fun hd => let ⟨ok, h1⟩ := h.once hd; ⟨ok, hev h1⟩
  · exact fun id c hc => hlive c (h.bound_live id c ((hb id c).mp hc))
  · intro c hc
    rcases hactive c hc with hc | hc
    · exact hlive c (h.active_live c hc)
    · exact .inl hc

theorem Invariant.mono (h : Invariant n evs) (hev : evs ⊆ evs') : Invariant n evs' :=
  h.frame hev rfl rfl rfl rfl (fun _ hc => .inl hc) (fun _ hc => hc) (fun _ hc => .inl hc)

/-- Binding one peer in both maps binds its id to its connection and changes no other id. -/
theorem binds_insert {peer : Peer} (hpeers : n'.peers = n.peers.insert peer.id peer)
    (hpool : n'.pool.peers = n.pool.peers.insert peer.id peer) {id : Bytes} {c : ConnId}
    (h : n'.Binds id c) : n.Binds id c ∨ (id = peer.id ∧ peer.connection = some c) := by
  unfold Binds at h ⊢
  rw [hpeers, hpool] at h
  by_cases e : id = peer.id
  · subst e
    exact .inr ⟨rfl, by simpa [AList.lookup_insert] using h⟩
  · rw [AList.lookup_insert_ne e, AList.lookup_insert_ne e] at h
    exact .inl h

/-! ## Each operation keeps the invariant -/

theorem Invariant.after_start (h : Invariant n evs) (ok : Bool) (hev : evs ⊆ evs') :
    Invariant (n.start ok).1 evs' := by
  unfold Network.start
  split
  · exact h.mono hev
  · exact h.frame hev rfl rfl rfl rfl (fun _ hc => .inl hc) (fun _ hc => hc) (fun _ hc => .inl hc)

theorem Invariant.after_stop (h : Invariant n evs) (ok : Bool) :
    Invariant n.stop.1 (evs ++ [.stopped ok]) := by
  have hev : evs ⊆ evs ++ [.stopped ok] := List.subset_append_left _ _
  unfold Network.stop
  split
  · exact h.mono hev
  have hb : ∀ id c, Binds { n with
      shutdownDone := true, ctxDone := n.ctxDone || n.hasCancel,
      listener := if n.listener = .none then .none else .closed,
      closed := n.pool.connections.keys ++ n.closed, peers := ∅ } id c → n.Binds id c := by
    rintro id c (hc | hc)
    · simp [AList.lookup_empty] at hc
    · exact .inr hc
  have hlive : ∀ c, n.Live c → Live { n with
      shutdownDone := true, ctxDone := n.ctxDone || n.hasCancel,
      listener := if n.listener = .none then .none else .closed,
      closed := n.pool.connections.keys ++ n.closed, peers := ∅ } c :=
    fun c hc => hc.imp id (List.mem_append_right _)
  refine ⟨fun id c hc => ?_, fun c hc => ?_, fun id hc => absurd hc (AList.not_mem_empty _),
    h.topology_sub, nofun, fun _ => ⟨ok, by simp⟩, fun id c hc => ?_, fun c hc => ?_⟩
  · obtain ⟨⟨id', h1⟩, h2⟩ := h.binds id c (hb id c hc)
    exact ⟨⟨id', hev h1⟩, h2.imp (@hev _) (@hev _)⟩
  · obtain ⟨id, h1⟩ := h.reading c hc
    exact ⟨id, hev h1⟩
  · exact hlive c (h.bound_live id c (hb id c hc))
  · exact hlive c (h.active_live c hc)

theorem Invariant.after_openConnection (h : Invariant n evs) (hev : evs ⊆ evs') (address : Bytes)
    (incoming : Bool) (clock : Clock) : Invariant (n.openConnection address incoming clock) evs' := by
  rcases openConnection_cases n address incoming clock with he | ⟨pool, hp, he⟩ <;> rw [he]
  · exact h.frame hev rfl rfl rfl rfl (fun _ hc => .inl hc)
      (fun _ hc => hc.imp id (List.mem_cons_of_mem _)) (fun _ hc => .inl hc)
  · obtain ⟨hpeers, hconns⟩ := ConnectionPool.addConnection_ok hp
    refine h.frame hev rfl hpeers rfl rfl (fun c hc => .inl ?_) (fun c hc => ?_) (fun c hc => ?_)
    · obtain ⟨address', hc⟩ := hc
      by_cases e : c = n.nextConn
      · subst e; simp [AList.lookup_insert] at hc
      · exact ⟨address', by simpa [AList.lookup_insert_ne e] using hc⟩
    · rcases hc with hc | hc
      · exact .inl (by rw [hconns]; exact (AList.mem_insert _).mpr (.inr hc))
      · exact .inr hc
    · by_cases e : c = n.nextConn
      · exact .inr (by rw [hconns, e]; exact (AList.mem_insert _).mpr (.inl rfl))
      · obtain ⟨t, ht, hf⟩ := hc
        exact .inl ⟨t, by simpa [AList.lookup_insert_ne e] using ht, hf⟩

theorem Invariant.after_teardown (h : Invariant n evs) (hev : evs ⊆ evs') (c : ConnId) (address : Bytes) :
    Invariant (n.teardown c address) evs' := by
  refine h.frame hev rfl (ConnectionPool.peers_removeConnection _ _) rfl rfl
    (fun c' hc => .inl ?_) (fun c' hc => ?_) (fun c' hc => .inl ?_)
  · obtain ⟨address', hc⟩ := hc
    by_cases e : c' = c
    · subst e; simp [teardown, AList.lookup_insert] at hc
    · exact ⟨address', by simpa [teardown, AList.lookup_insert_ne e] using hc⟩
  · by_cases e : c' = c
    · exact .inr (by simp [teardown, e])
    · rcases hc with hc | hc
      · exact .inl (ConnectionPool.mem_removeConnection.mpr ⟨e, hc⟩)
      · exact .inr (List.mem_cons_of_mem _ hc)
  · obtain ⟨t, ht, hf⟩ := hc
    by_cases e : c' = c
    · subst e; simp [teardown, AList.lookup_insert] at ht; exact absurd (ht ▸ rfl) hf
    · exact ⟨t, by simpa [teardown, AList.lookup_insert_ne e] using ht, hf⟩

theorem Invariant.after_touch (h : Invariant n evs) (hev : evs ⊆ evs') (c : ConnId) (now : Int) :
    Invariant { n with pool := n.pool.touch c now } evs' :=
  h.frame hev rfl (ConnectionPool.peers_touch _ _ _) rfl rfl (fun _ hc => .inl hc)
    (fun _ hc => hc.imp ConnectionPool.mem_touch.mpr id) (fun _ hc => .inl hc)

theorem Invariant.after_sweep (h : Invariant n evs) (hev : evs ⊆ evs') (now : Int) :
    Invariant { n with
      pool := (n.pool.cleanInactiveConnections now).1,
      closed := (n.pool.cleanInactiveConnections now).2 ++ n.closed } evs' := by
  refine h.frame hev rfl (ConnectionPool.peers_cleanInactiveConnections _ _) rfl rfl
    (fun _ hc => .inl hc) (fun c hc => ?_) (fun _ hc => .inl hc)
  rcases hc with hc | hc
  · by_cases hi : c ∈ (n.pool.cleanInactiveConnections now).2
    · exact .inr (List.mem_append_left _ hi)
    · exact .inl (ConnectionPool.mem_cleanInactiveConnections.mpr ⟨hi, hc⟩)
  · exact .inr (List.mem_append_right _ hc)

theorem Invariant.after_setReading (h : Invariant n evs) (hev : evs ⊆ evs') {c : ConnId}
    (hact : n.Active c) (hv : ∃ id, Event.verified id c ∈ evs') (address : Bytes) :
    Invariant (n.setPhase c address .reading) evs' := by
  refine h.frame hev rfl rfl rfl rfl (fun c' hc => ?_) (fun _ hc => hc) (fun c' hc => .inl ?_)
  · by_cases e : c' = c
    · exact .inr (e ▸ hv)
    · obtain ⟨address', hc⟩ := hc
      exact .inl ⟨address', by simpa [setPhase, AList.lookup_insert_ne e] using hc⟩
  · by_cases e : c' = c
    · exact e ▸ hact
    · obtain ⟨t, ht, hf⟩ := hc
      exact ⟨t, by simpa [setPhase, AList.lookup_insert_ne e] using ht, hf⟩

/-- Binding a peer to the connection of a running task, after that connection's handshake
verified and with the id verified or named by a HELLO on it, keeps the invariant. -/
theorem Invariant.after_bind (h : Invariant n evs) (hev : evs ⊆ evs') {peer : Peer} {c : ConnId}
    (hpeers : n'.peers = n.peers.insert peer.id peer) (hpool : n'.pool = n.pool.addPeer peer)
    (htopo : ∀ id, id ∈ n'.topologyMgr.peers → id = peer.id ∨ id ∈ n.topologyMgr.peers)
    (hdone : n'.shutdownDone = n.shutdownDone) (htasks : n'.tasks = n.tasks)
    (hclosed : n'.closed = n.closed) (hconn : peer.connection = some c) (hact : n.Active c)
    (hauth : ∃ id, Event.verified id c ∈ evs')
    (hwhy : Event.verified peer.id c ∈ evs' ∨ Event.hello peer.id c ∈ evs') : Invariant n' evs' := by
  have hlive : ∀ c, n.Live c → n'.Live c := fun c hc => by
    unfold Live; rwa [hpool, hclosed]
  have hact' : ∀ c, n'.Active c → n.Active c := fun c hc => by
    unfold Active at hc; rwa [htasks] at hc
  have hpool' : n'.pool.peers = n.pool.peers.insert peer.id peer := by rw [hpool]; rfl
  refine ⟨fun id c' hc => ?_, fun c' hc => ?_, fun id hi => ?_, fun id hi => ?_, fun hd id hi => ?_,
    fun hd => ?_, fun id c' hc => ?_, fun c' hc => hlive c' (h.active_live c' (hact' c' hc))⟩
  · rcases binds_insert hpeers hpool' hc with hc | ⟨rfl, he⟩
    · obtain ⟨⟨id', h1⟩, h2⟩ := h.binds id c' hc
      exact ⟨⟨id', hev h1⟩, h2.imp (@hev _) (@hev _)⟩
    · rw [hconn, Option.some.injEq] at he
      exact he ▸ ⟨hauth, hwhy⟩
  · unfold Reading at hc
    rw [htasks] at hc
    obtain ⟨id, h1⟩ := h.reading c' hc
    exact ⟨id, hev h1⟩
  · rw [hpool', AList.mem_insert]
    rw [hpeers, AList.mem_insert] at hi
    exact hi.imp_right (h.peers_sub id)
  · rw [hpool', AList.mem_insert]
    exact (htopo id hi).imp_right (h.topology_sub id)
  · rw [hpeers, AList.mem_insert]
    rw [hpool', AList.mem_insert] at hi
    exact hi.imp_right (h.pool_sub (hdone ▸ hd) id)
  · obtain ⟨ok, h1⟩ := h.once (hdone ▸ hd)
    exact ⟨ok, hev h1⟩
  · rcases binds_insert hpeers hpool' hc with hc | ⟨rfl, he⟩
    · exact hlive c' (h.bound_live id c' hc)
    · rw [hconn, Option.some.injEq] at he
      exact he ▸ hlive c (h.active_live c hact)

theorem Invariant.after_registerPeer (h : Invariant n evs) (hev : evs ⊆ evs') {id : Bytes}
    {c : ConnId} (hact : n.Active c) (hv : Event.verified id c ∈ evs') (address : Bytes) (now : Int) :
    Invariant (n.registerPeer id c address now) evs' :=
  h.after_bind hev
    (show _ = n.peers.insert ((newPeer id address (ascii "1.0.0") now).setConnection c).id _ from rfl)
    rfl (fun _ hi => (AList.mem_insert _).mp hi) rfl rfl rfl rfl hact ⟨id, hv⟩ (.inl hv)

theorem Invariant.after_hello (h : Invariant n evs) (hev : evs ⊆ evs') {peer : Peer} {c : ConnId}
    (hr : n.Reading c) (hconn : peer.connection = some c) (hh : Event.hello peer.id c ∈ evs') :
    Invariant { n with peers := n.peers.insert peer.id peer, pool := n.pool.addPeer peer } evs' :=
  h.after_bind hev rfl rfl (fun _ hi => .inr hi) rfl rfl rfl hconn hr.active
    ((h.reading c hr).imp fun _ h1 => hev h1) (.inr hh)

/-! ## Every step and every run keep it -/

theorem invariant_step (P : Primitives) (h : Invariant n evs) (a : Action) :
    Invariant (n.step P a).1 (evs ++ (n.step P a).2) := by
  have hev : ∀ new : List Event, evs ⊆ evs ++ new := fun _ => List.subset_append_left _ _
  cases a with
  | start ok => exact h.after_start ok (hev _)
  | stop => exact h.after_stop _
  | accept address clock =>
    simp only [step]
    split
    · exact h.after_openConnection (hev _) address true clock
    · exact h.mono (hev _)
  | connect address clock => exact h.after_openConnection (hev _) address false clock
  | handshake c line clock written =>
    simp only [step]
    split
    next address incoming hl =>
      have hact : n.Active c := ⟨_, hl, nofun⟩
      rcases performSecureHandshake_cases P n c address incoming line clock written with he | ⟨id, he⟩
      · simp only [he, Bool.false_eq_true, if_false]
        exact h.after_teardown (hev _) c address
      · simp only [he]
        have hv : Event.verified id c ∈ evs ++ [.verified id c] := by simp
        have h1 := h.after_registerPeer (hev _) hact hv address clock.unixNano
        split
        · exact h1.after_setReading (List.Subset.refl _) hact ⟨id, hv⟩ address
        · exact h1.after_teardown (List.Subset.refl _) c address
    · exact h.mono (hev _)
  | readLine c data clock =>
    simp only [step]
    split
    next address _ hl =>
      have hr : n.Reading c := ⟨address, hl⟩
      have h1 := h.after_touch (hev []) c clock.unixNano
      obtain ⟨msg, he | he⟩ := readMessage_cases n c address data clock <;> rw [he]
      · exact h.after_touch (hev _) c clock.unixNano
      · rcases processMessage_cases ({ n with pool := n.pool.touch c clock.unixNano } : Network)
          msg c address clock with ⟨hevs, hn | hn⟩ | ⟨peer, hconn, hevs, hn⟩ <;> rw [hn, hevs]
        · exact h1
        · exact h1.after_touch (List.Subset.refl _) c clock.unixNano
        · exact h.after_touch (hev _) c clock.unixNano |>.after_hello (List.Subset.refl _) hr hconn
            (by simp)
    · exact h.mono (hev _)
  | readEnd c =>
    simp only [step]
    split
    · exact h.after_teardown (hev _) c _
    · exact h.mono (hev _)
  | sweep clock =>
    simp only [step]
    split
    · exact h.mono (hev _)
    · exact h.after_sweep (hev _) clock.unixNano

/-- Every node a run from `New` reaches satisfies the invariant with the run's events. -/
theorem invariant_run (P : Primitives) {key : KeyId} {nodeID : Bytes} {maxPeers : Int}
    {n0 : Network} (h0 : Network.new key nodeID maxPeers = some n0) (acts : List Action) :
    Invariant (run P n0 acts).1 (run P n0 acts).2 := by
  have init : Invariant n0 [] := by
    unfold Network.new at h0
    split at h0 <;> cases h0
    refine ⟨?_, ?_, ?_, ?_, ?_, nofun, ?_, ?_⟩ <;>
      simp [Binds, Reading, Active, ConnectionPool.new, Topology.Manager.new, AList.not_mem_empty]
  simpa using run_induction (fun _ => True) Invariant (fun _ _ a _ h => invariant_step P h a) n0 []
    init acts (fun _ _ => trivial)

/-! ## The registries of a node -/

/-- **A peer is only ever bound to a connection whose handshake verified, and only under the
id that verified there or an id that a HELLO on that connection named.** -/
theorem bound_peer_authenticated (P : Primitives) {key : KeyId} {nodeID : Bytes} {maxPeers : Int}
    {n0 : Network} (h0 : Network.new key nodeID maxPeers = some n0) (acts : List Action)
    (id : Bytes) (c : ConnId) (hb : (run P n0 acts).1.Binds id c) :
    (∃ id', Event.verified id' c ∈ (run P n0 acts).2) ∧
      (Event.verified id c ∈ (run P n0 acts).2 ∨ Event.hello id c ∈ (run P n0 acts).2) :=
  (invariant_run P h0 acts).binds id c hb

/-- The node starts and dials `A` (key 1), and `A` answers the handshake. -/
def dialA : List Action :=
  [.start true, .connect (ascii "10.0.0.2:9000") clock2024,
    .handshake 0 (sendHandshakeMessage (HandshakeManager.createHandshakeMessage Primitives.ideal
      ⟨1, ascii "A"⟩ clock2024.unix [])) clock2024 true]

/-- After `dialA`, `A` sends a HELLO naming `B`. -/
def helloSpoof : List Action :=
  dialA ++ [.readLine 0 (((newMessage MessageTypeHello (ascii "A")
      (.obj [(ascii "node_id", .str (ascii "B")), (ascii "version", .str (ascii "1.0.0"))])
      clock2024).serialize.getD []) ++ [0x0A]) clock2024]

/-- The node after `dialA`: started, with `A` registered on connection 0, whose task reads. -/
def dialANode (n0 : Network) : Network :=
  (((n0.start true).1.openConnection (ascii "10.0.0.2:9000") false clock2024).registerPeer
      (ascii "A") 0 (ascii "10.0.0.2:9000") clock2024.unixNano).setPhase 0 (ascii "10.0.0.2:9000")
      .reading

/-- The node after `helloSpoof`: `B` bound by the HELLO to the connection `A` verified on. -/
def helloSpoofNode (n0 : Network) : Network :=
  let n : Network := { dialANode n0 with pool := (dialANode n0).pool.touch 0 clock2024.unixNano }
  let peer := (newPeer (ascii "B") (ascii "10.0.0.2:9000") (ascii "1.0.0")
    clock2024.unixNano).setConnection 0
  { n with peers := n.peers.insert (ascii "B") peer, pool := n.pool.addPeer peer }

/-- The run of `dialA`, step by step: `Start` succeeds, and the handshake line reads back and
verifies. -/
theorem run_dialA {n0 : Network} (h0 : Network.new 0 (ascii "N") 50 = some n0) :
    run Primitives.ideal n0 dialA = (dialANode n0, [.started true, .verified (ascii "A") 0]) := by
  have hs : (n0.start true).2 = true := by cases h0; rfl
  have hl : ((n0.start true).1.openConnection (ascii "10.0.0.2:9000") false clock2024).tasks.lookup 0 =
      some ⟨ascii "10.0.0.2:9000", .handshake false⟩ := by
    cases h0; rfl
  have hhs := @performSecureHandshake_verified Primitives.ideal
    ((n0.start true).1.openConnection (ascii "10.0.0.2:9000") false clock2024) 0
    (ascii "10.0.0.2:9000") false _ clock2024 true _ (.inr rfl)
    (receiveHandshakeMessage_sendHandshakeMessage (HandshakeManager.createHandshakeMessage
      Primitives.ideal ⟨1, ascii "A"⟩ clock2024.unix []) (by decide) (by decide))
    (by rw [verifyHandshakeMessage_received _ _ (by decide), if_neg (by decide)])
  have hA : (HandshakeManager.createHandshakeMessage Primitives.ideal ⟨1, ascii "A"⟩
      clock2024.unix []).received.nodeID = ascii "A" := by decide
  simp only [dialA, run_cons, run_nil, step, hs, hl, hhs, if_true, hA, List.append_nil,
    List.singleton_append]
  rfl

/-- The run of `helloSpoof`: after `dialA`, the HELLO frame reads back, validates and names
`B`. -/
theorem run_helloSpoof {n0 : Network} (h0 : Network.new 0 (ascii "N") 50 = some n0) :
    run Primitives.ideal n0 helloSpoof =
      (helloSpoofNode n0, [.started true, .verified (ascii "A") 0, .hello (ascii "B") 0]) := by
  obtain ⟨s, hs⟩ : ∃ s, (newMessage MessageTypeHello (ascii "A")
      (.obj [(ascii "node_id", .str (ascii "B")), (ascii "version", .str (ascii "1.0.0"))])
      clock2024).serialize = some s :=
    Option.isSome_iff_exists.mp (by simp only [Message.serialize, Option.isSome_map']; rfl)
  obtain ⟨t, ht, -⟩ := deserializeMessage_serialize hs rfl (by decide)
  have hc : (dialANode n0).hasCancel = true := by cases h0; rfl
  have hl : (dialANode n0).tasks.lookup 0 = some ⟨ascii "10.0.0.2:9000", .reading⟩ := by
    cases h0; rfl
  have htype : ((newMessage MessageTypeHello (ascii "A")
      (.obj [(ascii "node_id", .str (ascii "B")), (ascii "version", .str (ascii "1.0.0"))])
      clock2024).received t).type = MessageTypeHello :=
    (by decide : coerceUTF8 MessageTypeHello = MessageTypeHello)
  have hpay : helloPayload ((newMessage MessageTypeHello (ascii "A")
      (.obj [(ascii "node_id", .str (ascii "B")), (ascii "version", .str (ascii "1.0.0"))])
      clock2024).received t).payload = some ⟨ascii "B", ascii "1.0.0", 0, []⟩ := rfl
  simp only [helloSpoof, run_append, run_dialA h0, run_cons, run_nil, step_readLine _ hc hl,
    readMessage, hs, Option.getD_some, ht, processMessage, htype, if_true, handleHelloMessage, hpay,
    List.append_nil]
  rfl

theorem bound_peer_authenticated_hello :
    ∃ n0, Network.new 0 (ascii "N") 50 = some n0 ∧
      (∃ id', Event.verified id' 0 ∈ (run Primitives.ideal n0 helloSpoof).2) ∧
      (Event.verified (ascii "B") 0 ∈ (run Primitives.ideal n0 helloSpoof).2 ∨
        Event.hello (ascii "B") 0 ∈ (run Primitives.ideal n0 helloSpoof).2) :=
  ⟨_, rfl, @bound_peer_authenticated Primitives.ideal 0 (ascii "N") 50 _ rfl helloSpoof _ _
    (by rw [run_helloSpoof rfl]; decide)⟩

/-- After the HELLO, `B` is bound to the connection on which only `A` verified. -/
theorem hello_binds_unverified_id :
    ∃ n0, Network.new 0 (ascii "N") 50 = some n0 ∧
      (run Primitives.ideal n0 helloSpoof).1.Binds (ascii "B") 0 ∧
      Event.verified (ascii "B") 0 ∉ (run Primitives.ideal n0 helloSpoof).2 := by
  refine ⟨_, rfl, ?_⟩
  rw [run_helloSpoof rfl]
  decide

end Synapse.P2P.Network
