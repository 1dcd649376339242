import Synapse.P2P.Registry

/-!
# Sending (`SendMessage`, `Broadcast`)

`sendMessageToConn` serializes a message and writes it, with a newline, on one connection.
`SendMessage(peerID, msg)` writes on the connection of the peer `n.peers` holds under
`peerID`. `Broadcast(msg)` writes on the connection of every peer of the pool, in the order
the pool's map is enumerated, and returns the last error. A write fails on a socket the node
has closed, and otherwise as the world answers.

Through the registry invariant, whatever the run, the node writes only on a connection whose
handshake verified, bound under the peer's verified id or one a HELLO on it named, and only on
one it pooled or has since closed (`writes_authenticated`). The first `Stop` turns this
around: `n.peers` is empty, so every `SendMessage` fails, but the pool keeps its peers, so
`Broadcast` still writes to each of their connections, every one of them closed by `Stop`, and
reports the failed write (`broadcast_after_stop`).
-/

namespace Synapse.P2P

open Synapse.Crypto

/-- An order in which `range` may enumerate the pool's peer map: its entries, each once. -/
structure PeerEnumeration (peers : GoMap Bytes Peer) where
  order : List (Σ _ : Bytes, Peer)
  perm : order.Perm peers.entries

/-- The errors of the send path. -/
inductive SendError where
  /-- `peer %s not found` -/
  | peerNotFound (peerID : Bytes)
  /-- `no active connection to peer %s` -/
  | noActiveConnection (peerID : Bytes)
  /-- `failed to serialize message: %w` -/
  | serialize
  /-- `failed to write message to connection: %w` -/
  | write
  deriving DecidableEq, Repr

/-- The writes a call makes: each connection written to, with the bytes. -/
abbrev Writes := List (ConnId × Bytes)

namespace Network

/-- `sendMessageToConn(conn, msg)`: the frame is the serialized message and a newline. The
write fails on a socket the node has closed, and otherwise as the world `w` answers. -/
def sendMessageToConn (n : Network) (w : ConnId → Bool) (c : ConnId) (msg : Message) :
    Writes × Except SendError Unit :=
  match msg.serialize with
  | none => ([], .error .serialize)
  | some data =>
    ([(c, data ++ [0x0A])], if c ∉ n.closed ∧ w c = true then .ok () else .error .write)

/-- `SendMessage(peerID, msg)`. -/
def sendMessage (n : Network) (w : ConnId → Bool) (peerID : Bytes) (msg : Message) :
    Writes × Except SendError Unit :=
  match n.peers.lookup peerID with
  | none => ([], .error (.peerNotFound peerID))
  | some peer =>
    match peer.connection with
    | none => ([], .error (.noActiveConnection peerID))
    | some c => n.sendMessageToConn w c msg

/-- One turn of `Broadcast`'s loop: a peer without a connection is skipped, and a failed
send becomes the last error. -/
def broadcastTurn (n : Network) (w : ConnId → Bool) (msg : Message)
    (acc : Writes × Option SendError) (peer : Peer) : Writes × Option SendError :=
  match peer.connection with
  | none => acc
  | some c =>
    let r := n.sendMessageToConn w c msg
    (acc.1 ++ r.1, match r.2 with
      | .error e => some e
      | .ok () => acc.2)

/-- `Broadcast(msg)`, with the pool's peers enumerated in the order `E`: the writes, and the
last error. -/
def broadcast (n : Network) (E : PeerEnumeration n.pool.peers) (w : ConnId → Bool)
    (msg : Message) : Writes × Option SendError :=
  E.order.foldl (fun acc e => n.broadcastTurn w msg acc e.2) ([], none)

/-! ## What a call writes -/

/-- A frame is a serialized message and its newline, on the connection asked for. -/
theorem mem_sendMessageToConn {n : Network} {w : ConnId → Bool} {c c' : ConnId} {msg : Message}
    {f : Bytes} (h : (c', f) ∈ (n.sendMessageToConn w c msg).1) :
    c' = c ∧ ∃ s, msg.serialize = some s ∧ f = s ++ [0x0A] := by
  unfold sendMessageToConn at h
  split at h
  · simp at h
  · rename_i s hs
    simp only [List.mem_singleton, Prod.mk.injEq] at h
    exact ⟨h.1, s, hs, h.2⟩

theorem mem_sendMessage {n : Network} {w : ConnId → Bool} {id : Bytes} {msg : Message}
    {c : ConnId} {f : Bytes} (h : (c, f) ∈ (n.sendMessage w id msg).1) :
    (n.peers.lookup id).bind Peer.connection = some c ∧
      ∃ s, msg.serialize = some s ∧ f = s ++ [0x0A] := by
  unfold sendMessage at h
  split at h
  · simp at h
  · rename_i peer hp
    split at h
    · simp at h
    · rename_i c' hc
      obtain ⟨rfl, hf⟩ := mem_sendMessageToConn h
      exact ⟨by rw [hp, Option.some_bind, hc], hf⟩

/-- Every write of a run of `broadcastTurn` over some pool entries is a write of the
accumulator's, or one on the connection of one of those peers. -/
theorem mem_foldl_broadcastTurn {n : Network} {w : ConnId → Bool} {msg : Message}
    (l : List (Σ _ : Bytes, Peer)) (acc : Writes × Option SendError) {c : ConnId} {f : Bytes}
    (h : (c, f) ∈ (l.foldl (fun acc e => n.broadcastTurn w msg acc e.2) acc).1) :
    (c, f) ∈ acc.1 ∨ ∃ e ∈ l, e.2.connection = some c ∧
      ∃ s, msg.serialize = some s ∧ f = s ++ [0x0A] := by
  induction l generalizing acc with
  | nil => exact .inl h
  | cons e l ih =>
    rcases ih (n.broadcastTurn w msg acc e.2) h with h | ⟨e', he', hrest⟩
    · unfold broadcastTurn at h
      split at h
      · exact .inl h
      · rename_i c' hc
        rcases List.mem_append.mp h with h | h
        · exact .inl h
        · obtain ⟨rfl, hf⟩ := mem_sendMessageToConn h
          exact .inr ⟨e, List.mem_cons_self _ _, hc, hf⟩
    · exact .inr ⟨e', List.mem_cons_of_mem _ he', hrest⟩

theorem mem_broadcast {n : Network} {E : PeerEnumeration n.pool.peers} {w : ConnId → Bool}
    {msg : Message} {c : ConnId} {f : Bytes} (h : (c, f) ∈ (n.broadcast E w msg).1) :
    ∃ id, (n.pool.peers.lookup id).bind Peer.connection = some c ∧
      ∃ s, msg.serialize = some s ∧ f = s ++ [0x0A] := by
  rcases mem_foldl_broadcastTurn E.order ([], none) h with h | ⟨e, he, hc, hf⟩
  · simp at h
  · refine ⟨e.1, ?_, hf⟩
    rw [AList.mem_lookup_iff.mpr (E.perm.subset he), Option.some_bind, hc]

/-! ## Over every run -/

/-- **The node writes only on authenticated connections.** In every state a run from `New`
reaches, each frame `SendMessage(id, msg)` writes goes to a connection on which a handshake
verified, under `id` or with a HELLO naming `id`; each frame `Broadcast` writes goes to such a
connection for one of the pool's peers; every such connection is pooled or already closed;
and every frame is one serialized message holding its only newline at its end. -/
theorem writes_authenticated (P : Primitives) {key : KeyId} {nodeID : Bytes} {maxPeers : Int}
    {n0 : Network} (h0 : Network.new key nodeID maxPeers = some n0) (acts : List Action)
    (E : PeerEnumeration (run P n0 acts).1.pool.peers) (w : ConnId → Bool) (msg : Message) :
    (∀ (id : Bytes) (c : ConnId) (f : Bytes), (c, f) ∈ ((run P n0 acts).1.sendMessage w id msg).1 →
      (∃ id', Event.verified id' c ∈ (run P n0 acts).2) ∧
      (Event.verified id c ∈ (run P n0 acts).2 ∨ Event.hello id c ∈ (run P n0 acts).2) ∧
      (c ∈ (run P n0 acts).1.pool.connections ∨ c ∈ (run P n0 acts).1.closed) ∧
      ∃ s, msg.serialize = some s ∧ f = s ++ [0x0A] ∧ 0x0A ∉ s) ∧
    (∀ (c : ConnId) (f : Bytes), (c, f) ∈ ((run P n0 acts).1.broadcast E w msg).1 →
      ∃ id, (∃ id', Event.verified id' c ∈ (run P n0 acts).2) ∧
      (Event.verified id c ∈ (run P n0 acts).2 ∨ Event.hello id c ∈ (run P n0 acts).2) ∧
      (c ∈ (run P n0 acts).1.pool.connections ∨ c ∈ (run P n0 acts).1.closed) ∧
      ∃ s, msg.serialize = some s ∧ f = s ++ [0x0A] ∧ 0x0A ∉ s) := by
  have hinv := invariant_run P h0 acts
  refine ⟨fun id c f h => ?_, fun c f h => ?_⟩
  · obtain ⟨hb, s, hs, rfl⟩ := mem_sendMessage h
    have hbind : (run P n0 acts).1.Binds id c := .inl hb
    exact ⟨(hinv.binds id c hbind).1, (hinv.binds id c hbind).2, hinv.bound_live id c hbind,
      s, hs, rfl, newline_not_mem_serialize hs⟩
  · obtain ⟨id, hb, s, hs, rfl⟩ := mem_broadcast h
    have hbind : (run P n0 acts).1.Binds id c := .inr hb
    exact ⟨id, (hinv.binds id c hbind).1, (hinv.binds id c hbind).2,
      hinv.bound_live id c hbind, s, hs, rfl, newline_not_mem_serialize hs⟩

theorem writes_authenticated_node :
    ∃ n0, Network.new 0 (ascii "N") 50 = some n0 ∧
      ((∀ (id : Bytes) (c : ConnId) (f : Bytes),
          (c, f) ∈ ((run Primitives.ideal n0 dialA).1.sendMessage (fun _ => true) id Message.zero).1 →
        (∃ id', Event.verified id' c ∈ (run Primitives.ideal n0 dialA).2) ∧
        (Event.verified id c ∈ (run Primitives.ideal n0 dialA).2 ∨
          Event.hello id c ∈ (run Primitives.ideal n0 dialA).2) ∧
        (c ∈ (run Primitives.ideal n0 dialA).1.pool.connections ∨
          c ∈ (run Primitives.ideal n0 dialA).1.closed) ∧
        ∃ s, Message.zero.serialize = some s ∧ f = s ++ [0x0A] ∧ 0x0A ∉ s) ∧
      (∀ (c : ConnId) (f : Bytes),
          (c, f) ∈ ((run Primitives.ideal n0 dialA).1.broadcast ⟨_, List.Perm.refl _⟩ (fun _ => true)
            Message.zero).1 →
        ∃ id, (∃ id', Event.verified id' c ∈ (run Primitives.ideal n0 dialA).2) ∧
        (Event.verified id c ∈ (run Primitives.ideal n0 dialA).2 ∨
          Event.hello id c ∈ (run Primitives.ideal n0 dialA).2) ∧
        (c ∈ (run Primitives.ideal n0 dialA).1.pool.connections ∨
          c ∈ (run Primitives.ideal n0 dialA).1.closed) ∧
        ∃ s, Message.zero.serialize = some s ∧ f = s ++ [0x0A] ∧ 0x0A ∉ s)) :=
  ⟨_, rfl, @writes_authenticated Primitives.ideal 0 (ascii "N") 50 _ rfl dialA ⟨_, List.Perm.refl _⟩
    (fun _ => true) Message.zero⟩

/-! ## Right after `Stop` -/

/-- `Stop`'s body, when it runs: `n.peers` is emptied and every pooled connection closed;
the pool keeps its peers. -/
theorem step_stop_first (P : Primitives) {n : Network} (h : n.shutdownDone = false) :
    (n.step P .stop).1 = { n with
      shutdownDone := true, ctxDone := n.ctxDone || n.hasCancel,
      listener := if n.listener = .none then .none else .closed,
      closed := n.pool.connections.keys ++ n.closed, peers := ∅ } := by
  simp [step, stop, h]

/-- A turn of `Broadcast` on a peer whose connection is closed, for a message that
serializes: the write is made, and fails. -/
theorem broadcastTurn_closed {n : Network} {w : ConnId → Bool} {msg : Message} {s : Bytes}
    (hs : msg.serialize = some s) (acc : Writes × Option SendError) {peer : Peer} {c : ConnId}
    (hc : peer.connection = some c) (hcl : c ∈ n.closed) :
    n.broadcastTurn w msg acc peer = (acc.1 ++ [(c, s ++ [0x0A])], some .write) := by
  simp [broadcastTurn, hc, sendMessageToConn, hs, hcl]

/-- Over peers whose connections are all closed, the loop has either written nothing and
kept its error, or last reported a failed write. -/
theorem foldl_broadcastTurn_closed {n : Network} {w : ConnId → Bool} {msg : Message} {s : Bytes}
    (hs : msg.serialize = some s) (l : List (Σ _ : Bytes, Peer))
    (hl : ∀ e ∈ l, ∀ c, e.2.connection = some c → c ∈ n.closed) (acc : Writes × Option SendError) :
    l.foldl (fun acc e => n.broadcastTurn w msg acc e.2) acc = acc ∨
      (l.foldl (fun acc e => n.broadcastTurn w msg acc e.2) acc).2 = some .write := by
  induction l generalizing acc with
  | nil => exact .inl rfl
  | cons e l ih =>
    rw [List.foldl_cons]
    have hl' : ∀ e ∈ l, ∀ c, e.2.connection = some c → c ∈ n.closed :=
      fun e' he' => hl e' (List.mem_cons_of_mem _ he')
    cases hc : e.2.connection with
    | none =>
      have : n.broadcastTurn w msg acc e.2 = acc := by simp [broadcastTurn, hc]
      rw [this]
      exact ih hl' acc
    | some c =>
      rw [broadcastTurn_closed hs acc hc (hl e (List.mem_cons_self _ _) c hc)]
      rcases ih hl' (acc.1 ++ [(c, s ++ [0x0A])], some .write) with h | h
      · exact .inr (by rw [h])
      · exact .inr h

/-- The loop writes the frame on the connection of every peer it visits that has one, and
keeps every write made before it. -/
theorem foldl_broadcastTurn_writes {n : Network} {w : ConnId → Bool} {msg : Message} {s : Bytes}
    (hs : msg.serialize = some s) (l : List (Σ _ : Bytes, Peer)) (acc : Writes × Option SendError) :
    acc.1 ⊆ (l.foldl (fun acc e => n.broadcastTurn w msg acc e.2) acc).1 ∧
      ∀ e ∈ l, ∀ c, e.2.connection = some c →
        (c, s ++ [0x0A]) ∈ (l.foldl (fun acc e => n.broadcastTurn w msg acc e.2) acc).1 := by
  induction l generalizing acc with
  | nil => exact ⟨List.Subset.refl _, nofun⟩
  | cons e l ih =>
    have hturn : acc.1 ⊆ (n.broadcastTurn w msg acc e.2).1 ∧
        ∀ c, e.2.connection = some c → (c, s ++ [0x0A]) ∈ (n.broadcastTurn w msg acc e.2).1 := by
      cases hc : e.2.connection with
      | none => simp [broadcastTurn, hc]
      | some c => simp [broadcastTurn, hc, sendMessageToConn, hs]
    obtain ⟨h1, h2⟩ := ih (n.broadcastTurn w msg acc e.2)
    refine ⟨hturn.1.trans h1, fun e' he' c hc => ?_⟩
    rcases List.mem_cons.mp he' with rfl | he'
    · exact h1 (hturn.2 c hc)
    · exact h2 e' he' c hc

/-- **Right after the first `Stop`, `SendMessage` fails for every peer, while `Broadcast`
writes the frame on the connection of every pooled peer that has one, writes only on
sockets `Stop` closed, and reports a failed write whenever it writes at all**: `Stop` empties
`n.peers` but leaves the pool's peers and their connections. -/
theorem broadcast_after_stop (P : Primitives) {key : KeyId} {nodeID : Bytes} {maxPeers : Int}
    {n0 : Network} (h0 : Network.new key nodeID maxPeers = some n0) (acts : List Action)
    (hfirst : (run P n0 acts).1.shutdownDone = false)
    (E : PeerEnumeration (run P n0 (acts ++ [Action.stop])).1.pool.peers) (w : ConnId → Bool)
    (msg : Message) :
    (∀ id, (run P n0 (acts ++ [Action.stop])).1.sendMessage w id msg = ([], .error (.peerNotFound id))) ∧
    (∀ s, msg.serialize = some s → ∀ id c,
      ((run P n0 (acts ++ [Action.stop])).1.pool.peers.lookup id).bind Peer.connection = some c →
        (c, s ++ [0x0A]) ∈ ((run P n0 (acts ++ [Action.stop])).1.broadcast E w msg).1) ∧
    (∀ (c : ConnId) (f : Bytes), (c, f) ∈ ((run P n0 (acts ++ [Action.stop])).1.broadcast E w msg).1 →
      c ∈ (run P n0 (acts ++ [Action.stop])).1.closed) ∧
    (((run P n0 (acts ++ [Action.stop])).1.broadcast E w msg).1 ≠ [] →
      ((run P n0 (acts ++ [Action.stop])).1.broadcast E w msg).2 = some .write) := by
  have hinv := invariant_run P h0 acts
  have hn : (run P n0 (acts ++ [Action.stop])).1 = ((run P n0 acts).1.step P .stop).1 := by
    rw [run_append, run_cons, run_nil]
  rw [step_stop_first P hfirst] at hn
  have hclosed : ∀ id c, ((run P n0 (acts ++ [Action.stop])).1.pool.peers.lookup id).bind
      Peer.connection = some c → c ∈ (run P n0 (acts ++ [Action.stop])).1.closed := by
    intro id c hb
    rw [hn] at hb ⊢
    rcases hinv.bound_live id c (.inr hb) with h | h
    · exact List.mem_append_left _ (AList.mem_keys.mp h)
    · exact List.mem_append_right _ h
  refine ⟨fun id => by rw [hn]; rfl, fun s hs id c hb => ?_, fun c f h => ?_, fun hne => ?_⟩
  · obtain ⟨p, hp, hc⟩ := Option.bind_eq_some.mp hb
    exact (foldl_broadcastTurn_writes hs E.order ([], none)).2 ⟨id, p⟩
      (E.perm.symm.subset (AList.mem_lookup_iff.mp hp)) c hc
  · obtain ⟨id, hb, -⟩ := mem_broadcast h
    exact hclosed id c hb
  · obtain ⟨⟨c, f⟩, hcf⟩ := List.exists_mem_of_ne_nil _ hne
    obtain ⟨-, -, s, hs, -⟩ := mem_broadcast hcf
    have hl : ∀ e ∈ E.order, ∀ c, e.2.connection = some c →
        c ∈ (run P n0 (acts ++ [Action.stop])).1.closed := fun e he c hc =>
      hclosed e.1 c (by rw [AList.mem_lookup_iff.mpr (E.perm.subset he), Option.some_bind, hc])
    rcases foldl_broadcastTurn_closed hs E.order hl ([], none) with h | h
    · exact absurd (congrArg Prod.fst h) hne
    · exact h

theorem broadcast_after_stop_new :
    ∃ n0, Network.new 0 (ascii "N") 50 = some n0 ∧
      (run Primitives.ideal n0 dialA).1.shutdownDone = false ∧
      (∀ id, (run Primitives.ideal n0 (dialA ++ [Action.stop])).1.sendMessage (fun _ => true) id
        Message.zero = ([], .error (.peerNotFound id))) ∧
      (∀ s, Message.zero.serialize = some s → ∀ id c,
        ((run Primitives.ideal n0 (dialA ++ [Action.stop])).1.pool.peers.lookup id).bind
          Peer.connection = some c →
        (c, s ++ [0x0A]) ∈ ((run Primitives.ideal n0 (dialA ++ [Action.stop])).1.broadcast
          ⟨_, List.Perm.refl _⟩ (fun _ => true) Message.zero).1) ∧
      (∀ (c : ConnId) (f : Bytes),
          (c, f) ∈ ((run Primitives.ideal n0 (dialA ++ [Action.stop])).1.broadcast
            ⟨_, List.Perm.refl _⟩ (fun _ => true) Message.zero).1 →
        c ∈ (run Primitives.ideal n0 (dialA ++ [Action.stop])).1.closed) ∧
      (((run Primitives.ideal n0 (dialA ++ [Action.stop])).1.broadcast ⟨_, List.Perm.refl _⟩
          (fun _ => true) Message.zero).1 ≠ [] →
        ((run Primitives.ideal n0 (dialA ++ [Action.stop])).1.broadcast ⟨_, List.Perm.refl _⟩
          (fun _ => true) Message.zero).2 = some .write) := by
  obtain ⟨n0, h0⟩ : ∃ n0, Network.new 0 (ascii "N") 50 = some n0 := ⟨_, rfl⟩
  have hfirst : (run Primitives.ideal n0 dialA).1.shutdownDone = false := by
    rw [run_dialA h0]; cases h0; rfl
  exact ⟨n0, h0, hfirst, broadcast_after_stop Primitives.ideal h0 dialA hfirst ⟨_, List.Perm.refl _⟩
    (fun _ => true) Message.zero⟩

end Network

end Synapse.P2P
