import Mathlib.Tactic.NormNum
import Synapse.P2P.Network
import Synapse.P2P.Serialization

/-!
# Heartbeats answer heartbeats

`heartbeatService` broadcasts a HEARTBEAT on every tick, and `handleHeartbeatMessage`
answers every HEARTBEAT it reads with a HEARTBEAT of its own. `exchange` follows what one
frame sets off between the two ends of a connection, one turn of a read loop after another:
the message a handler writes is the next frame the other side reads.

One read of a heartbeat writes one heartbeat (`readMessage_heartbeat`): the frame reads back
as the message that was serialized, it passes `Validate`, and its payload reads back as a
`HeartbeatPayload`. So a single heartbeat is answered on every turn, for as long as the two
loops read (`exchange_heartbeat`).
-/

namespace Synapse.P2P

open Synapse.Json

/-- The heartbeat node `nodeID` writes at `clock`, on a tick of `heartbeatService` or in
answer to one. -/
def heartbeatMessage (nodeID : Bytes) (clock : Clock) : Message :=
  newMessage MessageTypeHeartbeat nodeID (HeartbeatPayload.toValue ⟨nodeID, clock.unix⟩) clock

/-! ## The payload -/

theorem heartbeatField_nodeID (p : HeartbeatPayload) (v : Parsed) :
    heartbeatField p (ascii "node_id") v = (decodeString p.nodeID v).map fun s => { p with nodeID := s } := by
  rw [heartbeatField, if_pos (by decide)]

theorem heartbeatField_timestamp (p : HeartbeatPayload) (v : Parsed) :
    heartbeatField p (ascii "timestamp") v = (decodeInt64 p.ts v).map fun n => { p with ts := n } := by
  rw [heartbeatField, if_neg (by decide), if_pos (by decide)]

theorem HeartbeatPayload.coerce_toValue (p : HeartbeatPayload) :
    p.toValue.coerce = HeartbeatPayload.toValue ⟨coerceUTF8 p.nodeID, p.ts⟩ := by
  simp [HeartbeatPayload.toValue, Value.coerce, coerceMembers,
    show coerceUTF8 (ascii "node_id") = ascii "node_id" by decide,
    show coerceUTF8 (ascii "timestamp") = ascii "timestamp" by decide]

theorem HeartbeatPayload.depth_toValue (p : HeartbeatPayload) : p.toValue.depth = 1 := by
  simp [HeartbeatPayload.toValue, Value.depth, depthMembers]

theorem HeartbeatPayload.numbersFit_toValue (p : HeartbeatPayload) (h1 : -2 ^ 63 ≤ p.ts)
    (h2 : p.ts < 2 ^ 63) : p.toValue.numbersFit = true := by
  have habs : p.ts.natAbs < 2 ^ 1024 - 2 ^ 970 :=
    lt_of_le_of_lt (by rcases Int.natAbs_eq p.ts with h | h <;> omega) (by norm_num : 2 ^ 63 < _)
  simp [HeartbeatPayload.toValue, Value.numbersFit, membersFit, Number.ofInt,
    fitsFloat64_intLiteral habs]

/-- **A heartbeat's payload reads back** as the `HeartbeatPayload` it was written from, its
node id made valid UTF-8. -/
theorem heartbeatPayload_toValue (p : HeartbeatPayload) (h1 : -2 ^ 63 ≤ p.ts) (h2 : p.ts < 2 ^ 63) :
    heartbeatPayload p.toValue = some ⟨coerceUTF8 p.nodeID, p.ts⟩ := by
  have hparse : parseText p.toValue.encode = some p.toValue.toParsed := by
    simpa using parseText_encode p.toValue (by simp [p.depth_toValue, maxNestingDepth])
      (by simp : ∀ b ∈ ([] : Bytes), isSpace b = true)
  rw [heartbeatPayload, unmarshal, hparse, Option.some_bind]
  simp [HeartbeatPayload.toValue, Value.toParsed, toParsedMembers, decodeStruct,
    unquote_escapeString_of_htmlSafe (s := ascii "node_id") (by decide),
    unquote_escapeString_of_htmlSafe (s := ascii "timestamp") (by decide),
    heartbeatField_nodeID, heartbeatField_timestamp, decodeString, unquote_escapeString,
    decodeInt64, Number.ofInt, parseInt64_intLiteral h1 h2]

/-! ## One turn of a read loop -/

theorem serialize_heartbeatMessage (nodeID : Bytes) (clock : Clock) :
    (heartbeatMessage nodeID clock).serialize =
      (formatRFC3339 clock.wall).map fun ts => ((heartbeatMessage nodeID clock).toValue ts).encode :=
  rfl

/-- **Reading a heartbeat writes a heartbeat**: a frame holding the heartbeat of a node with a
non-empty id, at a clock within `int64` seconds, is answered with this node's heartbeat. -/
theorem readMessage_heartbeat (n : Network) (c : ConnId) (address : Bytes) (clock : Clock)
    {x : Bytes} (hx : x ≠ []) {u : Clock} (hu : -2 ^ 63 ≤ u.unix ∧ u.unix < 2 ^ 63) {s : Bytes}
    (hs : (heartbeatMessage x u).serialize = some s) :
    (n.readMessage c address (s ++ [0x0A]) clock).sent = [heartbeatMessage n.nodeID clock] ∧
      (n.readMessage c address (s ++ [0x0A]) clock).net.nodeID = n.nodeID := by
  obtain ⟨t, ht, -⟩ := deserializeMessage_serialize hs
    (HeartbeatPayload.numbersFit_toValue ⟨x, u.unix⟩ hu.1 hu.2)
    (by simp [heartbeatMessage, newMessage, HeartbeatPayload.depth_toValue, maxNestingDepth])
  have htype : ((heartbeatMessage x u).received t).type = MessageTypeHeartbeat :=
    (by decide : coerceUTF8 MessageTypeHeartbeat = MessageTypeHeartbeat)
  have hval : ((heartbeatMessage x u).received t).validate = .ok () := by
    simp [Message.validate, Message.received, heartbeatMessage, newMessage, hx,
      show MessageTypeHeartbeat ≠ [] by decide]
  have hpay : heartbeatPayload ((heartbeatMessage x u).received t).payload =
      some ⟨coerceUTF8 (coerceUTF8 x), u.unix⟩ := by
    rw [show ((heartbeatMessage x u).received t).payload =
        (HeartbeatPayload.toValue ⟨x, u.unix⟩).coerce from rfl,
      HeartbeatPayload.coerce_toValue, heartbeatPayload_toValue _ hu.1 hu.2]
  simp only [Network.readMessage, ht, hval, Network.processMessage, htype,
    if_neg (show MessageTypeHeartbeat ≠ MessageTypeHello by decide), if_true,
    Network.handleHeartbeatMessage, hpay, and_true]
  rfl

/-! ## Two read loops -/

/-- The messages one frame sets off between node `a`, whose read loop on connection `ca`
reads it, and node `b` at the other end, reading on `cb`: the message a handler writes with
`sendMessageToConn` is the next frame the other side reads, and one that does not serialize
is not written. `clocks` are the clock readings of the successive reads; the exchange is
followed while they last. Every handler writes at most one message. -/
def exchange : List Clock → Network → Network → ConnId → ConnId → Bytes → Bytes → Bytes →
    List Message
  | [], _, _, _, _, _, _, _ => []
  | clock :: clocks, a, b, ca, cb, addrA, addrB, frame =>
    let h := a.readMessage ca addrA frame clock
    match h.sent with
    | m :: _ =>
      match m.serialize with
      | some s => m :: exchange clocks b h.net cb ca addrB addrA (s ++ [0x0A])
      | none => []
    | [] => []

/-- **A heartbeat is answered for as long as the two nodes read**: once one side reads a
heartbeat, every turn of either read loop writes another, whatever the clocks read, as long
as they stay within `int64` seconds and in years `time.Time` can write. -/
theorem exchange_heartbeat (clocks : List Clock)
    (hclocks : ∀ clock ∈ clocks,
      (-2 ^ 63 ≤ clock.unix ∧ clock.unix < 2 ^ 63) ∧ (formatRFC3339 clock.wall).isSome) :
    ∀ (a b : Network) (ca cb : ConnId) (addrA addrB x : Bytes) (u : Clock) (s : Bytes),
      a.nodeID ≠ [] → b.nodeID ≠ [] → x ≠ [] → (-2 ^ 63 ≤ u.unix ∧ u.unix < 2 ^ 63) →
      (heartbeatMessage x u).serialize = some s →
      (exchange clocks a b ca cb addrA addrB (s ++ [0x0A])).length = clocks.length ∧
        ∀ m ∈ exchange clocks a b ca cb addrA addrB (s ++ [0x0A]), m.type = MessageTypeHeartbeat := by
  induction clocks with
  | nil => simp [exchange]
  | cons clock clocks ih =>
    intro a b ca cb addrA addrB x u s ha hb hx hu hs
    obtain ⟨⟨hc1, hc2⟩, hfmt⟩ := hclocks clock (List.mem_cons_self _ _)
    obtain ⟨ts, hts⟩ := Option.isSome_iff_exists.mp hfmt
    obtain ⟨hsent, hnet⟩ := readMessage_heartbeat a ca addrA clock hx hu hs
    have hs' := serialize_heartbeatMessage a.nodeID clock
    rw [hts, Option.map_some'] at hs'
    obtain ⟨hlen, htype⟩ := ih (fun c hc => hclocks c (List.mem_cons_of_mem _ hc)) b
      (a.readMessage ca addrA (s ++ [0x0A]) clock).net cb ca addrB addrA a.nodeID clock _ hb
      (hnet ▸ ha) ha ⟨hc1, hc2⟩ hs'
    simp only [exchange, hsent, hs', List.length_cons, hlen, List.mem_cons, forall_eq_or_imp,
      true_and]
    exact ⟨rfl, htype⟩

/-- `B`'s `heartbeatService` ticks at the start of 2024 and `A` reads the heartbeat: however
many turns the two read loops take, each writes one more heartbeat. -/
theorem heartbeat_exchange_never_ends :
    ∃ a b, Network.new 0 (ascii "A") 50 = some a ∧ Network.new 1 (ascii "B") 50 = some b ∧
      ∀ k, (exchange (List.replicate k clock2024) a b 0 0 (ascii "10.0.0.2:9000")
        (ascii "10.0.0.1:9000")
        (((heartbeatMessage (ascii "B") clock2024).serialize.getD []) ++ [0x0A])).length = k := by
  obtain ⟨a, ha⟩ : ∃ a, Network.new 0 (ascii "A") 50 = some a := ⟨_, rfl⟩
  obtain ⟨b, hb⟩ : ∃ b, Network.new 1 (ascii "B") 50 = some b := ⟨_, rfl⟩
  obtain ⟨s, hs⟩ : ∃ s, (heartbeatMessage (ascii "B") clock2024).serialize = some s := ⟨_, rfl⟩
  refine ⟨a, b, ha, hb, fun k => ?_⟩
  rw [hs, Option.getD_some]
  simpa using (exchange_heartbeat (List.replicate k clock2024)
    (fun c hc => (List.eq_of_mem_replicate hc) ▸ ⟨⟨by decide, by decide⟩, rfl⟩) a b 0 0 _ _ _
    clock2024 s (by rw [Network.nodeID_of_new ha]; decide)
    (by rw [Network.nodeID_of_new hb]; decide) (by decide) ⟨by decide, by decide⟩
    hs).1

end Synapse.P2P
