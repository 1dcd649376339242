import Synapse.P2P.Framing
import Synapse.P2P.Heartbeat

/-!
# The secure handshake between two nodes

`performSecureHandshake` runs on both ends of a connection. The dialer writes its signed
message and reads the answer; the acceptor reads, verifies, registers the dialer, and only
then answers with its own message. `handshakePair` composes the two tasks over a channel that
delivers every byte unchanged; the four clock readings involved are arbitrary.

Two facts about the code follow. A message crosses the wire and still verifies exactly
when its node id is valid UTF-8 (and the clocks agree within five minutes): `json.Marshal`
writes a rejected byte as the escape `\ufffd`, the receiver reads U+FFFD back, and re-encoding writes
that rune as it is, so the bytes the verifier checks are not the bytes the signer signed.
And the two ends agree on who is registered in one direction only. The acceptor registers
before the dialer has read the answer. `registerPeer` pools the dialer at once, so a
`Broadcast` or a heartbeat may write its frame on the connection before the answer, and a
frame is never a handshake message (`receiveHandshakeMessage_frame`). The dialer then
rejects what it reads, as it does an answer whose timestamp fails its check, and leaves the
acceptor registered alone.
-/

namespace Synapse.P2P

open Synapse.Json Synapse.Crypto

/-! ## One message over the wire -/

/-- **A handshake message verifies after the wire round trip** when its node id is valid
UTF-8 and the verifier's clock is within five minutes of the signer's. The verifier's own
`HandshakeManager` plays no part: the message carries its key. -/
theorem handshake_message_verifies (P : Primitives) (h : HandshakeManager) (hid : ValidUTF8 h.nodeID)
    (now : Int) (h1 : -2 ^ 63 ≤ now) (h2 : now < 2 ^ 63) (sessionKey : Bytes) (now' : Int)
    (hskew : now' - now ≤ 300 ∧ now - now' ≤ 300) :
    ∃ parsed, receiveHandshakeMessage (sendHandshakeMessage (h.createHandshakeMessage P now sessionKey)) =
      some parsed ∧ verifyHandshakeMessage P now' parsed = .ok () :=
  ⟨_, receiveHandshakeMessage_sendHandshakeMessage _ h1 h2, by
    rw [verifyHandshakeMessage_received P h hid, if_neg (timestamp_check_passes hskew)]⟩

theorem handshake_message_verifies_node :
    ValidUTF8 (ascii "N") ∧ -2 ^ 63 ≤ (0 : Int) ∧ (0 : Int) < 2 ^ 63 ∧
      ((0 : Int) - 0 ≤ 300 ∧ (0 : Int) - 0 ≤ 300) ∧
      ∃ parsed, receiveHandshakeMessage (sendHandshakeMessage
        ((⟨0, ascii "N"⟩ : HandshakeManager).createHandshakeMessage Primitives.ideal 0 [])) =
        some parsed ∧ verifyHandshakeMessage Primitives.ideal 0 parsed = .ok () :=
  ⟨by decide, by decide, by decide, ⟨by decide, by decide⟩,
    handshake_message_verifies Primitives.ideal ⟨0, ascii "N"⟩ (by decide) 0 (by decide) (by decide) []
      0 ⟨by decide, by decide⟩⟩

set_option maxRecDepth 100000 in
/-- `p2p.New` takes the node id `[0xFF]`, and the node's own handshake message fails the
signature check after the round trip: it was signed with the id written as the escape
`\ufffd` and is checked with U+FFFD's three bytes. -/
theorem handshake_invalid_utf8_rejected :
    (Network.new 0 [0xFF] 50).isSome ∧
    ∃ parsed, receiveHandshakeMessage (sendHandshakeMessage
      ((⟨0, [0xFF]⟩ : HandshakeManager).createHandshakeMessage Primitives.ideal 0 [])) = some parsed ∧
      verifyHandshakeMessage Primitives.ideal 0 parsed = .error .signature :=
  ⟨rfl, _, receiveHandshakeMessage_sendHandshakeMessage _ (by decide) (by decide), by rfl⟩

/-! ## Both ends of one connection -/

/-- A frame of a message is not a handshake message: its `timestamp` is a string, which
`json.Unmarshal` does not put into an `int64`. -/
theorem receiveHandshakeMessage_frame {m : Message} {s : Bytes} (hs : m.serialize = some s) :
    receiveHandshakeMessage (s ++ [0x0A]) = none := by
  have hline : (if (s ++ [0x0A]).getLast? = some 0x0A then (s ++ [0x0A]).dropLast
      else s ++ [0x0A]) = s := by simp
  simp only [receiveHandshakeMessage, hline, unmarshal]
  cases hp : parseText s with
  | none => rfl
  | some p =>
    obtain ⟨ts, kvs, rfl⟩ := parseText_serialize hs hp
    have hkey : ∀ k : Bytes, (∀ b ∈ k, htmlSafe b = true) → unquote k = some k := fun k hk => by
      simpa [escapeString_of_htmlSafe hk] using unquote_escapeString_of_htmlSafe hk
    simp [decodeStruct, List.foldlM_append, hkey (ascii "type") (by decide),
      hkey (ascii "id") (by decide), hkey (ascii "sender") (by decide),
      hkey (ascii "timestamp") (by decide), handshakeField_timestamp, decodeInt64,
      show ∀ m v, handshakeField m (ascii "type") v = some m from fun _ _ => rfl,
      show ∀ m v, handshakeField m (ascii "id") v = some m from fun _ _ => rfl,
      show ∀ m v, handshakeField m (ascii "sender") v = some m from fun _ _ => rfl]

/-- What the acceptor writes on the connection once it has registered the dialer: the frames
of the messages its other tasks (`Broadcast`, the heartbeat service) sent there in the
meantime, each with its newline, then its answer. -/
def acceptorWire (sent : List Message) (answer : HandshakeMessage) : Bytes :=
  (sent.filterMap Message.serialize).flatMap (· ++ [0x0A]) ++ sendHandshakeMessage answer

/-- With no frame before it, the dialer's line is the answer. -/
theorem firstLine_acceptorWire_nil {sent : List Message} (h : sent.filterMap Message.serialize = [])
    (answer : HandshakeMessage) : firstLine (acceptorWire sent answer) = sendHandshakeMessage answer := by
  simp only [acceptorWire, h, List.flatMap_nil, List.nil_append, sendHandshakeMessage,
    HandshakeMessage.marshal]
  exact firstLine_append (newline_not_mem_encode _) []

/-- Otherwise the dialer's line is the first frame. -/
theorem firstLine_acceptorWire_cons {sent : List Message} {f : Bytes} {fs : List Bytes}
    (h : sent.filterMap Message.serialize = f :: fs) (answer : HandshakeMessage) :
    ∃ m ∈ sent, m.serialize = some f ∧ firstLine (acceptorWire sent answer) = f ++ [0x0A] := by
  obtain ⟨m, hm, hs⟩ := List.mem_filterMap.mp (h ▸ List.mem_cons_self f fs)
  refine ⟨m, hm, hs, ?_⟩
  simp only [acceptorWire, h, List.flatMap_cons, List.append_assoc]
  exact firstLine_append (newline_not_mem_serialize hs) _

/-- One handshake between a dialing node `d` on connection `cD` and an accepting node `a` on
`cA`. The dialer's message is made at its clock `tD`; the acceptor reads it at `clockA`, and
if it registers the dialer, it writes `acceptorWire sent` with an answer made at `tA`. The
dialer reads the first line at `clockD`. An acceptor that fails writes nothing and closes the
connection, so the dialer's read fails. The results are the dialer's and then the
acceptor's. -/
def handshakePair (P : Primitives) (d a : Network) (cD cA : ConnId) (addrD addrA : Bytes)
    (tD : Int) (skD : Bytes) (clockA : Clock) (sent : List Message) (tA : Int) (skA : Bytes)
    (clockD : Clock) : (Network × List Event × Bool) × (Network × List Event × Bool) :=
  let rA := a.performSecureHandshake P cA addrA true
    (sendHandshakeMessage (d.handshakeMgr.createHandshakeMessage P tD skD)) clockA true
  let wire := if rA.2.2 then acceptorWire sent (a.handshakeMgr.createHandshakeMessage P tA skA)
    else []
  (d.performSecureHandshake P cD addrD false (firstLine wire) clockD true, rA)

/-- A handshake task registered `id` for its connection `c`: `registerPeer` ran, as the
event of the verified message says. -/
def Registered (r : Network × List Event × Bool) (id : Bytes) (c : ConnId) : Prop :=
  Event.verified id c ∈ r.2.1

instance (r : Network × List Event × Bool) (id : Bytes) (c : ConnId) :
    Decidable (Registered r id c) :=
  inferInstanceAs (Decidable (_ ∈ _))

theorem receiveHandshakeMessage_nil : receiveHandshakeMessage [] = none := rfl

section Pair

variable (P : Primitives) (d a : Network) (cD cA : ConnId) (addrD addrA : Bytes) (tD : Int)
  (skD : Bytes) (clockA : Clock) (sent : List Message) (tA : Int) (skA : Bytes) (clockD : Clock)

/-- An acceptor whose read verifies registers the id the dialer's message carries, and
answers. -/
theorem handshakePair_acceptor_verified (htD : -2 ^ 63 ≤ tD ∧ tD < 2 ^ 63)
    (hv : verifyHandshakeMessage P clockA.unix
      (d.handshakeMgr.createHandshakeMessage P tD skD).received = .ok ()) :
    (handshakePair P d a cD cA addrD addrA tD skD clockA sent tA skA clockD).2.2 =
      ([.verified (coerceUTF8 d.handshakeMgr.nodeID) cA], true) := by
  simp only [handshakePair, Network.performSecureHandshake_verified (.inl rfl)
    (receiveHandshakeMessage_sendHandshakeMessage _ htD.1 htD.2) hv, received_nodeID,
    createHandshakeMessage_nodeID]

/-- An acceptor whose read does not verify registers nothing and writes nothing, and then
the dialer's read fails too. -/
theorem handshakePair_acceptor_rejected (htD : -2 ^ 63 ≤ tD ∧ tD < 2 ^ 63)
    (hv : verifyHandshakeMessage P clockA.unix
      (d.handshakeMgr.createHandshakeMessage P tD skD).received ≠ .ok ()) :
    (handshakePair P d a cD cA addrD addrA tD skD clockA sent tA skA clockD).2.2.1 = [] ∧
      (handshakePair P d a cD cA addrD addrA tD skD clockA sent tA skA clockD).1 = (d, [], false) := by
  have hr := receiveHandshakeMessage_sendHandshakeMessage
    (d.handshakeMgr.createHandshakeMessage P tD skD) htD.1 htD.2
  have hA : a.performSecureHandshake P cA addrA true
      (sendHandshakeMessage (d.handshakeMgr.createHandshakeMessage P tD skD)) clockA true =
      (a, [], false) :=
    Network.performSecureHandshake_unverified fun msg hm => by
      rw [hr, Option.some.injEq] at hm; exact hm ▸ hv
  simp only [handshakePair, hA, true_and]
  exact Network.performSecureHandshake_unverified fun msg hm => by
    simp [firstLine, readBytes, receiveHandshakeMessage_nil] at hm

/-- Once the acceptor has answered, a frame that came before the answer makes the dialer's
handshake fail. -/
theorem handshakePair_dialer_frame {f : Bytes} {fs : List Bytes}
    (hf : sent.filterMap Message.serialize = f :: fs)
    (hw : (handshakePair P d a cD cA addrD addrA tD skD clockA sent tA skA clockD).2.2.2 = true) :
    (handshakePair P d a cD cA addrD addrA tD skD clockA sent tA skA clockD).1 = (d, [], false) := by
  obtain ⟨m, -, hs, hline⟩ := firstLine_acceptorWire_cons hf (a.handshakeMgr.createHandshakeMessage P tA skA)
  simp only [handshakePair] at hw ⊢
  simp only [hw, if_true, hline]
  exact Network.performSecureHandshake_unverified fun msg hm => by
    rw [receiveHandshakeMessage_frame hs] at hm; cases hm

/-- Once the acceptor has answered with no frame before it, the dialer registers the
acceptor's id exactly when the answer passes the timestamp check at the dialer's clock. -/
theorem handshakePair_dialer (hA : ValidUTF8 a.handshakeMgr.nodeID) (htA : -2 ^ 63 ≤ tA ∧ tA < 2 ^ 63)
    (hf : sent.filterMap Message.serialize = [])
    (hw : (handshakePair P d a cD cA addrD addrA tD skD clockA sent tA skA clockD).2.2.2 = true) :
    (handshakePair P d a cD cA addrD addrA tD skD clockA sent tA skA clockD).1.2.1 =
      if int64Sub clockD.unix tA > 300 ∨ int64Sub tA clockD.unix > 300 then []
      else [.verified a.handshakeMgr.nodeID cD] := by
  have hr := receiveHandshakeMessage_sendHandshakeMessage
    (a.handshakeMgr.createHandshakeMessage P tA skA) htA.1 htA.2
  have hv := verifyHandshakeMessage_received P a.handshakeMgr hA tA skA clockD.unix
  simp only [handshakePair] at hw ⊢
  simp only [hw, if_true, firstLine_acceptorWire_nil hf]
  split
  · rename_i hc
    rw [Network.performSecureHandshake_unverified fun msg hm => by
      rw [hr, Option.some.injEq] at hm; rw [← hm, hv, if_pos hc]; simp]
  · rename_i hc
    rw [Network.performSecureHandshake_verified (.inr rfl) hr (by rw [hv, if_neg hc]),
      received_nodeID, createHandshakeMessage_nodeID, coerceUTF8_of_validUTF8 hA]

/-- **The two ends of a handshake agree on registration in one direction only.** If the
dialer registered the acceptor, the acceptor registered the dialer; if the acceptor
registered the dialer, the dialer registers the acceptor exactly when no frame reached the
connection before the answer and the answer passes the timestamp check at the dialer, none
of which the acceptor learns. -/
theorem handshake_registration_agrees (hD : ValidUTF8 d.handshakeMgr.nodeID)
    (hA : ValidUTF8 a.handshakeMgr.nodeID) (htD : -2 ^ 63 ≤ tD ∧ tD < 2 ^ 63)
    (htA : -2 ^ 63 ≤ tA ∧ tA < 2 ^ 63) :
    let r := handshakePair P d a cD cA addrD addrA tD skD clockA sent tA skA clockD
    (Registered r.1 a.handshakeMgr.nodeID cD → Registered r.2 d.handshakeMgr.nodeID cA) ∧
    (Registered r.2 d.handshakeMgr.nodeID cA →
      (Registered r.1 a.handshakeMgr.nodeID cD ↔
        sent.filterMap Message.serialize = [] ∧
          ¬(int64Sub clockD.unix tA > 300 ∨ int64Sub tA clockD.unix > 300))) := by
  dsimp only
  by_cases hv : verifyHandshakeMessage P clockA.unix
      (d.handshakeMgr.createHandshakeMessage P tD skD).received = .ok ()
  · have hacc := handshakePair_acceptor_verified P d a cD cA addrD addrA tD skD clockA sent tA
      skA clockD htD hv
    have hw : (handshakePair P d a cD cA addrD addrA tD skD clockA sent tA skA clockD).2.2.2 = true :=
      by rw [hacc]
    have hreg : Registered (handshakePair P d a cD cA addrD addrA tD skD clockA sent tA skA
        clockD).2 d.handshakeMgr.nodeID cA := by
      simp [Registered, hacc, coerceUTF8_of_validUTF8 hD]
    refine ⟨fun _ => hreg, fun _ => ?_⟩
    cases hf : sent.filterMap Message.serialize with
    | nil =>
      have hdial := handshakePair_dialer P d a cD cA addrD addrA tD skD clockA sent tA skA clockD
        hA htA hf hw
      simp only [Registered, hdial, true_and]
      split <;> simp [*]
    | cons f fs =>
      have hdial := handshakePair_dialer_frame P d a cD cA addrD addrA tD skD clockA sent tA skA
        clockD hf hw
      simp [Registered, hdial]
  · obtain ⟨hev, hd⟩ := handshakePair_acceptor_rejected P d a cD cA addrD addrA tD skD clockA sent
      tA skA clockD htD hv
    refine ⟨fun h => ?_, fun h => ?_⟩
    · simp only [Registered, hd, List.not_mem_nil] at h
    · simp only [Registered, hev, List.not_mem_nil] at h

end Pair

theorem handshake_registration_agrees_nodes :
    ∃ d a, Network.new 0 (ascii "D") 50 = some d ∧ Network.new 1 (ascii "A") 50 = some a ∧
      ValidUTF8 d.handshakeMgr.nodeID ∧ ValidUTF8 a.handshakeMgr.nodeID ∧
      (-2 ^ 63 ≤ clock2024.unix ∧ clock2024.unix < 2 ^ 63) ∧
      (-2 ^ 63 ≤ clock2024.unix ∧ clock2024.unix < 2 ^ 63) ∧
      let r := handshakePair Primitives.ideal d a 0 0 (ascii "10.0.0.1:9000")
        (ascii "10.0.0.2:9000") clock2024.unix [] clock2024 [] clock2024.unix [] clock2024
      (Registered r.1 a.handshakeMgr.nodeID 0 → Registered r.2 d.handshakeMgr.nodeID 0) ∧
      (Registered r.2 d.handshakeMgr.nodeID 0 →
        (Registered r.1 a.handshakeMgr.nodeID 0 ↔
          ([] : List Message).filterMap Message.serialize = [] ∧
            ¬(int64Sub clock2024.unix clock2024.unix > 300 ∨
              int64Sub clock2024.unix clock2024.unix > 300))) :=
  ⟨_, _, rfl, rfl, by decide, by decide, ⟨by decide, by decide⟩, ⟨by decide, by decide⟩,
    handshake_registration_agrees Primitives.ideal _ _ 0 0 _ _ clock2024.unix [] clock2024 []
      clock2024.unix [] clock2024 (by decide) (by decide) ⟨by decide, by decide⟩
      ⟨by decide, by decide⟩⟩

/-- `clock2024` five minutes and one second later. -/
def clock2024Plus301 : Clock :=
  ⟨1704067501, 1704067501000000000,
    ⟨2024, 1, 1, 0, 5, 1, 0, 0, by decide, by decide, by decide, by decide, by decide, by decide⟩⟩

/-- Two ways the acceptor ends up registered alone. The dialer's clock runs five minutes
ahead of the acceptor's: the acceptor reads the dialer's message at the bound, registers the
dialer and answers, and one second after it wrote, the dialer finds the answer 301 seconds
old. Or the clocks agree, but the acceptor's heartbeat goes out on the new connection before
its answer, and the dialer reads the heartbeat as its handshake. -/
theorem handshake_acceptor_registered_alone :
    ∃ d a, Network.new 0 (ascii "D") 50 = some d ∧ Network.new 1 (ascii "A") 50 = some a ∧
      (let r := handshakePair Primitives.ideal d a 0 0 (ascii "10.0.0.1:9000")
        (ascii "10.0.0.2:9000") (clock2024.unix + 300) [] clock2024 [] clock2024.unix []
        clock2024Plus301
      Registered r.2 (ascii "D") 0 ∧ ¬Registered r.1 (ascii "A") 0) ∧
      (let r := handshakePair Primitives.ideal d a 0 0 (ascii "10.0.0.1:9000")
        (ascii "10.0.0.2:9000") clock2024.unix [] clock2024 [heartbeatMessage (ascii "A") clock2024]
        clock2024.unix [] clock2024
      Registered r.2 (ascii "D") 0 ∧ ¬Registered r.1 (ascii "A") 0) := by
  obtain ⟨d, hd⟩ : ∃ d, Network.new 0 (ascii "D") 50 = some d := ⟨_, rfl⟩
  obtain ⟨a, ha⟩ : ∃ a, Network.new 1 (ascii "A") 50 = some a := ⟨_, rfl⟩
  refine ⟨d, a, hd, ha, ?_, ?_⟩
  · have hv := verifyHandshakeMessage_received Primitives.ideal d.handshakeMgr
      (by rw [Network.handshakeMgr_of_new hd]; decide) (clock2024.unix + 300) [] clock2024.unix
    rw [if_neg (timestamp_check_passes ⟨by decide, by decide⟩)] at hv
    have hacc := handshakePair_acceptor_verified Primitives.ideal d a 0 0 (ascii "10.0.0.1:9000")
      (ascii "10.0.0.2:9000") _ [] clock2024 [] clock2024.unix [] clock2024Plus301
      ⟨by decide, by decide⟩ hv
    have hdial := handshakePair_dialer Primitives.ideal d a 0 0 (ascii "10.0.0.1:9000")
      (ascii "10.0.0.2:9000") _ [] clock2024 [] clock2024.unix [] clock2024Plus301
      (by rw [Network.handshakeMgr_of_new ha]; decide) ⟨by decide, by decide⟩ rfl (by rw [hacc])
    rw [if_pos (by decide)] at hdial
    simp only [Registered, hacc, hdial, Network.handshakeMgr_of_new hd]
    decide
  · have hv := verifyHandshakeMessage_received Primitives.ideal d.handshakeMgr
      (by rw [Network.handshakeMgr_of_new hd]; decide) clock2024.unix [] clock2024.unix
    rw [if_neg (timestamp_check_passes ⟨by decide, by decide⟩)] at hv
    obtain ⟨s, hs⟩ : ∃ s, (heartbeatMessage (ascii "A") clock2024).serialize = some s :=
      Option.isSome_iff_exists.mp (by simp only [Message.serialize, Option.isSome_map']; rfl)
    have hacc := handshakePair_acceptor_verified Primitives.ideal d a 0 0 (ascii "10.0.0.1:9000")
      (ascii "10.0.0.2:9000") _ [] clock2024 [heartbeatMessage (ascii "A") clock2024]
      clock2024.unix [] clock2024 ⟨by decide, by decide⟩ hv
    have hdial := handshakePair_dialer_frame Primitives.ideal d a 0 0 (ascii "10.0.0.1:9000")
      (ascii "10.0.0.2:9000") _ [] clock2024 [heartbeatMessage (ascii "A") clock2024]
      clock2024.unix [] clock2024
      (show [heartbeatMessage (ascii "A") clock2024].filterMap Message.serialize = [s] by simp [hs])
      (by rw [hacc])
    simp only [Registered, hacc, hdial, Network.handshakeMgr_of_new hd]
    decide

end Synapse.P2P
