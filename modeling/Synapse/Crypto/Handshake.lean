import Synapse.Json.RoundTrip

/-!
# The secure handshake (`handshake.go`)

`CreateHandshakeMessage` signs the JSON encoding of the message without its signature;
`VerifyHandshakeMessage` encodes a copy of the received fields again and checks the
signature against the public key the message carries, then the timestamp. Whether the
two encodings agree is the whole question, so both are the real `json.Marshal` here.
RSA-PSS and the PEM encoding of keys are taken as ideal (`Primitives`): a signature made
with a key over some bytes verifies under that key for those bytes, and
`UnmarshalPublicKey` inverts `MarshalPublicKey`. Timestamps are `int64` seconds and the
check subtracts them as Go does, with wrap-around.
-/

namespace Synapse.Crypto

open Synapse.Json

/-- A key pair, by identity. -/
abbrev KeyId := Nat

/-- The primitives of `encrypt.go` the handshake uses, with the laws taken as ideal. -/
structure Primitives where
  /-- `MarshalPublicKey`: the PEM bytes of a public key. -/
  marshalPublicKey : KeyId → Bytes
  /-- `UnmarshalPublicKey`. -/
  unmarshalPublicKey : Bytes → Option KeyId
  /-- `SignMessage` with the key pair's private key. -/
  signMessage : KeyId → Bytes → Bytes
  /-- `VerifySignature(message, signature, pubKey)`. -/
  verifySignature : Bytes → Bytes → KeyId → Bool
  unmarshal_marshal : ∀ k, unmarshalPublicKey (marshalPublicKey k) = some k
  verify_sign : ∀ k m, verifySignature m (signMessage k m) k = true

/-- An ideal scheme: a key's PEM bytes are its identity in unary, and a signature is the
key's tag and the message, so it verifies for that key and that message only. -/
def Primitives.ideal : Primitives where
  marshalPublicKey k := List.replicate k 0x41
  unmarshalPublicKey b := some b.length
  signMessage k m := List.replicate k 0x41 ++ m
  verifySignature m s k := s == List.replicate k 0x41 ++ m
  unmarshal_marshal k := by simp
  verify_sign k m := by simp

/-- `HandshakeMessage`; a `nil` byte slice is `none`. -/
structure HandshakeMessage where
  nodeID : Bytes
  publicKey : Option Bytes
  timestamp : Int
  signature : Option Bytes
  sessionKey : Option Bytes
  deriving DecidableEq, Repr

/-- The tree `json.Marshal` writes for a handshake message; `session_key` is
`omitempty`. -/
def HandshakeMessage.toValue (m : HandshakeMessage) : Value :=
  .obj ([(ascii "node_id", .str m.nodeID), (ascii "public_key", .ofBytes m.publicKey),
    (ascii "timestamp", .num (Number.ofInt m.timestamp)), (ascii "signature", .ofBytes m.signature)] ++
    if (m.sessionKey.getD []).isEmpty then [] else [(ascii "session_key", .ofBytes m.sessionKey)])

/-- `json.Marshal` of a handshake message. -/
def HandshakeMessage.marshal (m : HandshakeMessage) : Bytes := m.toValue.encode

/-- The fields the signature covers: the message with no signature. -/
def HandshakeMessage.unsigned (m : HandshakeMessage) : HandshakeMessage :=
  { m with signature := none }

/-- `HandshakeManager`: the node's key pair and id. -/
structure HandshakeManager where
  key : KeyId
  nodeID : Bytes

/-- `CreateHandshakeMessage` at Unix time `now`, with the 32 random bytes drawn for the
session key. -/
def HandshakeManager.createHandshakeMessage (P : Primitives) (h : HandshakeManager) (now : Int)
    (sessionKey : Bytes) : HandshakeMessage :=
  let msg : HandshakeMessage := ⟨h.nodeID, some (P.marshalPublicKey h.key), now, none, some sessionKey⟩
  { msg with signature := some (P.signMessage h.key msg.marshal) }

@[simp] theorem createHandshakeMessage_nodeID (P : Primitives) (h : HandshakeManager) (now : Int)
    (sessionKey : Bytes) : (h.createHandshakeMessage P now sessionKey).nodeID = h.nodeID := rfl

/-- Go's `int64` subtraction, wrapping modulo `2 ^ 64`. -/
def int64Sub (a b : Int) : Int := (a - b + 2 ^ 63) % 2 ^ 64 - 2 ^ 63

/-- The errors of `VerifyHandshakeMessage`. -/
inductive VerifyError where
  | publicKey | signature | timestamp
  deriving DecidableEq, Repr

/-- `VerifyHandshakeMessage` at Unix time `now`. -/
def verifyHandshakeMessage (P : Primitives) (now : Int) (msg : HandshakeMessage) :
    Except VerifyError Unit :=
  match P.unmarshalPublicKey (msg.publicKey.getD []) with
  | none => .error .publicKey
  | some pk =>
    if !P.verifySignature msg.unsigned.marshal (msg.signature.getD []) pk then .error .signature
    else if int64Sub now msg.timestamp > 300 ∨ int64Sub msg.timestamp now > 300 then
      .error .timestamp
    else .ok ()

/-! ## On the wire -/

/-- One member of a `HandshakeMessage` object. -/
def handshakeField (m : HandshakeMessage) (key : Bytes) (v : Parsed) : Option HandshakeMessage :=
  if keyIs (ascii "node_id") key then (decodeString m.nodeID v).map fun s => { m with nodeID := s }
  else if keyIs (ascii "public_key") key then (decodeBytes v).map fun b => { m with publicKey := b }
  else if keyIs (ascii "timestamp") key then
    (decodeInt64 m.timestamp v).map fun n => { m with timestamp := n }
  else if keyIs (ascii "signature") key then (decodeBytes v).map fun b => { m with signature := b }
  else if keyIs (ascii "session_key") key then (decodeBytes v).map fun b => { m with sessionKey := b }
  else some m

/-- `sendHandshakeMessage`: the bytes written, the encoding and a newline. -/
def sendHandshakeMessage (m : HandshakeMessage) : Bytes := m.marshal ++ [0x0A]

/-- `receiveHandshakeMessage` on the line read (its newline, if any, is dropped):
`json.Unmarshal` into a zero message. -/
def receiveHandshakeMessage (line : Bytes) : Option HandshakeMessage :=
  let data := if line.getLast? = some 0x0A then line.dropLast else line
  unmarshal (decodeStruct handshakeField ⟨[], none, 0, none, none⟩) data

/-! ## The wire round trip

`receiveHandshakeMessage` reads back every field `sendHandshakeMessage` wrote, but two:
the node id comes back made valid UTF-8, and an empty session key comes back `nil`, since
`omitempty` dropped it. -/

theorem handshakeField_nodeID (m : HandshakeMessage) (v : Parsed) :
    handshakeField m (ascii "node_id") v = (decodeString m.nodeID v).map fun s => { m with nodeID := s } := by
  rw [handshakeField, if_pos (by decide)]

theorem handshakeField_publicKey (m : HandshakeMessage) (v : Parsed) :
    handshakeField m (ascii "public_key") v =
      (decodeBytes v).map fun b => { m with publicKey := b } := by
  rw [handshakeField, if_neg (by decide), if_pos (by decide)]

theorem handshakeField_timestamp (m : HandshakeMessage) (v : Parsed) :
    handshakeField m (ascii "timestamp") v =
      (decodeInt64 m.timestamp v).map fun n => { m with timestamp := n } := by
  rw [handshakeField, if_neg (by decide), if_neg (by decide), if_pos (by decide)]

theorem handshakeField_signature (m : HandshakeMessage) (v : Parsed) :
    handshakeField m (ascii "signature") v =
      (decodeBytes v).map fun b => { m with signature := b } := by
  rw [handshakeField, if_neg (by decide), if_neg (by decide), if_neg (by decide), if_pos (by decide)]

theorem handshakeField_sessionKey (m : HandshakeMessage) (v : Parsed) :
    handshakeField m (ascii "session_key") v =
      (decodeBytes v).map fun b => { m with sessionKey := b } := by
  rw [handshakeField, if_neg (by decide), if_neg (by decide), if_neg (by decide), if_neg (by decide),
    if_pos (by decide)]

theorem depth_toValue (m : HandshakeMessage) : m.toValue.depth ≤ maxNestingDepth := by
  unfold HandshakeMessage.toValue
  split <;> simp [Value.depth, depthMembers, depth_ofBytes, maxNestingDepth]

/-- What the receiver reads of a message: its node id made valid UTF-8, and its session key
`nil` when it was empty. -/
def HandshakeMessage.received (m : HandshakeMessage) : HandshakeMessage :=
  { m with
    nodeID := coerceUTF8 m.nodeID
    sessionKey := if (m.sessionKey.getD []).isEmpty then none else m.sessionKey }

@[simp] theorem received_nodeID (m : HandshakeMessage) : m.received.nodeID = coerceUTF8 m.nodeID := rfl
@[simp] theorem received_publicKey (m : HandshakeMessage) : m.received.publicKey = m.publicKey := rfl
@[simp] theorem received_timestamp (m : HandshakeMessage) : m.received.timestamp = m.timestamp := rfl
@[simp] theorem received_signature (m : HandshakeMessage) : m.received.signature = m.signature := rfl

/-- **What `sendHandshakeMessage` writes, `receiveHandshakeMessage` reads back**, as
`received` says, for a timestamp in `int64`'s range. -/
theorem receiveHandshakeMessage_sendHandshakeMessage (m : HandshakeMessage)
    (h1 : -2 ^ 63 ≤ m.timestamp) (h2 : m.timestamp < 2 ^ 63) :
    receiveHandshakeMessage (sendHandshakeMessage m) = some m.received := by
  have hparse : parseText m.marshal = some m.toValue.toParsed := by
    simpa using parseText_encode m.toValue (depth_toValue m)
      (by simp : ∀ b ∈ ([] : Bytes), isSpace b = true)
  have hline : (if (sendHandshakeMessage m).getLast? = some 0x0A then (sendHandshakeMessage m).dropLast
      else sendHandshakeMessage m) = m.marshal := by
    simp [sendHandshakeMessage]
  simp only [receiveHandshakeMessage, hline, unmarshal, hparse, Option.some_bind]
  unfold HandshakeMessage.toValue
  split <;> simp [Value.toParsed, toParsedMembers, decodeStruct, HandshakeMessage.received,
    unquote_escapeString_of_htmlSafe (s := ascii "node_id") (by decide),
    unquote_escapeString_of_htmlSafe (s := ascii "public_key") (by decide),
    unquote_escapeString_of_htmlSafe (s := ascii "timestamp") (by decide),
    unquote_escapeString_of_htmlSafe (s := ascii "signature") (by decide),
    unquote_escapeString_of_htmlSafe (s := ascii "session_key") (by decide),
    handshakeField_nodeID, handshakeField_publicKey, handshakeField_timestamp,
    handshakeField_signature, handshakeField_sessionKey, decodeString, unquote_escapeString,
    decodeBytes_ofBytes, decodeInt64, Number.ofInt, parseInt64_intLiteral h1 h2, *]

/-! ## Verifying what was received -/

/-- Go's `int64` subtraction is the difference when that fits. -/
theorem int64Sub_eq {a b : Int} (h1 : -2 ^ 63 ≤ a - b) (h2 : a - b < 2 ^ 63) :
    int64Sub a b = a - b := by
  unfold int64Sub
  rw [Int.emod_eq_of_lt (by omega) (by omega)]
  omega

/-- The signed bytes are the same after the round trip when the node id is valid UTF-8:
an empty session key is left out of the encoding either way. -/
theorem marshal_unsigned_received {m : HandshakeMessage} (hid : ValidUTF8 m.nodeID) :
    m.received.unsigned.marshal = m.unsigned.marshal := by
  simp only [HandshakeMessage.received, HandshakeMessage.unsigned, HandshakeMessage.marshal,
    HandshakeMessage.toValue, coerceUTF8_of_validUTF8 hid]
  split <;> simp_all

/-- **A created message passes the signature check once it has crossed the wire**, when its
node id is valid UTF-8: only the timestamp check is left. -/
theorem verifyHandshakeMessage_received (P : Primitives) (h : HandshakeManager)
    (hid : ValidUTF8 h.nodeID) (now : Int) (sessionKey : Bytes) (now' : Int) :
    verifyHandshakeMessage P now' (h.createHandshakeMessage P now sessionKey).received =
      if int64Sub now' now > 300 ∨ int64Sub now now' > 300 then .error .timestamp else .ok () := by
  have hsig := marshal_unsigned_received (m := h.createHandshakeMessage P now sessionKey) hid
  have hsigned : (h.createHandshakeMessage P now sessionKey).unsigned =
      ⟨h.nodeID, some (P.marshalPublicKey h.key), now, none, some sessionKey⟩ := rfl
  simp only [verifyHandshakeMessage, received_publicKey, received_signature, received_timestamp,
    HandshakeManager.createHandshakeMessage, Option.getD_some, P.unmarshal_marshal] at hsig hsigned ⊢
  rw [hsig, hsigned, P.verify_sign, if_neg (by decide)]

/-- Within five minutes either way, and so within `int64`, the timestamp check passes. -/
theorem timestamp_check_passes {now now' : Int} (hskew : now' - now ≤ 300 ∧ now - now' ≤ 300) :
    ¬(int64Sub now' now > 300 ∨ int64Sub now now' > 300) := by
  rw [int64Sub_eq (by omega) (by omega), int64Sub_eq (by omega) (by omega)]
  omega

end Synapse.Crypto
