import Synapse.Json.Unmarshal

/-!
# Messages (`message.go`)

The envelope every frame carries, its JSON form, and the payloads the handlers of
`network.go` read. A payload is an `interface{}`: on the way out it is whatever Go value
the sender put there, written as the tree `json.Marshal` makes of it; on the way in it is
what `json.Unmarshal` makes of the frame, strings unquoted and numbers checked against
`float64`. A handler re-marshals it and unmarshals the bytes into its payload struct.
-/

namespace Synapse.P2P

open Synapse.Json

/-- `MessageTypeHello`. -/
def MessageTypeHello : Bytes := ascii "HELLO"
/-- `MessageTypePeerList`. -/
def MessageTypePeerList : Bytes := ascii "PEER_LIST"
/-- `MessageTypeHeartbeat`. -/
def MessageTypeHeartbeat : Bytes := ascii "HEARTBEAT"
/-- `MessageTypePing`. -/
def MessageTypePing : Bytes := ascii "PING"
/-- `MessageTypePong`. -/
def MessageTypePong : Bytes := ascii "PONG"

/-- `Message`. -/
structure Message where
  type : Bytes
  id : Bytes
  sender : Bytes
  timestamp : Time
  payload : Value

/-- Go's zero `time.Time`: January 1 of year 1, UTC. -/
def Time.zero : Time := ⟨1, 1, 1, 0, 0, 0, 0, 0, by decide, by decide, by decide, by decide,
  by decide, by decide⟩

/-- The zero `Message` that `DeserializeMessage` decodes into. -/
def Message.zero : Message := ⟨[], [], [], Time.zero, .null⟩

/-- The object `json.Marshal(m)` writes, the timestamp as the text `MarshalJSON` puts
between quotes (every byte of it is one `appendString` writes as it is). -/
def Message.toValue (m : Message) (ts : Bytes) : Value :=
  .obj [(ascii "type", .str m.type), (ascii "id", .str m.id), (ascii "sender", .str m.sender),
    (ascii "timestamp", .str ts), (ascii "payload", m.payload)]

/-- `Message.Serialize`: `json.Marshal(m)`, which fails where the timestamp's
`MarshalJSON` does. -/
def Message.serialize (m : Message) : Option Bytes :=
  (formatRFC3339 m.timestamp).map fun ts => (m.toValue ts).encode

/-- One member of a `Message` object, matched against the field names. -/
def messageField (m : Message) (key : Bytes) (v : Parsed) : Option Message :=
  if keyIs (ascii "type") key then (decodeString m.type v).map fun s => { m with type := s }
  else if keyIs (ascii "id") key then (decodeString m.id v).map fun s => { m with id := s }
  else if keyIs (ascii "sender") key then (decodeString m.sender v).map fun s => { m with sender := s }
  else if keyIs (ascii "timestamp") key then
    (unmarshalTime m.timestamp v).map fun t => { m with timestamp := t }
  else if keyIs (ascii "payload") key then (decodeAny v).map fun p => { m with payload := p }
  else some m

/-- `DeserializeMessage`: `json.Unmarshal` into a zero `Message`; any error is `nil`. -/
def deserializeMessage (data : Bytes) : Option Message :=
  unmarshal (decodeStruct messageField Message.zero) data

/-- The errors of `Message.Validate`. -/
inductive ValidateError where
  | emptyType | emptyID | emptySender
  deriving DecidableEq, Repr

/-- `Message.Validate`. -/
def Message.validate (m : Message) : Except ValidateError Unit :=
  if m.type = [] then .error .emptyType
  else if m.id = [] then .error .emptyID
  else if m.sender = [] then .error .emptySender
  else .ok ()

/-! ## Payloads -/

/-- `HelloPayload`. -/
structure HelloPayload where
  nodeID : Bytes
  version : Bytes
  listenPort : Int
  capabilities : List Bytes

/-- A `[]string` field: an array of strings (a `null` element stays empty), or `null`. -/
def decodeStrings (old : List Bytes) : Parsed → Option (List Bytes)
  | .null => some old
  | .arr xs => xs.mapM (decodeString [])
  | _ => none

/-- One member of a `HelloPayload` object. -/
def helloField (p : HelloPayload) (key : Bytes) (v : Parsed) : Option HelloPayload :=
  if keyIs (ascii "node_id") key then (decodeString p.nodeID v).map fun s => { p with nodeID := s }
  else if keyIs (ascii "version") key then (decodeString p.version v).map fun s => { p with version := s }
  else if keyIs (ascii "listen_port") key then
    (decodeInt64 p.listenPort v).map fun n => { p with listenPort := n }
  else if keyIs (ascii "capabilities") key then
    (decodeStrings p.capabilities v).map fun cs => { p with capabilities := cs }
  else some p

/-- The `HelloPayload` a handler reads from a message's payload: `json.Marshal` of the
payload, then `json.Unmarshal` into a zero struct. -/
def helloPayload (payload : Value) : Option HelloPayload :=
  unmarshal (decodeStruct helloField ⟨[], [], 0, []⟩) payload.encode

/-- `HeartbeatPayload`. -/
structure HeartbeatPayload where
  nodeID : Bytes
  ts : Int

/-- One member of a `HeartbeatPayload` object. -/
def heartbeatField (p : HeartbeatPayload) (key : Bytes) (v : Parsed) : Option HeartbeatPayload :=
  if keyIs (ascii "node_id") key then (decodeString p.nodeID v).map fun s => { p with nodeID := s }
  else if keyIs (ascii "timestamp") key then (decodeInt64 p.ts v).map fun n => { p with ts := n }
  else some p

/-- The `HeartbeatPayload` `handleHeartbeatMessage` reads from a payload. -/
def heartbeatPayload (payload : Value) : Option HeartbeatPayload :=
  unmarshal (decodeStruct heartbeatField ⟨[], 0⟩) payload.encode

/-- The tree `json.Marshal` writes for a `HeartbeatPayload`. -/
def HeartbeatPayload.toValue (p : HeartbeatPayload) : Value :=
  .obj [(ascii "node_id", .str p.nodeID), (ascii "timestamp", .num (Number.ofInt p.ts))]

end Synapse.P2P
