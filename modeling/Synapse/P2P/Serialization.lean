import Synapse.P2P.Message
import Synapse.Json.RoundTrip

/-!
# A message over the wire

`Message.Serialize` is `json.Marshal` of the envelope and `DeserializeMessage` is
`json.Unmarshal` into a zero `Message`; the frames of `readMessages` are the serialized bytes
and a newline. This module reads a serialized message back through the model of
`encoding/json`: the scanner accepts the frame (its newline is whitespace after the value),
each key selects its own field, and each field is decoded from what was written.

What comes back is `Message.received`: every string made valid UTF-8 (`json.Marshal` writes a
rejected byte as the escape of U+FFFD), the payload as `interface{}` decodes it, and the
timestamp with its zone offset in whole minutes. Two limits of the decoder remain: a payload
nested 10000 deep takes the envelope past the scanner's depth limit, and a number literal
beyond `float64`'s range does not decode into `interface{}`.
-/

namespace Synapse.P2P

open Synapse.Json

/-! ## The fields of the envelope -/

theorem messageField_type (m : Message) (v : Parsed) :
    messageField m (ascii "type") v = (decodeString m.type v).map fun s => { m with type := s } := by
  rw [messageField, if_pos (by decide)]

theorem messageField_id (m : Message) (v : Parsed) :
    messageField m (ascii "id") v = (decodeString m.id v).map fun s => { m with id := s } := by
  rw [messageField, if_neg (by decide), if_pos (by decide)]

theorem messageField_sender (m : Message) (v : Parsed) :
    messageField m (ascii "sender") v =
      (decodeString m.sender v).map fun s => { m with sender := s } := by
  rw [messageField, if_neg (by decide), if_neg (by decide), if_pos (by decide)]

theorem messageField_timestamp (m : Message) (v : Parsed) :
    messageField m (ascii "timestamp") v =
      (unmarshalTime m.timestamp v).map fun t => { m with timestamp := t } := by
  rw [messageField, if_neg (by decide), if_neg (by decide), if_neg (by decide), if_pos (by decide)]

theorem messageField_payload (m : Message) (v : Parsed) :
    messageField m (ascii "payload") v = (decodeAny v).map fun p => { m with payload := p } := by
  rw [messageField, if_neg (by decide), if_neg (by decide), if_neg (by decide), if_neg (by decide),
    if_pos (by decide)]

theorem Message.depth_toValue (m : Message) (ts : Bytes) : (m.toValue ts).depth = m.payload.depth + 1 := by
  simp [Message.toValue, Value.depth, depthMembers]

/-! ## Reading a frame back -/

/-- What `DeserializeMessage` reads of a serialized message whose timestamp came back as
`t`. -/
def Message.received (m : Message) (t : Time) : Message :=
  ⟨coerceUTF8 m.type, coerceUTF8 m.id, coerceUTF8 m.sender, t, m.payload.coerce⟩

/-- A serialized message holds no newline, so the frame `readMessages` cuts is the whole
message. -/
theorem newline_not_mem_serialize {m : Message} {s : Bytes} (hs : m.serialize = some s) :
    0x0A ∉ s := by
  obtain ⟨ts, -, rfl⟩ := Option.map_eq_some'.mp hs
  exact newline_not_mem_encode _

/-- The scanner reads a serialized message, if at all, as an object whose first four members
are its type, id, sender and timestamp, each a string; what follows depends on the payload. -/
theorem parseText_serialize {m : Message} {s : Bytes} (hs : m.serialize = some s) {p : Parsed}
    (hp : parseText s = some p) :
    ∃ ts kvs, p = .obj ([(ascii "type", .str (escapeString m.type)),
      (ascii "id", .str (escapeString m.id)), (ascii "sender", .str (escapeString m.sender)),
      (ascii "timestamp", .str (escapeString ts))] ++ kvs) := by
  obtain ⟨ts, -, rfl⟩ := Option.map_eq_some'.mp hs
  have htext : (m.toValue ts).encode = 0x7B :: (appendString (ascii "type") ++ 0x3A ::
      appendString m.type ++ 0x2C :: (appendString (ascii "id") ++ 0x3A :: appendString m.id ++
      0x2C :: (appendString (ascii "sender") ++ 0x3A :: appendString m.sender ++ 0x2C ::
      (appendString (ascii "timestamp") ++ 0x3A :: appendString ts ++ 0x2C ::
      (appendString (ascii "payload") ++ 0x3A :: m.payload.encode ++ [0x7D]))))) := by
    simp [Message.toValue, Value.encode, encodeMembers]
  obtain ⟨f, hf⟩ : ∃ f, 2 * ((m.toValue ts).encode.length) + 2 = f + 6 :=
    ⟨2 * ((m.toValue ts).encode.length) - 4, by rw [htext]; simp [appendString]; omega⟩
  unfold parseText at hp
  rw [hf] at hp
  split at hp
  · rename_i v rest hv
    rw [htext, parseValue, skipWs_cons (by decide)] at hv
    simp only [if_pos (show (0 : Nat) < maxNestingDepth by decide), if_pos rfl] at hv
    rw [show f + 5 = f + 3 + 2 from rfl, parseMembers_str, show f + 3 + 1 = f + 2 + 2 from rfl,
      parseMembers_str, show f + 2 + 1 = f + 1 + 2 from rfl, parseMembers_str,
      show f + 1 + 1 = f + 2 from rfl, parseMembers_str] at hv
    obtain ⟨kvs, rfl⟩ := parseMembers_prefix _ _ _ _ _ _ hv
    split_ifs at hp
    cases hp
    refine ⟨ts, kvs, ?_⟩
    simp [escapeString_of_htmlSafe (s := ascii "type") (by decide),
      escapeString_of_htmlSafe (s := ascii "id") (by decide),
      escapeString_of_htmlSafe (s := ascii "sender") (by decide),
      escapeString_of_htmlSafe (s := ascii "timestamp") (by decide)]
  · cases hp

/-- **`DeserializeMessage` reads back every serialized frame** whose payload the decoder
takes (below the depth limit, numbers within `float64`): each string made valid UTF-8, the
payload as `interface{}` decodes it, and the timestamp with every field but the zone offset
unchanged, the offset rounded toward zero to whole minutes. -/
theorem deserializeMessage_serialize {m : Message} {s : Bytes} (hs : m.serialize = some s)
    (hfit : m.payload.numbersFit = true) (hd : m.payload.depth < maxNestingDepth) :
    ∃ t, deserializeMessage (s ++ [0x0A]) = some (m.received t) ∧
      t.year = m.timestamp.year ∧ t.month = m.timestamp.month ∧ t.day = m.timestamp.day ∧
      t.hour = m.timestamp.hour ∧ t.minute = m.timestamp.minute ∧
      t.second = m.timestamp.second ∧ t.nanosecond = m.timestamp.nanosecond ∧
      t.offset = m.timestamp.offset.tdiv 60 * 60 := by
  obtain ⟨ts, hts, rfl⟩ := Option.map_eq_some'.mp hs
  obtain ⟨t, hp, hfields⟩ := parseRFC3339_formatRFC3339 hts
  have hparse : parseText ((m.toValue ts).encode ++ [0x0A]) = some (m.toValue ts).toParsed :=
    parseText_encode _ (by rw [Message.depth_toValue]; exact hd) (by decide)
  refine ⟨t, ?_, hfields⟩
  rw [deserializeMessage, unmarshal, hparse, Option.some_bind]
  simp [Message.toValue, Value.toParsed, toParsedMembers,
    decodeStruct, Message.received,
    unquote_escapeString_of_htmlSafe (s := ascii "type") (by decide),
    unquote_escapeString_of_htmlSafe (s := ascii "id") (by decide),
    unquote_escapeString_of_htmlSafe (s := ascii "sender") (by decide),
    unquote_escapeString_of_htmlSafe (s := ascii "timestamp") (by decide),
    unquote_escapeString_of_htmlSafe (s := ascii "payload") (by decide),
    messageField_type, messageField_id, messageField_sender, messageField_timestamp,
    messageField_payload, decodeString, unquote_escapeString, unmarshalTime,
    escapeString_of_htmlSafe (htmlSafe_of_mem_formatRFC3339 hts), hp, decodeAny_toParsed _ hfit]

/-- **A serialized message crosses the wire with its type, id and sender** when the three are
valid UTF-8 and the decoder takes the payload: the serialized bytes hold no newline, and
`DeserializeMessage` of the frame returns the three fields unchanged. -/
theorem serialize_frame_keeps_envelope (m : Message) (s : Bytes) (hs : m.serialize = some s)
    (htype : ValidUTF8 m.type) (hid : ValidUTF8 m.id) (hsender : ValidUTF8 m.sender)
    (hfit : m.payload.numbersFit = true) (hd : m.payload.depth < maxNestingDepth) :
    0x0A ∉ s ∧ ∃ m', deserializeMessage (s ++ [0x0A]) = some m' ∧
      m'.type = m.type ∧ m'.id = m.id ∧ m'.sender = m.sender := by
  obtain ⟨t, ht, -⟩ := deserializeMessage_serialize hs hfit hd
  exact ⟨newline_not_mem_serialize hs, _, ht, coerceUTF8_of_validUTF8 htype,
    coerceUTF8_of_validUTF8 hid, coerceUTF8_of_validUTF8 hsender⟩

theorem serialize_frame_keeps_envelope_hello :
    ∃ s, Message.serialize ⟨ascii "HELLO", ascii "HELLO-1", ascii "N", Time.zero, .null⟩ = some s ∧
      ValidUTF8 (ascii "HELLO") ∧ ValidUTF8 (ascii "HELLO-1") ∧ ValidUTF8 (ascii "N") ∧
      Value.numbersFit .null = true ∧ Value.depth .null < maxNestingDepth ∧
      0x0A ∉ s ∧ ∃ m', deserializeMessage (s ++ [0x0A]) = some m' ∧
        m'.type = ascii "HELLO" ∧ m'.id = ascii "HELLO-1" ∧ m'.sender = ascii "N" :=
  ⟨_, rfl, by decide, by decide, by decide, rfl, by decide,
    serialize_frame_keeps_envelope ⟨ascii "HELLO", ascii "HELLO-1", ascii "N", Time.zero, .null⟩ _
      rfl (by decide) (by decide) (by decide) rfl (by decide)⟩

/-- A message of type `[0xFF]` serializes, and comes back with the type U+FFFD. -/
theorem invalid_utf8_type_comes_back_replaced :
    ∃ s, Message.serialize ⟨[0xFF], ascii "HELLO-1", ascii "N", Time.zero, .null⟩ = some s ∧
      ∃ m', deserializeMessage (s ++ [0x0A]) = some m' ∧ m'.type = [0xEF, 0xBF, 0xBD] := by
  obtain ⟨t, ht, -⟩ := deserializeMessage_serialize
    (m := ⟨[0xFF], ascii "HELLO-1", ascii "N", Time.zero, .null⟩) rfl rfl (by decide)
  exact ⟨_, rfl, _, ht, (by decide : coerceUTF8 [0xFF] = [0xEF, 0xBF, 0xBD])⟩

end Synapse.P2P
