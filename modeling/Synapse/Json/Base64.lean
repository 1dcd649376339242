import Synapse.Json.Unmarshal

/-!
# `[]byte` in JSON: `base64.StdEncoding`

`json.Marshal` writes a `[]byte` as its standard base64 text in quotes, and `nil` as
`null`; `json.Unmarshal` decodes the unquoted text back. Every base64 byte is one
`appendString` writes as it is.
-/

namespace Synapse.Json

/-- `encodeStd`, the standard alphabet. -/
def b64Char (i : Nat) : UInt8 :=
  if i < 26 then (0x41 + i).toUInt8
  else if i < 52 then (0x61 + (i - 26)).toUInt8
  else if i < 62 then (0x30 + (i - 52)).toUInt8
  else if i = 62 then 0x2B else 0x2F

/-- `decodeMap`: the value of a base64 character. -/
def b64Value (c : UInt8) : Option Nat :=
  if 0x41 ≤ c ∧ c ≤ 0x5A then some (c.toNat - 0x41)
  else if 0x61 ≤ c ∧ c ≤ 0x7A then some (c.toNat - 0x61 + 26)
  else if 0x30 ≤ c ∧ c ≤ 0x39 then some (c.toNat - 0x30 + 52)
  else if c = 0x2B then some 62
  else if c = 0x2F then some 63
  else none

/-- `StdEncoding.Encode`: three bytes to four characters, the last group padded. -/
def b64Encode : Bytes → Bytes
  | [] => []
  | [a] => [b64Char (a.toNat / 4), b64Char (a.toNat % 4 * 16), 0x3D, 0x3D]
  | [a, b] => [b64Char (a.toNat / 4), b64Char (a.toNat % 4 * 16 + b.toNat / 16),
      b64Char (b.toNat % 16 * 4), 0x3D]
  | a :: b :: c :: t => [b64Char (a.toNat / 4), b64Char (a.toNat % 4 * 16 + b.toNat / 16),
      b64Char (b.toNat % 16 * 4 + c.toNat / 64), b64Char (c.toNat % 64)] ++ b64Encode t

/-- `StdEncoding.Decode` after the line breaks it skips: four characters at a time,
padding only in the last group. -/
def b64Decode : Bytes → Option Bytes
  | [] => some []
  | c1 :: c2 :: c3 :: c4 :: t =>
    match b64Value c1, b64Value c2, b64Value c3, b64Value c4 with
    | some v1, some v2, some v3, some v4 =>
      ([(v1 * 4 + v2 / 16).toUInt8, (v2 % 16 * 16 + v3 / 4).toUInt8,
        (v3 % 4 * 64 + v4).toUInt8] ++ ·) <$> b64Decode t
    | some v1, some v2, some v3, none =>
      if c4 = 0x3D ∧ t = [] then some [(v1 * 4 + v2 / 16).toUInt8, (v2 % 16 * 16 + v3 / 4).toUInt8]
      else none
    | some v1, some v2, none, none =>
      if c3 = 0x3D ∧ c4 = 0x3D ∧ t = [] then some [(v1 * 4 + v2 / 16).toUInt8] else none
    | _, _, _, _ => none
  | _ => none

/-- A `[]byte` as `json.Marshal` writes it. -/
def Value.ofBytes : Option Bytes → Value
  | none => .null
  | some b => .str (b64Encode b)

/-- A `[]byte` field: a string is base64-decoded, `null` sets it to `nil`. -/
def decodeBytes : Parsed → Option (Option Bytes)
  | .str raw => (unquote raw).bind fun s =>
      (b64Decode (s.filter fun c => c != 0x0A && c != 0x0D)).map some
  | .null => some none
  | _ => none

/-! ## Reading back what is written -/

/-- Every character of the alphabet decodes to its index. -/
theorem b64Value_b64Char : ∀ i < 64, b64Value (b64Char i) = some i := by decide

theorem toUInt8_of_eq {n : Nat} {a : UInt8} (h : n = a.toNat) : n.toUInt8 = a := h ▸ toUInt8_toNat a

/-- **`StdEncoding.Decode` inverts `StdEncoding.Encode`.** -/
theorem b64Decode_b64Encode (b : Bytes) : b64Decode (b64Encode b) = some b := by
  have hpad : b64Value 0x3D = none := rfl
  induction b using b64Encode.induct with
  | case1 => rfl
  | case2 a =>
    have : a.toNat < 256 := a.toNat_lt_size
    simp only [b64Encode, b64Decode, b64Value_b64Char _ (by omega : a.toNat / 4 < 64),
      b64Value_b64Char _ (by omega : a.toNat % 4 * 16 < 64), hpad]
    rw [if_pos ⟨trivial, trivial, trivial⟩, toUInt8_of_eq (a := a) (by omega)]
  | case3 a b =>
    have : a.toNat < 256 := a.toNat_lt_size
    have : b.toNat < 256 := b.toNat_lt_size
    simp only [b64Encode, b64Decode, b64Value_b64Char _ (by omega : a.toNat / 4 < 64),
      b64Value_b64Char _ (by omega : a.toNat % 4 * 16 + b.toNat / 16 < 64),
      b64Value_b64Char _ (by omega : b.toNat % 16 * 4 < 64), hpad]
    rw [if_pos ⟨trivial, trivial⟩, toUInt8_of_eq (a := a) (by omega), toUInt8_of_eq (a := b) (by omega)]
  | case4 a b c t ih =>
    have : a.toNat < 256 := a.toNat_lt_size
    have : b.toNat < 256 := b.toNat_lt_size
    have : c.toNat < 256 := c.toNat_lt_size
    simp only [b64Encode, List.cons_append, List.nil_append]
    simp only [b64Decode, ih,
      b64Value_b64Char _ (by omega : a.toNat / 4 < 64),
      b64Value_b64Char _ (by omega : a.toNat % 4 * 16 + b.toNat / 16 < 64),
      b64Value_b64Char _ (by omega : b.toNat % 16 * 4 + c.toNat / 64 < 64),
      b64Value_b64Char _ (by omega : c.toNat % 64 < 64)]
    rw [toUInt8_of_eq (a := a) (by omega), toUInt8_of_eq (a := b) (by omega),
      toUInt8_of_eq (a := c) (by omega)]
    rfl

theorem htmlSafe_b64Char : ∀ i < 64, htmlSafe (b64Char i) = true := by decide

/-- Every byte of a base64 text is one `appendString` writes as it is. -/
theorem htmlSafe_of_mem_b64Encode (b : Bytes) : ∀ x ∈ b64Encode b, htmlSafe x = true := by
  have hpad : htmlSafe 0x3D = true := rfl
  induction b using b64Encode.induct with
  | case1 => simp [b64Encode]
  | case2 a =>
    have : a.toNat < 256 := a.toNat_lt_size
    simp only [b64Encode, List.forall_mem_cons, List.not_mem_nil, false_imp_iff, implies_true,
      and_true, hpad]
    exact ⟨htmlSafe_b64Char _ (by omega), htmlSafe_b64Char _ (by omega)⟩
  | case3 a b =>
    have : a.toNat < 256 := a.toNat_lt_size
    have : b.toNat < 256 := b.toNat_lt_size
    simp only [b64Encode, List.forall_mem_cons, List.not_mem_nil, false_imp_iff, implies_true,
      and_true, hpad]
    exact ⟨htmlSafe_b64Char _ (by omega), htmlSafe_b64Char _ (by omega), htmlSafe_b64Char _ (by omega)⟩
  | case4 a b c t ih =>
    have : a.toNat < 256 := a.toNat_lt_size
    have : b.toNat < 256 := b.toNat_lt_size
    have : c.toNat < 256 := c.toNat_lt_size
    simp only [b64Encode, List.cons_append, List.nil_append, List.forall_mem_cons]
    exact ⟨htmlSafe_b64Char _ (by omega), htmlSafe_b64Char _ (by omega),
      htmlSafe_b64Char _ (by omega), htmlSafe_b64Char _ (by omega), ih⟩

end Synapse.Json
