import Mathlib.Tactic.FinCases
import Synapse.Json.Decode
import Synapse.Json.Strings

/-!
# Node ids: `uuid.New`, `UUID.String` and `uuid.Parse`

A node's id is the text of a version 4 UUID of `github.com/google/uuid`, which `node.New`
calls. `New` draws sixteen random bytes and sets the version and variant bits; `String`
writes the bytes as 32 lower-case hex digits in groups of 8, 4, 4, 4 and 12, joined by
hyphens. `Parse` tells four forms apart by their length: that one; the same behind
`urn:uuid:` in any case; the same between two bytes it does not look at (meant for `{` and
`}`); and 32 hex digits with no hyphens. Hex digits may be of either case.

`Parse` reads back every UUID `String` writes (`parse_string`), and the text is ASCII
(`lt_of_mem_string`), so it is written and read back unchanged as a JSON string.
-/

namespace Synapse.Uuid

open Synapse.Json

/-- `uuid.UUID`, a `[16]byte`. -/
def UUID := Fin 16 → UInt8

instance : DecidableEq UUID := inferInstanceAs (DecidableEq (Fin 16 → UInt8))

/-- The bytes of a UUID in order, `uuid[:]`. -/
def UUID.bytes (u : UUID) : List UInt8 :=
  [u 0, u 1, u 2, u 3, u 4, u 5, u 6, u 7, u 8, u 9, u 10, u 11, u 12, u 13, u 14, u 15]

/-- `hex.Encode`: two lower-case digits per byte, the high half first. -/
def hexEncode (src : List UInt8) : Bytes :=
  src.flatMap fun v => [hexDigit (v.toNat / 16), hexDigit (v.toNat % 16)]

/-- `UUID.String`: `encodeHex` of bytes 0-3, 4-5, 6-7, 8-9 and 10-15, joined by hyphens. -/
def UUID.string (u : UUID) : Bytes :=
  let b := u.bytes
  hexEncode (b.take 4) ++ 0x2D :: hexEncode ((b.drop 4).take 2) ++ 0x2D ::
    hexEncode ((b.drop 6).take 2) ++ 0x2D :: hexEncode ((b.drop 8).take 2) ++ 0x2D ::
    hexEncode (b.drop 10)

/-- `NewRandomFromReader` on the sixteen bytes it reads: version 4, variant 10. -/
def newRandom (draw : UUID) : UUID := fun i =>
  if i = 6 then (draw 6 &&& 0x0f) ||| 0x40
  else if i = 8 then (draw 8 &&& 0x3f) ||| 0x80
  else draw i

/-- `xvalues[c]`: the value of a hex digit of either case, 255 for any other byte. -/
def xvalues (c : UInt8) : UInt8 :=
  match hexVal c with
  | some v => v.toUInt8
  | none => 255

/-- `xtob(x1, x2)`: the byte two hex digits spell, and whether both are digits. -/
def xtob (x1 x2 : UInt8) : UInt8 × Bool :=
  let b1 := xvalues x1
  let b2 := xvalues x2
  ((b1 <<< 4) ||| b2, b1 != 255 && b2 != 255)

/-- The errors of `Parse`. -/
inductive ParseError where
  /-- "invalid urn prefix: %q" -/
  | urnPrefix (p : Bytes)
  /-- "invalid UUID format" -/
  | format
  /-- "invalid UUID length: %d" -/
  | length (n : Nat)
  deriving DecidableEq, Repr

/-- The bytes the pairs of hex digits at offsets `xs` spell, or `none` at the first pair
that is not one. -/
def readPairs (s : Bytes) : List Nat → Option (List UInt8)
  | [] => some []
  | x :: xs =>
    let (v, ok) := xtob (s.getD x 0) (s.getD (x + 1) 0)
    if ok then (readPairs s xs).map (v :: ·) else none

/-- The UUID the pairs at offsets `xs` spell, set byte by byte in a zero UUID. -/
def ofPairs (s : Bytes) (xs : List Nat) : Except ParseError UUID :=
  match readPairs s xs with
  | some bs => .ok fun i => bs.getD i 0
  | none => .error .format

/-- Where the 16 pairs of hex digits stand in the hyphenated form. -/
def pairOffsets : List Nat := [0, 2, 4, 6, 9, 11, 14, 16, 19, 21, 24, 26, 28, 30, 32, 34]

/-- The part of `Parse` the three 36-digit forms share, on the text from the first digit. -/
def hyphenated (s : Bytes) : Except ParseError UUID :=
  if s.getD 8 0 ≠ 0x2D ∨ s.getD 13 0 ≠ 0x2D ∨ s.getD 18 0 ≠ 0x2D ∨ s.getD 23 0 ≠ 0x2D then
    .error .format
  else ofPairs s pairOffsets

/-- An ASCII upper-case letter made lower-case; any other byte as it is. -/
def lowerASCII (b : UInt8) : UInt8 := if 0x41 ≤ b ∧ b ≤ 0x5A then b + 0x20 else b

/-- `strings.EqualFold(s, t)` for an ASCII `t` with no `k` or `s`, the only letters a
non-ASCII rune folds to: equal lengths, and bytes equal up to the case of letters. -/
def equalFoldASCII (s t : Bytes) : Bool :=
  s.length == t.length && (s.zip t).all fun p => lowerASCII p.1 == lowerASCII p.2

/-- `uuid.Parse(s)`. -/
def parse (s : Bytes) : Except ParseError UUID :=
  if s.length = 36 then hyphenated s
  else if s.length = 36 + 9 then
    if equalFoldASCII (s.take 9) (ascii "urn:uuid:") then hyphenated (s.drop 9)
    else .error (.urnPrefix (s.take 9))
  else if s.length = 36 + 2 then hyphenated (s.drop 1)
  else if s.length = 32 then ofPairs s ((List.range 16).map (2 * ·))
  else .error (.length s.length)

/-! ## Reading the text back -/

theorem xtob_hexDigit_nat : ∀ a < 16, ∀ b < 16,
    xtob (hexDigit a) (hexDigit b) = ((a * 16 + b).toUInt8, true) := by
  decide

/-- The two digits `hex.Encode` writes for a byte spell that byte. -/
theorem xtob_hexDigit (v : UInt8) :
    xtob (hexDigit (v.toNat / 16)) (hexDigit (v.toNat % 16)) = (v, true) := by
  have hv : v.toNat < 256 := v.toNat_lt_size
  have hsplit : v.toNat / 16 * 16 + v.toNat % 16 = v.toNat := by omega
  rw [xtob_hexDigit_nat _ (by omega) _ (by omega), hsplit, toUInt8_toNat]

/-- **`Parse` reads back every UUID `String` writes.** -/
theorem parse_string (u : UUID) : parse u.string = .ok u := by
  simp only [UUID.string, UUID.bytes, List.take, List.drop, hexEncode, List.flatMap_cons,
    List.flatMap_nil, List.cons_append, List.nil_append, List.append_nil]
  simp only [parse, List.length_cons, List.length_nil, Nat.reduceAdd, if_true, hyphenated]
  rw [if_neg (fun h => by rcases h with h | h | h | h <;> exact h rfl)]
  dsimp only [ofPairs, pairOffsets, readPairs, List.getD_cons_succ, List.getD_cons_zero]
  simp only [xtob_hexDigit, if_true, Option.map_some']
  congr 1
  funext i
  fin_cases i <;> rfl

theorem parse_nil : parse [] = .error (.length 0) := rfl

theorem lt_of_mem_hexEncode {l : List UInt8} {b : UInt8} (h : b ∈ hexEncode l) : b < 0x80 := by
  obtain ⟨v, -, hb⟩ := List.mem_flatMap.mp h
  have hv : v.toNat < 256 := v.toNat_lt_size
  simp only [List.mem_cons, List.mem_singleton, List.not_mem_nil, or_false] at hb
  rcases hb with rfl | rfl
  · exact hexDigit_lt _ (by omega)
  · exact hexDigit_lt _ (by omega)

/-- `String` writes only ASCII bytes. -/
theorem lt_of_mem_string (u : UUID) : ∀ b ∈ u.string, b < 0x80 := by
  have hx : ∀ l, ∀ b ∈ hexEncode l, b < 0x80 := fun _ _ => lt_of_mem_hexEncode
  simp only [UUID.string, List.forall_mem_append, List.forall_mem_cons]
  exact ⟨⟨⟨⟨hx _, by decide, hx _⟩, by decide, hx _⟩, by decide, hx _⟩, by decide, hx _⟩

end Synapse.Uuid
