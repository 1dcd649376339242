import Synapse.Json.Utf8

/-!
# What `json.Marshal` writes

`appendString` is `encoding/json`'s string encoder as `json.Marshal` runs it, with HTML
escaping on, in Go 1.21 (the version the README asks for): the walk of `runes`, one
rune at a time. A JSON value is written compactly: no whitespace between tokens.

`Value` is the tree `json.Marshal` writes for a Go value: structs and maps are objects
with their keys in the order they are written, and a number is the literal `strconv`
formats. Which Go values marshal to which tree is the business of each caller; this
module writes the tree.
-/

namespace Synapse.Json

/-! ## Strings -/

/-- `htmlSafeSet`: the ASCII bytes written as they are. -/
def htmlSafe (b : UInt8) : Bool :=
  0x20 ≤ b && b < 0x80 && b != 0x22 && b != 0x5C && b != 0x3C && b != 0x3E && b != 0x26

/-- `hex`, the lower-case digits of `encoding/json`, at index `n`. -/
def hexDigit (n : Nat) : UInt8 := if n < 10 then (0x30 + n).toUInt8 else (0x57 + n).toUInt8

/-- The escape `appendString` writes for an ASCII byte outside `htmlSafeSet`. -/
def escapeByte (b : UInt8) : Bytes :=
  if b = 0x5C ∨ b = 0x22 then [0x5C, b]
  else if b = 0x0A then ascii "\\n"
  else if b = 0x0D then ascii "\\r"
  else if b = 0x09 then ascii "\\t"
  else [0x5C, 0x75, 0x30, 0x30, hexDigit (b.toNat / 16), hexDigit (b.toNat % 16)]

/-- What `appendString` writes for one rune: a rejected byte becomes the escape of
U+FFFD, and U+2028 and U+2029 are escaped for JSONP. -/
def escapeRune : GoRune → Bytes
  | .ascii b => if htmlSafe b then [b] else escapeByte b
  | .multi bs =>
    if bs = [0xE2, 0x80, 0xA8] then ascii "\\u2028"
    else if bs = [0xE2, 0x80, 0xA9] then ascii "\\u2029"
    else bs
  | .bad _ => ascii "\\ufffd"

/-- The characters between the quotes. -/
def escapeString (s : Bytes) : Bytes := (runes s).flatMap escapeRune

/-- `appendString(dst, s, true)` on an empty `dst`. -/
def appendString (s : Bytes) : Bytes := 0x22 :: escapeString s ++ [0x22]

/-! ## Numbers -/

/-- A decimal digit. -/
def isDigit (b : UInt8) : Bool := 0x30 ≤ b && b ≤ 0x39

/-- The exponent after `e` or `E`: an optional sign, then at least one digit. -/
def isExponent : Bytes → Bool
  | b :: t => if b = 0x2B ∨ b = 0x2D then !t.isEmpty && t.all isDigit else (b :: t).all isDigit
  | [] => false

/-- The fraction after the integer part: `.` and digits, then an exponent; or only an
exponent; or nothing. -/
def isFracExp : Bytes → Bool
  | [] => true
  | b :: t =>
    if b = 0x2E then
      !(t.takeWhile isDigit).isEmpty && match t.dropWhile isDigit with
        | [] => true
        | e :: r => (e == 0x65 || e == 0x45) && isExponent r
    else (b == 0x65 || b == 0x45) && isExponent t

/-- `isValidNumber`: the JSON number grammar. -/
def isValidNumber (s : Bytes) : Bool :=
  let s := if s.head? = some 0x2D then s.tail else s
  match s with
  | [] => false
  | d :: t =>
    if d = 0x30 then isFracExp t
    else isDigit d && isFracExp (t.dropWhile isDigit)

/-- A number literal. Every literal `json.Marshal` writes and every literal the scanner
accepts is in the JSON grammar. -/
structure Number where
  lit : Bytes
  valid : isValidNumber lit = true
  deriving Repr

/-- The decimal digits of `n` with at most `fuel` of them, as `strconv.formatBits`
writes them. -/
def decimalUpTo : Nat → Nat → Bytes
  | 0, _ => []
  | fuel + 1, n => (if n < 10 then [] else decimalUpTo fuel (n / 10)) ++ [(0x30 + n % 10).toUInt8]

/-- The decimal digits of `n`. -/
def decimal (n : Nat) : Bytes := decimalUpTo (n + 1) n

/-- The literal `json.Marshal` writes for an integer, `strconv.AppendInt(b, n, 10)`. -/
def intLiteral (n : Int) : Bytes := (if n < 0 then [0x2D] else []) ++ decimal n.natAbs

theorem toNat_digit {d : Nat} (h : d < 10) : (0x30 + d).toUInt8.toNat = 0x30 + d :=
  UInt8.toNat_ofNat_of_lt (show 0x30 + d < 256 by omega)

theorem isDigit_digit {d : Nat} (h : d < 10) : isDigit (0x30 + d).toUInt8 = true := by
  simp only [isDigit, Bool.and_eq_true, decide_eq_true_eq, byte_le_iff, toNat_digit h]
  exact ⟨show 48 ≤ 0x30 + d by omega, show 0x30 + d ≤ 57 by omega⟩

theorem decimalUpTo_digits (fuel n : Nat) : ∀ b ∈ decimalUpTo fuel n, isDigit b = true := by
  induction fuel generalizing n with
  | zero => simp [decimalUpTo]
  | succ fuel ih =>
    intro b hb
    simp only [decimalUpTo, List.mem_append, List.mem_singleton] at hb
    rcases hb with hb | rfl
    · split at hb
      · simp at hb
      · exact ih _ b hb
    · exact isDigit_digit (Nat.mod_lt _ (by omega))

/-- With enough fuel the first digit is not a zero, unless the number is. -/
theorem decimalUpTo_head (fuel n : Nat) (h : n < 10 ^ (fuel + 1)) :
    ∃ d t, decimalUpTo (fuel + 1) n = (0x30 + d).toUInt8 :: t ∧ d < 10 ∧ (d = 0 → n = 0) := by
  induction fuel generalizing n with
  | zero => exact ⟨n, [], by simp [decimalUpTo, show n < 10 by simpa using h, Nat.mod_eq_of_lt (show n < 10 by simpa using h)], by simpa using h, id⟩
  | succ fuel ih =>
    by_cases hn : n < 10
    · exact ⟨n, [], by simp [decimalUpTo, hn, Nat.mod_eq_of_lt hn], hn, id⟩
    · obtain ⟨d, t, he, hd, hz⟩ := ih (n / 10) (by rw [Nat.pow_succ] at h; omega)
      exact ⟨d, t ++ [(0x30 + n % 10).toUInt8], by rw [decimalUpTo, if_neg hn, he]; rfl, hd,
        fun h0 => by have := hz h0; omega⟩

theorem isFracExp_dropWhile_digits (s : Bytes) (h : ∀ b ∈ s, isDigit b = true) :
    isFracExp (s.dropWhile isDigit) = true := by
  rw [List.dropWhile_eq_nil_iff.mpr h]; rfl

theorem lt_pow_succ_self (n : Nat) : n < 10 ^ (n + 1) := by
  have := Nat.lt_pow_self (by decide : 1 < 10) (n + 1); omega

theorem digit_ne_minus {d : Nat} (hd : d < 10) : (0x30 + d).toUInt8 ≠ 0x2D := fun h => by
  have := congrArg UInt8.toNat h
  rw [toNat_digit hd] at this
  exact absurd this (show 0x30 + d ≠ 45 by omega)

/-- Stripping an integer literal's sign, as `isValidNumber` and `strconv` do, leaves the
digits of its magnitude. -/
theorem strip_intLiteral (n : Int) :
    (if (intLiteral n).head? = some 0x2D then (intLiteral n).tail else intLiteral n) =
      decimal n.natAbs := by
  obtain ⟨d, t, he, hd, -⟩ := decimalUpTo_head n.natAbs n.natAbs (lt_pow_succ_self _)
  unfold intLiteral
  rw [decimal, he]
  split <;> simp [digit_ne_minus hd]

theorem isValidNumber_intLiteral (n : Int) : isValidNumber (intLiteral n) = true := by
  obtain ⟨d, t, he, hd, hz⟩ := decimalUpTo_head n.natAbs n.natAbs (lt_pow_succ_self _)
  have hdig : ∀ b ∈ t, isDigit b = true := fun b hb =>
    decimalUpTo_digits _ _ b (by rw [he]; exact List.mem_cons_of_mem _ hb)
  have hstrip := strip_intLiteral n
  rw [decimal, he] at hstrip
  simp only [isValidNumber, hstrip]
  split
  · rename_i h0
    have hd0 : 0x30 + d = 48 := by
      have := congrArg UInt8.toNat h0
      rwa [toNat_digit hd] at this
    have ht : t = [] := by
      rw [hz (by omega)] at he
      simp [decimalUpTo] at he
      exact he.2
    simp [ht, isFracExp]
  · simp only [isDigit_digit hd, Bool.true_and]
    exact isFracExp_dropWhile_digits t hdig

/-- The number `json.Marshal` writes for an integer. -/
def Number.ofInt (n : Int) : Number := ⟨intLiteral n, isValidNumber_intLiteral n⟩

/-! ## Values -/

/-- The tree `json.Marshal` writes for a Go value. -/
inductive Value where
  | null
  | bool (b : Bool)
  /-- A number, as the literal `strconv` formats. -/
  | num (n : Number)
  | str (s : Bytes)
  | arr (xs : List Value)
  /-- An object, its members in the order they are written. -/
  | obj (kvs : List (Bytes × Value))
  deriving Repr

mutual
/-- The compact encoding of a value. -/
def Value.encode : Value → Bytes
  | .null => ascii "null"
  | .bool true => ascii "true"
  | .bool false => ascii "false"
  | .num n => n.lit
  | .str s => appendString s
  | .arr [] => ascii "[]"
  | .arr (x :: xs) => 0x5B :: x.encode ++ encodeElems xs ++ [0x5D]
  | .obj [] => ascii "{}"
  | .obj ((k, v) :: kvs) => 0x7B :: appendString k ++ 0x3A :: v.encode ++ encodeMembers kvs ++ [0x7D]

/-- The elements after the first, each after a comma. -/
def encodeElems : List Value → Bytes
  | [] => []
  | x :: xs => 0x2C :: x.encode ++ encodeElems xs

/-- The members after the first, each after a comma. -/
def encodeMembers : List (Bytes × Value) → Bytes
  | [] => []
  | (k, v) :: kvs => 0x2C :: appendString k ++ 0x3A :: v.encode ++ encodeMembers kvs
end

end Synapse.Json
