import Synapse.Json.Time

/-!
# Decoding into a destination

After the scanner, `json.Unmarshal` walks the value and the destination together. A
struct takes an object member by member: each key is unquoted and matched against the
field names, exactly or else case-folded (`equalFoldRight`, which also lets the Kelvin
sign stand for `k` and the long s for `s`), and the value is decoded into the field's
type. A value of the wrong kind is an `UnmarshalTypeError`; Go keeps decoding after one
but `Unmarshal` still returns it, so every caller here sees a failure. An `interface{}`
takes any value, its numbers as `float64`: a literal beyond `float64`'s range fails.
-/

namespace Synapse.Json

/-- `equalFoldRight (name, key)` over the runes of the key. -/
def foldMatches : Bytes → List GoRune → Bool
  | [], [] => true
  | sb :: s, .ascii tb :: t =>
    (sb == tb || (0x41 ≤ sb &&& 0xDF && sb &&& 0xDF ≤ 0x5A && sb &&& 0xDF == tb &&& 0xDF)) &&
      foldMatches s t
  | sb :: s, .multi bs :: t =>
    (((sb == 0x73 || sb == 0x53) && bs == [0xC5, 0xBF]) ||
      ((sb == 0x6B || sb == 0x4B) && bs == [0xE2, 0x84, 0xAA])) && foldMatches s t
  | _, _ => false

/-- Whether an object key selects the field of JSON name `name`. -/
def keyIs (name : Bytes) (key : Bytes) : Bool := key == name || foldMatches name (runes key)

/-! ## Scalars -/

/-- A `string` field: a string is unquoted, `null` leaves the field alone. -/
def decodeString (old : Bytes) : Parsed → Option Bytes
  | .str raw => unquote raw
  | .null => some old
  | _ => none

/-- `strconv.ParseInt(lit, 10, 64)` on a number literal. -/
def parseInt64 (lit : Bytes) : Option Int :=
  let neg := lit.head? = some 0x2D
  let ds := if neg then lit.tail else lit
  if !ds.isEmpty && ds.all isDigit then
    let v : Int := if neg then -(digitsValue ds : Int) else digitsValue ds
    if -2 ^ 63 ≤ v ∧ v < 2 ^ 63 then some v else none
  else none

/-- An `int64` field (also `int` on a 64-bit target): the literal must be an integer
in range; `null` leaves the field alone. -/
def decodeInt64 (old : Int) : Parsed → Option Int
  | .num n => parseInt64 n.lit
  | .null => some old
  | _ => none

/-- The signed value of an exponent's digits. -/
def exponentValue : Bytes → Int
  | 0x2D :: ds => -(digitsValue ds : Int)
  | 0x2B :: ds => digitsValue ds
  | ds => digitsValue ds

/-- Whether `strconv.ParseFloat(lit, 64)` stays in range: the literal's magnitude is
below `2 ^ 1024 - 2 ^ 970`, past which it rounds to infinity. -/
def fitsFloat64 (lit : Bytes) : Bool :=
  let s := if lit.head? = some 0x2D then lit.tail else lit
  let intPart := s.takeWhile isDigit
  let r := s.dropWhile isDigit
  let frac := if r.head? = some 0x2E then r.tail.takeWhile isDigit else []
  let r := if r.head? = some 0x2E then r.tail.dropWhile isDigit else r
  let e : Int := (match r with | _ :: t => exponentValue t | [] => 0) - frac.length
  let m := digitsValue (intPart ++ frac)
  let bound := 2 ^ 1024 - 2 ^ 970
  if 0 ≤ e then m * 10 ^ e.toNat < bound else m < bound * 10 ^ (-e).toNat

/-! ## `interface{}` -/

mutual
/-- An `interface{}` field: any value, strings unquoted, numbers as `float64`. -/
def decodeAny : Parsed → Option Value
  | .null => some .null
  | .bool b => some (.bool b)
  | .num n => if fitsFloat64 n.lit then some (.num n) else none
  | .str raw => (unquote raw).map .str
  | .arr xs => (decodeAnyList xs).map .arr
  | .obj kvs => (decodeAnyMembers kvs).map .obj

/-- The elements of an array into `[]interface{}`. -/
def decodeAnyList : List Parsed → Option (List Value)
  | [] => some []
  | x :: xs => do
    let v ← decodeAny x
    let vs ← decodeAnyList xs
    pure (v :: vs)

/-- The members of an object into `map[string]interface{}`, in the order read. -/
def decodeAnyMembers : List (Bytes × Parsed) → Option (List (Bytes × Value))
  | [] => some []
  | (k, x) :: kvs => do
    let key ← unquote k
    let v ← decodeAny x
    let rest ← decodeAnyMembers kvs
    pure ((key, v) :: rest)
end

/-! ## Structs -/

/-- A struct destination: `null` leaves it alone, an object sets fields member by
member through `field`, and any other value is an `UnmarshalTypeError`. -/
def decodeStruct {σ : Type} (field : σ → Bytes → Parsed → Option σ) (init : σ) :
    Parsed → Option σ
  | .null => some init
  | .obj kvs => kvs.foldlM (fun s kv => (unquote kv.1).bind fun key => field s key kv.2) init
  | _ => none

/-- `json.Unmarshal(data, &v)` with `v` decoded by `decode`. -/
def unmarshal {α : Type} (decode : Parsed → Option α) (data : Bytes) : Option α :=
  (parseText data).bind decode

end Synapse.Json
