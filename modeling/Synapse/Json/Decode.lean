import Synapse.Json.Encode

/-!
# What `json.Unmarshal` reads

`json.Unmarshal` first runs the scanner over the whole input (`checkValid`): one value,
whitespace around it, containers nested at most `maxNestingDepth` deep. It then decodes
the value into its destination, and what a string or a number means depends on that
destination. `Parsed` is the value at the point between the two: strings keep their
escapes and numbers their literal. `unquote` is `unquoteBytes`, which turns the text of
a string into its bytes.

The scanner is a state machine over bytes with a stack; `parseValue` reads the same
language by recursive descent, with a bound on the number of nested calls that the
input's length meets (`parseText` gives twice the length).
-/

namespace Synapse.Json

/-! ## Lexical pieces -/

/-- `isSpace` of the scanner. -/
def isSpace (b : UInt8) : Bool := b == 0x20 || b == 0x09 || b == 0x0A || b == 0x0D

/-- The input after leading whitespace. -/
def skipWs : Bytes → Bytes
  | [] => []
  | b :: t => if isSpace b then skipWs t else b :: t

/-- The value of a hex digit. -/
def hexVal (b : UInt8) : Option Nat :=
  if 0x30 ≤ b ∧ b ≤ 0x39 then some (b.toNat - 0x30)
  else if 0x61 ≤ b ∧ b ≤ 0x66 then some (b.toNat - 0x57)
  else if 0x41 ≤ b ∧ b ≤ 0x46 then some (b.toNat - 0x37)
  else none

/-- The four hex digits after `\u`, as `getu4` reads them. -/
def hex4 (h1 h2 h3 h4 : UInt8) : Option Nat := do
  let a ← hexVal h1
  let b ← hexVal h2
  let c ← hexVal h3
  let d ← hexVal h4
  pure (((a * 16 + b) * 16 + c) * 16 + d)

/-- The letters after a backslash that `stateInStringEsc` takes, `u` apart. -/
def simpleEscape (c : UInt8) : Bool := (ascii "bfnrt\\/\"").contains c

/-- The scanner inside a string: the bytes up to the closing quote, escapes still in
them, and the bytes after the quote. A control byte, an unknown escape or the end of
the input is a syntax error. -/
def lexString : Bytes → Option (Bytes × Bytes)
  | [] => none
  | b :: t =>
    if b = 0x22 then some ([], t)
    else if b = 0x5C then
      match t with
      | [] => none
      | c :: t1 =>
        if simpleEscape c then (lexString t1).map fun p => (0x5C :: c :: p.1, p.2)
        else if c = 0x75 then
          match t1 with
          | h1 :: h2 :: h3 :: h4 :: t2 =>
            if (hex4 h1 h2 h3 h4).isSome then
              (lexString t2).map fun p => ([0x5C, 0x75, h1, h2, h3, h4] ++ p.1, p.2)
            else none
          | _ => none
        else none
    else if b < 0x20 then none
    else (lexString t).map fun p => (b :: p.1, p.2)

/-- A byte that may stand in a number literal. -/
def isNumberByte (b : UInt8) : Bool :=
  (0x30 ≤ b && b ≤ 0x39) || b == 0x2D || b == 0x2B || b == 0x2E || b == 0x65 || b == 0x45

/-! ## Values -/

/-- A JSON value between the scanner and the destination: strings keep their escapes
(`raw`) and numbers their literal. -/
inductive Parsed where
  | null
  | bool (b : Bool)
  | num (n : Number)
  | str (raw : Bytes)
  | arr (xs : List Parsed)
  | obj (kvs : List (Bytes × Parsed))
  deriving Repr

/-- `maxNestingDepth` of the scanner. -/
def maxNestingDepth : Nat := 10000

mutual
/-- One value after optional whitespace, with the bytes after it. `depth` counts the
containers already open; one more than `maxNestingDepth` is an error. -/
def parseValue : Nat → Nat → Bytes → Option (Parsed × Bytes)
  | 0, _, _ => none
  | n + 1, depth, s =>
    match skipWs s with
    | [] => none
    | b :: t =>
      if b = 0x7B then (if depth < maxNestingDepth then parseMembers n (depth + 1) [] t else none)
      else if b = 0x5B then (if depth < maxNestingDepth then parseElems n (depth + 1) [] t else none)
      else if b = 0x22 then (lexString t).map fun p => (.str p.1, p.2)
      else if (b :: t).take 4 = ascii "true" then some (.bool true, t.drop 3)
      else if (b :: t).take 5 = ascii "false" then some (.bool false, t.drop 4)
      else if (b :: t).take 4 = ascii "null" then some (.null, t.drop 3)
      else
        let lit := (b :: t).takeWhile isNumberByte
        if h : isValidNumber lit then some (.num ⟨lit, h⟩, (b :: t).dropWhile isNumberByte)
        else none

/-- The elements of an array after `[` or a comma; `acc` holds those read so far. -/
def parseElems : Nat → Nat → List Parsed → Bytes → Option (Parsed × Bytes)
  | 0, _, _, _ => none
  | n + 1, depth, acc, s =>
    if acc.isEmpty ∧ (skipWs s).head? = some 0x5D then some (.arr [], (skipWs s).tail) else
    match parseValue n depth s with
    | none => none
    | some (v, r) =>
      match skipWs r with
      | [] => none
      | c :: t =>
        if c = 0x2C then parseElems n depth (acc ++ [v]) t
        else if c = 0x5D then some (.arr (acc ++ [v]), t)
        else none

/-- The members of an object after `{` or a comma; `acc` holds those read so far. -/
def parseMembers : Nat → Nat → List (Bytes × Parsed) → Bytes → Option (Parsed × Bytes)
  | 0, _, _, _ => none
  | n + 1, depth, acc, s =>
    match skipWs s with
    | [] => none
    | b :: t =>
      if b = 0x7D ∧ acc.isEmpty then some (.obj [], t)
      else if b = 0x22 then
        match lexString t with
        | none => none
        | some (key, r) =>
          match skipWs r with
          | 0x3A :: r1 =>
            match parseValue n depth r1 with
            | none => none
            | some (v, r2) =>
              match skipWs r2 with
              | [] => none
              | c :: t2 =>
                if c = 0x2C then parseMembers n depth (acc ++ [(key, v)]) t2
                else if c = 0x7D then some (.obj (acc ++ [(key, v)]), t2)
                else none
          | _ => none
      else none
end

/-- `checkValid` with the value it checks: exactly one value, whitespace around it. -/
def parseText (data : Bytes) : Option Parsed :=
  match parseValue (2 * data.length + 2) 0 data with
  | some (v, rest) => if skipWs rest = [] then some v else none
  | none => none

/-! ## The bytes of a string -/

/-- `utf8.EncodeRune`: a surrogate half or a value past U+10FFFF is written as U+FFFD. -/
def encodeCodePoint (r : Nat) : Bytes :=
  if r < 0x80 then [r.toUInt8]
  else if r < 0x800 then [(0xC0 + r / 64).toUInt8, (0x80 + r % 64).toUInt8]
  else if 0xD800 ≤ r ∧ r < 0xE000 ∨ 0x10FFFF < r then [0xEF, 0xBF, 0xBD]
  else if r < 0x10000 then
    [(0xE0 + r / 4096).toUInt8, (0x80 + r / 64 % 64).toUInt8, (0x80 + r % 64).toUInt8]
  else
    [(0xF0 + r / 262144).toUInt8, (0x80 + r / 4096 % 64).toUInt8, (0x80 + r / 64 % 64).toUInt8,
      (0x80 + r % 64).toUInt8]

/-- `utf16.DecodeRune` of a pair of `\u` escapes, when they are a surrogate pair. -/
def surrogatePair (r1 r2 : Nat) : Option Nat :=
  if 0xD800 ≤ r1 ∧ r1 < 0xDC00 ∧ 0xDC00 ≤ r2 ∧ r2 < 0xE000 then
    some ((r1 - 0xD800) * 1024 + (r2 - 0xDC00) + 0x10000)
  else none

/-- The byte a one-letter escape stands for. -/
def escapedByte (c : UInt8) : Option UInt8 :=
  if c = 0x22 ∨ c = 0x5C ∨ c = 0x2F ∨ c = 0x27 then some c
  else if c = 0x62 then some 0x08
  else if c = 0x66 then some 0x0C
  else if c = 0x6E then some 0x0A
  else if c = 0x72 then some 0x0D
  else if c = 0x74 then some 0x09
  else none

/-- What the text of a string holds, escapes read: a byte, a `\u` escape's value, or a
rune of bytes at or above `0x80`. -/
inductive Piece where
  | byte (b : UInt8)
  | code (r : Nat)
  | rune (r : GoRune)
  deriving DecidableEq, Repr

/-- The escapes of a string's text, read one after another. -/
def pieces : List GoRune → Option (List Piece)
  | [] => some []
  | .ascii b :: t =>
    if b = 0x5C then
      match t with
      | .ascii c :: t1 =>
        if c = 0x75 then
          match t1 with
          | .ascii h1 :: .ascii h2 :: .ascii h3 :: .ascii h4 :: t2 =>
            match hex4 h1 h2 h3 h4 with
            | some v => (.code v :: ·) <$> pieces t2
            | none => none
          | _ => none
        else
          match escapedByte c with
          | some e => (.byte e :: ·) <$> pieces t1
          | none => none
      | _ => none
    else if b = 0x22 ∨ b < 0x20 then none
    else (.byte b :: ·) <$> pieces t
  | .multi bs :: t => (.rune (.multi bs) :: ·) <$> pieces t
  | .bad b :: t => (.rune (.bad b) :: ·) <$> pieces t

/-- A `\u` escape of a surrogate half. -/
def isSurrogate (r : Nat) : Bool := 0xD800 ≤ r && r < 0xE000

/-- What `unquoteBytes` writes for a piece when no surrogate half waits, and the half
that waits after it. -/
def writePiece : Piece → Bytes × Option Nat
  | .byte b => ([b], none)
  | .rune r => (r.coerce, none)
  | .code r => if isSurrogate r then ([], some r) else (encodeCodePoint r, none)

/-- The same with a surrogate half `hi` waiting: the piece completes the pair, or
`hi` is written as U+FFFD and the piece is read on its own. -/
def writeAfter (hi : Nat) (p : Piece) : Bytes × Option Nat :=
  match p with
  | .code lo =>
    match surrogatePair hi lo with
    | some dec => (encodeCodePoint dec, none)
    | none => (encodeCodePoint 0xFFFD ++ (writePiece p).1, (writePiece p).2)
  | _ => (encodeCodePoint 0xFFFD ++ (writePiece p).1, (writePiece p).2)

/-- The loop of `unquoteBytes` over the pieces. Go looks at the escape after a surrogate
half at once; here the half waits for the next piece, which is the same. -/
def writePieces : Option Nat → List Piece → Bytes
  | none, [] => []
  | some _, [] => encodeCodePoint 0xFFFD
  | w, p :: ps =>
    let out := match w with
      | none => writePiece p
      | some hi => writeAfter hi p
    out.1 ++ writePieces out.2 ps

/-- `unquoteBytes` on the text between a string's quotes. -/
def unquote (raw : Bytes) : Option Bytes := (pieces (runes raw)).map (writePieces none)

end Synapse.Json
