import Synapse.Json.Strings
import Synapse.Json.Base64

/-!
# What `json.Marshal` writes, `json.Unmarshal` reads

The scanner reads the encoding of every value back, as long as its containers nest no
deeper than `maxNestingDepth`: `parseText v.encode = some v.toParsed`, where `toParsed`
is the tree with each string's text as `appendString` escaped it. Decoding that tree into
an `interface{}` gives the value back with every string made valid UTF-8
(`Value.coerce`), once every number is within `float64`'s range. An integer comes back
from an `int64` field as it was.

The scanner lemmas follow the grammar's levels: one lemma per kind of scalar, then
`parseValue_encode`, `parseElems_encode` and `parseMembers_encode` by recursion over the
value, the fuel bounded by the length of the text read.

## Main results

* `parseText_encode`: the scanner reads back an encoding and the whitespace after it.
* `decodeAny_toParsed`: an `interface{}` gets the value back, strings made valid UTF-8.
* `parseInt64_intLiteral`: an `int64` reads back from its literal.
* `space_le_of_mem_encode`: an encoding holds no control byte.
-/

namespace Synapse.Json

/-! ## Numbers -/

theorem isNumberByte_of_isDigit {b : UInt8} (h : isDigit b = true) : isNumberByte b = true := by
  simp only [isDigit, Bool.and_eq_true] at h
  simp [isNumberByte, h]

theorem isNumberByte_of_isExponent {s : Bytes} (h : isExponent s = true) :
    ∀ b ∈ s, isNumberByte b = true := by
  cases s with
  | nil => simp [isExponent] at h
  | cons c t =>
    simp only [isExponent] at h
    split at h
    · rename_i hc
      simp only [Bool.and_eq_true, List.all_eq_true] at h
      rw [List.forall_mem_cons]
      exact ⟨by rcases hc with rfl | rfl <;> decide, fun b hb => isNumberByte_of_isDigit (h.2 b hb)⟩
    · simp only [List.all_eq_true] at h
      exact fun b hb => isNumberByte_of_isDigit (h b hb)

/-- An exponent part: `e` or `E`, then an exponent. -/
theorem isNumberByte_of_exponentPart {e : UInt8} {r : Bytes}
    (h : ((e == 0x65 || e == 0x45) && isExponent r) = true) : ∀ b ∈ e :: r, isNumberByte b = true := by
  simp only [Bool.and_eq_true, Bool.or_eq_true, beq_iff_eq] at h
  rw [List.forall_mem_cons]
  exact ⟨by rcases h.1 with rfl | rfl <;> decide, isNumberByte_of_isExponent h.2⟩

theorem isNumberByte_of_isFracExp {s : Bytes} (h : isFracExp s = true) :
    ∀ b ∈ s, isNumberByte b = true := by
  cases s with
  | nil => simp
  | cons c t =>
    simp only [isFracExp] at h
    split at h
    · rename_i hc
      subst hc
      refine List.forall_mem_cons.mpr ⟨by decide, fun b hb => ?_⟩
      rw [← List.takeWhile_append_dropWhile isDigit t, List.mem_append] at hb
      rcases hb with hb | hb
      · exact isNumberByte_of_isDigit (List.mem_takeWhile_imp hb)
      · simp only [Bool.and_eq_true] at h
        revert hb h
        cases t.dropWhile isDigit with
        | nil => simp
        | cons e r => exact fun hb h => isNumberByte_of_exponentPart h.2 b hb
    · exact isNumberByte_of_exponentPart h

/-- The digits after a non-zero lead digit, then the fraction and exponent. -/
theorem isNumberByte_of_digits_fracExp {t : Bytes} (h : isFracExp (t.dropWhile isDigit) = true) :
    ∀ b ∈ t, isNumberByte b = true := fun b hb => by
  rw [← List.takeWhile_append_dropWhile isDigit t, List.mem_append] at hb
  exact hb.elim (fun hb => isNumberByte_of_isDigit (List.mem_takeWhile_imp hb))
    (isNumberByte_of_isFracExp h b)

/-- The unsigned part of a number: a digit, then digits, fraction and exponent. -/
theorem unsigned_of_isValidNumber {s : Bytes} (h : isValidNumber s = true) :
    ∃ d t, (if s.head? = some 0x2D then s.tail else s) = d :: t ∧ isDigit d = true ∧
      ∀ b ∈ t, isNumberByte b = true := by
  unfold isValidNumber at h
  revert h
  cases (if s.head? = some 0x2D then s.tail else s) with
  | nil => simp
  | cons d t =>
    intro h
    refine ⟨d, t, rfl, ?_⟩
    dsimp only at h
    split at h
    · rename_i hd
      exact ⟨hd ▸ rfl, isNumberByte_of_isFracExp h⟩
    · simp only [Bool.and_eq_true] at h
      exact ⟨h.1, isNumberByte_of_digits_fracExp h.2⟩

/-- **Every byte of a number literal is one the scanner takes into it**, and the first is
a minus sign or a digit. -/
theorem Number.lit_shape (n : Number) :
    ∃ d t, n.lit = d :: t ∧ (d = 0x2D ∨ isDigit d = true) ∧ ∀ b ∈ n.lit, isNumberByte b = true := by
  obtain ⟨d, t, ht, hd, hall⟩ := unsigned_of_isValidNumber n.valid
  split at ht
  · rename_i hneg
    obtain ⟨u, hu⟩ : ∃ u, n.lit = 0x2D :: u := by
      cases h : n.lit with
      | nil => simp [h] at hneg
      | cons a u => simp only [h, List.head?_cons, Option.some.injEq] at hneg; exact ⟨u, hneg ▸ rfl⟩
    rw [hu, List.tail_cons] at ht
    refine ⟨0x2D, u, hu, .inl rfl, ?_⟩
    rw [hu, List.forall_mem_cons, ht, List.forall_mem_cons]
    exact ⟨rfl, isNumberByte_of_isDigit hd, hall⟩
  · refine ⟨d, t, ht, .inr hd, ?_⟩
    rw [ht, List.forall_mem_cons]
    exact ⟨isNumberByte_of_isDigit hd, hall⟩

/-- Bytes that may follow an encoding: none that would extend a number. -/
def NumEnd (rest : Bytes) : Prop := ∀ b ∈ rest.head?, isNumberByte b = false

theorem numEnd_of_head {b : UInt8} {t : Bytes} (h : isNumberByte b = false) : NumEnd (b :: t) := by
  simpa [NumEnd] using h

theorem numEnd_nil : NumEnd [] := by simp [NumEnd]

theorem takeWhile_numberByte {lit rest : Bytes} (h : ∀ b ∈ lit, isNumberByte b = true)
    (hr : NumEnd rest) :
    (lit ++ rest).takeWhile isNumberByte = lit ∧ (lit ++ rest).dropWhile isNumberByte = rest := by
  rw [List.takeWhile_append_of_pos h, List.dropWhile_append_of_pos h]
  cases rest with
  | nil => simp
  | cons b t =>
    have hb : isNumberByte b = false := hr b rfl
    simp [hb]

/-! ## The first byte of an encoding -/

theorem isSpace_eq_false_iff {b : UInt8} :
    isSpace b = false ↔ b ≠ 0x20 ∧ b ≠ 0x09 ∧ b ≠ 0x0A ∧ b ≠ 0x0D := by
  simp [isSpace, or_assoc, and_assoc]

/-- The first byte of a number is none of the bytes the scanner branches on. -/
theorem numberHead_ne {d : UInt8} (h : d = 0x2D ∨ isDigit d = true) :
    isSpace d = false ∧ d ≠ 0x7B ∧ d ≠ 0x5B ∧ d ≠ 0x22 ∧ d ≠ 0x74 ∧ d ≠ 0x66 ∧ d ≠ 0x6E ∧
      d ≠ 0x5D ∧ d ≠ 0x7D := by
  rw [isSpace_eq_false_iff]
  rcases h with rfl | h
  · decide
  · refine ⟨⟨?_, ?_, ?_, ?_⟩, ?_, ?_, ?_, ?_, ?_, ?_, ?_, ?_⟩ <;> (rintro rfl; revert h; decide)

theorem skipWs_cons {b : UInt8} (h : isSpace b = false) (t : Bytes) : skipWs (b :: t) = b :: t := by
  simp [skipWs, h]

/-! ## Nesting -/

mutual
/-- How deep containers nest in a value; a scalar is `0`. -/
def Value.depth : Value → Nat
  | .arr xs => depthElems xs + 1
  | .obj kvs => depthMembers kvs + 1
  | _ => 0

/-- The deepest of the elements. -/
def depthElems : List Value → Nat
  | [] => 0
  | x :: xs => max x.depth (depthElems xs)

/-- The deepest of the members' values. -/
def depthMembers : List (Bytes × Value) → Nat
  | [] => 0
  | (_, v) :: kvs => max v.depth (depthMembers kvs)
end

mutual
/-- The tree the scanner reads from the encoding of a value: each string's text as
`appendString` escaped it. -/
def Value.toParsed : Value → Parsed
  | .null => .null
  | .bool b => .bool b
  | .num n => .num n
  | .str s => .str (escapeString s)
  | .arr xs => .arr (toParsedElems xs)
  | .obj kvs => .obj (toParsedMembers kvs)

/-- The elements, read. -/
def toParsedElems : List Value → List Parsed
  | [] => []
  | x :: xs => x.toParsed :: toParsedElems xs

/-- The members, read. -/
def toParsedMembers : List (Bytes × Value) → List (Bytes × Parsed)
  | [] => []
  | (k, v) :: kvs => (escapeString k, v.toParsed) :: toParsedMembers kvs
end

/-! ## The scanner reads an encoding back -/

/-- Every encoding starts with a byte that is not whitespace and closes no container. -/
theorem encode_head (v : Value) :
    ∃ b t, v.encode = b :: t ∧ isSpace b = false ∧ b ≠ 0x5D ∧ b ≠ 0x7D := by
  cases v with
  | null => exact ⟨_, _, rfl, by decide, by decide, by decide⟩
  | bool b => cases b <;> exact ⟨_, _, rfl, by decide, by decide, by decide⟩
  | num n =>
    obtain ⟨d, t, h, hd, -⟩ := n.lit_shape
    have := numberHead_ne hd
    exact ⟨d, t, by rw [Value.encode, h], this.1, this.2.2.2.2.2.2.2⟩
  | str s => exact ⟨_, _, rfl, by decide, by decide, by decide⟩
  | arr xs => cases xs <;> exact ⟨_, _, rfl, by decide, by decide, by decide⟩
  | obj kvs => cases kvs <;> exact ⟨_, _, rfl, by decide, by decide, by decide⟩

theorem encode_length_pos (v : Value) : 0 < v.encode.length := by
  obtain ⟨b, t, h, -⟩ := encode_head v
  simp [h]

/-- The first byte of a text is not that of a literal `w` begins with. -/
theorem take_ne_of_head {d c : UInt8} {x w : Bytes} {n : Nat} (hw : w.head? = some c) (h : d ≠ c) :
    (d :: x).take (n + 1) ≠ w := by
  rintro rfl
  simp only [List.take_succ_cons, List.head?_cons, Option.some.injEq] at hw
  exact h hw

theorem parseValue_null {fuel depth : Nat} (hf : 0 < fuel) (rest : Bytes) :
    parseValue fuel depth (Value.null.encode ++ rest) = some (.null, rest) := by
  obtain ⟨n, rfl⟩ : ∃ n, fuel = n + 1 := ⟨fuel - 1, by omega⟩
  rfl

theorem parseValue_bool (b : Bool) {fuel depth : Nat} (hf : 0 < fuel) (rest : Bytes) :
    parseValue fuel depth ((Value.bool b).encode ++ rest) = some (.bool b, rest) := by
  obtain ⟨n, rfl⟩ : ∃ n, fuel = n + 1 := ⟨fuel - 1, by omega⟩
  cases b <;> rfl

theorem parseValue_string (s : Bytes) {fuel depth : Nat} (hf : 0 < fuel) (rest : Bytes) :
    parseValue fuel depth (appendString s ++ rest) = some (.str (escapeString s), rest) := by
  obtain ⟨n, rfl⟩ : ∃ n, fuel = n + 1 := ⟨fuel - 1, by omega⟩
  simp only [appendString, List.cons_append, List.append_assoc, List.singleton_append]
  rw [parseValue, skipWs_cons (by decide)]
  simp [lexString_escapeString]

theorem parseValue_number (n : Number) {fuel depth : Nat} (hf : 0 < fuel) {rest : Bytes}
    (hr : NumEnd rest) : parseValue fuel depth (n.lit ++ rest) = some (.num n, rest) := by
  obtain ⟨m, rfl⟩ : ∃ m, fuel = m + 1 := ⟨fuel - 1, by omega⟩
  obtain ⟨d, t, hlit, hd, hall⟩ := n.lit_shape
  obtain ⟨hsp, h1, h2, h3, h4, h5, h6, -⟩ := numberHead_ne hd
  obtain ⟨htake, hdrop⟩ := takeWhile_numberByte hall hr
  rcases n with ⟨lit, valid⟩
  dsimp only at hlit htake hdrop ⊢
  subst hlit
  rw [List.cons_append] at htake hdrop ⊢
  rw [parseValue, skipWs_cons hsp]
  dsimp only
  rw [if_neg h1, if_neg h2, if_neg h3, if_neg (take_ne_of_head (w := ascii "true") rfl h4),
    if_neg (take_ne_of_head (w := ascii "false") rfl h5),
    if_neg (take_ne_of_head (w := ascii "null") rfl h6)]
  simp only [htake, hdrop, dif_pos valid]

theorem isNumberByte_of_isSpace {b : UInt8} (h : isSpace b = true) : isNumberByte b = false := by
  simp only [isSpace, Bool.or_eq_true, beq_iff_eq] at h
  rcases h with ((rfl | rfl) | rfl) | rfl <;> decide

mutual
/-- **The scanner reads a value's encoding back**, given the fuel of its length and room
for its nesting. -/
theorem parseValue_encode (v : Value) (fuel depth : Nat) (rest : Bytes)
    (hf : v.encode.length ≤ fuel) (hd : depth + v.depth ≤ maxNestingDepth) (hr : NumEnd rest) :
    parseValue fuel depth (v.encode ++ rest) = some (v.toParsed, rest) :=
  match v with
  | .null => parseValue_null (lt_of_lt_of_le (encode_length_pos _) hf) rest
  | .bool b => parseValue_bool b (lt_of_lt_of_le (encode_length_pos _) hf) rest
  | .num n => parseValue_number n (lt_of_lt_of_le (encode_length_pos _) hf) hr
  | .str s => parseValue_string s (lt_of_lt_of_le (encode_length_pos _) hf) rest
  | .arr [] => by
    have hl : (Value.arr []).encode.length = 2 := rfl
    obtain ⟨n, rfl⟩ : ∃ n, fuel = n + 2 := ⟨fuel - 2, by omega⟩
    have hdepth : depth < maxNestingDepth := by
      have : (Value.arr []).depth = 1 := rfl
      omega
    show parseValue _ _ (0x5B :: 0x5D :: rest) = _
    rw [parseValue, skipWs_cons (by decide)]
    simp [hdepth, parseElems, skipWs_cons (show isSpace 0x5D = false by decide), Value.toParsed,
      toParsedElems]
  | .arr (x :: xs) => by
    obtain ⟨n, rfl⟩ : ∃ n, fuel = n + 1 := ⟨fuel - 1, by simp [Value.encode] at hf; omega⟩
    have hlen : (x.encode ++ encodeElems xs).length < n := by simp [Value.encode] at hf ⊢; omega
    have hdepth : depth < maxNestingDepth := by simp [Value.depth] at hd; omega
    have hd' : depth + 1 + max x.depth (depthElems xs) ≤ maxNestingDepth := by
      simp [Value.depth, depthElems] at hd; omega
    simp only [Value.encode, List.cons_append, List.append_assoc, List.nil_append]
    rw [parseValue, skipWs_cons (by decide)]
    dsimp only
    rw [if_neg (by decide), if_pos rfl, if_pos hdepth, ← List.append_assoc,
      parseElems_encode x xs n (depth + 1) [] rest hlen hd']
    rfl
  | .obj [] => by
    have hl : (Value.obj []).encode.length = 2 := rfl
    obtain ⟨n, rfl⟩ : ∃ n, fuel = n + 2 := ⟨fuel - 2, by omega⟩
    have hdepth : depth < maxNestingDepth := by
      have : (Value.obj []).depth = 1 := rfl
      omega
    show parseValue _ _ (0x7B :: 0x7D :: rest) = _
    rw [parseValue, skipWs_cons (by decide)]
    simp [hdepth, parseMembers, skipWs_cons (show isSpace 0x7D = false by decide), Value.toParsed,
      toParsedMembers]
  | .obj ((k, w) :: kvs) => by
    obtain ⟨n, rfl⟩ : ∃ n, fuel = n + 1 := ⟨fuel - 1, by simp [Value.encode] at hf; omega⟩
    have hlen : (appendString k ++ 0x3A :: w.encode ++ encodeMembers kvs).length < n := by
      simp [Value.encode] at hf ⊢; omega
    have hdepth : depth < maxNestingDepth := by simp [Value.depth] at hd; omega
    have hd' : depth + 1 + max w.depth (depthMembers kvs) ≤ maxNestingDepth := by
      simp [Value.depth, depthMembers] at hd; omega
    simp only [Value.encode, List.cons_append, List.append_assoc, List.nil_append]
    rw [parseValue, skipWs_cons (by decide)]
    dsimp only
    rw [if_pos rfl, if_pos hdepth]
    have := parseMembers_encode k w kvs n (depth + 1) [] rest hlen hd'
    simp only [List.cons_append, List.append_assoc, List.singleton_append] at this
    rw [this]
    rfl
termination_by sizeOf v
decreasing_by all_goals (simp_wf; omega)

/-- The elements of an array after `[`: the first, then each after a comma. -/
theorem parseElems_encode (x : Value) (xs : List Value) (fuel depth : Nat) (acc : List Parsed)
    (rest : Bytes) (hf : (x.encode ++ encodeElems xs).length < fuel)
    (hd : depth + max x.depth (depthElems xs) ≤ maxNestingDepth) :
    parseElems fuel depth acc (x.encode ++ encodeElems xs ++ 0x5D :: rest) =
      some (.arr (acc ++ x.toParsed :: toParsedElems xs), rest) := by
  obtain ⟨m, rfl⟩ : ∃ m, fuel = m + 1 := ⟨fuel - 1, by omega⟩
  obtain ⟨b, t, hx, hsp, hb, -⟩ := encode_head x
  have hnot : ¬(acc.isEmpty ∧ (skipWs (x.encode ++ encodeElems xs ++ 0x5D :: rest)).head? = some 0x5D) := by
    rw [hx, List.cons_append, List.cons_append, skipWs_cons hsp]
    simp [hb]
  have hx' : x.encode.length ≤ m := by simp at hf; omega
  match h : xs with
  | [] =>
    simp only [encodeElems, List.append_nil] at hnot ⊢
    rw [parseElems, if_neg hnot, parseValue_encode x m depth (0x5D :: rest) hx'
      (by simp [depthElems] at hd; omega) (numEnd_of_head (by decide))]
    simp [skipWs_cons (show isSpace 0x5D = false by decide), toParsedElems]
  | y :: ys =>
    rw [parseElems, if_neg hnot, List.append_assoc, parseValue_encode x m depth
      (encodeElems (y :: ys) ++ 0x5D :: rest) hx' (by simp [depthElems] at hd; omega)
      (numEnd_of_head (by decide))]
    dsimp only
    simp only [encodeElems, List.cons_append, List.append_assoc]
    rw [skipWs_cons (by decide)]
    dsimp only
    rw [if_pos rfl, ← List.append_assoc,
      parseElems_encode y ys m depth _ rest (by simp [encodeElems] at hf ⊢; omega)
        (by simp [depthElems] at hd; omega)]
    simp [toParsedElems]
termination_by sizeOf x + sizeOf xs + 1
decreasing_by
  all_goals simp_wf
  · omega
  · omega
  · simp only [h, List.cons.sizeOf_spec]; omega

/-- The members of an object after `{`: the first, then each after a comma. -/
theorem parseMembers_encode (k : Bytes) (v : Value) (kvs : List (Bytes × Value)) (fuel depth : Nat)
    (acc : List (Bytes × Parsed)) (rest : Bytes)
    (hf : (appendString k ++ 0x3A :: v.encode ++ encodeMembers kvs).length < fuel)
    (hd : depth + max v.depth (depthMembers kvs) ≤ maxNestingDepth) :
    parseMembers fuel depth acc (appendString k ++ 0x3A :: v.encode ++ encodeMembers kvs ++ 0x7D :: rest) =
      some (.obj (acc ++ (escapeString k, v.toParsed) :: toParsedMembers kvs), rest) := by
  obtain ⟨m, rfl⟩ : ∃ m, fuel = m + 1 := ⟨fuel - 1, by omega⟩
  have hv : v.encode.length ≤ m := by simp [appendString] at hf; omega
  simp only [appendString, List.cons_append, List.append_assoc, List.singleton_append,
    List.nil_append]
  rw [parseMembers, skipWs_cons (by decide)]
  dsimp only
  rw [if_neg (fun h => absurd h.1 (by decide)), if_pos rfl, lexString_escapeString]
  dsimp only
  simp only [skipWs_cons (show isSpace 0x3A = false by decide)]
  match h : kvs with
  | [] =>
    simp only [encodeMembers, List.nil_append]
    rw [parseValue_encode v m depth (0x7D :: rest) hv (by simp [depthMembers] at hd; omega)
      (numEnd_of_head (by decide))]
    simp [skipWs_cons (show isSpace 0x7D = false by decide), toParsedMembers]
  | (k', w) :: kvs' =>
    rw [parseValue_encode v m depth (encodeMembers ((k', w) :: kvs') ++ 0x7D :: rest) hv
      (by simp [depthMembers] at hd; omega) (numEnd_of_head (by decide))]
    dsimp only
    simp only [encodeMembers, List.cons_append, List.append_assoc]
    have := parseMembers_encode k' w kvs' m depth (acc ++ [(escapeString k, v.toParsed)]) rest
      (by simp [appendString, encodeMembers] at hf ⊢; omega) (by simp [depthMembers] at hd; omega)
    simp only [List.cons_append, List.append_assoc] at this
    rw [skipWs_cons (by decide)]
    dsimp only
    rw [if_pos rfl, this]
    simp [toParsedMembers]
termination_by sizeOf v + sizeOf kvs + 1
decreasing_by
  all_goals simp_wf
  · omega
  · omega
  · simp only [h, List.cons.sizeOf_spec, Prod.mk.sizeOf_spec]; omega
end

theorem skipWs_of_isSpace {ws : Bytes} (h : ∀ b ∈ ws, isSpace b = true) : skipWs ws = [] := by
  induction ws with
  | nil => rfl
  | cons b t ih =>
    rw [List.forall_mem_cons] at h
    simp [skipWs, h.1, ih h.2]

/-- **The scanner reads back what `json.Marshal` wrote**, and any whitespace after it, as
long as the containers nest no deeper than `maxNestingDepth`. -/
theorem parseText_encode (v : Value) (hd : v.depth ≤ maxNestingDepth) {ws : Bytes}
    (hws : ∀ b ∈ ws, isSpace b = true) : parseText (v.encode ++ ws) = some v.toParsed := by
  have hr : NumEnd ws := by
    cases ws with
    | nil => exact numEnd_nil
    | cons b t => exact numEnd_of_head (isNumberByte_of_isSpace (hws b (List.mem_cons_self b t)))
  rw [parseText, parseValue_encode v _ 0 ws (by simp; omega) (by simpa using hd) hr]
  simp [skipWs_of_isSpace hws]

/-! ## Into an `interface{}` -/

mutual
/-- The value an `interface{}` holds after decoding: every string and key made valid
UTF-8. -/
def Value.coerce : Value → Value
  | .str s => .str (coerceUTF8 s)
  | .arr xs => .arr (coerceElems xs)
  | .obj kvs => .obj (coerceMembers kvs)
  | v => v

/-- The elements, decoded. -/
def coerceElems : List Value → List Value
  | [] => []
  | x :: xs => x.coerce :: coerceElems xs

/-- The members, decoded. -/
def coerceMembers : List (Bytes × Value) → List (Bytes × Value)
  | [] => []
  | (k, v) :: kvs => (coerceUTF8 k, v.coerce) :: coerceMembers kvs
end

mutual
/-- Whether every number of a value is within `float64`'s range. -/
def Value.numbersFit : Value → Bool
  | .num n => fitsFloat64 n.lit
  | .arr xs => elemsFit xs
  | .obj kvs => membersFit kvs
  | _ => true

/-- Whether every number of the elements fits. -/
def elemsFit : List Value → Bool
  | [] => true
  | x :: xs => x.numbersFit && elemsFit xs

/-- Whether every number of the members' values fits. -/
def membersFit : List (Bytes × Value) → Bool
  | [] => true
  | (_, v) :: kvs => v.numbersFit && membersFit kvs
end

mutual
/-- **An `interface{}` gets back what was marshalled**, strings made valid UTF-8, when
every number fits a `float64`. -/
theorem decodeAny_toParsed : ∀ v : Value, v.numbersFit = true → decodeAny v.toParsed = some v.coerce
  | .null, _ => rfl
  | .bool _, _ => rfl
  | .num n, h => by simp_all [Value.numbersFit, Value.toParsed, decodeAny, Value.coerce]
  | .str s, _ => by simp [Value.toParsed, decodeAny, unquote_escapeString, Value.coerce]
  | .arr xs, h => by
    simp only [Value.numbersFit] at h
    simp [Value.toParsed, decodeAny, decodeAnyList_toParsedElems xs h, Value.coerce]
  | .obj kvs, h => by
    simp only [Value.numbersFit] at h
    simp [Value.toParsed, decodeAny, decodeAnyMembers_toParsedMembers kvs h, Value.coerce]

theorem decodeAnyList_toParsedElems :
    ∀ xs : List Value, elemsFit xs = true → decodeAnyList (toParsedElems xs) = some (coerceElems xs)
  | [], _ => rfl
  | x :: xs, h => by
    simp only [elemsFit, Bool.and_eq_true] at h
    simp [toParsedElems, decodeAnyList, decodeAny_toParsed x h.1, decodeAnyList_toParsedElems xs h.2,
      coerceElems]

theorem decodeAnyMembers_toParsedMembers : ∀ kvs : List (Bytes × Value), membersFit kvs = true →
    decodeAnyMembers (toParsedMembers kvs) = some (coerceMembers kvs)
  | [], _ => rfl
  | (k, v) :: kvs, h => by
    simp only [membersFit, Bool.and_eq_true] at h
    simp [toParsedMembers, decodeAnyMembers, unquote_escapeString, decodeAny_toParsed v h.1,
      decodeAnyMembers_toParsedMembers kvs h.2, coerceMembers]
end

/-! ## Integers -/

theorem digitsValue_decimalUpTo (fuel n : Nat) (h : n < 10 ^ fuel) :
    digitsValue (decimalUpTo fuel n) = n := by
  induction fuel generalizing n with
  | zero => simp at h; subst h; rfl
  | succ f ih =>
    rw [decimalUpTo, digitsValue_append_singleton, toNat_digit (Nat.mod_lt _ (by decide))]
    split
    · rename_i h10
      simp [digitsValue, Nat.mod_eq_of_lt h10]
    · rw [ih (n / 10) (by rw [Nat.pow_succ] at h; omega)]
      omega

/-- **An `int64` reads back from the literal `strconv` writes for it.** -/
theorem parseInt64_intLiteral {n : Int} (h1 : -2 ^ 63 ≤ n) (h2 : n < 2 ^ 63) :
    parseInt64 (intLiteral n) = some n := by
  have hlt : n.natAbs < 10 ^ (n.natAbs + 1) := by
    have := Nat.lt_pow_self (by decide : 1 < 10) (n.natAbs + 1); omega
  obtain ⟨d, t, he, hd, -⟩ := decimalUpTo_head n.natAbs n.natAbs hlt
  have hdig : ∀ b ∈ t, isDigit b = true := fun b hb =>
    decimalUpTo_digits _ _ b (by rw [he]; exact List.mem_cons_of_mem _ hb)
  have hval : digitsValue ((0x30 + d).toUInt8 :: t) = n.natAbs := by
    rw [← he]; exact digitsValue_decimalUpTo _ _ hlt
  have hne : (0x30 + d).toUInt8 ≠ 0x2D := fun h => by
    have := congrArg UInt8.toNat h
    rw [toNat_digit hd] at this
    exact absurd this (show 0x30 + d ≠ 45 by omega)
  have hall : t.all isDigit = true := List.all_eq_true.mpr hdig
  unfold parseInt64 intLiteral decimal
  rw [he]
  by_cases hn : n < 0
  · simp only [hn, if_true, List.singleton_append, List.head?_cons, List.tail_cons, hval,
      List.isEmpty_cons, Bool.not_false, List.all_cons, isDigit_digit hd, hall, Bool.and_self]
    rw [if_pos (by omega)]
    exact congrArg some (by omega)
  · simp only [hn, if_false, List.nil_append, List.head?_cons, Option.some.injEq, hne, hval,
      List.isEmpty_cons, Bool.not_false, List.all_cons, isDigit_digit hd, hall, Bool.and_self]
    rw [if_pos trivial, if_pos (by omega)]
    exact congrArg some (by omega)

/-- **An integer literal below `float64`'s overflow bound fits it**, so `interface{}` takes
every `int64` `json.Marshal` writes. -/
theorem fitsFloat64_intLiteral {n : Int} (h : n.natAbs < 2 ^ 1024 - 2 ^ 970) :
    fitsFloat64 (intLiteral n) = true := by
  have hdig : ∀ b ∈ decimal n.natAbs, isDigit b = true := decimalUpTo_digits _ _
  have hval : digitsValue (decimal n.natAbs) = n.natAbs :=
    digitsValue_decimalUpTo _ _ (lt_pow_succ_self _)
  unfold fitsFloat64
  generalize 2 ^ 1024 - 2 ^ 970 = B at h ⊢
  simp [strip_intLiteral, List.takeWhile_eq_self_iff.mpr hdig, List.dropWhile_eq_nil_iff.mpr hdig,
    hval, h]

/-! ## No control bytes -/

theorem space_le_of_isNumberByte {b : UInt8} (h : isNumberByte b = true) : 0x20 ≤ b := by
  simp only [isNumberByte, Bool.or_eq_true, Bool.and_eq_true, decide_eq_true_eq, beq_iff_eq] at h
  rcases h with ((((⟨h, -⟩ | rfl) | rfl) | rfl) | rfl) | rfl
  · exact UInt8.le_trans (by decide) h
  all_goals decide

theorem space_le_of_mem_appendString (s : Bytes) : ∀ x ∈ appendString s, 0x20 ≤ x := by
  simp only [appendString, List.mem_cons, List.mem_append, List.mem_singleton, List.not_mem_nil,
    or_false]
  rintro x ((rfl | hx) | rfl)
  · decide
  · exact space_le_of_mem_escapeString x hx
  · decide

mutual
/-- **`json.Marshal` writes no control byte**, so no newline: a frame is one line. -/
theorem space_le_of_mem_encode : ∀ v : Value, ∀ x ∈ v.encode, 0x20 ≤ x
  | .null => by decide
  | .bool b => by cases b <;> decide
  | .num n => fun x hx => space_le_of_isNumberByte (n.lit_shape.choose_spec.choose_spec.2.2 x hx)
  | .str s => space_le_of_mem_appendString s
  | .arr [] => by decide
  | .arr (x :: xs) => by
    simp only [Value.encode, List.mem_append, List.mem_cons, List.mem_singleton, List.not_mem_nil,
      or_false]
    rintro b (((rfl | hb) | hb) | rfl)
    · decide
    · exact space_le_of_mem_encode x b hb
    · exact space_le_of_mem_encodeElems xs b hb
    · decide
  | .obj [] => by decide
  | .obj ((k, v) :: kvs) => by
    simp only [Value.encode, List.mem_append, List.mem_cons, List.mem_singleton, List.not_mem_nil,
      or_false]
    rintro b ((((rfl | hb) | rfl | hb) | hb) | rfl)
    · decide
    · exact space_le_of_mem_appendString k b hb
    · decide
    · exact space_le_of_mem_encode v b hb
    · exact space_le_of_mem_encodeMembers kvs b hb
    · decide

theorem space_le_of_mem_encodeElems : ∀ xs : List Value, ∀ x ∈ encodeElems xs, 0x20 ≤ x
  | [] => by simp [encodeElems]
  | x :: xs => by
    simp only [encodeElems, List.mem_cons, List.mem_append]
    rintro b ((rfl | hb) | hb)
    · decide
    · exact space_le_of_mem_encode x b hb
    · exact space_le_of_mem_encodeElems xs b hb

theorem space_le_of_mem_encodeMembers : ∀ kvs : List (Bytes × Value), ∀ x ∈ encodeMembers kvs, 0x20 ≤ x
  | [] => by simp [encodeMembers]
  | (k, v) :: kvs => by
    simp only [encodeMembers, List.mem_cons, List.mem_append]
    rintro b (((rfl | hb) | rfl | hb) | hb)
    · decide
    · exact space_le_of_mem_appendString k b hb
    · decide
    · exact space_le_of_mem_encode v b hb
    · exact space_le_of_mem_encodeMembers kvs b hb
end

theorem newline_not_mem_encode (v : Value) : 0x0A ∉ v.encode := fun h =>
  absurd (space_le_of_mem_encode v _ h) (by decide)

/-! ## Strings of plain ASCII and byte slices -/

/-- A string of `htmlSafeSet` bytes, a key of the source's structs for one, reads back as
it is. -/
theorem unquote_escapeString_of_htmlSafe {s : Bytes} (h : ∀ b ∈ s, htmlSafe b = true) :
    unquote (escapeString s) = some s := by
  rw [unquote_escapeString, coerceUTF8_of_validUTF8 (validUTF8_of_lt fun b hb => lt_of_htmlSafe (h b hb))]

theorem depth_ofBytes (b : Option Bytes) : (Value.ofBytes b).depth = 0 := by
  cases b <;> rfl

/-- **A `[]byte` reads back from its base64 text**, and `nil` from `null`. -/
theorem decodeBytes_ofBytes (b : Option Bytes) : decodeBytes (Value.ofBytes b).toParsed = some b := by
  cases b with
  | none => rfl
  | some b =>
    have hsafe := htmlSafe_of_mem_b64Encode b
    have hfilter : (b64Encode b).filter (fun c => c != 0x0A && c != 0x0D) = b64Encode b :=
      List.filter_eq_self.mpr fun c hc => by
        have hs := hsafe c hc
        simp only [htmlSafe, Bool.and_eq_true, decide_eq_true_eq] at hs
        have hc : 0x20 ≤ c.toNat := hs.1.1.1.1.1.1
        simp only [Bool.and_eq_true, bne_iff_ne, ne_eq]
        constructor <;> (intro he; subst he; exact absurd hc (by decide))
    simp [Value.ofBytes, Value.toParsed, decodeBytes, unquote_escapeString_of_htmlSafe hsafe, hfilter,
      b64Decode_b64Encode]

/-! ## The first members of an object -/

/-- Whatever follows, an object the scanner reads after the members `acc` starts with them. -/
theorem parseMembers_prefix : ∀ (fuel depth : Nat) (acc : List (Bytes × Parsed)) (s : Bytes)
    (p : Parsed) (r : Bytes), parseMembers fuel depth acc s = some (p, r) →
      ∃ kvs, p = .obj (acc ++ kvs)
  | 0, _, _, _, _, _, h => by simp [parseMembers] at h
  | n + 1, depth, acc, s, p, r, h => by
    unfold parseMembers at h
    split at h
    · cases h
    · split_ifs at h
      · cases h
        exact ⟨[], by simp_all⟩
      · split at h
        · cases h
        · split at h
          · split at h
            · cases h
            · split at h
              · cases h
              · split_ifs at h
                · obtain ⟨kvs, rfl⟩ := parseMembers_prefix n depth _ _ p r h
                  exact ⟨_ :: kvs, by rw [List.append_assoc]; rfl⟩
                · cases h
                  exact ⟨[_], rfl⟩
          · cases h

/-- A member whose value is a string, followed by a comma: the scanner reads it and goes on. -/
theorem parseMembers_str (k s : Bytes) (fuel depth : Nat) (acc : List (Bytes × Parsed))
    (rest : Bytes) :
    parseMembers (fuel + 2) depth acc (appendString k ++ 0x3A :: appendString s ++ 0x2C :: rest) =
      parseMembers (fuel + 1) depth (acc ++ [(escapeString k, .str (escapeString s))]) rest := by
  rw [appendString]
  simp only [List.cons_append, List.append_assoc, List.singleton_append]
  rw [parseMembers, skipWs_cons (by decide)]
  dsimp only
  rw [if_neg (fun h => absurd h.1 (by decide)), if_pos rfl, lexString_escapeString]
  dsimp only
  simp only [List.nil_append, skipWs_cons (show isSpace 0x3A = false by decide)]
  rw [parseValue_string s (Nat.succ_pos _)]
  dsimp only
  rw [skipWs_cons (by decide)]
  dsimp only
  rw [if_pos rfl]

end Synapse.Json
