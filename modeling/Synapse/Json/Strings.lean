import Synapse.Json.Decode

/-!
# Strings read back

A string goes through three hands: `appendString` writes it, the scanner finds the quote
that closes it (`lexString`), and `unquoteBytes` turns the text between the quotes back
into bytes (`unquote`). This module proves the three agree: the scanner stops at the quote
`appendString` wrote, and `unquote` returns the string with every byte `DecodeRune`
rejects turned into U+FFFD, which is `coerceUTF8`.

Both facts are proved one rune at a time. Whatever `appendString` writes for one rune is
one lexeme for the scanner (`Lexes`) and one piece for `unquoteBytes`, which writes the
rune's `coerce` (`ReadsAs`); both properties are closed under concatenation.

## Main results

* `lexString_escapeString`: the scanner reads an escaped string up to its closing quote.
* `unquote_escapeString`: `unquote (escapeString s) = some (coerceUTF8 s)`.
* `space_le_of_mem_escapeString`: an escaped string holds no control byte.
-/

namespace Synapse.Json

/-! ## The scanner -/

/-- Bytes the scanner reads through inside a string, whatever follows them. -/
def Lexes (x : Bytes) : Prop :=
  ∀ t, lexString (x ++ t) = (lexString t).map fun p => (x ++ p.1, p.2)

theorem Lexes.append {x y : Bytes} (hx : Lexes x) (hy : Lexes y) : Lexes (x ++ y) := fun t => by
  simp only [List.append_assoc, hx (y ++ t), hy t, Option.map_map, Function.comp_def]

theorem lexes_byte {b : UInt8} (hq : b ≠ 0x22) (hs : b ≠ 0x5C) (hc : ¬b < 0x20) :
    Lexes [b] := fun t => by
  rw [List.singleton_append, lexString.eq_def]
  simp only [hq, ↓reduceIte, hs, hc, List.singleton_append]

theorem lexes_simple {c : UInt8} (h : simpleEscape c = true) : Lexes [0x5C, c] := fun t => by
  rw [List.cons_append, lexString.eq_def]
  simp [h]

theorem lexes_unicode (h1 h2 h3 h4 : UInt8) (h : (hex4 h1 h2 h3 h4).isSome) :
    Lexes [0x5C, 0x75, h1, h2, h3, h4] := fun t => by
  rw [List.cons_append, lexString.eq_def]
  simp [h, show simpleEscape 0x75 = false by decide]

/-- The digits `hexDigit` writes read back. -/
theorem hexVal_hexDigit : ∀ n < 16, hexVal (hexDigit n) = some n := by decide

theorem hex4_escape (b : UInt8) :
    hex4 0x30 0x30 (hexDigit (b.toNat / 16)) (hexDigit (b.toNat % 16)) = some b.toNat := by
  have h1 := hexVal_hexDigit (b.toNat / 16) (by have : b.toNat < 256 := b.toNat_lt_size; omega)
  have h2 := hexVal_hexDigit (b.toNat % 16) (Nat.mod_lt _ (by decide))
  simp only [hex4, h1, h2, show hexVal 0x30 = some 0 from rfl, Option.bind_eq_bind,
    Option.some_bind, Option.pure_def, Option.some.injEq]
  omega

theorem lexes_high {bs : Bytes} (h : ∀ x ∈ bs, 0x80 ≤ x) : Lexes bs := by
  induction bs with
  | nil => exact fun t => by simp
  | cons b bs ih =>
    rw [List.forall_mem_cons] at h
    have hb : 0x80 ≤ b.toNat := h.1
    refine Lexes.append (x := [b]) (lexes_byte ?_ ?_ ?_) (ih h.2) <;> intro he
    · subst he; exact absurd hb (by decide)
    · subst he; exact absurd hb (by decide)
    · exact absurd he (by rw [byte_lt_iff]; show ¬b.toNat < 32; omega)

theorem lexes_escapeByte (b : UInt8) : Lexes (escapeByte b) := by
  unfold escapeByte
  split_ifs with h1 h2 h3 h4
  · exact lexes_simple (by rcases h1 with rfl | rfl <;> decide)
  · exact lexes_simple (c := 0x6E) rfl
  · exact lexes_simple (c := 0x72) rfl
  · exact lexes_simple (c := 0x74) rfl
  · exact lexes_unicode _ _ _ _ (by rw [hex4_escape]; rfl)

theorem lexes_escapeRune {r : GoRune} (hr : ∀ bs, r = .multi bs → ∀ x ∈ bs, 0x80 ≤ x) :
    Lexes (escapeRune r) := by
  cases r with
  | ascii b =>
    simp only [escapeRune]
    split
    · rename_i h
      simp only [htmlSafe, Bool.and_eq_true, decide_eq_true_eq, bne_iff_ne, ne_eq] at h
      obtain ⟨⟨⟨⟨⟨⟨hlo, -⟩, hq⟩, hs⟩, -⟩, -⟩, -⟩ := h
      exact lexes_byte hq hs (by rw [byte_lt_iff]; rw [byte_le_iff] at hlo; omega)
    · exact lexes_escapeByte b
  | multi bs =>
    simp only [escapeRune]
    split_ifs
    · exact lexes_unicode 0x32 0x30 0x32 0x38 rfl
    · exact lexes_unicode 0x32 0x30 0x32 0x39 rfl
    · exact lexes_high (hr bs rfl)
  | bad b => exact lexes_unicode 0x66 0x66 0x66 0x64 rfl

theorem lexes_escapeString (s : Bytes) : Lexes (escapeString s) := by
  suffices ∀ rs : List GoRune, (∀ r ∈ rs, r ∈ runes s) → Lexes (rs.flatMap escapeRune) from
    this _ fun _ => id
  intro rs hrs
  induction rs with
  | nil => exact fun t => by simp
  | cons r rs ih =>
    rw [List.forall_mem_cons] at hrs
    exact (lexes_escapeRune (mem_runes_bytes hrs.1).2).append (ih hrs.2)

/-- **The scanner stops at the closing quote `appendString` writes.** -/
theorem lexString_escapeString (s rest : Bytes) :
    lexString (escapeString s ++ 0x22 :: rest) = some (escapeString s, rest) := by
  rw [lexes_escapeString s, lexString.eq_def]
  simp

/-! ## `unquoteBytes` -/

theorem runes_ascii_append (xs : Bytes) (h : ∀ b ∈ xs, b < 0x80) (rest : Bytes) :
    runes (xs ++ rest) = xs.map .ascii ++ runes rest := by
  induction xs with
  | nil => rfl
  | cons b xs ih =>
    rw [List.forall_mem_cons] at h
    rw [List.cons_append, ← List.singleton_append, ← GoRune.bytes_ascii,
      readable_ascii h.1, ih h.2]
    rfl

theorem pieces_byte {b : UInt8} (hs : b ≠ 0x5C) (hq : b ≠ 0x22) (hc : ¬b < 0x20)
    (rs : List GoRune) : pieces (.ascii b :: rs) = (.byte b :: ·) <$> pieces rs := by
  rw [pieces.eq_def]
  simp only [hs, ↓reduceIte, hq, hc, or_self, Option.map_eq_map]

theorem pieces_simple {c e : UInt8} (hc : c ≠ 0x75) (he : escapedByte c = some e)
    (rs : List GoRune) :
    pieces (.ascii 0x5C :: .ascii c :: rs) = (.byte e :: ·) <$> pieces rs := by
  rw [pieces.eq_def]
  simp [hc, he]

theorem pieces_unicode {h1 h2 h3 h4 : UInt8} {v : Nat} (h : hex4 h1 h2 h3 h4 = some v)
    (rs : List GoRune) :
    pieces (.ascii 0x5C :: .ascii 0x75 :: .ascii h1 :: .ascii h2 :: .ascii h3 :: .ascii h4 :: rs) =
      (.code v :: ·) <$> pieces rs := by
  rw [pieces.eq_def]
  simp [h]

theorem pieces_multi (bs : Bytes) (rs : List GoRune) :
    pieces (.multi bs :: rs) = (.rune (.multi bs) :: ·) <$> pieces rs := rfl

/-- Bytes `unquoteBytes` reads as one piece, which it writes as `out`, whatever follows. -/
def ReadsAs (x out : Bytes) : Prop :=
  ∃ p, writePiece p = (out, none) ∧ ∀ rest, pieces (runes (x ++ rest)) = (p :: ·) <$> pieces (runes rest)

theorem readsAs_simple {c e : UInt8} (hc : c ≠ 0x75) (hlt : c < 0x80) (he : escapedByte c = some e) :
    ReadsAs [0x5C, c] [e] :=
  ⟨.byte e, rfl, fun rest => by
    rw [runes_ascii_append [0x5C, c] (by simpa using hlt)]
    exact pieces_simple hc he _⟩

theorem readsAs_unicode (h1 h2 h3 h4 : UInt8) {v : Nat} (hlt : ∀ b ∈ [h1, h2, h3, h4], b < 0x80)
    (h : hex4 h1 h2 h3 h4 = some v) (hs : isSurrogate v = false) :
    ReadsAs [0x5C, 0x75, h1, h2, h3, h4] (encodeCodePoint v) :=
  ⟨.code v, by simp [writePiece, hs], fun rest => by
    rw [runes_ascii_append [0x5C, 0x75, h1, h2, h3, h4] (by simpa using hlt)]
    exact pieces_unicode h _⟩

theorem hexDigit_lt (n : Nat) (h : n < 16) : hexDigit n < 0x80 := by
  revert n; decide

theorem readsAs_escapeByte {b : UInt8} (hb : b < 0x80) : ReadsAs (escapeByte b) [b] := by
  unfold escapeByte
  split_ifs with h1 h2 h3 h4
  · rcases h1 with rfl | rfl
    · exact readsAs_simple (by decide) (by decide) rfl
    · exact readsAs_simple (by decide) (by decide) rfl
  · exact h2 ▸ readsAs_simple (c := 0x6E) (by decide) (by decide) rfl
  · exact h3 ▸ readsAs_simple (c := 0x72) (by decide) (by decide) rfl
  · exact h4 ▸ readsAs_simple (c := 0x74) (by decide) (by decide) rfl
  · have hlt : b.toNat < 0x80 := hb
    have hcode : encodeCodePoint b.toNat = [b] := by
      simp only [encodeCodePoint, if_pos hlt]
      rw [toUInt8_toNat]
    refine hcode ▸ readsAs_unicode _ _ _ _ ?_ (hex4_escape b) ?_
    · simp only [List.mem_cons, List.mem_singleton, List.not_mem_nil, or_false]
      rintro x (rfl | rfl | rfl | rfl)
      · decide
      · decide
      · exact hexDigit_lt _ (by omega)
      · exact hexDigit_lt _ (Nat.mod_lt _ (by decide))
    · simp only [isSurrogate, Bool.and_eq_false_iff, decide_eq_false_iff_not, not_le]
      exact .inl (by omega)

theorem readsAs_escapeRune {s : Bytes} {r : GoRune} (hr : r ∈ runes s) :
    ReadsAs (escapeRune r) r.coerce := by
  obtain ⟨hasc, hmul⟩ := mem_runes_bytes hr
  cases r with
  | ascii b =>
    simp only [escapeRune]
    split
    · rename_i h
      simp only [htmlSafe, Bool.and_eq_true, decide_eq_true_eq, bne_iff_ne, ne_eq] at h
      obtain ⟨⟨⟨⟨⟨⟨hlo, hhi⟩, hq⟩, hs⟩, -⟩, -⟩, -⟩ := h
      refine ⟨.byte b, rfl, fun rest => ?_⟩
      rw [runes_ascii_append [b] (by simpa using hhi)]
      exact pieces_byte hs hq (by rw [byte_lt_iff]; rw [byte_le_iff] at hlo; omega) _
    · exact readsAs_escapeByte (hasc b rfl)
  | multi bs =>
    simp only [escapeRune]
    split_ifs with h1 h2
    · subst h1; exact readsAs_unicode 0x32 0x30 0x32 0x38 (by decide) (v := 0x2028) rfl rfl
    · subst h2; exact readsAs_unicode 0x32 0x30 0x32 0x39 (by decide) (v := 0x2029) rfl rfl
    · refine ⟨.rune (.multi bs), rfl, fun rest => ?_⟩
      rw [← GoRune.bytes_multi bs, readable_of_mem_runes hr rfl rest]
      exact pieces_multi bs _
  | bad b => exact readsAs_unicode 0x66 0x66 0x66 0x64 (by decide) (v := 0xFFFD) rfl rfl

theorem writePieces_cons {p : Piece} {out : Bytes} (h : writePiece p = (out, none))
    (ps : List Piece) : writePieces none (p :: ps) = out ++ writePieces none ps := by
  simp [writePieces, h]

/-- **`unquoteBytes` reads back what `appendString` wrote**, with every rejected byte made
U+FFFD. -/
theorem unquote_escapeString (s : Bytes) : unquote (escapeString s) = some (coerceUTF8 s) := by
  suffices ∀ rs : List GoRune, (∀ r ∈ rs, r ∈ runes s) → ∀ rest,
      (pieces (runes (rs.flatMap escapeRune ++ rest))).map (writePieces none) =
        (pieces (runes rest)).map fun ps => rs.flatMap GoRune.coerce ++ writePieces none ps by
    simpa [unquote, coerceUTF8, escapeString, pieces, writePieces] using
      this (runes s) (fun _ => id) []
  intro rs hrs
  induction rs with
  | nil => simp
  | cons r rs ih =>
    intro rest
    rw [List.forall_mem_cons] at hrs
    obtain ⟨p, hp, hread⟩ := readsAs_escapeRune hrs.1
    have step : ∀ o : Option (List Piece), ((p :: ·) <$> o).map (writePieces none) =
        (o.map (writePieces none)).map (r.coerce ++ ·) := by
      rintro (_ | ps) <;> simp [writePieces_cons hp]
    rw [List.flatMap_cons, List.append_assoc, hread, step, ih hrs.2 rest, Option.map_map]
    simp [Function.comp_def, List.flatMap_cons]

/-! ## What the escapes hold

`appendString` leaves no control byte in the text: the scanner would reject one, and a
newline in particular would end the frame a line-based reader takes. -/

theorem hexDigit_ge (n : Nat) (h : n < 16) : 0x30 ≤ hexDigit n := by
  revert n; decide

theorem space_le_of_mem_escapeByte (b : UInt8) : ∀ x ∈ escapeByte b, 0x20 ≤ x := by
  unfold escapeByte
  split_ifs with h1
  · rcases h1 with rfl | rfl <;> decide
  · decide
  · decide
  · decide
  · have h1 := hexDigit_ge (b.toNat / 16) (by have : b.toNat < 256 := b.toNat_lt_size; omega)
    have h2 := hexDigit_ge (b.toNat % 16) (Nat.mod_lt _ (by decide))
    simp only [List.forall_mem_cons, List.not_mem_nil, false_imp_iff, implies_true, and_true]
    exact ⟨by decide, by decide, by decide, by decide, UInt8.le_trans (by decide) h1,
      UInt8.le_trans (by decide) h2⟩

theorem space_le_of_mem_escapeRune {s : Bytes} {r : GoRune} (hr : r ∈ runes s) :
    ∀ x ∈ escapeRune r, 0x20 ≤ x := by
  cases r with
  | ascii b =>
    simp only [escapeRune]
    split
    · rename_i h
      simp only [htmlSafe, Bool.and_eq_true, decide_eq_true_eq] at h
      simpa using h.1.1.1.1.1.1
    · exact space_le_of_mem_escapeByte b
  | multi bs =>
    simp only [escapeRune]
    split_ifs
    · decide
    · decide
    · exact fun x hx => UInt8.le_trans (by decide) ((mem_runes_bytes hr).2 bs rfl x hx)
  | bad b => simp only [escapeRune]; decide

/-- **`appendString` writes no control byte between the quotes.** -/
theorem space_le_of_mem_escapeString {s : Bytes} : ∀ x ∈ escapeString s, 0x20 ≤ x := by
  intro x hx
  obtain ⟨r, hr, hx⟩ := List.mem_flatMap.mp hx
  exact space_le_of_mem_escapeRune hr x hx

theorem lt_of_htmlSafe {b : UInt8} (h : htmlSafe b = true) : b < 0x80 := by
  simp only [htmlSafe, Bool.and_eq_true, decide_eq_true_eq] at h
  exact h.1.1.1.1.1.2

theorem escapeString_cons_ascii {b : UInt8} (hb : b < 0x80) (t : Bytes) :
    escapeString (b :: t) = escapeRune (.ascii b) ++ escapeString t := by
  simp [escapeString, runes_cons, decodeRune, hb]

/-- Bytes of `htmlSafeSet` are written as they are. -/
theorem escapeString_of_htmlSafe {s : Bytes} (h : ∀ b ∈ s, htmlSafe b = true) :
    escapeString s = s := by
  induction s with
  | nil => rfl
  | cons b t ih =>
    rw [List.forall_mem_cons] at h
    rw [escapeString_cons_ascii (lt_of_htmlSafe h.1), ih h.2]
    simp [escapeRune, h.1]

/-- Bytes below `0x80` are valid UTF-8, each its own rune. -/
theorem validUTF8_of_lt {s : Bytes} (h : ∀ b ∈ s, b < 0x80) : ValidUTF8 s := by
  intro r hr
  rw [← List.append_nil s, runes_ascii_append s h, runes_nil, List.append_nil] at hr
  obtain ⟨b, -, rfl⟩ := List.mem_map.mp hr
  rfl

end Synapse.Json
