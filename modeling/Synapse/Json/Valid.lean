import Synapse.Json.Strings

/-!
# What the decoder returns is valid UTF-8

`unquoteBytes` copies an ASCII byte and a valid multi-byte rune, writes U+FFFD for every
byte `DecodeRune` rejects, and writes each `\u` escape through `utf8.EncodeRune`, with a
lone surrogate half as U+FFFD. Every one of these is valid UTF-8 on its own, and valid
UTF-8 strings joined are valid UTF-8, so whatever the text of a JSON string, the bytes the
decoder returns for it are valid UTF-8 (`validUTF8_unquote`). The same holds of what
`coerceUTF8` makes of any bytes, so a string is left as it is by that coercion exactly when it
is valid UTF-8 already (`coerceUTF8_eq_self_iff`).
-/

namespace Synapse

/-! ## Valid strings joined -/

theorem toNat_toUInt8 {n : Nat} (h : n < 256) : n.toUInt8.toNat = n := UInt8.toNat_ofNat_of_lt h

theorem validUTF8_nil : ValidUTF8 [] := fun r hr => by simp [runes_nil] at hr

/-- The walk over a valid string reads its runes and then the walk over what follows. -/
theorem runes_append_of_validUTF8 {a : Bytes} (ha : ValidUTF8 a) (b : Bytes) :
    runes (a ++ b) = runes a ++ runes b := by
  conv_lhs => rw [← flatMap_bytes_runes a]
  exact runes_flatMap_append (fun r hr => readable_of_mem_runes hr (ha r hr)) b

theorem ValidUTF8.append {a b : Bytes} (ha : ValidUTF8 a) (hb : ValidUTF8 b) :
    ValidUTF8 (a ++ b) := by
  intro r hr
  rw [runes_append_of_validUTF8 ha, List.mem_append] at hr
  exact hr.elim (ha r) (hb r)

theorem validUTF8_flatMap {α : Type} {f : α → Bytes} :
    ∀ {l : List α}, (∀ x ∈ l, ValidUTF8 (f x)) → ValidUTF8 (l.flatMap f)
  | [], _ => validUTF8_nil
  | x :: l, h => by
    rw [List.flatMap_cons]
    exact (h x (List.mem_cons_self _ _)).append
      (validUTF8_flatMap fun y hy => h y (List.mem_cons_of_mem _ hy))

/-! ## One rune -/

/-- A rune that reads back as itself, and is not a rejected byte, is valid on its own. -/
theorem validUTF8_bytes {r : GoRune} (hr : r.Readable) (hb : r.isBad = false) :
    ValidUTF8 r.bytes := by
  intro r' h'
  rw [← List.append_nil r.bytes, hr, runes_nil, List.mem_singleton] at h'
  exact h' ▸ hb

theorem validUTF8_singleton {b : UInt8} (h : b < 0x80) : ValidUTF8 [b] :=
  validUTF8_bytes (r := .ascii b) (readable_ascii h) rfl

/-- A lead byte followed by as many bytes as it announces, the first in the range it
admits and the rest continuation bytes, is one valid rune. -/
theorem validUTF8_lead {b0 : UInt8} {t : Bytes} {lo hi : UInt8} (hb : ¬b0 < 0x80)
    (hl : leadClass b0 = some (t.length + 1, lo, hi)) (ha : accepts lo hi t = true) :
    ValidUTF8 (b0 :: t) := by
  have hd : (decodeRune b0 t).1 = .multi (b0 :: t) := by
    simp [decodeRune, hb, hl, ha]
  have h := decodeRune_multi hd []
  rw [List.tail_cons, List.append_nil] at h
  intro r hr
  rw [runes_cons, h, runes_nil, List.mem_singleton] at hr
  exact hr ▸ rfl

/-- What the decoder writes for a rune of the walk is valid UTF-8. -/
theorem validUTF8_coerce {s : Bytes} {r : GoRune} (hr : r ∈ runes s) : ValidUTF8 r.coerce := by
  cases hb : r.isBad with
  | true =>
    cases r <;> simp only [GoRune.isBad, reduceCtorEq] at hb
    show ValidUTF8 [0xEF, 0xBF, 0xBD]
    decide
  | false =>
    rw [GoRune.coerce_of_not_isBad hb]
    exact validUTF8_bytes (readable_of_mem_runes hr hb) hb

theorem validUTF8_coerceUTF8 (s : Bytes) : ValidUTF8 (coerceUTF8 s) :=
  validUTF8_flatMap fun _ hr => validUTF8_coerce hr

/-- **The coercion leaves exactly the valid strings as they are.** -/
theorem coerceUTF8_eq_self_iff {s : Bytes} : coerceUTF8 s = s ↔ ValidUTF8 s :=
  ⟨fun h => h ▸ validUTF8_coerceUTF8 s, coerceUTF8_of_validUTF8⟩

/-! ## `utf8.EncodeRune` -/

theorem leadClass_two : ∀ n : Nat, n < 30 →
    leadClass (0xC2 + n).toUInt8 = some (2, 0x80, 0xBF) := by
  decide

theorem leadClass_three : ∀ n : Nat, n < 16 → leadClass (0xE0 + n).toUInt8 =
    some (3, if n = 0 then 0xA0 else 0x80, if n = 13 then 0x9F else 0xBF) := by
  decide

theorem leadClass_four : ∀ n : Nat, n < 5 → leadClass (0xF0 + n).toUInt8 =
    some (4, if n = 0 then 0x90 else 0x80, if n = 4 then 0x8F else 0xBF) := by
  decide

theorem isCont_toUInt8 {n : Nat} (h : n < 64) : isCont (0x80 + n).toUInt8 = true := by
  simp only [isCont, Bool.and_eq_true, decide_eq_true_eq, byte_le_iff,
    toNat_toUInt8 (show 0x80 + n < 256 by omega), UInt8.reduceToNat]
  omega

/-- A second byte `0x80 + s` in the range a lead admits, the range narrowed at either end. -/
theorem second_ok {s : Nat} (hs : s < 64) {p q : Prop} [Decidable p] [Decidable q]
    {a b : UInt8} (hp : p → a.toNat ≤ 0x80 + s) (hq : q → 0x80 + s ≤ b.toNat) :
    (decide ((if p then a else 0x80) ≤ (0x80 + s).toUInt8) &&
      decide ((0x80 + s).toUInt8 ≤ if q then b else 0xBF)) = true := by
  simp only [Bool.and_eq_true, decide_eq_true_eq, byte_le_iff,
    toNat_toUInt8 (show 0x80 + s < 256 by omega)]
  constructor
  · split_ifs with h
    · exact hp h
    · simp only [UInt8.reduceToNat]; omega
  · split_ifs with h
    · exact hq h
    · simp only [UInt8.reduceToNat]; omega

namespace Json

/-- **Every code point `EncodeRune` writes is valid UTF-8**, a surrogate half or a value past
U+10FFFF included, as U+FFFD. -/
theorem validUTF8_encodeCodePoint (r : Nat) : ValidUTF8 (encodeCodePoint r) := by
  have hlt : ∀ {n : Nat}, n < 256 → 0x80 ≤ n → ¬n.toUInt8 < 0x80 := fun h h' => by
    rw [byte_lt_iff, toNat_toUInt8 h]; simp only [UInt8.reduceToNat]; omega
  unfold encodeCodePoint
  split_ifs with h1 h2 h3 h4
  · exact validUTF8_singleton (by rw [byte_lt_iff, toNat_toUInt8 (by omega)]; exact h1)
  · have hl := leadClass_two (r / 64 - 2) (by omega)
    rw [show 0xC2 + (r / 64 - 2) = 0xC0 + r / 64 by omega] at hl
    refine validUTF8_lead (hlt (by omega) (by omega)) hl ?_
    simp only [accepts, List.all_nil, Bool.and_true, Bool.and_eq_true, decide_eq_true_eq,
      byte_le_iff, toNat_toUInt8 (show 0x80 + r % 64 < 256 by omega), UInt8.reduceToNat]
    omega
  · decide
  · have hl := leadClass_three (r / 4096) (by omega)
    refine validUTF8_lead (hlt (by omega) (by omega)) hl ?_
    simp only [accepts, List.all_cons, List.all_nil, Bool.and_true,
      isCont_toUInt8 (show r % 64 < 64 by omega)]
    exact second_ok (by omega) (fun _ => by simp only [UInt8.reduceToNat]; omega)
      (fun _ => by simp only [UInt8.reduceToNat]; omega)
  · have hl := leadClass_four (r / 262144) (by omega)
    refine validUTF8_lead (hlt (by omega) (by omega)) hl ?_
    simp only [accepts, List.all_cons, List.all_nil, Bool.and_true,
      isCont_toUInt8 (show r / 64 % 64 < 64 by omega), isCont_toUInt8 (show r % 64 < 64 by omega)]
    exact second_ok (by omega) (fun _ => by simp only [UInt8.reduceToNat]; omega)
      (fun _ => by simp only [UInt8.reduceToNat]; omega)

/-! ## What `unquoteBytes` writes -/

/-- A piece whose bytes, written alone, are valid UTF-8. Every `\u` escape is one: whatever
its value, `EncodeRune` and the pairing of surrogate halves write valid runes only. -/
def Piece.Fine : Piece → Prop
  | .byte b => ValidUTF8 [b]
  | .code _ => True
  | .rune r => ValidUTF8 r.coerce

theorem escapedByte_lt {c e : UInt8} (h : escapedByte c = some e) : e < 0x80 := by
  have hall : (escapedByte c).all (fun e => decide (e < 0x80)) = true := by
    unfold escapedByte
    by_cases h1 : c = 0x22 ∨ c = 0x5C ∨ c = 0x2F ∨ c = 0x27
    · rw [if_pos h1]; rcases h1 with rfl | rfl | rfl | rfl <;> rfl
    · rw [if_neg h1]; simp [apply_ite (Option.all _)]
  simpa [h] using hall

theorem fine_cons {x : Piece} {t : List GoRune} {ps : List Piece}
    (h : (x :: ·) <$> pieces t = some ps) (hx : x.Fine)
    (ih : ∀ {ps}, pieces t = some ps → ∀ p ∈ ps, p.Fine) : ∀ p ∈ ps, p.Fine := by
  obtain ⟨ps', hps', rfl⟩ := Option.map_eq_some'.mp h
  exact List.forall_mem_cons.mpr ⟨hx, ih hps'⟩

/-- Every piece the escapes of a string's text read is fine when each of its runes, as the
decoder writes it, is valid. -/
theorem fine_of_pieces : ∀ {rs : List GoRune}, (∀ r ∈ rs, ValidUTF8 r.coerce) →
    ∀ {ps}, pieces rs = some ps → ∀ p ∈ ps, p.Fine := by
  intro rs
  induction rs using pieces.induct with
  | case1 => intro _ ps h; cases h; simp
  | case2 _ _ _ _ _ _ hv ih =>
    intro hrs ps h
    rw [pieces_unicode hv] at h
    exact fine_cons h trivial (ih fun r hr => hrs r (by simp [hr]))
  | case5 _ _ hc _ he ih =>
    intro hrs ps h
    rw [pieces_simple hc he] at h
    exact fine_cons h (validUTF8_singleton (escapedByte_lt he))
      (ih fun r hr => hrs r (by simp [hr]))
  | case9 _ _ hb hq ih =>
    intro hrs ps h
    rw [pieces_byte hb (not_or.mp hq).1 (not_or.mp hq).2] at h
    exact fine_cons h (hrs _ (List.mem_cons_self _ _)) (ih fun r hr => hrs r (by simp [hr]))
  | case10 _ _ ih | case11 _ _ ih =>
    intro hrs ps h
    exact fine_cons h (hrs _ (List.mem_cons_self _ _)) (ih fun r hr => hrs r (by simp [hr]))
  | _ => intro _ _ h; rw [pieces.eq_def] at h; simp [*] at h

theorem validUTF8_writePiece {p : Piece} (hp : p.Fine) : ValidUTF8 (writePiece p).1 := by
  cases p with
  | byte b => exact hp
  | rune r => exact hp
  | code r =>
    simp only [writePiece]
    split
    · exact validUTF8_nil
    · exact validUTF8_encodeCodePoint r

theorem validUTF8_writeAfter (hi : Nat) {p : Piece} (hp : p.Fine) :
    ValidUTF8 (writeAfter hi p).1 := by
  have hw := (validUTF8_encodeCodePoint 0xFFFD).append (validUTF8_writePiece hp)
  unfold writeAfter
  split
  · split
    · exact validUTF8_encodeCodePoint _
    · exact hw
  · exact hw

theorem validUTF8_writePieces : ∀ (w : Option Nat) {ps : List Piece}, (∀ p ∈ ps, p.Fine) →
    ValidUTF8 (writePieces w ps)
  | none, [], _ => validUTF8_nil
  | some _, [], _ => validUTF8_encodeCodePoint _
  | none, p :: _, h =>
    (validUTF8_writePiece (h p (List.mem_cons_self _ _))).append
      (validUTF8_writePieces _ fun q hq => h q (List.mem_cons_of_mem _ hq))
  | some hi, p :: _, h =>
    (validUTF8_writeAfter hi (h p (List.mem_cons_self _ _))).append
      (validUTF8_writePieces _ fun q hq => h q (List.mem_cons_of_mem _ hq))

/-- **Whatever the text of a JSON string, the bytes `unquoteBytes` returns for it are valid
UTF-8.** -/
theorem validUTF8_unquote {raw s : Bytes} (h : unquote raw = some s) : ValidUTF8 s := by
  obtain ⟨ps, hps, rfl⟩ := Option.map_eq_some'.mp h
  exact validUTF8_writePieces none (fine_of_pieces (fun _ hr => validUTF8_coerce hr) hps)

end Json

end Synapse
