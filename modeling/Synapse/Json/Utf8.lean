import Mathlib.Algebra.Group.Int
import Mathlib.Algebra.Group.Nat.Basic
import Mathlib.Data.List.Basic

/-!
# Bytes and Go's UTF-8 walk

A Go `string` is a byte string: nothing makes it valid UTF-8. Both directions of
`encoding/json` walk a string with `utf8.DecodeRune`, which reads one encoded rune off
the front of the bytes or rejects the first byte as `(RuneError, 1)`. `decodeRune` is
one call, transcribed from the `first` and `acceptRanges` tables of `unicode/utf8`, and
`runes` is the whole walk. Everything the encoder and the decoder do to a string is
said once per rune, over `runes`.
-/

namespace Synapse

/-- A Go `[]byte` or `string`. -/
abbrev Bytes := List UInt8

/-- The bytes of an ASCII literal of the source. -/
def ascii (s : String) : Bytes := s.data.map fun c => c.toNat.toUInt8

/-- Bytes compare as their values. -/
theorem byte_le_iff {a b : UInt8} : a ≤ b ↔ a.toNat ≤ b.toNat := Iff.rfl

/-- Bytes compare as their values. -/
theorem byte_lt_iff {a b : UInt8} : a < b ↔ a.toNat < b.toNat := Iff.rfl

theorem toUInt8_toNat (a : UInt8) : a.toNat.toUInt8 = a :=
  UInt8.toNat.inj (UInt8.toNat_ofNat_of_lt a.toNat_lt_size)

/-- What one call of `utf8.DecodeRune` reads off the front of a byte string. -/
inductive GoRune where
  /-- A byte below `utf8.RuneSelf`. -/
  | ascii (b : UInt8)
  /-- A valid encoding of two to four bytes, lead byte first. -/
  | multi (bs : Bytes)
  /-- A byte that starts no valid encoding: `(RuneError, 1)`. -/
  | bad (b : UInt8)
  deriving DecidableEq, Repr

namespace GoRune

/-- The bytes the rune was read from. -/
def bytes : GoRune → Bytes
  | .ascii b => [b]
  | .multi bs => bs
  | .bad b => [b]

/-- Whether `DecodeRune` rejected the byte. -/
def isBad : GoRune → Bool
  | .bad _ => true
  | _ => false

/-- The bytes the decoder writes for the rune: `utf8.EncodeRune` of what `DecodeRune`
returned, so a rejected byte becomes U+FFFD. -/
def coerce : GoRune → Bytes
  | .bad _ => [0xEF, 0xBF, 0xBD]
  | r => r.bytes

@[simp] theorem bytes_ascii (b : UInt8) : (ascii b).bytes = [b] := rfl
@[simp] theorem bytes_multi (bs : Bytes) : (multi bs).bytes = bs := rfl
@[simp] theorem bytes_bad (b : UInt8) : (bad b).bytes = [b] := rfl

theorem coerce_of_not_isBad {r : GoRune} (h : r.isBad = false) : r.coerce = r.bytes := by
  cases r <;> simp_all [isBad, coerce]

end GoRune

/-! ## One call of `DecodeRune` -/

/-- The `first` table with `acceptRanges`: for a byte at or above `0x80`, the length of
the encoding it leads and the range its second byte must lie in; `none` for a byte that
leads no encoding (`0x80`–`0xC1`, `0xF5`–`0xFF`). -/
def leadClass (b : UInt8) : Option (Nat × UInt8 × UInt8) :=
  if b < 0xC2 then none
  else if b < 0xE0 then some (2, 0x80, 0xBF)
  else if b = 0xE0 then some (3, 0xA0, 0xBF)
  else if b = 0xED then some (3, 0x80, 0x9F)
  else if b < 0xF0 then some (3, 0x80, 0xBF)
  else if b = 0xF0 then some (4, 0x90, 0xBF)
  else if b < 0xF4 then some (4, 0x80, 0xBF)
  else if b = 0xF4 then some (4, 0x80, 0x8F)
  else none

/-- A continuation byte, `locb`–`hicb`. -/
def isCont (b : UInt8) : Bool := 0x80 ≤ b && b ≤ 0xBF

/-- The bytes after the lead: the second in `lo`–`hi`, the others continuation bytes. -/
def accepts (lo hi : UInt8) : Bytes → Bool
  | [] => false
  | b1 :: rest => lo ≤ b1 && b1 ≤ hi && rest.all isCont

/-- `utf8.DecodeRune (b0 :: t)`, with the bytes left after the rune. A short or
out-of-range sequence is `(RuneError, 1)`: only the lead byte is consumed. -/
def decodeRune (b0 : UInt8) (t : Bytes) : GoRune × Bytes :=
  if b0 < 0x80 then (.ascii b0, t) else
  match leadClass b0 with
  | none => (.bad b0, t)
  | some (n, lo, hi) =>
    if (t.take (n - 1)).length = n - 1 ∧ accepts lo hi (t.take (n - 1)) = true then
      (.multi (b0 :: t.take (n - 1)), t.drop (n - 1))
    else (.bad b0, t)

theorem decodeRune_spec (b0 : UInt8) (t : Bytes) :
    (decodeRune b0 t).1.bytes ++ (decodeRune b0 t).2 = b0 :: t := by
  unfold decodeRune
  split
  · rfl
  · split
    · rfl
    · split <;> simp

theorem length_decodeRune_le (b0 : UInt8) (t : Bytes) : (decodeRune b0 t).2.length ≤ t.length := by
  have h := congrArg List.length (decodeRune_spec b0 t)
  have : 0 < (decodeRune b0 t).1.bytes.length := by
    unfold decodeRune; split
    · simp
    · split
      · simp
      · split <;> simp
  simp only [List.length_append, List.length_cons] at h
  omega

/-- A multi-byte rune reads back the same whatever follows it. -/
theorem decodeRune_multi {b0 : UInt8} {t : Bytes} {bs : Bytes}
    (h : (decodeRune b0 t).1 = .multi bs) (rest : Bytes) :
    decodeRune b0 (bs.tail ++ rest) = (.multi bs, rest) := by
  unfold decodeRune at h ⊢
  split at h
  · cases h
  · rename_i hb
    split at h
    · cases h
    · rename_i n lo hi hl
      split at h
      · rename_i hok
        cases h
        have htake : ((t.take (n - 1)) ++ rest).take (n - 1) = t.take (n - 1) := by
          simp [List.take_append_eq_append_take, hok.1]
        simp [hb, hl, htake, hok, List.drop_left' hok.1]
      · cases h

/-- The second byte a lead byte admits is a continuation byte or above. -/
theorem leadClass_lo {b lo hi : UInt8} {n : Nat} (h : leadClass b = some (n, lo, hi)) :
    0x80 ≤ lo := by
  have hall : (leadClass b).all (fun x => decide (0x80 ≤ x.2.1)) = true := by
    simp [leadClass, apply_ite (Option.all _)]
  simpa [h] using hall

/-- Every byte of a multi-byte rune is at or above `0x80`. -/
theorem decodeRune_multi_high {b0 : UInt8} {t bs : Bytes} (h : (decodeRune b0 t).1 = .multi bs) :
    ∀ x ∈ bs, 0x80 ≤ x := by
  unfold decodeRune at h
  split at h
  · cases h
  · rename_i hb
    split at h
    · cases h
    · rename_i n lo hi hl
      split at h
      · rename_i hok
        cases h
        have hlo := leadClass_lo hl
        rw [List.forall_mem_cons]
        refine ⟨by rw [byte_le_iff] at hlo ⊢; rw [byte_lt_iff] at hb; omega, ?_⟩
        obtain ⟨-, hacc⟩ := hok
        generalize t.take (n - 1) = l at hacc
        cases l with
        | nil => simp [accepts] at hacc
        | cons b1 rest =>
          simp only [accepts, Bool.and_eq_true, decide_eq_true_eq, List.all_eq_true, isCont] at hacc
          rw [List.forall_mem_cons]
          refine ⟨by rw [byte_le_iff] at hlo hacc ⊢; omega, fun x hx => (hacc.2 x hx).1⟩
      · cases h

/-! ## The walk -/

/-- `runes` with a bound on the number of calls; one call consumes at least one byte. -/
def runesUpTo : Nat → Bytes → List GoRune
  | 0, _ => []
  | _, [] => []
  | n + 1, b :: t => (decodeRune b t).1 :: runesUpTo n (decodeRune b t).2

/-- The runes Go's `for i < len(s) { r, size := utf8.DecodeRune(s[i:]); …; i += size }`
meets, in order. -/
def runes (s : Bytes) : List GoRune := runesUpTo s.length s

theorem runesUpTo_congr : ∀ (n m : Nat) (s : Bytes), s.length ≤ n → s.length ≤ m →
    runesUpTo n s = runesUpTo m s
  | 0, _, [], _, _ | _, 0, [], _, _ => by cases ‹Nat› <;> rfl
  | n + 1, m + 1, [], _, _ => rfl
  | n + 1, m + 1, b :: t, hn, hm => by
    have := length_decodeRune_le b t
    simp only [runesUpTo]
    rw [runesUpTo_congr n m _ (by simp at hn; omega) (by simp at hm; omega)]
  | 0, _, _ :: _, hn, _ | _, 0, _ :: _, _, hm => by simp at *

@[simp] theorem runes_nil : runes [] = [] := rfl

theorem runes_cons (b : UInt8) (t : Bytes) :
    runes (b :: t) = (decodeRune b t).1 :: runes (decodeRune b t).2 := by
  simp only [runes, List.length_cons, runesUpTo]
  rw [runesUpTo_congr _ _ _ (length_decodeRune_le b t) le_rfl]

/-- Induction along the walk: the rest after one rune is the next case. -/
theorem runes_induction {P : Bytes → Prop} (nil : P [])
    (cons : ∀ b t, P (decodeRune b t).2 → P (b :: t)) : ∀ s, P s := by
  suffices ∀ n s, s.length = n → P s from fun s => this _ s rfl
  intro n
  induction n using Nat.strong_induction_on with
  | _ n ih =>
    rintro (_ | ⟨b, t⟩) h
    · exact nil
    · have := length_decodeRune_le b t
      exact cons b t (ih _ (by simp at h; omega) _ rfl)

/-- The walk partitions the bytes. -/
theorem flatMap_bytes_runes (s : Bytes) : (runes s).flatMap GoRune.bytes = s := by
  induction s using runes_induction with
  | nil => rfl
  | cons b t ih => rw [runes_cons, List.flatMap_cons, ih, decodeRune_spec]

/-! ## Runes that read back -/

/-- What one call can return: the lead byte itself below `0x80`, an encoding led by it,
or its rejection. -/
theorem decodeRune_fst_cases (b : UInt8) (t : Bytes) :
    ((decodeRune b t).1 = .ascii b ∧ b < 0x80) ∨ (∃ bs, (decodeRune b t).1 = .multi (b :: bs)) ∨
      (decodeRune b t).1 = .bad b := by
  unfold decodeRune
  split
  · exact .inl ⟨rfl, ‹_›⟩
  · split
    · exact .inr (.inr rfl)
    · split
      · exact .inr (.inl ⟨_, rfl⟩)
      · exact .inr (.inr rfl)

/-- Every rune of the walk is what one call returned. -/
theorem exists_decodeRune_of_mem_runes {s : Bytes} {r : GoRune} (hr : r ∈ runes s) :
    ∃ b t, (decodeRune b t).1 = r := by
  induction s using runes_induction with
  | nil => simp at hr
  | cons b t ih =>
    rw [runes_cons, List.mem_cons] at hr
    exact hr.elim (fun h => ⟨b, t, h.symm⟩) ih

/-- An ASCII rune of the walk is below `0x80`, and every byte of a multi-byte one at or
above it. -/
theorem mem_runes_bytes {s : Bytes} {r : GoRune} (hr : r ∈ runes s) :
    (∀ b, r = .ascii b → b < 0x80) ∧ ∀ bs, r = .multi bs → ∀ x ∈ bs, 0x80 ≤ x := by
  obtain ⟨b, t, rfl⟩ := exists_decodeRune_of_mem_runes hr
  refine ⟨fun a ha => ?_, fun bs hbs => decodeRune_multi_high hbs⟩
  rcases decodeRune_fst_cases b t with ⟨he, hlt⟩ | ⟨bs, he⟩ | he <;> rw [he] at ha <;>
    cases ha
  exact hlt

/-- A rune the walk reads back as itself whatever bytes follow it. A rejected byte is
not one: a byte after it may complete an encoding. -/
def GoRune.Readable (r : GoRune) : Prop := ∀ rest, runes (r.bytes ++ rest) = r :: runes rest

theorem readable_ascii {b : UInt8} (h : b < 0x80) : (GoRune.ascii b).Readable := fun rest => by
  simp [runes_cons, decodeRune, h]

/-- Every rune of the walk but a rejected byte reads back. -/
theorem readable_of_mem_runes {s : Bytes} {r : GoRune} (hr : r ∈ runes s)
    (hb : r.isBad = false) : r.Readable := by
  induction s using runes_induction with
  | nil => simp at hr
  | cons b t ih =>
    rw [runes_cons, List.mem_cons] at hr
    rcases hr with rfl | hr
    · rcases decodeRune_fst_cases b t with ⟨he, hlt⟩ | ⟨bs, he⟩ | he <;> rw [he] at hb ⊢
      · exact readable_ascii hlt
      · intro rest
        have h := decodeRune_multi he rest
        rw [List.tail_cons] at h
        rw [GoRune.bytes_multi, List.cons_append, runes_cons, h]
      · simp [GoRune.isBad] at hb
    · exact ih hr

theorem runes_flatMap_append {rs : List GoRune} (h : ∀ r ∈ rs, r.Readable) (rest : Bytes) :
    runes (rs.flatMap GoRune.bytes ++ rest) = rs ++ runes rest := by
  induction rs with
  | nil => rfl
  | cons r rs ih =>
    rw [List.flatMap_cons, List.append_assoc, h r (by simp),
      ih fun r' hr' => h r' (by simp [hr']), List.cons_append]

/-! ## Coercion to valid UTF-8 -/

/-- A byte string that `DecodeRune` walks without a rejection. -/
def ValidUTF8 (s : Bytes) : Prop := ∀ r ∈ runes s, r.isBad = false

instance : DecidablePred ValidUTF8 := fun s =>
  decidable_of_iff ((runes s).all fun r => r.isBad = false) (by simp [ValidUTF8])

/-- What the decoder makes of a string's bytes: every rejected byte becomes U+FFFD
("Coerce to well-formed UTF-8" in `unquoteBytes`). -/
def coerceUTF8 (s : Bytes) : Bytes := (runes s).flatMap GoRune.coerce

/-- Only the empty string is made empty: a first rune writes at least one byte. -/
@[simp] theorem coerceUTF8_eq_nil {s : Bytes} : coerceUTF8 s = [] ↔ s = [] := by
  cases s with
  | nil => exact iff_of_true rfl rfl
  | cons b t =>
    rw [coerceUTF8, runes_cons, List.flatMap_cons]
    rcases decodeRune_fst_cases b t with ⟨he, -⟩ | ⟨bs, he⟩ | he <;> simp [he, GoRune.coerce]

theorem coerceUTF8_of_validUTF8 {s : Bytes} (h : ValidUTF8 s) : coerceUTF8 s = s := by
  conv_rhs => rw [← flatMap_bytes_runes s]
  exact List.flatMap_congr fun r hr => GoRune.coerce_of_not_isBad (h r hr)

end Synapse
