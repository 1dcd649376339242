import Synapse.Json.Decode

/-!
# `time.Time` in JSON

`Time.MarshalJSON` writes RFC 3339 with trimmed nanoseconds (`appendStrictRFC3339`) and
fails for a year outside `[0,9999]` or a zone of 24 hours or more. `Time.UnmarshalJSON`
takes the bytes between the quotes as they are, escapes included, and reads them with
`parseRFC3339`, Go's fast path. Where the fast path fails Go falls back on
`time.Parse(RFC3339, …)`; that fallback is not modelled, so `unmarshalTime` rejects the
few texts only the fallback takes.
-/

namespace Synapse.Json

/-- Whether `year` is a leap year. -/
def isLeap (year : Int) : Bool := year % 4 == 0 && (year % 100 != 0 || year % 400 == 0)

/-- `daysIn`: the days of a month. -/
def daysIn (month : Nat) (year : Int) : Nat :=
  if month = 2 then (if isLeap year then 29 else 28)
  else if month = 4 ∨ month = 6 ∨ month = 9 ∨ month = 11 then 30 else 31

/-- A `time.Time` as the fields RFC 3339 writes: the date and clock in its zone, and
the zone's offset in seconds. A Go `Time` is always normalised; the fields say so. -/
structure Time where
  year : Int
  month : Nat
  day : Nat
  hour : Nat
  minute : Nat
  second : Nat
  nanosecond : Nat
  offset : Int
  month_mem : 1 ≤ month ∧ month ≤ 12
  day_mem : 1 ≤ day ∧ day ≤ daysIn month year
  hour_lt : hour < 24
  minute_lt : minute < 60
  second_lt : second < 60
  nanosecond_lt : nanosecond < 1000000000

/-- `appendInt(b, x, width)` for `0 ≤ x < 10 ^ width`: the decimal digits, zero-padded
to `width`. Every call below is in that range once `formatRFC3339`'s checks pass. -/
def padDigits : Nat → Nat → Bytes
  | 0, _ => []
  | w + 1, n => padDigits w (n / 10) ++ [(0x30 + n % 10).toUInt8]

/-- `appendNano` with `stdFracSecond9`: a dot and the nanoseconds with trailing zeros
trimmed, or nothing for zero. -/
def fracDigits (ns : Nat) : Bytes :=
  if ns = 0 then [] else 0x2E :: ((padDigits 9 ns).reverse.dropWhile (· == 0x30)).reverse

/-- The zone: `Z`, or the sign and the offset's hours and minutes. The seconds of an
offset are dropped, as `zone := offset / 60` drops them. -/
def zoneText (offset : Int) : Bytes :=
  let zone := offset.tdiv 60
  if offset = 0 then ascii "Z"
  else (if zone < 0 then 0x2D else 0x2B) ::
    padDigits 2 (zone.natAbs / 60) ++ 0x3A :: padDigits 2 (zone.natAbs % 60)

/-- The text of `appendStrictRFC3339`, and whether its checks pass. -/
def formatRFC3339 (t : Time) : Option Bytes :=
  if 0 ≤ t.year ∧ t.year ≤ 9999 ∧ (t.offset.tdiv 60).natAbs / 60 < 24 then
    some (padDigits 4 t.year.toNat ++ 0x2D :: padDigits 2 t.month ++ 0x2D :: padDigits 2 t.day ++
      0x54 :: padDigits 2 t.hour ++ 0x3A :: padDigits 2 t.minute ++ 0x3A ::
      padDigits 2 t.second ++ fracDigits t.nanosecond ++ zoneText t.offset)
  else none

/-- `Time.MarshalJSON`: the text in quotes. -/
def marshalTime (t : Time) : Option Bytes := (formatRFC3339 t).map fun b => 0x22 :: b ++ [0x22]

/-! ## Reading the text back -/

/-- The value of a run of decimal digits, `x = x*10 + int(c) - '0'` over the bytes. -/
def digitsValue (ds : Bytes) : Nat := ds.foldl (fun x c => x * 10 + (c.toNat - 0x30)) 0

/-- `parseUint` over a field of fixed width: its value when every byte is a digit and the
value lies in `[lo, hi]`. -/
def parseUint (s : Bytes) (lo hi : Nat) : Option Nat :=
  if s.all isDigit then
    let x := digitsValue s
    if lo ≤ x ∧ x ≤ hi then some x else none
  else none

/-- The value of a run of fraction digits, scaled to nanoseconds; digits past the
ninth are dropped, as `parseNanoseconds` drops them. -/
def fracValue (ds : Bytes) : Nat :=
  let ds := ds.take 9
  digitsValue ds * 10 ^ (9 - ds.length)

/-- The optional fraction after the seconds: a dot and at least one digit, read by
`parseNanoseconds`. The nanoseconds, and the bytes after the digits. -/
def parseFraction (r : Bytes) : Nat × Bytes :=
  match r with
  | 0x2E :: d :: t =>
    if isDigit d then (fracValue ((d :: t).takeWhile isDigit), (d :: t).dropWhile isDigit)
    else (0, r)
  | _ => (0, r)

/-- The zone offset in seconds: `Z` or `±hh:mm`. -/
def parseZone : Bytes → Option Int
  | [0x5A] => some 0
  | [sgn, h1, h2, 0x3A, m1, m2] =>
    match parseUint [h1, h2] 0 23, parseUint [m1, m2] 0 59 with
    | some hr, some mm =>
      if sgn = 0x2B then some ((hr * 60 + mm) * 60)
      else if sgn = 0x2D then some (-((hr * 60 + mm) * 60 : Int))
      else none
    | _, _ => none
  | _ => none

/-- The `Time` with these fields, when they are in range. -/
def Time.ofFields? (year : Int) (month day hour minute second nanosecond : Nat) (offset : Int) :
    Option Time :=
  if h : (1 ≤ month ∧ month ≤ 12) ∧ (1 ≤ day ∧ day ≤ daysIn month year) ∧ hour < 24 ∧
      minute < 60 ∧ second < 60 ∧ nanosecond < 1000000000 then
    some ⟨year, month, day, hour, minute, second, nanosecond, offset, h.1, h.2.1, h.2.2.1,
      h.2.2.2.1, h.2.2.2.2.1, h.2.2.2.2.2⟩
  else none

/-- `parseRFC3339`, the fast path of `parseStrictRFC3339`: fixed-width date and clock,
an optional fraction, then the zone. -/
def parseRFC3339 (s : Bytes) : Option Time :=
  if s.length < 19 then none else
  match parseUint (s.take 4) 0 9999, parseUint ((s.drop 5).take 2) 1 12 with
  | some year, some month =>
    match parseUint ((s.drop 8).take 2) 1 (daysIn month year),
      parseUint ((s.drop 11).take 2) 0 23, parseUint ((s.drop 14).take 2) 0 59,
      parseUint ((s.drop 17).take 2) 0 59 with
    | some day, some hour, some min, some sec =>
      if s.get? 4 = some 0x2D ∧ s.get? 7 = some 0x2D ∧ s.get? 10 = some 0x54 ∧
          s.get? 13 = some 0x3A ∧ s.get? 16 = some 0x3A then
        let (nsec, r) := parseFraction (s.drop 19)
        (parseZone r).bind (Time.ofFields? year month day hour min sec nsec)
      else none
    | _, _, _, _ => none
  | _, _ => none

/-- `Time.UnmarshalJSON` into `t`: `null` leaves `t` alone, a string is read from the bytes
between its quotes as they stand, and any other value is not a JSON string. -/
def unmarshalTime (t : Time) : Parsed → Option Time
  | .null => some t
  | .str raw => parseRFC3339 raw
  | _ => none

/-! ## Reading back what is written

`parseRFC3339` reads every text `formatRFC3339` writes: each fixed-width field back to
its value, the trimmed fraction to a value below a second, and the zone. -/

theorem digitsValue_append_singleton (l : Bytes) (c : UInt8) :
    digitsValue (l ++ [c]) = digitsValue l * 10 + (c.toNat - 0x30) := by
  simp [digitsValue, List.foldl_append]

theorem digitsValue_padDigits (w n : Nat) : digitsValue (padDigits w n) = n % 10 ^ w := by
  induction w generalizing n with
  | zero => simp [padDigits, digitsValue, Nat.mod_one]
  | succ w ih =>
    rw [padDigits, digitsValue_append_singleton, ih, toNat_digit (Nat.mod_lt _ (by decide)),
      Nat.pow_succ', Nat.mod_mul]
    omega

/-- Zeros after digits are each a factor of ten. -/
theorem digitsValue_append_zeros (l : Bytes) (z : Nat) :
    digitsValue (l ++ List.replicate z 0x30) = digitsValue l * 10 ^ z := by
  induction z with
  | zero => simp
  | succ z ih =>
    rw [List.replicate_succ', ← List.append_assoc, digitsValue_append_singleton, ih, Nat.pow_succ,
      show (0x30 : UInt8).toNat - 0x30 = 0 from rfl, Nat.add_zero, Nat.mul_assoc]

@[simp] theorem length_padDigits (w n : Nat) : (padDigits w n).length = w := by
  induction w generalizing n with
  | zero => rfl
  | succ w ih => simp [padDigits, ih]

theorem isDigit_of_mem_padDigits (w n : Nat) : ∀ b ∈ padDigits w n, isDigit b = true := by
  induction w generalizing n with
  | zero => simp [padDigits]
  | succ w ih =>
    simp only [padDigits, List.mem_append, List.mem_singleton]
    rintro b (hb | rfl)
    · exact ih _ b hb
    · exact isDigit_digit (Nat.mod_lt _ (by decide))

theorem parseUint_padDigits (w n lo hi : Nat) (h : n < 10 ^ w) (hlo : lo ≤ n) (hhi : n ≤ hi) :
    parseUint (padDigits w n) lo hi = some n := by
  rw [parseUint, if_pos (List.all_eq_true.mpr (isDigit_of_mem_padDigits w n))]
  simp only [digitsValue_padDigits, Nat.mod_eq_of_lt h]
  rw [if_pos ⟨hlo, hhi⟩]

theorem padDigits_two (n : Nat) :
    padDigits 2 n = [(0x30 + n / 10 % 10).toUInt8, (0x30 + n % 10).toUInt8] := by
  simp [padDigits]

theorem padDigits_four (n : Nat) : padDigits 4 n =
    [(0x30 + n / 10 / 10 / 10 % 10).toUInt8, (0x30 + n / 10 / 10 % 10).toUInt8,
      (0x30 + n / 10 % 10).toUInt8, (0x30 + n % 10).toUInt8] := by
  simp [padDigits]

/-- `parseZone` reads the zone `zoneText` writes, of fewer than 24 hours: the offset in
whole minutes. -/
theorem parseZone_zoneText {offset : Int} (h : (offset.tdiv 60).natAbs / 60 < 24) :
    parseZone (zoneText offset) = some (offset.tdiv 60 * 60) := by
  have hh := parseUint_padDigits 2 ((offset.tdiv 60).natAbs / 60) 0 23 (by omega) (Nat.zero_le _)
    (by omega)
  have hm := parseUint_padDigits 2 ((offset.tdiv 60).natAbs % 60) 0 59 (by omega) (Nat.zero_le _)
    (by omega)
  rw [padDigits_two] at hh hm
  unfold zoneText
  split
  · rename_i h0
    subst h0
    rfl
  · simp only [padDigits_two, List.cons_append, List.singleton_append, List.nil_append]
    simp only [parseZone, hh, hm]
    generalize offset.tdiv 60 = zone
    split
    · rename_i hneg
      have := Int.ofNat_natAbs_of_nonpos (Int.le_of_lt hneg)
      rw [if_neg (by decide), if_pos rfl]
      exact congrArg some (by omega)
    · rename_i hpos
      have := Int.natAbs_of_nonneg (Int.not_lt.mp hpos)
      rw [if_pos rfl]
      exact congrArg some (by omega)

/-- The digits `fracDigits` keeps after the dot, and the zeros it trims. -/
theorem padDigits_trim (ns : Nat) :
    padDigits 9 ns = ((padDigits 9 ns).reverse.dropWhile (· == 0x30)).reverse ++
      List.replicate ((padDigits 9 ns).reverse.takeWhile (· == 0x30)).length 0x30 := by
  have hT : (padDigits 9 ns).reverse.takeWhile (· == 0x30) =
      List.replicate ((padDigits 9 ns).reverse.takeWhile (· == 0x30)).length 0x30 :=
    List.eq_replicate_iff.mpr ⟨rfl, fun c hc => by simpa using List.mem_takeWhile_imp hc⟩
  conv_lhs => rw [← List.reverse_reverse (padDigits 9 ns),
    ← List.takeWhile_append_dropWhile (· == 0x30) (padDigits 9 ns).reverse, List.reverse_append, hT,
    List.reverse_replicate]

/-- **The fraction `appendNano` writes reads back to the nanoseconds**, and a zone after it
is left for `parseZone`. -/
theorem parseFraction_fracDigits {ns : Nat} (hns : ns < 10 ^ 9) {z : Bytes}
    (hz : ∀ b ∈ z.head?, b ≠ 0x2E ∧ isDigit b = false) :
    parseFraction (fracDigits ns ++ z) = (ns, z) := by
  unfold fracDigits
  split
  · rename_i h0
    subst h0
    cases z with
    | nil => rfl
    | cons b t =>
      have hb := (hz b rfl).1
      simp [parseFraction, hb]
  · rename_i h0
    generalize hD : ((padDigits 9 ns).reverse.dropWhile (· == 0x30)).reverse = D
    have htrim := padDigits_trim ns
    rw [hD] at htrim
    have hval : digitsValue D * 10 ^ (9 - D.length) = ns := by
      have hlen := congrArg List.length htrim
      have := congrArg digitsValue htrim
      rw [digitsValue_append_zeros, digitsValue_padDigits, Nat.mod_eq_of_lt hns] at this
      simp only [length_padDigits, List.length_append, List.length_replicate] at hlen
      rw [show 9 - D.length = ((padDigits 9 ns).reverse.takeWhile (· == 0x30)).length by omega]
      exact this.symm
    have hdig : ∀ b ∈ D, isDigit b = true := fun b hb =>
      isDigit_of_mem_padDigits 9 ns b (htrim ▸ List.mem_append_left _ hb)
    cases D with
    | nil => simp at hval; omega
    | cons d t =>
      have hd : isDigit d = true := hdig d (List.mem_cons_self d t)
      have hzd : z.takeWhile isDigit = [] ∧ z.dropWhile isDigit = z := by
        cases z with
        | nil => simp
        | cons b u =>
          have := (hz b rfl).2
          simp [this]
      have hlen : (d :: t).length ≤ 9 := by
        have := congrArg List.length htrim
        simp only [length_padDigits, List.length_append] at this
        omega
      simp only [List.cons_append, parseFraction, if_pos hd]
      rw [← List.cons_append, List.takeWhile_append_of_pos hdig, List.dropWhile_append_of_pos hdig,
        hzd.1, hzd.2, List.append_nil]
      simp only [fracValue, List.take_of_length_le hlen, hval]

theorem daysIn_le (month : Nat) (year : Int) : daysIn month year ≤ 31 := by
  unfold daysIn
  split_ifs <;> decide

/-- The zone starts with `Z` or a sign: no dot, no digit. -/
theorem zoneText_head (offset : Int) :
    ∀ b ∈ (zoneText offset).head?, b ≠ 0x2E ∧ isDigit b = false := by
  unfold zoneText
  split
  · decide
  · dsimp only
    split <;> simp only [List.cons_append, List.head?_cons, Option.mem_def, Option.some.injEq,
      forall_eq'] <;> decide

/-- **`parseRFC3339` reads back what `appendStrictRFC3339` writes**: the same date, clock
and nanoseconds, and the offset in whole minutes (`MarshalJSON` drops its seconds). -/
theorem parseRFC3339_formatRFC3339 {t : Time} {s : Bytes} (h : formatRFC3339 t = some s) :
    ∃ t', parseRFC3339 s = some t' ∧ t'.year = t.year ∧ t'.month = t.month ∧ t'.day = t.day ∧
      t'.hour = t.hour ∧ t'.minute = t.minute ∧ t'.second = t.second ∧
      t'.nanosecond = t.nanosecond ∧ t'.offset = t.offset.tdiv 60 * 60 := by
  unfold formatRFC3339 at h
  split at h
  · rename_i hc
    obtain ⟨hy0, hy1, hz⟩ := hc
    cases h
    have hyear : ((t.year.toNat : Nat) : Int) = t.year := Int.toNat_of_nonneg hy0
    have hY := parseUint_padDigits 4 t.year.toNat 0 9999 (by omega) (Nat.zero_le _) (by omega)
    have hM := parseUint_padDigits 2 t.month 1 12 (by have := t.month_mem; omega) t.month_mem.1
      t.month_mem.2
    have hD := parseUint_padDigits 2 t.day 1 (daysIn t.month t.year.toNat)
      (by have := t.day_mem; have := daysIn_le t.month t.year; omega) t.day_mem.1
      (by rw [hyear]; exact t.day_mem.2)
    have hh := parseUint_padDigits 2 t.hour 0 23 (by have := t.hour_lt; omega) (Nat.zero_le _)
      (by have := t.hour_lt; omega)
    have hmi := parseUint_padDigits 2 t.minute 0 59 (by have := t.minute_lt; omega) (Nat.zero_le _)
      (by have := t.minute_lt; omega)
    have hs := parseUint_padDigits 2 t.second 0 59 (by have := t.second_lt; omega) (Nat.zero_le _)
      (by have := t.second_lt; omega)
    rw [padDigits_four] at hY
    rw [padDigits_two] at hM hD hh hmi hs
    have hfrac := parseFraction_fracDigits t.nanosecond_lt (zoneText_head t.offset)
    simp only [padDigits_four, padDigits_two, List.cons_append, List.nil_append,
      List.singleton_append, List.append_assoc]
    unfold parseRFC3339
    simp only [List.length_cons, List.take_succ_cons, List.take_zero, List.drop_succ_cons,
      List.drop_zero, List.get?_cons_succ, List.get?_cons_zero, hY, hM, hD, hh, hmi, hs, hfrac,
      parseZone_zoneText hz]
    rw [if_neg (by omega), if_pos ⟨trivial, trivial, trivial, trivial, trivial⟩, Option.some_bind,
      Time.ofFields?, dif_pos ⟨t.month_mem, by rw [hyear]; exact t.day_mem, t.hour_lt, t.minute_lt,
        t.second_lt, t.nanosecond_lt⟩]
    exact ⟨_, rfl, hyear, rfl, rfl, rfl, rfl, rfl, rfl, rfl⟩
  · cases h

/-! ## The text is plain ASCII

Every byte `formatRFC3339` writes is a digit or one of `-T:.Z+`, all in `htmlSafeSet`: the
text goes between the quotes as it is. -/

theorem htmlSafe_digit : ∀ d < 10, htmlSafe (0x30 + d).toUInt8 = true := by decide

theorem htmlSafe_of_mem_padDigits (w n : Nat) : ∀ b ∈ padDigits w n, htmlSafe b = true := by
  induction w generalizing n with
  | zero => simp [padDigits]
  | succ w ih =>
    simp only [padDigits, List.forall_mem_append, List.forall_mem_cons, List.not_mem_nil,
      false_imp_iff, implies_true, and_true]
    exact ⟨ih _, htmlSafe_digit _ (Nat.mod_lt _ (by decide))⟩

theorem htmlSafe_of_mem_fracDigits (ns : Nat) : ∀ b ∈ fracDigits ns, htmlSafe b = true := by
  unfold fracDigits
  split
  · simp
  · rw [List.forall_mem_cons]
    refine ⟨rfl, fun b hb => htmlSafe_of_mem_padDigits 9 ns b ?_⟩
    rw [List.mem_reverse] at hb
    exact List.mem_reverse.mp ((List.dropWhile_sublist _).subset hb)

theorem htmlSafe_of_mem_zoneText (offset : Int) : ∀ b ∈ zoneText offset, htmlSafe b = true := by
  unfold zoneText
  split
  · decide
  · dsimp only
    rw [List.cons_append, List.forall_mem_cons, List.forall_mem_append, List.forall_mem_cons]
    exact ⟨by split <;> rfl, htmlSafe_of_mem_padDigits _ _, rfl, htmlSafe_of_mem_padDigits _ _⟩

theorem htmlSafe_of_mem_formatRFC3339 {t : Time} {s : Bytes} (h : formatRFC3339 t = some s) :
    ∀ b ∈ s, htmlSafe b = true := by
  unfold formatRFC3339 at h
  split at h
  · cases h
    simp only [List.forall_mem_append, List.forall_mem_cons, and_assoc]
    have hp := htmlSafe_of_mem_padDigits
    exact ⟨hp _ _, rfl, hp _ _, rfl, hp _ _, rfl, hp _ _, rfl, hp _ _, rfl, hp _ _,
      htmlSafe_of_mem_fracDigits _, htmlSafe_of_mem_zoneText _⟩
  · cases h

end Synapse.Json
