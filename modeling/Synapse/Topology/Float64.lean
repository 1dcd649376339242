import Mathlib.Algebra.Order.Field.Power
import Mathlib.Data.Rat.Floor
import Mathlib.Order.WithBot

/-!
# Go's `float64`

A `float64` as Go computes with it on amd64: IEEE 754 binary64 with rounding to nearest,
ties to even. A finite double is the rational it equals; every operation computes its exact
result and rounds it (`roundRat`), and a rounded result of magnitude `2 ^ 1024` or more is an
infinity. A nonzero finite value over zero is an infinity, zero over zero and infinity minus
infinity are NaN. Zero carries no sign here: no computation of this model divides by a zero
that could be negative, and `-0` and `+0` compare equal.

`roundRat q` is `q` scaled by a power of two, rounded to an integer and scaled back. The
power is the unit in the last place, `ulpExp`: fifty-two binary places below the leading
bit of `q`, and never below `2 ^ -1074`, which is where the subnormals end. Everything the
topology theorems need follows from four facts about it: it is monotone (`roundRat_mono`), it
is odd (`roundRat_neg`), it moves a value by at most a half unit in the last place
(`abs_roundRat_sub_le`), and it leaves an integer below `2 ^ 53` alone (`roundRat_intCast`).
`roundFrac` is the same rounding computed on a numerator and a denominator, so that a double
evaluates (`roundFrac_eq`).

## Main definitions

* `roundRat` — rounding of a rational to the nearest double, without an upper limit.
* `Float64` — a double: finite, an infinity, or NaN; `Float64.ofRat` rounds into it.
* `Float64.add`, `.neg`, `.mul`, `.div`, `.lt`, `.le`, `goMin`, `toInt64` — the operations
  the topology code uses (`x - y` is `x + -y`), `math.Min` and the conversion `int(x)`.
* `Float64.key` — Go's order on the doubles other than NaN, as a linear order.
-/

namespace Synapse.Topology

/-! ## Powers of two and the leading bit -/

/-- `⌊log₂ n⌋`, by halving at most `fuel` times. -/
def log2Fuel : Nat → Nat → Nat
  | 0, _ => 0
  | fuel + 1, n => if n < 2 then 0 else log2Fuel fuel (n / 2) + 1

theorem log2Fuel_eq : ∀ fuel n, n ≤ fuel → log2Fuel fuel n = n.log2
  | 0, n, h => by simp [log2Fuel, Nat.le_zero.mp h]
  | fuel + 1, n, h => by
    rw [log2Fuel, Nat.log2]
    by_cases hn : n < 2
    · rw [if_pos hn, if_neg (by omega)]
    · rw [if_neg hn, if_pos (by omega), log2Fuel_eq fuel (n / 2) (by omega)]

/-- Whether `2 ^ k ≤ a / b`, on naturals. -/
def pow2LeDiv (k : ℤ) (a b : ℕ) : Bool :=
  if 0 ≤ k then decide (2 ^ k.toNat * b ≤ a) else decide (b ≤ a * 2 ^ (-k).toNat)

theorem pow2LeDiv_iff {a b : ℕ} (hb : 0 < b) (k : ℤ) :
    pow2LeDiv k a b = true ↔ (2 : ℚ) ^ k ≤ a / b := by
  have hb' : (0 : ℚ) < b := by exact_mod_cast hb
  unfold pow2LeDiv
  split
  · rename_i hk
    obtain ⟨j, rfl⟩ := Int.eq_ofNat_of_zero_le hk
    rw [zpow_natCast, le_div_iff₀ hb', decide_eq_true_iff, Int.toNat_natCast]
    exact_mod_cast Iff.rfl
  · obtain ⟨j, rfl⟩ := Int.exists_eq_neg_ofNat (by omega : k ≤ 0)
    rw [zpow_neg, zpow_natCast, inv_eq_one_div, div_le_div_iff₀ (by positivity) hb', one_mul,
      decide_eq_true_iff, neg_neg, Int.toNat_natCast]
    exact_mod_cast Iff.rfl

/-- The exponent of the leading bit of `a / b` for positive naturals, computed on naturals:
`2 ^ binExpNat a b ≤ a / b < 2 ^ (binExpNat a b + 1)`. -/
def binExpNat (a b : ℕ) : ℤ :=
  let k : ℤ := (log2Fuel a a : ℤ) - log2Fuel b b
  if pow2LeDiv k a b then k else k - 1

theorem binExpNat_spec {a b : ℕ} (ha : 0 < a) (hb : 0 < b) :
    (2 : ℚ) ^ binExpNat a b ≤ a / b ∧ (a : ℚ) / b < 2 ^ (binExpNat a b + 1) := by
  have hb' : (0 : ℚ) < b := by exact_mod_cast hb
  have ha1 : ((2 : ℚ) ^ a.log2) ≤ a := by exact_mod_cast Nat.log2_self_le ha.ne'
  have ha2 : (a : ℚ) < 2 ^ (a.log2 + 1) := by exact_mod_cast Nat.lt_log2_self
  have hb1 : ((2 : ℚ) ^ b.log2) ≤ b := by exact_mod_cast Nat.log2_self_le hb.ne'
  have hb2 : (b : ℚ) < 2 ^ (b.log2 + 1) := by exact_mod_cast Nat.lt_log2_self
  have hsplit : ∀ i j : ℕ, (2 : ℚ) ^ ((i : ℤ) - j) = 2 ^ i / 2 ^ j := fun i j => by
    rw [zpow_sub₀ two_ne_zero, zpow_natCast, zpow_natCast]
  unfold binExpNat
  simp only [log2Fuel_eq _ _ le_rfl]
  split
  · rename_i hk
    refine ⟨(pow2LeDiv_iff hb _).mp hk, ?_⟩
    rw [show ((a.log2 : ℤ) - b.log2 + 1) = ((a.log2 + 1 : ℕ) : ℤ) - b.log2 by push_cast; ring,
      hsplit, div_lt_div_iff₀ hb' (by positivity)]
    calc (a : ℚ) * 2 ^ b.log2 ≤ a * b := mul_le_mul_of_nonneg_left hb1 (Nat.cast_nonneg _)
      _ < 2 ^ (a.log2 + 1) * b := mul_lt_mul_of_pos_right ha2 hb'
  · rename_i hk
    refine ⟨?_, by rw [sub_add_cancel]; exact lt_of_not_le (mt (pow2LeDiv_iff hb _).mpr hk)⟩
    rw [show ((a.log2 : ℤ) - b.log2 - 1) = (a.log2 : ℤ) - ((b.log2 + 1 : ℕ) : ℤ) by
      push_cast; ring, hsplit, div_le_div_iff₀ (by positivity) hb']
    calc (2 : ℚ) ^ a.log2 * b ≤ a * b := mul_le_mul_of_nonneg_right ha1 hb'.le
      _ ≤ a * 2 ^ (b.log2 + 1) := mul_le_mul_of_nonneg_left hb2.le (Nat.cast_nonneg _)

/-- The exponent of the leading bit of a positive rational. -/
def binExp (x : ℚ) : ℤ := binExpNat x.num.toNat x.den

theorem binExp_spec {x : ℚ} (hx : 0 < x) :
    (2 : ℚ) ^ binExp x ≤ x ∧ x < (2 : ℚ) ^ (binExp x + 1) := by
  have hn : 0 < x.num := Rat.num_pos.mpr hx
  have hx' : ((x.num.toNat : ℕ) : ℚ) / x.den = x := by
    rw [show ((x.num.toNat : ℕ) : ℚ) = x.num by exact_mod_cast Int.toNat_of_nonneg hn.le]
    exact Rat.num_div_den x
  have := binExpNat_spec (by omega : 0 < x.num.toNat) x.den_pos
  rwa [hx'] at this

/-- The leading-bit exponent is the only one whose binade holds `x`. -/
theorem binExp_unique {x : ℚ} {k : ℤ} (hx : 0 < x) (h1 : (2 : ℚ) ^ k ≤ x)
    (h2 : x < (2 : ℚ) ^ (k + 1)) : binExp x = k := by
  have hs := binExp_spec hx
  have := (zpow_lt_zpow_iff_right₀ one_lt_two).mp (h1.trans_lt hs.2)
  have := (zpow_lt_zpow_iff_right₀ one_lt_two).mp (hs.1.trans_lt h2)
  omega

theorem binExp_le {a b : ℚ} (ha : 0 < a) (hab : a ≤ b) : binExp a ≤ binExp b := by
  have h1 := (binExp_spec ha).1
  have h2 := (binExp_spec (ha.trans_le hab)).2
  have := (zpow_lt_zpow_iff_right₀ one_lt_two).mp (h1.trans_lt (hab.trans_lt h2))
  omega

/-! ## Rounding to an integer, ties to even -/

/-- The integer nearest to `x`; of two at the same distance, the even one. -/
def rne (x : ℚ) : ℤ :=
  if x - ⌊x⌋ < 1 / 2 then ⌊x⌋
  else if 1 / 2 < x - ⌊x⌋ then ⌊x⌋ + 1
  else if ⌊x⌋ % 2 = 0 then ⌊x⌋ else ⌊x⌋ + 1

theorem rne_eq_or (x : ℚ) : rne x = ⌊x⌋ ∨ rne x = ⌊x⌋ + 1 := by
  unfold rne; split_ifs <;> simp

theorem abs_rne_sub_le (x : ℚ) : |(rne x : ℚ) - x| ≤ 1 / 2 := by
  have h1 := Int.floor_le x
  have h2 := Int.lt_floor_add_one x
  unfold rne
  split_ifs <;> push_cast <;> rw [abs_le] <;> constructor <;> linarith

@[simp] theorem rne_intCast (z : ℤ) : rne z = z := by
  simp [rne]

theorem rne_mono {x y : ℚ} (h : x ≤ y) : rne x ≤ rne y := by
  have hf : ⌊x⌋ ≤ ⌊y⌋ := Int.floor_mono h
  rcases hf.lt_or_eq with hlt | heq
  · rcases rne_eq_or x with hx | hx <;> rcases rne_eq_or y with hy | hy <;> omega
  · unfold rne
    rw [heq]
    split_ifs <;> first | omega | (exfalso; linarith)

theorem rne_le_of_le {x : ℚ} {z : ℤ} (h : x ≤ z) : rne x ≤ z := (rne_mono h).trans_eq (rne_intCast z)

theorem le_rne_of_le {x : ℚ} {z : ℤ} (h : (z : ℚ) ≤ x) : z ≤ rne x := (rne_intCast z).symm.trans_le (rne_mono h)

/-! ## Rounding to the nearest double -/

/-- The exponent of the unit in the last place of a double near `a > 0`: fifty-two bits
below the leading one, and no lower than the subnormals' `2 ^ -1074`. -/
def ulpExp (a : ℚ) : ℤ := max (binExp a - 52) (-1074)

/-- A positive `a` rounded to a multiple of its unit in the last place, ties to even. -/
def roundPos (a : ℚ) : ℚ := (rne (a / 2 ^ ulpExp a) : ℚ) * 2 ^ ulpExp a

theorem roundPos_nonneg {a : ℚ} (ha : 0 ≤ a) : 0 ≤ roundPos a := by
  unfold roundPos
  have : (0 : ℤ) ≤ rne (a / 2 ^ ulpExp a) := le_rne_of_le (by push_cast; positivity)
  positivity

/-- **Rounding moves a positive value by at most half a unit in the last place**: at most
`2 ^ -53` of the value, or `2 ^ -1075` among the subnormals. -/
theorem abs_roundPos_sub_le {a : ℚ} (ha : 0 < a) : |roundPos a - a| ≤ a / 2 ^ 53 + 1 / 2 ^ 1075 := by
  have hpos : (0 : ℚ) < 2 ^ ulpExp a := zpow_pos two_pos _
  have hhalf : |roundPos a - a| ≤ 2 ^ ulpExp a / 2 := by
    have h := abs_rne_sub_le (a / 2 ^ ulpExp a)
    rw [show roundPos a - a = ((rne (a / 2 ^ ulpExp a) : ℚ) - a / 2 ^ ulpExp a) * 2 ^ ulpExp a by
      simp only [roundPos]; field_simp, abs_mul, abs_of_pos hpos]
    nlinarith
  refine hhalf.trans ?_
  have hk := (binExp_spec ha).1
  unfold ulpExp
  rcases le_total (binExp a - 52) (-1074) with h | h
  · rw [max_eq_right h, show (2 : ℚ) ^ (-1074 : ℤ) / 2 = 1 / 2 ^ 1075 by norm_num [zpow_neg]]
    have : (0 : ℚ) ≤ a / 2 ^ 53 := by positivity
    linarith
  · rw [max_eq_left h, zpow_sub₀ two_ne_zero]
    have : (2 : ℚ) ^ binExp a / 2 ^ (52 : ℤ) / 2 = 2 ^ binExp a / 2 ^ 53 := by norm_num; ring
    rw [this]
    have : (0 : ℚ) < 1 / 2 ^ 1075 := by positivity
    have : (2 : ℚ) ^ binExp a / 2 ^ 53 ≤ a / 2 ^ 53 := div_le_div_of_nonneg_right hk (by positivity)
    linarith

/-- A power of two at or above the unit in the last place is a whole number of units. -/
theorem two_zpow_div_eq_intCast {e k : ℤ} (h : e ≤ k) :
    (2 : ℚ) ^ k / 2 ^ e = ((2 ^ (k - e).toNat : ℤ) : ℚ) := by
  rw [← zpow_sub₀ two_ne_zero, ← Int.toNat_of_nonneg (sub_nonneg.mpr h), zpow_natCast]
  push_cast
  rfl

theorem ulpExp_mono {a b : ℚ} (ha : 0 < a) (hab : a ≤ b) : ulpExp a ≤ ulpExp b :=
  max_le_max (by linarith [binExp_le ha hab]) le_rfl

/-- **Rounding is monotone on the positive rationals.** Within one binade it is `rne` at one
scale; across binades the leading power of two of the larger value lies on both grids and
between the two results. -/
theorem roundPos_mono {a b : ℚ} (ha : 0 < a) (hab : a ≤ b) : roundPos a ≤ roundPos b := by
  have hb : 0 < b := ha.trans_le hab
  unfold roundPos
  rcases (ulpExp_mono ha hab).lt_or_eq with hlt | heq
  · have hkb : ulpExp b = binExp b - 52 := by unfold ulpExp at hlt ⊢; omega
    have hka : binExp a < binExp b := by
      by_contra hc
      have := ulpExp_mono hb (le_of_eq (rfl : b = b))
      unfold ulpExp at hlt; omega
    have haG : a ≤ 2 ^ binExp b := ((binExp_spec ha).2.trans_le
      (zpow_le_zpow_right₀ one_le_two (by omega))).le
    have hbG := (binExp_spec hb).1
    have hea : ulpExp a ≤ binExp b := by unfold ulpExp at hlt ⊢; omega
    have h2a : (0 : ℚ) ≤ 2 ^ ulpExp a := zpow_nonneg zero_le_two _
    have h2b : (0 : ℚ) < 2 ^ ulpExp b := zpow_pos two_pos _
    have hle : ulpExp b ≤ binExp b := by omega
    have hza := two_zpow_div_eq_intCast hea
    have hzb := two_zpow_div_eq_intCast hle
    have h1 : (rne (a / 2 ^ ulpExp a) : ℚ) ≤ 2 ^ binExp b / 2 ^ ulpExp a := by
      rw [hza]
      exact Int.cast_le.mpr (rne_le_of_le (hza ▸ div_le_div_of_nonneg_right haG h2a))
    have h2 : 2 ^ binExp b / 2 ^ ulpExp b ≤ (rne (b / 2 ^ ulpExp b) : ℚ) := by
      rw [hzb]
      exact Int.cast_le.mpr (le_rne_of_le (hzb ▸ div_le_div_of_nonneg_right hbG h2b.le))
    calc (rne (a / 2 ^ ulpExp a) : ℚ) * 2 ^ ulpExp a
        ≤ (2 ^ binExp b / 2 ^ ulpExp a) * 2 ^ ulpExp a := mul_le_mul_of_nonneg_right h1 h2a
      _ = 2 ^ binExp b / 2 ^ ulpExp b * 2 ^ ulpExp b := by
          rw [div_mul_cancel₀ _ (zpow_ne_zero _ two_ne_zero),
            div_mul_cancel₀ _ (zpow_ne_zero _ two_ne_zero)]
      _ ≤ (rne (b / 2 ^ ulpExp b) : ℚ) * 2 ^ ulpExp b := mul_le_mul_of_nonneg_right h2 h2b.le
  · rw [heq]
    have h2 : (0 : ℚ) ≤ 2 ^ ulpExp b := zpow_nonneg zero_le_two _
    have h1 : (rne (a / 2 ^ ulpExp b) : ℚ) ≤ rne (b / 2 ^ ulpExp b) := by
      exact_mod_cast rne_mono (div_le_div_of_nonneg_right hab h2)
    exact mul_le_mul_of_nonneg_right h1 h2

/-- A rational rounded to the nearest double, ties to even, with no upper limit on the
exponent. -/
def roundRat (q : ℚ) : ℚ :=
  if 0 < q then roundPos q else if q < 0 then -roundPos (-q) else 0

@[simp] theorem roundRat_zero : roundRat 0 = 0 := by simp [roundRat]

theorem roundRat_of_pos {q : ℚ} (h : 0 < q) : roundRat q = roundPos q := if_pos h

/-- Rounding is odd: ties to even treat both signs alike. -/
theorem roundRat_neg (q : ℚ) : roundRat (-q) = -roundRat q := by
  unfold roundRat
  rcases lt_trichotomy q 0 with h | rfl | h
  · rw [if_pos (neg_pos.mpr h), if_neg (not_lt.mpr h.le), if_pos h, neg_neg]
  · simp
  · rw [if_neg (by linarith), if_pos (neg_neg_iff_pos.mpr h), if_pos h, neg_neg]

theorem roundRat_nonneg {q : ℚ} (h : 0 ≤ q) : 0 ≤ roundRat q := by
  rcases h.lt_or_eq with h | rfl
  · rw [roundRat_of_pos h]; exact roundPos_nonneg h.le
  · simp

/-- **Rounding is monotone.** -/
theorem roundRat_mono {q r : ℚ} (h : q ≤ r) : roundRat q ≤ roundRat r := by
  rcases lt_or_le 0 q with hq | hq
  · rw [roundRat_of_pos hq, roundRat_of_pos (hq.trans_le h)]; exact roundPos_mono hq h
  rcases lt_or_le r 0 with hr | hr
  · have := roundPos_mono (neg_pos.mpr hr) (neg_le_neg h)
    rw [← neg_neg q, ← neg_neg r, roundRat_neg (-q), roundRat_neg (-r),
      roundRat_of_pos (neg_pos.mpr hr), roundRat_of_pos (by linarith : 0 < -q)]
    linarith
  · have := roundRat_nonneg hr
    have := roundRat_nonneg (neg_nonneg.mpr hq)
    rw [roundRat_neg] at this
    linarith

/-- **Rounding moves a value by at most half a unit in the last place.** -/
theorem abs_roundRat_sub_le (q : ℚ) : |roundRat q - q| ≤ |q| / 2 ^ 53 + 1 / 2 ^ 1075 := by
  rcases lt_trichotomy q 0 with h | rfl | h
  · have := abs_roundPos_sub_le (neg_pos.mpr h)
    rw [← neg_neg q, roundRat_neg, roundRat_of_pos (neg_pos.mpr h), abs_neg]
    rwa [show -roundPos (-q) - - -q = -(roundPos (-q) - -q) by ring, abs_neg, abs_of_pos (neg_pos.mpr h)]
  · simp
  · rw [roundRat_of_pos h, abs_of_pos h]; exact abs_roundPos_sub_le h

/-- An integer below `2 ^ 53` is a double. -/
theorem roundPos_intCast {n : ℤ} (h0 : 0 < n) (h : n < 2 ^ 53) : roundPos n = n := by
  have hn : (0 : ℚ) < n := by exact_mod_cast h0
  have hb : binExp (n : ℚ) < 53 := by
    have h1 := (binExp_spec hn).1
    by_contra hc
    have : (2 : ℚ) ^ (53 : ℤ) ≤ 2 ^ binExp (n : ℚ) := zpow_le_zpow_right₀ one_le_two (not_lt.mp hc)
    have : (n : ℚ) < 2 ^ (53 : ℤ) := by norm_num; exact_mod_cast h
    linarith
  obtain ⟨j, hj⟩ : ∃ j : ℕ, ulpExp n = -j := ⟨(-ulpExp n).toNat, by unfold ulpExp; omega⟩
  have hscale : (n : ℚ) / 2 ^ ulpExp (n : ℚ) = ((n * 2 ^ j : ℤ) : ℚ) := by
    rw [hj, zpow_neg, zpow_natCast, div_inv_eq_mul]; push_cast; rfl
  unfold roundPos
  rw [hscale, rne_intCast, hj, zpow_neg, zpow_natCast]
  push_cast
  field_simp

theorem roundRat_intCast {n : ℤ} (h : |n| < 2 ^ 53) : roundRat n = n := by
  rcases lt_trichotomy n 0 with hn | rfl | hn
  · rw [abs_of_neg hn] at h
    rw [show (n : ℚ) = -((-n : ℤ) : ℚ) by push_cast; ring, roundRat_neg,
      roundRat_of_pos (by exact_mod_cast neg_pos.mpr hn), roundPos_intCast (by omega) h]
  · simp
  · rw [abs_of_pos hn] at h
    rw [roundRat_of_pos (by exact_mod_cast hn), roundPos_intCast hn h]

@[simp] theorem roundRat_one : roundRat 1 = 1 := by exact_mod_cast roundRat_intCast (n := 1) (by norm_num)

theorem abs_roundRat_le_one {q : ℚ} (h : |q| ≤ 1) : |roundRat q| ≤ 1 := by
  have h1 := roundRat_mono (abs_le.mp h).2
  have h2 := roundRat_mono (abs_le.mp h).1
  rw [roundRat_neg, roundRat_one] at h2
  rw [roundRat_one] at h1
  exact abs_le.mpr ⟨h2, h1⟩

/-! ## Rounding on naturals

The same rounding, computed on numerators and denominators alone, so that it evaluates. -/

/-- `a / b` rounded to an integer, ties to even, for `b > 0`. -/
def rneNat (a b : ℕ) : ℕ :=
  if 2 * (a % b) < b then a / b
  else if b < 2 * (a % b) then a / b + 1
  else if a / b % 2 = 0 then a / b else a / b + 1

theorem rneNat_eq {a b : ℕ} (hb : 0 < b) : ((rneNat a b : ℕ) : ℤ) = rne ((a : ℚ) / b) := by
  have hb' : (0 : ℚ) < b := by exact_mod_cast hb
  have hfl : ⌊(a : ℚ) / b⌋ = ((a / b : ℕ) : ℤ) := by
    rw [Rat.floor_natCast_div_natCast]; rfl
  have hfr : (a : ℚ) / b - ((a / b : ℕ) : ℤ) = ((a % b : ℕ) : ℚ) / b := by
    have key : (a : ℚ) = b * ((a / b : ℕ) : ℚ) + ((a % b : ℕ) : ℚ) := by
      exact_mod_cast (Nat.div_add_mod a b).symm
    rw [Int.cast_natCast, key]
    field_simp
  have hlt : ((a % b : ℕ) : ℚ) / b < 1 / 2 ↔ 2 * (a % b) < b := by
    rw [div_lt_div_iff₀ hb' two_pos]; norm_cast; omega
  have hgt : 1 / 2 < ((a % b : ℕ) : ℚ) / b ↔ b < 2 * (a % b) := by
    rw [div_lt_div_iff₀ two_pos hb']; norm_cast; omega
  unfold rne rneNat
  rw [hfl, hfr]
  simp only [hlt, hgt]
  split_ifs <;> omega

/-- `a / b` rounded to the nearest double, for positive naturals. -/
def roundNat (a b : ℕ) : ℚ :=
  let e := max (binExpNat a b - 52) (-1074)
  if 0 ≤ e then Rat.divInt (rneNat a (b * 2 ^ e.toNat) * 2 ^ e.toNat : ℕ) 1
  else Rat.divInt (rneNat (a * 2 ^ (-e).toNat) b : ℕ) (2 ^ (-e).toNat : ℕ)

theorem roundNat_eq {a b : ℕ} (ha : 0 < a) (hb : 0 < b) : roundNat a b = roundPos (a / b) := by
  have hb' : (0 : ℚ) < b := by exact_mod_cast hb
  have hpos : (0 : ℚ) < a / b := div_pos (by exact_mod_cast ha) hb'
  have hexp : binExpNat a b = binExp (a / b) :=
    (binExp_unique hpos (binExpNat_spec ha hb).1 (binExpNat_spec ha hb).2).symm
  unfold roundNat roundPos ulpExp
  rw [hexp]
  dsimp only
  split
  · rename_i he
    obtain ⟨j, hj⟩ := Int.eq_ofNat_of_zero_le he
    rw [hj, Int.toNat_natCast, Rat.divInt_eq_div, zpow_natCast]
    have h : ((rneNat a (b * 2 ^ j) : ℕ) : ℚ) = rne ((a : ℚ) / (b * 2 ^ j)) := by
      exact_mod_cast rneNat_eq (a := a) (Nat.mul_pos hb (Nat.pos_pow_of_pos j two_pos))
    push_cast
    rw [div_one, div_div, h]
  · rename_i he
    obtain ⟨j, hj⟩ := Int.exists_eq_neg_ofNat (by omega : max (binExp (a / b) - 52) (-1074) ≤ 0)
    rw [hj, neg_neg, Int.toNat_natCast, Rat.divInt_eq_div, zpow_neg, zpow_natCast,
      div_inv_eq_mul]
    have h : ((rneNat (a * 2 ^ j) b : ℕ) : ℚ) = rne ((a : ℚ) * 2 ^ j / b) := by
      exact_mod_cast rneNat_eq (a := a * 2 ^ j) hb
    push_cast
    rw [h, div_mul_eq_mul_div, div_eq_mul_inv]

/-- A rational given as a fraction `n / d`, `d > 0`, rounded to the nearest double. -/
def roundFrac (n : ℤ) (d : ℕ) : ℚ :=
  if 0 < n then roundNat n.toNat d else if n < 0 then -roundNat (-n).toNat d else 0

theorem roundFrac_eq {n : ℤ} {d : ℕ} (hd : 0 < d) : roundFrac n d = roundRat (n / d) := by
  have hd' : (0 : ℚ) < d := by exact_mod_cast hd
  unfold roundFrac
  split
  · rename_i hn
    rw [roundNat_eq (by omega) hd, roundRat_of_pos (div_pos (by exact_mod_cast hn) hd')]
    congr 2
    exact_mod_cast Int.toNat_of_nonneg hn.le
  · split
    · rename_i _ hn
      rw [roundNat_eq (by omega) hd, show (n : ℚ) / d = -(((-n).toNat : ℕ) / d : ℚ) by
        rw [show (((-n).toNat : ℕ) : ℚ) = -n by exact_mod_cast Int.toNat_of_nonneg (by omega)]; ring,
        roundRat_neg, roundRat_of_pos (div_pos (by exact_mod_cast (by omega : 0 < (-n).toNat)) hd')]
    · rw [show n = 0 by omega]; simp

/-! ## Doubles -/

/-- A `float64`: a finite double, an infinity, or NaN. -/
inductive Float64 where
  | fin (q : ℚ)
  | posInf
  | negInf
  | nan
  deriving DecidableEq, Repr

namespace Float64

/-- `2 ^ 1024`, the first magnitude past the largest finite double once rounded, written out
so that it evaluates. -/
def overflow : ℚ :=
  179769313486231590772930519078902473361797697894230657273430081157732675805500963132708477322407536021120113879871393357658789768814416622492847430639474124377767893424865485276302219601246094119453082952085005768838150682342462881473913110540827237163350510684586298239947245938479716304835356329624224137216

theorem overflow_eq : overflow = 2 ^ 1024 := by norm_num [overflow]

/-- The double nearest to `n / d`, `d > 0`, computed on the fraction: an infinity once the
rounded magnitude reaches `2 ^ 1024`. -/
def ofFrac (n : ℤ) (d : ℕ) : Float64 :=
  if overflow ≤ roundFrac n d then posInf
  else if roundFrac n d ≤ -overflow then negInf
  else fin (roundFrac n d)

/-- The double nearest to `q`. -/
def ofRat (q : ℚ) : Float64 := ofFrac q.num q.den

/-- What `ofRat` is, in terms of `roundRat`. -/
theorem ofRat_def (q : ℚ) : ofRat q =
    if overflow ≤ roundRat q then posInf else if roundRat q ≤ -overflow then negInf
    else fin (roundRat q) := by
  rw [ofRat, ofFrac, roundFrac_eq q.den_pos, Rat.num_div_den]

theorem ofFrac_eq {n : ℤ} {d : ℕ} (hd : 0 < d) : ofFrac n d = ofRat (n / d) := by
  rw [ofRat_def, ofFrac, roundFrac_eq hd]

/-- Go's conversion `float64(n)` of an integer. -/
def ofInt (n : ℤ) : Float64 := ofFrac n 1

theorem ofInt_eq (n : ℤ) : ofInt n = ofRat n := by rw [ofInt, ofFrac_eq one_pos]; simp

instance : OfNat Float64 n := ⟨ofFrac n 1⟩

/-- A literal such as `0.3` is the double nearest to its decimal value. -/
instance : OfScientific Float64 where
  ofScientific m s e := if s then ofFrac m (10 ^ e) else ofFrac (m * 10 ^ e) 1

/-- An infinity of the given sign. -/
def inf (neg : Bool) : Float64 := if neg then negInf else posInf

/-- Whether a non-NaN value is below zero. -/
def signNeg : Float64 → Bool
  | fin q => decide (q < 0)
  | negInf => true
  | _ => false

/-- Go's `x + y`. -/
def add : Float64 → Float64 → Float64
  | nan, _ | _, nan => nan
  | posInf, negInf | negInf, posInf => nan
  | posInf, _ | _, posInf => posInf
  | negInf, _ | _, negInf => negInf
  | fin a, fin b => ofFrac (a.num * b.den + b.num * a.den) (a.den * b.den)

/-- Go's `-x`. -/
def neg : Float64 → Float64
  | fin a => fin (-a)
  | posInf => negInf
  | negInf => posInf
  | nan => nan

/-- Go's `x * y`: zero times an infinity is NaN. -/
def mul : Float64 → Float64 → Float64
  | nan, _ | _, nan => nan
  | fin a, fin b => ofFrac (a.num * b.num) (a.den * b.den)
  | fin a, y => if a = 0 then nan else inf (decide (a < 0) != y.signNeg)
  | x, fin b => if b = 0 then nan else inf (x.signNeg != decide (b < 0))
  | x, y => inf (x.signNeg != y.signNeg)

/-- Go's `x / y`: a nonzero finite value over zero is an infinity of its sign, zero over zero
and an infinity over an infinity are NaN, a finite value over an infinity is zero. -/
def div : Float64 → Float64 → Float64
  | nan, _ | _, nan => nan
  | fin a, fin b =>
    if b = 0 then (if a = 0 then nan else inf (decide (a < 0)))
    else ofFrac (a.num * b.den * b.num.sign) (a.den * b.num.natAbs)
  | fin _, _ => fin 0
  | x, fin b => inf (x.signNeg != decide (b < 0))
  | _, _ => nan

instance : Add Float64 := ⟨add⟩
instance : Neg Float64 := ⟨neg⟩
instance : Sub Float64 := ⟨fun x y => add x (neg y)⟩
instance : Mul Float64 := ⟨mul⟩
instance : Div Float64 := ⟨div⟩

/-- Go's `x < y`: false whenever one side is NaN. -/
def lt : Float64 → Float64 → Bool
  | fin a, fin b => decide (a < b)
  | negInf, fin _ | negInf, posInf | fin _, posInf => true
  | _, _ => false

/-- Go's `x <= y`: false whenever one side is NaN. -/
def le : Float64 → Float64 → Bool
  | fin a, fin b => decide (a ≤ b)
  | negInf, negInf | negInf, fin _ | negInf, posInf | fin _, posInf | posInf, posInf => true
  | _, _ => false

instance : LT Float64 := ⟨fun x y => x.lt y = true⟩
instance : LE Float64 := ⟨fun x y => x.le y = true⟩

instance (x y : Float64) : Decidable (x < y) := inferInstanceAs (Decidable (x.lt y = true))
instance (x y : Float64) : Decidable (x ≤ y) := inferInstanceAs (Decidable (x.le y = true))

/-! ### Each operation is the rounding of its exact result -/

theorem den_ne_zero' (a : ℚ) : (a.den : ℚ) ≠ 0 := by exact_mod_cast a.den_nz

theorem fin_add_fin (a b : ℚ) : fin a + fin b = ofRat (a + b) := by
  show add _ _ = _
  rw [add, ofFrac_eq (Nat.mul_pos a.den_pos b.den_pos)]
  congr 1
  conv_rhs => rw [← Rat.num_div_den a, ← Rat.num_div_den b]
  have := den_ne_zero' a
  have := den_ne_zero' b
  push_cast
  field_simp

theorem fin_mul_fin (a b : ℚ) : fin a * fin b = ofRat (a * b) := by
  show mul _ _ = _
  rw [mul, ofFrac_eq (Nat.mul_pos a.den_pos b.den_pos)]
  congr 1
  conv_rhs => rw [← Rat.num_div_den a, ← Rat.num_div_den b]
  push_cast
  rw [div_mul_div_comm]

theorem fin_div_fin (a : ℚ) {b : ℚ} (hb : b ≠ 0) : fin a / fin b = ofRat (a / b) := by
  show div _ _ = _
  have hnum : b.num ≠ 0 := Rat.num_ne_zero.mpr hb
  rw [div, if_neg hb, ofFrac_eq (Nat.mul_pos a.den_pos (Int.natAbs_pos.mpr hnum))]
  congr 1
  conv_rhs => rw [← Rat.num_div_den a, ← Rat.num_div_den b]
  have := den_ne_zero' a
  have := den_ne_zero' b
  have hnum' : (b.num : ℚ) ≠ 0 := by exact_mod_cast hnum
  push_cast
  rw [Nat.cast_natAbs, Int.cast_abs]
  rcases lt_or_gt_of_ne hnum with h | h
  · rw [Int.sign_eq_neg_one_of_neg h, abs_of_neg (by exact_mod_cast h)]
    field_simp
  · rw [Int.sign_eq_one_of_pos h, abs_of_pos (by exact_mod_cast h)]
    field_simp

/-- A rounded value below the overflow is finite. -/
theorem ofRat_of_lt {q : ℚ} (h1 : -overflow < roundRat q) (h2 : roundRat q < overflow) :
    ofRat q = fin (roundRat q) := by
  rw [ofRat_def, if_neg (not_le.mpr h2), if_neg (not_le.mpr h1)]

theorem ofRat_ne_nan (q : ℚ) : ofRat q ≠ nan := by
  rw [ofRat_def]; split_ifs <;> simp

/-! ### Order -/

@[simp] theorem lt_iff (x y : Float64) : x < y ↔ x.lt y = true := Iff.rfl
@[simp] theorem le_iff (x y : Float64) : x ≤ y ↔ x.le y = true := Iff.rfl

/-- The values `key` orders doubles by. -/
abbrev Key := WithBot (WithBot (WithTop ℚ))

/-- Go's order on the doubles other than NaN, as a linear order: `-Inf`, the finite values,
`+Inf`. NaN, which compares false with everything, is put below them all. -/
def key : Float64 → Key
  | fin q => ((q : WithTop ℚ) : WithBot (WithTop ℚ))
  | posInf => ((⊤ : WithTop ℚ) : WithBot (WithTop ℚ))
  | negInf => ((⊥ : WithBot (WithTop ℚ)) : Key)
  | nan => ⊥

theorem key_injective : Function.Injective key := by
  intro x y h
  cases x <;> cases y <;> simp_all [key]

theorem lt_iff_key_lt {x y : Float64} (hx : x ≠ nan) (hy : y ≠ nan) : x < y ↔ key x < key y := by
  cases x <;> cases y <;> simp_all [lt, key, WithBot.bot_lt_coe]
  all_goals first
    | exact WithBot.coe_lt_coe.mpr (WithBot.coe_lt_coe.mpr (WithTop.coe_lt_top _))
    | exact WithBot.coe_lt_coe.mpr (WithBot.bot_lt_coe _)

theorem le_iff_key_le {x y : Float64} (hx : x ≠ nan) (hy : y ≠ nan) : x ≤ y ↔ key x ≤ key y := by
  cases x <;> cases y <;> simp_all [le, key]

theorem le_of_not_lt' {x y : Float64} (hx : x ≠ nan) (hy : y ≠ nan) (h : ¬ x < y) : y ≤ x :=
  (le_iff_key_le hy hx).mpr (not_lt.mp ((lt_iff_key_lt hx hy).not.mp h))

theorem not_lt_of_le' {x y : Float64} (h : x ≤ y) : ¬ y < x := by
  cases x <;> cases y <;> simp_all [le, lt]

theorem not_lt_self (x : Float64) : ¬ x < x := by
  cases x <;> simp [lt]

@[simp] theorem ofNat_zero : (0 : Float64) = fin 0 := by decide

set_option maxRecDepth 2000 in
@[simp] theorem ofScientific_one : (1.0 : Float64) = fin 1 := by decide

theorem zero_le_iff {x : Float64} : 0 ≤ x ↔ x = posInf ∨ ∃ q, x = fin q ∧ 0 ≤ q := by
  cases x <;> simp [le]

theorem zero_le_ofRat {q : ℚ} (h : 0 ≤ q) : 0 ≤ ofRat q := by
  have hr := roundRat_nonneg h
  have ho : (0 : ℚ) < overflow := by rw [overflow_eq]; positivity
  rw [ofRat_def]
  split_ifs <;> simp [le] <;> linarith

theorem zero_le_add {x y : Float64} (hx : 0 ≤ x) (hy : 0 ≤ y) : 0 ≤ x + y := by
  rcases zero_le_iff.mp hx with rfl | ⟨a, rfl, ha⟩ <;>
    rcases zero_le_iff.mp hy with rfl | ⟨b, rfl, hb⟩
  all_goals first
    | exact zero_le_iff.mpr (.inl rfl)
    | (rw [fin_add_fin]; exact zero_le_ofRat (by linarith))

theorem exists_fin_of_pos {c : Float64} (hc : 0 < c) (hc' : c < posInf) : ∃ q, c = fin q ∧ 0 < q := by
  cases c <;> simp_all [lt]

theorem zero_le_mul {x c : Float64} (hx : 0 ≤ x) (hc : 0 < c) (hc' : c < posInf) : 0 ≤ x * c := by
  obtain ⟨c, rfl, hq⟩ := exists_fin_of_pos hc hc'
  rcases zero_le_iff.mp hx with rfl | ⟨a, rfl, ha⟩
  · show 0 ≤ mul _ _
    simp [mul, hq.ne', not_lt.mpr hq.le, signNeg, inf, le]
  · rw [fin_mul_fin]; exact zero_le_ofRat (by positivity)

theorem zero_le_div {x c : Float64} (hx : 0 ≤ x) (hc : 0 < c) (hc' : c < posInf) : 0 ≤ x / c := by
  obtain ⟨c, rfl, hq⟩ := exists_fin_of_pos hc hc'
  rcases zero_le_iff.mp hx with rfl | ⟨a, rfl, ha⟩
  · show 0 ≤ div _ _
    simp [div, not_lt.mpr hq.le, signNeg, inf, le]
  · rw [fin_div_fin _ hq.ne']; exact zero_le_ofRat (by positivity)

theorem div_ne_nan {x c : Float64} (hx : x ≠ nan) (hc : 0 < c) (hc' : c < posInf) : x / c ≠ nan := by
  obtain ⟨c, rfl, hq⟩ := exists_fin_of_pos hc hc'
  cases x with
  | fin a => rw [fin_div_fin _ hq.ne']; exact ofRat_ne_nan _
  | nan => exact absurd rfl hx
  | _ => show div _ _ ≠ nan; simp [div, inf]; split <;> simp

theorem ofRat_of_abs_le_one {q : ℚ} (h : |q| ≤ 1) : ofRat q = fin (roundRat q) := by
  have h1 := abs_le.mp (abs_roundRat_le_one h)
  have ho : (1 : ℚ) < overflow := by rw [overflow_eq]; norm_num
  exact ofRat_of_lt (by linarith) (by linarith)

theorem ofRat_mem_unit {q : ℚ} (h0 : 0 ≤ q) (h1 : q ≤ 1) : 0 ≤ ofRat q ∧ ofRat q ≤ fin 1 := by
  rw [ofRat_of_abs_le_one (abs_le.mpr ⟨by linarith, h1⟩)]
  have := roundRat_mono h1
  rw [roundRat_one] at this
  simp [le, roundRat_nonneg h0, this]

/-- One plus a non-negative value is at least one. -/
theorem one_le_one_add {x : Float64} (hx : 0 ≤ x) : fin 1 ≤ fin 1 + x := by
  rcases zero_le_iff.mp hx with rfl | ⟨a, rfl, ha⟩
  · rfl
  · have ho : (0 : ℚ) < overflow := by rw [overflow_eq]; positivity
    have := roundRat_mono (show (1 : ℚ) ≤ 1 + a by linarith)
    rw [roundRat_one] at this
    rw [fin_add_fin, ofRat_def]
    split_ifs <;> simp [le] <;> linarith

/-- One over a value of at least one lies in `[0, 1]`; over `+Inf` it is `0`. -/
theorem one_div_mem_unit {y : Float64} (hy : fin 1 ≤ y) : 0 ≤ fin 1 / y ∧ fin 1 / y ≤ fin 1 := by
  cases y with
  | fin b =>
    have hb : 1 ≤ b := by simpa [le] using hy
    rw [fin_div_fin _ (by linarith)]
    exact ofRat_mem_unit (by positivity) ((div_le_one (by linarith)).mpr hb)
  | posInf => exact ⟨by decide, by decide⟩
  | _ => simp [le] at hy

theorem zero_le_one_sub {m : Float64} (hm : m ≤ fin 1) : 0 ≤ fin 1 - m := by
  cases m with
  | fin b =>
    have hb : b ≤ 1 := by simpa [le] using hm
    show 0 ≤ add _ _
    rw [show add (fin 1) (neg (fin b)) = fin 1 + fin (-b) from rfl, fin_add_fin]
    exact zero_le_ofRat (by linarith)
  | negInf => decide
  | _ => simp [le] at hm

/-- A value within `[-1, 1]` is finite. -/
theorem exists_fin_of_mem_Icc {x : Float64} (h1 : fin (-1) ≤ x) (h2 : x ≤ fin 1) :
    ∃ a, x = fin a ∧ |a| ≤ 1 := by
  cases x <;> simp_all [le]
  exact abs_le.mpr ⟨h1, h2⟩

/-- The product of two values within `[-1, 1]` is within `[-1, 1]`. -/
theorem mul_mem_Icc {x y : Float64} (hx : fin (-1) ≤ x ∧ x ≤ fin 1) (hy : fin (-1) ≤ y ∧ y ≤ fin 1) :
    fin (-1) ≤ x * y ∧ x * y ≤ fin 1 := by
  obtain ⟨a, rfl, ha⟩ := exists_fin_of_mem_Icc hx.1 hx.2
  obtain ⟨b, rfl, hb⟩ := exists_fin_of_mem_Icc hy.1 hy.2
  have hab : |a * b| ≤ 1 := by rw [abs_mul]; exact mul_le_one₀ ha (abs_nonneg _) hb
  rw [fin_mul_fin, ofRat_of_abs_le_one hab]
  simpa [le] using abs_le.mp (abs_roundRat_le_one hab)

theorem add_ne_nan_of_mem_Icc {x y : Float64} (hx : fin (-1) ≤ x ∧ x ≤ fin 1)
    (hy : fin (-1) ≤ y ∧ y ≤ fin 1) : x + y ≠ nan := by
  obtain ⟨a, rfl, -⟩ := exists_fin_of_mem_Icc hx.1 hx.2
  obtain ⟨b, rfl, -⟩ := exists_fin_of_mem_Icc hy.1 hy.2
  rw [fin_add_fin]; exact ofRat_ne_nan _

end Float64

open Float64

/-- `math.Min(x, y)`: `-Inf` if either is, else NaN if either is, else the smaller. -/
def goMin (x y : Float64) : Float64 :=
  if x = negInf ∨ y = negInf then negInf
  else if x = nan ∨ y = nan then nan
  else if x < y then x else y

theorem goMin_one_mem_unit {x : Float64} (hx : 0 ≤ x) : 0 ≤ goMin x (fin 1) ∧ goMin x (fin 1) ≤ fin 1 := by
  rcases zero_le_iff.mp hx with rfl | ⟨a, rfl, ha⟩
  · decide
  · unfold goMin
    by_cases h : a < 1 <;> simp [lt, le, h, ha, le_of_lt]

theorem goMin_le_one {x : Float64} (hx : x ≠ nan) : goMin x (fin 1) ≤ fin 1 := by
  unfold goMin
  cases x with
  | fin a => by_cases h : a < 1 <;> simp [lt, le, h, le_of_lt]
  | nan => exact absurd rfl hx
  | _ => decide

/-- Go's `int(x)` on amd64 (`CVTTSD2SQ`): toward zero, and `math.MinInt64` for NaN, an
infinity or a value out of `int64`'s range. -/
def toInt64 : Float64 → ℤ
  | fin q =>
    let t := if 0 ≤ q then ⌊q⌋ else ⌈q⌉
    if -2 ^ 63 ≤ t ∧ t < 2 ^ 63 then t else -2 ^ 63
  | _ => -2 ^ 63

theorem toInt64_fin {y : ℚ} (h0 : 0 ≤ y) (h1 : y < 2 ^ 63) : toInt64 (fin y) = ⌊y⌋ := by
  have : ⌊y⌋ < 2 ^ 63 := Int.floor_lt.mpr (by exact_mod_cast h1)
  have : 0 ≤ ⌊y⌋ := Int.floor_nonneg.mpr h0
  simp only [toInt64, if_pos h0]
  rw [if_pos ⟨by omega, by omega⟩]

set_option maxRecDepth 10000 in
example : (0.1 : Float64) + 0.2 = .fin (Rat.divInt 5404319552844596 (2 ^ 54)) := by decide
example : (1 : Float64) / 0 = .posInf := by decide
example : toInt64 (.fin 10000000000000000000) = -2 ^ 63 := by decide

end Synapse.Topology
