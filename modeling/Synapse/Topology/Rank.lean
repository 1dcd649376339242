import Mathlib.Data.Rat.Floor
import Synapse.Topology.Invariants

/-!
# Peer ranks (`GetPeerRank`, `DecayReputation`)

`GetPeerRank` maps a peer's reputation `r` to `int((r + 1.0) * 5)`, clamped to `[1, 10]`; a
peer the manager does not know ranks 1. The sum and the product are `float64` operations,
each rounded to the nearest double, and `int(x)` truncates toward zero, or gives
`math.MinInt64` on amd64 when `x` is out of `int64`'s range or infinite. A reputation far
outside `[-1, 1]` therefore ranks 1 even when it is large. `DecayReputation`, run alone, reads
the reputation and writes back `r * (1 - decayRate)` clamped to `[-1, 1]`.

On `[-1, 1]`, the range the `ReputationSystem` keeps, the computed `(r + 1.0) * 5`
(`rankValue`) lies in `[0, 10]` and within `2 ^ -48` of `(r + 1) * 5`; so the rank is the floor of
`5r + 5`, at least 1, give or take one, and exactly that when `5r + 5` is not within `2 ^ -48`
of an integer. Rounding is monotone, so on `[-1, 1]` a higher reputation never ranks lower, and
a decay at a rate in `[0, 1]`, which moves the reputation toward 0 without crossing it, moves
the rank toward the neutral rank 5, the rank of reputation 0, and never past it.
-/

namespace Synapse.Topology

open Float64 (ofRat)

/-- The rank `GetPeerRank` gives a known peer of reputation `r`. -/
def rankOf (r : ℚ) : Int :=
  let rank := toInt64 ((ofRat r + 1.0) * 5)
  if rank < 1 then 1 else if rank > 10 then 10 else rank

namespace Manager

/-- `GetPeerRank(peerID)` on `rs.manager`. -/
def getPeerRank (t : Manager) (peerID : Bytes) : Int :=
  match t.getPeerInfo peerID with
  | none => 1
  | some info => rankOf info.reputation

/-- `DecayReputation(peerID, decayRate)` on `rs.manager`, with no other call between its
`GetPeerInfo` and its `UpdatePeerReputation`. -/
def decayReputation (t : Manager) (peerID : Bytes) (decayRate : ℚ) : Manager :=
  match t.getPeerInfo peerID with
  | none => t
  | some info =>
    t.updatePeerReputation peerID ((Update.decay decayRate).newReputation info.reputation)

end Manager

/-! ## The computed rank -/

/-- `(r + 1.0) * 5` as Go computes it for a reputation within `[-1, 1]`: `r` read as a double,
then each operation rounded. -/
def rankValue (r : ℚ) : ℚ := roundRat (roundRat (roundRat r + 1) * 5)

theorem rankValue_mono {r r' : ℚ} (h : r ≤ r') : rankValue r ≤ rankValue r' :=
  roundRat_mono (mul_le_mul_of_nonneg_right (roundRat_mono (by linarith [roundRat_mono h])) (by norm_num))

theorem roundRat_natCast {n : ℕ} (h : n < 2 ^ 53) : roundRat n = n := by
  exact_mod_cast roundRat_intCast (n := n) (by rw [abs_of_nonneg (by positivity)]; exact_mod_cast h)

/-- The sum `r + 1.0` of a reputation in `[-1, 1]` lies in `[0, 2]`. -/
theorem roundRat_add_one_mem {r : ℚ} (h : |r| ≤ 1) :
    0 ≤ roundRat (roundRat r + 1) ∧ roundRat (roundRat r + 1) ≤ 2 := by
  have hr := abs_le.mp (abs_roundRat_le_one h)
  have h2 := roundRat_mono (show roundRat r + 1 ≤ ((2 : ℕ) : ℚ) by push_cast; linarith)
  rw [roundRat_natCast (by norm_num)] at h2
  exact ⟨roundRat_nonneg (by linarith), by exact_mod_cast h2⟩

theorem rankValue_mem {r : ℚ} (h : |r| ≤ 1) : 0 ≤ rankValue r ∧ rankValue r ≤ 10 := by
  have hs := roundRat_add_one_mem h
  have h10 := roundRat_mono (show roundRat (roundRat r + 1) * 5 ≤ ((10 : ℕ) : ℚ) by push_cast; linarith)
  rw [roundRat_natCast (by norm_num)] at h10
  exact ⟨roundRat_nonneg (by linarith), by exact_mod_cast h10⟩

theorem rankValue_zero : rankValue 0 = 5 := by
  have h1 : roundRat ((1 : ℕ) : ℚ) = 1 := by rw [roundRat_natCast (by norm_num)]; norm_num
  have h5 : roundRat ((5 : ℕ) : ℚ) = 5 := by rw [roundRat_natCast (by norm_num)]; norm_num
  rw [rankValue, roundRat_zero, zero_add]
  push_cast at h1 h5
  rw [h1, one_mul, h5]

/-- For a reputation in `[-1, 1]` Go's `(r + 1.0) * 5` is the finite double `rankValue r`. -/
theorem rank_float_eq {r : ℚ} (h : |r| ≤ 1) : (ofRat r + 1.0) * 5 = .fin (rankValue r) := by
  have hs := roundRat_add_one_mem h
  have hv := rankValue_mem h
  have ho : (10 : ℚ) < Float64.overflow := by rw [Float64.overflow_eq]; norm_num
  have h5 : (5 : Float64) = .fin 5 := by decide
  rw [Float64.ofRat_of_abs_le_one h, Float64.ofScientific_one, Float64.fin_add_fin,
    Float64.ofRat_of_lt (by linarith) (by linarith), h5, Float64.fin_mul_fin,
    Float64.ofRat_of_lt (by unfold rankValue at hv; linarith) (by unfold rankValue at hv; linarith)]
  rfl

/-- On `[-1, 1]` the rank is the floor of the computed `(r + 1.0) * 5`, at least 1. -/
theorem rankOf_eq_floor {r : ℚ} (h : |r| ≤ 1) : rankOf r = max 1 ⌊rankValue r⌋ := by
  have hv := rankValue_mem h
  have hle : ⌊rankValue r⌋ ≤ 10 := Int.floor_le_iff.mpr (by push_cast; linarith)
  unfold rankOf
  rw [rank_float_eq h, toInt64_fin hv.1 (by linarith)]
  dsimp only
  split_ifs <;> omega

/-- **Go's `(r + 1.0) * 5` is within `2 ^ -48` of `(r + 1) * 5`** for `r` in `[-1, 1]`: three
roundings, each at most half a unit in the last place of a value of at most 1, 2 and 10. -/
theorem abs_rankValue_sub_lt {r : ℚ} (h : |r| ≤ 1) : |rankValue r - (r + 1) * 5| < 1 / 2 ^ 48 := by
  have hr1 := abs_le.mp (abs_roundRat_le_one h)
  have hs := roundRat_add_one_mem h
  have e1 := abs_le.mp (abs_roundRat_sub_le r)
  have e2 := abs_le.mp (abs_roundRat_sub_le (roundRat r + 1))
  have e3 := abs_le.mp (abs_roundRat_sub_le (roundRat (roundRat r + 1) * 5))
  rw [abs_of_nonneg (by linarith)] at e2
  rw [abs_of_nonneg (by linarith)] at e3
  unfold rankValue
  rw [abs_lt]
  constructor <;> linarith

/-- Within less than one of `x`, the floor moves by at most one. -/
theorem abs_floor_sub_floor_le {v x : ℚ} (h : |v - x| < 1) : |⌊v⌋ - ⌊x⌋| ≤ 1 := by
  have h' := abs_lt.mp h
  have h1 : ⌊v⌋ ≤ ⌊x⌋ + 1 := Int.floor_le_iff.mpr (by push_cast; linarith [Int.lt_floor_add_one x])
  have h2 : ⌊x⌋ ≤ ⌊v⌋ + 1 := Int.floor_le_iff.mpr (by push_cast; linarith [Int.lt_floor_add_one v])
  rw [abs_le]; constructor <;> omega

/-- Within `ε` of an `x` that is at least `ε` from every integer, the floor is `x`'s. -/
theorem floor_eq_of_abs_sub_lt {v x ε : ℚ} (h : |v - x| < ε) (hx : ∀ z : ℤ, ε ≤ |x - z|) :
    ⌊v⌋ = ⌊x⌋ := by
  have h' := abs_lt.mp h
  have hlo := hx ⌊x⌋
  have hhi := hx (⌊x⌋ + 1)
  rw [abs_of_nonneg (sub_nonneg.mpr (Int.floor_le x))] at hlo
  rw [abs_of_neg (by push_cast; linarith [Int.lt_floor_add_one x])] at hhi
  push_cast at hhi
  exact Int.floor_eq_iff.mpr ⟨by linarith, by linarith⟩

/-- On `[-1, 1]` a higher reputation never ranks lower. -/
theorem rankOf_mono {r r' : ℚ} (hr : |r| ≤ 1) (hr' : |r'| ≤ 1) (h : r ≤ r') : rankOf r ≤ rankOf r' := by
  have := Int.floor_mono (rankValue_mono h)
  rw [rankOf_eq_floor hr, rankOf_eq_floor hr']
  omega

theorem rankOf_zero : rankOf 0 = 5 := by
  rw [rankOf_eq_floor (by norm_num), rankValue_zero]
  norm_num

/-! ## Decay -/

/-- A decay at a rate in `[0, 1]` leaves the reputation between its old value and 0. -/
theorem decay_between (r : ℚ) {d : ℚ} (h0 : 0 ≤ d) (h1 : d ≤ 1) :
    min r 0 ≤ (Update.decay d).newReputation r ∧ (Update.decay d).newReputation r ≤ max r 0 := by
  have hd : 0 ≤ 1 - d ∧ 1 - d ≤ 1 := ⟨by linarith, by linarith⟩
  simp only [Update.newReputation, clampUnit]
  rcases le_total 0 r with hr | hr
  · have : 0 ≤ r * (1 - d) := mul_nonneg hr hd.1
    have : r * (1 - d) ≤ r := mul_le_of_le_one_right hr hd.2
    rw [min_eq_right hr, max_eq_left hr]
    split_ifs <;> constructor <;> linarith
  · have : r * (1 - d) ≤ 0 := mul_nonpos_of_nonpos_of_nonneg hr hd.1
    have : r * 1 ≤ r * (1 - d) := mul_le_mul_of_nonpos_left hd.2 hr
    rw [min_eq_left hr, max_eq_right hr]
    split_ifs <;> constructor <;> linarith

namespace Manager

variable (t : Manager) (peerID : Bytes)

/-- **For a peer whose reputation lies in `[-1, 1]`, `GetPeerRank` is the floor of `5r + 5`, at
least 1, give or take one**: between 1 and 10, and exactly that floor unless `5r + 5` lies within
`2 ^ -48` of an integer, where Go's rounding can move it across. -/
theorem getPeerRank_of_mem {info : PeerInfo} (h : t.getPeerInfo peerID = some info)
    (hr : -1 ≤ info.reputation ∧ info.reputation ≤ 1) :
    1 ≤ t.getPeerRank peerID ∧ t.getPeerRank peerID ≤ 10 ∧
      |t.getPeerRank peerID - max 1 ⌊(info.reputation + 1) * 5⌋| ≤ 1 ∧
      ((∀ z : ℤ, 1 / 2 ^ 48 ≤ |(info.reputation + 1) * 5 - z|) →
        t.getPeerRank peerID = max 1 ⌊(info.reputation + 1) * 5⌋) := by
  have habs := abs_le.mpr hr
  have hrank : t.getPeerRank peerID = max 1 ⌊rankValue info.reputation⌋ := by
    simp only [getPeerRank, h]
    exact rankOf_eq_floor habs
  have hv := rankValue_mem habs
  have hle : ⌊rankValue info.reputation⌋ ≤ 10 := Int.floor_le_iff.mpr (by push_cast; linarith)
  have hclose := abs_rankValue_sub_lt habs
  have hfloor := abs_floor_sub_floor_le (hclose.trans (by norm_num))
  rw [abs_le] at hfloor
  refine ⟨by omega, by omega, ?_, fun hx => ?_⟩
  · rw [hrank, abs_le]; constructor <;> omega
  · rw [hrank, floor_eq_of_abs_sub_lt hclose hx]

theorem getPeerRank_of_mem_new_peer :
    ∃ info, ((Manager.new 50).addPeer peerP 0).getPeerInfo peerP.id = some info ∧
      (-1 ≤ info.reputation ∧ info.reputation ≤ 1) ∧
      1 ≤ ((Manager.new 50).addPeer peerP 0).getPeerRank peerP.id ∧
      ((Manager.new 50).addPeer peerP 0).getPeerRank peerP.id ≤ 10 ∧
      |((Manager.new 50).addPeer peerP 0).getPeerRank peerP.id - max 1 ⌊(info.reputation + 1) * 5⌋| ≤ 1 ∧
      ((∀ z : ℤ, 1 / 2 ^ 48 ≤ |(info.reputation + 1) * 5 - z|) →
        ((Manager.new 50).addPeer peerP 0).getPeerRank peerP.id = max 1 ⌊(info.reputation + 1) * 5⌋) :=
  ⟨_, rfl, by decide, getPeerRank_of_mem _ _ rfl (by decide)⟩

end Manager

end Synapse.Topology
