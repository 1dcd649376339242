import Mathlib.Algebra.Order.AbsoluteValue
import Synapse.Crypto.Handshake

/-!
# How fresh a verified handshake is

`VerifyHandshakeMessage` rejects a message when `currentTime-msg.Timestamp > 300` or
`msg.Timestamp-currentTime > 300`, both subtractions in `int64`. When the true difference
`now - T` leaves `int64`, the two wrap around together: a difference of `2^63` wraps to
`-2^63` both ways, and one within five minutes of `2^64` wraps to a small one. So besides the
timestamps within five minutes of `now`, the check accepts those, and a peer that signs its
own message can pick one.
-/

namespace Synapse.Crypto

/-- **What the timestamp check accepts**, for an `int64` time `now ≥ 0` and an `int64`
timestamp `T`: a difference within five minutes, or one of exactly `2^63`, or one within five
minutes of `2^64`. -/
theorem timestamp_check_iff {now T : Int} (hnow : 0 ≤ now ∧ now < 2 ^ 63)
    (hT : -2 ^ 63 ≤ T ∧ T < 2 ^ 63) :
    ¬(int64Sub now T > 300 ∨ int64Sub T now > 300) ↔
      (|now - T| ≤ 300 ∨ now - T = 2 ^ 63 ∨ |now - T - 2 ^ 64| ≤ 300) := by
  rw [abs_le, abs_le]
  unfold int64Sub
  omega

/-- On the first second of 2024, a handshake message signed `2^63` seconds earlier crosses
the wire and passes `VerifyHandshakeMessage`. -/
theorem handshake_accepts_timestamp_2_pow_63_old :
    verifyHandshakeMessage Primitives.ideal 1704067200
        (HandshakeManager.createHandshakeMessage Primitives.ideal ⟨7, ascii "A"⟩
          (1704067200 - 2 ^ 63) []).received = .ok () ∧
      300 < |(1704067200 : Int) - (1704067200 - 2 ^ 63)| := by
  have hcheck := (@timestamp_check_iff 1704067200 (1704067200 - 2 ^ 63)
    ⟨by omega, by omega⟩ ⟨by omega, by omega⟩).mpr (.inr (.inl (by omega)))
  refine ⟨?_, by rw [lt_abs]; omega⟩
  rw [verifyHandshakeMessage_received _ _ (by decide), if_neg hcheck]

end Synapse.Crypto
