import Mathlib.Tactic.NormNum
import Synapse.Topology.Manager

/-!
# Reputation updates (`reputation.go`)

Each update of `ReputationSystem` reads the peer's entry with `GetPeerInfo`, computes the
new reputation, and writes it with `UpdatePeerReputation`: two calls, each atomic under the
manager's lock, with nothing held between them except `rs.mu`, which the performance and
reliability updates take and the behaviour update and the decay do not. A goroutine running
an update is a phase: not started, or the reputation it read, or done. Taking `rs.mu` and
reading are one step, and so are writing and releasing it: no other goroutine sees the
difference. The updates' arithmetic is exact here, over rational arguments; each update
clamps its result to `[-1, 1]` after its last operation.
-/

namespace Synapse.Topology

/-- A value kept within `[-1, 1]`, as the updates clamp it. -/
def clampUnit (x : ℚ) : ℚ := if x < -1 then -1 else if x > 1 then 1 else x

/-- `UpdateReputationBasedOnBehavior`'s new reputation over `current`: the score clamped,
then 70% of the old value and 30% of the score, clamped. -/
def behaviorReputation (current behaviorScore : ℚ) : ℚ :=
  clampUnit (current * (7 / 10) + clampUnit behaviorScore * (3 / 10))

/-- The score `UpdateReputationBasedOnPerformance` passes on: the success rate, raised by a
fifth under 100 ms and lowered by a fifth over a second, scaled to `[-1, 1]`. -/
def performanceScore (successRate : ℚ) (responseTime : Int) : ℚ :=
  let s := if responseTime < 100 * 10 ^ 6 then successRate * (6 / 5)
    else if responseTime > 10 ^ 9 then successRate * (4 / 5) else successRate
  clampUnit (s * 2 - 1)

/-- The score `UpdateReputationBasedOnReliability` passes on. -/
def reliabilityScore (uptimeRatio messageDeliveryRate : ℚ) : ℚ :=
  clampUnit ((uptimeRatio * (3 / 5) + messageDeliveryRate * (2 / 5)) * 2 - 1)

/-- An update of `ReputationSystem`. -/
inductive Update where
  | behavior (behaviorScore : ℚ)
  | performance (successRate : ℚ) (responseTime : Int)
  | reliability (uptimeRatio messageDeliveryRate : ℚ)
  | decay (decayRate : ℚ)

namespace Update

/-- Whether the update holds `rs.mu`. -/
def locks : Update → Bool
  | .performance .. | .reliability .. => true
  | .behavior _ | .decay _ => false

/-- The reputation the update writes over the one it read. -/
def newReputation : Update → ℚ → ℚ
  | .behavior b, r => behaviorReputation r b
  | .performance s t, r => behaviorReputation r (performanceScore s t)
  | .reliability u d, r => behaviorReputation r (reliabilityScore u d)
  | .decay d, r => clampUnit (r * (1 - d))

end Update

/-- Where a goroutine running an update stands. -/
inductive UpdatePhase where
  | start
  /-- `GetPeerInfo` returned this entry's reputation, or no entry. -/
  | read (r : Option ℚ)
  | done

/-- Goroutines updating one peer's reputation on a manager. -/
structure RepSys where
  manager : Manager
  peerID : Bytes
  /-- The goroutine holding `rs.mu`. -/
  rsMu : Option Nat
  goroutines : List (Update × UpdatePhase)

namespace RepSys

/-- The reputation of the peer in the manager. -/
def reputation (s : RepSys) : Option ℚ := (s.manager.getPeerInfo s.peerID).map (·.reputation)

/-- Goroutine `g` takes its next step, if it can. -/
def step (s : RepSys) (g : Nat) : Option RepSys :=
  match s.goroutines.get? g with
  | some (u, .start) =>
    if u.locks ∧ s.rsMu.isSome then none
    else
      some { s with
        rsMu := if u.locks then some g else s.rsMu,
        goroutines := s.goroutines.set g (u, .read s.reputation) }
  | some (u, .read r) =>
    some { s with
      manager := match r with
        | some r => s.manager.updatePeerReputation s.peerID (u.newReputation r)
        | none => s.manager,
      rsMu := if u.locks then none else s.rsMu,
      goroutines := s.goroutines.set g (u, .done) }
  | _ => none

/-- The goroutines take steps in the order `sched`; `none` if one of them cannot. -/
def run : RepSys → List Nat → Option RepSys
  | s, [] => some s
  | s, g :: gs => (s.step g).bind (run · gs)

end RepSys

@[simp] theorem getPeerInfo_updatePeerReputation (m : Manager) (id : Bytes) (r : ℚ) :
    (m.updatePeerReputation id r).getPeerInfo id =
      (m.getPeerInfo id).map fun info => { info with reputation := r } :=
  Manager.lookup_modifyPeer_self _ _ _

variable (m : Manager) (id : Bytes) (u1 u2 : Update) {info : PeerInfo}

/-- Run one after the other, in either order, two updates compose. -/
theorem run_sequential (hm : m.getPeerInfo id = some info) :
    ((RepSys.mk m id none [(u1, .start), (u2, .start)]).run [0, 0, 1, 1]).bind RepSys.reputation =
      some (u2.newReputation (u1.newReputation info.reputation)) ∧
    ((RepSys.mk m id none [(u1, .start), (u2, .start)]).run [1, 1, 0, 0]).bind RepSys.reputation =
      some (u1.newReputation (u2.newReputation info.reputation)) := by
  cases h1 : u1.locks <;> cases h2 : u2.locks <;>
    simp only [RepSys.run, RepSys.step, List.get?_cons_zero, List.get?_cons_succ,
      List.set_cons_zero, List.set_cons_succ, h1, h2, Option.isSome_none, Option.isSome_some,
      Bool.false_eq_true, and_false, and_self, and_true, ↓reduceIte, RepSys.reputation, hm,
      Option.map_some', Option.bind_some, Option.some_bind, getPeerInfo_updatePeerReputation]

/-- When both updates read before either writes, and they do not both hold `rs.mu`, the
second write is computed from the reputation both read: the first update is lost. -/
theorem run_interleaved (hm : m.getPeerInfo id = some info) (hl : ¬(u1.locks ∧ u2.locks)) :
    ((RepSys.mk m id none [(u1, .start), (u2, .start)]).run [0, 1, 0, 1]).bind RepSys.reputation =
      some (u2.newReputation info.reputation) := by
  cases h1 : u1.locks <;> cases h2 : u2.locks
  case true.true => exact absurd ⟨h1, h2⟩ hl
  all_goals simp only [RepSys.run, RepSys.step, List.get?_cons_zero, List.get?_cons_succ,
    List.set_cons_zero, List.set_cons_succ, h1, h2, Option.isSome_none, Option.isSome_some,
    Bool.false_eq_true, and_false, and_self, and_true, ↓reduceIte, RepSys.reputation, hm,
    Option.map_some', Option.bind_some, Option.some_bind, getPeerInfo_updatePeerReputation]

/-- A peer of reputation zero, a behaviour update of score one and a decay by half. -/
def lostUpdateStart : RepSys :=
  ⟨(Manager.new 50).addPeer ⟨ascii "P", ascii "10.0.0.2:9000", ascii "1.0.0", 0⟩ 0, ascii "P", none,
    [(.behavior 1, .start), (.decay (1 / 2), .start)]⟩

/-- Run one after the other, the two updates leave `3/20` or `3/10`; when both read before
either writes, the decay writes over the behaviour update and leaves `0`. -/
theorem reputation_update_lost :
    (lostUpdateStart.run [0, 0, 1, 1]).bind RepSys.reputation = some (3 / 20) ∧
    (lostUpdateStart.run [1, 1, 0, 0]).bind RepSys.reputation = some (3 / 10) ∧
    (lostUpdateStart.run [0, 1, 0, 1]).bind RepSys.reputation = some 0 := by
  have hm : ((Manager.new 50).addPeer ⟨ascii "P", ascii "10.0.0.2:9000", ascii "1.0.0", 0⟩ 0).getPeerInfo
      (ascii "P") = some ⟨ascii "P", ascii "10.0.0.2:9000", Manager.defaultQuality 0, 0, true, 0, 0⟩ := by
    simp [Manager.getPeerInfo, Manager.addPeer]
  rw [lostUpdateStart, (run_sequential _ _ _ _ hm).1, (run_sequential _ _ _ _ hm).2,
    run_interleaved _ _ _ _ hm (by simp [Update.locks])]
  norm_num [Update.newReputation, behaviorReputation, clampUnit]

end Synapse.Topology