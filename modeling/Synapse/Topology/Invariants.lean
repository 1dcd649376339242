import Mathlib.Tactic.Linarith
import Synapse.Topology.Ranking
import Synapse.Topology.Reputation

/-!
# What every run of the manager keeps

The manager's calls, one after another and from any state: `AddPeer`, `RemovePeer`, the
three updates of a known peer, and the `UpdatePeerReputation` with which a
`ReputationSystem` update ends. That last write is made from the reputation the update read,
at any point before it when updates interleave (`RepSys.manager_step`). Every call but
`RemovePeer` writes one entry, so a property of single entries holds after a run when the
write of each call keeps it (`AllPeers.run`).

Two such properties are asked of the manager: a reputation within `[-1, 1]`, and a quality
whose score is defined and within `[0, 1]`. The `ReputationSystem` keeps the first, as it
clamps every value it writes. The manager checks neither: `UpdatePeerReputation` and
`UpdatePeerQuality` store the values they are given.
-/

namespace Synapse.Topology

/-- A call on the manager. -/
inductive ManagerOp where
  | addPeer (p : Peer) (now : Int)
  | removePeer (id : Bytes)
  | updatePeerQuality (id : Bytes) (quality : ConnectionQuality) (now : Int)
  | updatePeerReputation (id : Bytes) (reputation : ℚ)
  | updatePeerLoad (id : Bytes) (load : Int)
  /-- The `UpdatePeerReputation` that ends the update `u` of the `ReputationSystem` on peer
  `id`, whose `GetPeerInfo` read the reputation `current`. -/
  | reputation (u : Update) (id : Bytes) (current : ℚ)

namespace ManagerOp

/-- The manager after the call. -/
def apply : ManagerOp → Manager → Manager
  | .addPeer p now, t => t.addPeer p now
  | .removePeer id, t => t.removePeer id
  | .updatePeerQuality id q now, t => t.updatePeerQuality id q now
  | .updatePeerReputation id r, t => t.updatePeerReputation id r
  | .updatePeerLoad id load, t => t.updatePeerLoad id load
  | .reputation u id current, t => t.updatePeerReputation id (u.newReputation current)

/-- The entry the call writes satisfies `P` whenever the one it replaces does. -/
def Keeps (P : PeerInfo → Prop) : ManagerOp → Prop
  | .addPeer p now => P ⟨p.id, p.address, Manager.defaultQuality now, now, true, 0, 0⟩
  | .removePeer _ => True
  | .updatePeerQuality _ q now => ∀ info, P info → P { info with quality := q, lastSeen := now }
  | .updatePeerReputation _ r => ∀ info, P info → P { info with reputation := r }
  | .updatePeerLoad _ load => ∀ info, P info → P { info with load := load }
  | .reputation u _ current => ∀ info, P info → P { info with reputation := u.newReputation current }

end ManagerOp

/-- The manager after the calls, in order. -/
def Manager.run (t : Manager) (ops : List ManagerOp) : Manager :=
  ops.foldl (fun t op => op.apply t) t

/-- Every stored entry satisfies `P`. -/
def AllPeers (P : PeerInfo → Prop) (t : Manager) : Prop :=
  ∀ id info, t.peers.lookup id = some info → P info

/-! ## A property of entries over a run -/

section AllPeers

variable {P : PeerInfo → Prop} {t : Manager}

theorem allPeers_new (maxPeers : Int) : AllPeers P (Manager.new maxPeers) := by
  intro id info hl
  simp [Manager.new] at hl

theorem AllPeers.modifyPeer (h : AllPeers P t) {f : PeerInfo → PeerInfo}
    (hf : ∀ info, P info → P (f info)) (id : Bytes) : AllPeers P (t.modifyPeer id f) := by
  intro id' info hl
  by_cases he : id' = id
  · subst he
    rw [Manager.lookup_modifyPeer_self] at hl
    obtain ⟨i, hi, rfl⟩ := Option.map_eq_some'.mp hl
    exact hf i (h _ _ hi)
  · rw [Manager.lookup_modifyPeer_ne _ _ he] at hl
    exact h _ _ hl

/-- **A call keeps a property of entries that its write keeps.** -/
theorem AllPeers.apply (h : AllPeers P t) {op : ManagerOp} (hop : op.Keeps P) :
    AllPeers P (op.apply t) := by
  cases op with
  | addPeer p now =>
    intro id info hl
    by_cases he : id = p.id
    · subst he
      simp only [ManagerOp.apply, Manager.addPeer, AList.lookup_insert, Option.some.injEq] at hl
      exact hl ▸ hop
    · simp only [ManagerOp.apply, Manager.addPeer, AList.lookup_insert_ne he] at hl
      exact h _ _ hl
  | removePeer id =>
    intro id' info hl
    by_cases he : id' = id
    · subst he
      simp only [ManagerOp.apply, Manager.removePeer, AList.lookup_erase, reduceCtorEq] at hl
    · simp only [ManagerOp.apply, Manager.removePeer, AList.lookup_erase_ne he] at hl
      exact h _ _ hl
  | updatePeerQuality id _ _ => exact h.modifyPeer hop id
  | updatePeerReputation id _ => exact h.modifyPeer hop id
  | updatePeerLoad id _ => exact h.modifyPeer hop id
  | reputation _ id _ => exact h.modifyPeer hop id

/-- **A run keeps a property of entries that the write of each of its calls keeps.** -/
theorem AllPeers.run (h : AllPeers P t) {ops : List ManagerOp} (hops : ∀ op ∈ ops, op.Keeps P) :
    AllPeers P (t.run ops) := by
  induction ops generalizing t with
  | nil => exact h
  | cons op ops ih =>
    exact ih (h.apply (hops op (List.mem_cons_self _ _))) fun o ho => hops o (List.mem_cons_of_mem _ ho)

end AllPeers

/-- A peer added at time zero. -/
def peerP : Peer := ⟨ascii "P", ascii "10.0.0.2:9000", ascii "1.0.0", 0⟩

/-! ## Reputations -/

/-- A reputation within `[-1, 1]`. -/
def ReputationInRange (info : PeerInfo) : Prop := -1 ≤ info.reputation ∧ info.reputation ≤ 1

theorem clampUnit_mem (x : ℚ) : -1 ≤ clampUnit x ∧ clampUnit x ≤ 1 := by
  unfold clampUnit
  split_ifs <;> constructor <;> linarith

/-- Every `ReputationSystem` update writes a value within `[-1, 1]`, whatever it read. -/
theorem Update.newReputation_mem (u : Update) (r : ℚ) :
    -1 ≤ u.newReputation r ∧ u.newReputation r ≤ 1 := by
  cases u <;> exact clampUnit_mem _

theorem keeps_reputationInRange {op : ManagerOp}
    (h : ∀ id r, op = .updatePeerReputation id r → -1 ≤ r ∧ r ≤ 1) :
    op.Keeps ReputationInRange := by
  cases op with
  | addPeer => exact ⟨by norm_num, by norm_num⟩
  | removePeer => trivial
  | updatePeerQuality => exact fun _ hi => hi
  | updatePeerReputation id r => exact fun _ _ => h id r rfl
  | updatePeerLoad => exact fun _ hi => hi
  | reputation u _ current => exact fun _ _ => u.newReputation_mem current

/-- **Every stored reputation lies in `[-1, 1]`** after any run from `NewManager` whose direct
calls of `UpdatePeerReputation` pass values in `[-1, 1]`, with the `ReputationSystem`'s
writes interleaved in it in any way. -/
theorem reputation_in_range_of_updates_in_range (maxPeers : Int) (ops : List ManagerOp)
    (hops : ∀ id r, ManagerOp.updatePeerReputation id r ∈ ops → -1 ≤ r ∧ r ≤ 1) :
    ∀ id info, ((Manager.new maxPeers).run ops).peers.lookup id = some info →
      -1 ≤ info.reputation ∧ info.reputation ≤ 1 :=
  (allPeers_new maxPeers).run fun _ hop => keeps_reputationInRange fun id r he => hops id r (he ▸ hop)

/-- A direct `UpdatePeerReputation` stores `2`. -/
theorem direct_update_stores_reputation_two :
    ∃ info, ((Manager.new 50).run [.addPeer peerP 0, .updatePeerReputation (ascii "P") 2]).getPeerInfo
      (ascii "P") = some info ∧ info.reputation = 2 :=
  ⟨_, rfl, rfl⟩

/-- The manager's changes in a run of the `ReputationSystem`'s goroutines are calls of the
manager: a write made from the reputation read. -/
theorem RepSys.manager_step {s s' : RepSys} {g : Nat} (h : s.step g = some s') :
    s'.manager = s.manager ∨ ∃ u r, s'.manager = (ManagerOp.reputation u s.peerID r).apply s.manager := by
  unfold RepSys.step at h
  split at h
  · split at h <;> cases h
    exact .inl rfl
  · cases h
    rename_i u r _
    cases r with
    | none => exact .inl rfl
    | some r => exact .inr ⟨u, r, rfl⟩
  · cases h

/-- However the `ReputationSystem`'s updates interleave, they keep every reputation in
`[-1, 1]`. -/
theorem RepSys.reputationInRange_run {s s' : RepSys} {gs : List Nat} (h : s.run gs = some s')
    (hs : AllPeers ReputationInRange s.manager) : AllPeers ReputationInRange s'.manager := by
  induction gs generalizing s with
  | nil => cases h; exact hs
  | cons g gs ih =>
    obtain ⟨s₁, h₁, h⟩ := Option.bind_eq_some.mp h
    refine ih h ?_
    rcases RepSys.manager_step h₁ with he | ⟨u, r, he⟩ <;> rw [he]
    · exact hs
    · exact hs.apply fun _ _ => u.newReputation_mem r

/-! ## Quality scores -/

/-- The quality scores within `[0, 1]`. -/
def QualityScoreInUnit (q : ConnectionQuality) : Prop :=
  0 ≤ calculateQualityScore q ∧ calculateQualityScore q ≤ .fin 1

/-- A quality of no negative latency, bandwidth or jitter scores within `[0, 1]`. -/
theorem qualityScoreInUnit_of_nonneg {q : ConnectionQuality} (hl : 0 ≤ q.latency)
    (hb : 0 ≤ q.bandwidth) (hj : 0 ≤ q.jitter) : QualityScoreInUnit q :=
  calculateQualityScore_mem_unit hl hb hj

/-- After any run from `NewManager` whose `UpdatePeerQuality` calls store no negative
latency, bandwidth or jitter, every stored quality scores within `[0, 1]`. -/
theorem qualityScoreInUnit_run (maxPeers : Int) (ops : List ManagerOp)
    (hops : ∀ id q now, ManagerOp.updatePeerQuality id q now ∈ ops →
      0 ≤ q.latency ∧ 0 ≤ q.bandwidth ∧ 0 ≤ q.jitter) :
    AllPeers (fun info => QualityScoreInUnit info.quality) ((Manager.new maxPeers).run ops) := by
  refine (allPeers_new maxPeers).run fun op hop => ?_
  cases op with
  | addPeer _ now =>
    show QualityScoreInUnit (Manager.defaultQuality now)
    exact qualityScoreInUnit_of_nonneg (by norm_num [Manager.defaultQuality])
      (by norm_num [Manager.defaultQuality]) (by norm_num [Manager.defaultQuality])
  | removePeer => trivial
  | updatePeerQuality id q now =>
    obtain ⟨hl, hb, hj⟩ := hops id q now hop
    exact fun _ _ => qualityScoreInUnit_of_nonneg hl hb hj
  | updatePeerReputation | updatePeerLoad | reputation => exact fun _ hi => hi

/-- After any run from `NewManager` whose `UpdatePeerQuality` calls store no negative latency,
bandwidth or jitter and whose direct `UpdatePeerReputation` calls pass values in `[-1, 1]`, no
score is NaN: `GetBestPeers` then ranks by a strict weak order. -/
theorem scoresNotNaN_run (maxPeers : Int) (ops : List ManagerOp)
    (hq : ∀ id q now, ManagerOp.updatePeerQuality id q now ∈ ops →
      0 ≤ q.latency ∧ 0 ≤ q.bandwidth ∧ 0 ≤ q.jitter)
    (hr : ∀ id r, ManagerOp.updatePeerReputation id r ∈ ops → -1 ≤ r ∧ r ≤ 1) :
    ((Manager.new maxPeers).run ops).ScoresNotNaN := by
  intro id hid
  obtain ⟨info, hl⟩ := Option.isSome_iff_exists.mp (AList.lookup_isSome.mpr (AList.mem_keys.mp hid))
  simpa [Manager.scoreOf, hl] using PeerInfo.score_ne_nan (qualityScoreInUnit_run maxPeers ops hq id info hl)
    (reputation_in_range_of_updates_in_range maxPeers ops hr id info hl)

set_option maxRecDepth 20000 in
/-- `UpdatePeerQuality` stores a negative bandwidth, which scores below zero, and a latency
of minus one second, which makes a denominator zero. -/
theorem stored_quality_score_leaves_unit_interval :
    (∃ info, ((Manager.new 50).run [.addPeer peerP 0,
        .updatePeerQuality (ascii "P") ⟨10 ^ 9, -1000, 0, 10 ^ 7, 0⟩ 0]).getPeerInfo (ascii "P") =
          some info ∧ calculateQualityScore info.quality < 0) ∧
    (∃ info, ((Manager.new 50).run [.addPeer peerP 0,
        .updatePeerQuality (ascii "P") ⟨-10 ^ 9, 1, 0, 10 ^ 7, 0⟩ 0]).getPeerInfo (ascii "P") =
          some info ∧ 1 + (info.quality.latency : ℚ) / 10 ^ 9 = 0) :=
  ⟨⟨_, rfl, by decide⟩, ⟨_, rfl, by norm_num⟩⟩

end Synapse.Topology
