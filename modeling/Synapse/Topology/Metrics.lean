import Mathlib.Algebra.Order.BigOperators.Group.List
import Synapse.Topology.Invariants

/-!
# The network metrics (`GetNetworkMetrics`)

`GetNetworkMetrics` walks the peer map once, in the order `range` enumerates it. It counts the
connected peers, adds every latency into a `time.Duration` and every bandwidth into a `float64`,
then divides the latency sum by the number of peers and the bandwidth sum by the number of
connected peers. A `time.Duration` is an `int64`: the running sum wraps modulo `2^64` at each
addition, which is the exact sum wrapped once (`foldl_step`), and the division truncates
toward zero. So the report does not depend on the enumeration (`getNetworkMetrics_eq`).

A run of the manager stores connected peers only: `AddPeer` marks a peer connected and no call
unmarks it. The bandwidth is therefore the mean over the connected peers (`avgBandwidth_run`).
The latency is the floor of the mean, between the smallest and the largest latency, while the
sum of the latencies stays below `2^63` nanoseconds (`avgLatency_of_sum_lt`); past that the
sum wraps, and two peers of `2^62` nanoseconds each average to `-2^62`.
-/

namespace Synapse.Topology

/-! ## `time.Duration` arithmetic -/

/-- An integer reduced to `int64`, as a Go addition of two `int64`s leaves it. -/
def wrapInt64 (x : Int) : Int := (x + 2 ^ 63) % 2 ^ 64 - 2 ^ 63

theorem wrapInt64_add (x y : Int) : wrapInt64 (wrapInt64 x + y) = wrapInt64 (x + y) := by
  unfold wrapInt64; omega

theorem wrapInt64_of_lt {x : Int} (h1 : -2 ^ 63 ≤ x) (h2 : x < 2 ^ 63) : wrapInt64 x = x := by
  unfold wrapInt64; omega

/-! ## The call -/

/-- What `GetNetworkMetrics` returns, one field per key of its map. -/
structure NetworkMetrics where
  /-- `"total_peers"` -/
  totalPeers : Nat
  /-- `"connected_peers"` -/
  connectedPeers : Nat
  /-- `"topology_type"` -/
  topologyType : Bytes
  /-- `"avg_latency"` -/
  avgLatency : Int
  /-- `"avg_bandwidth"` -/
  avgBandwidth : ℚ
  /-- `"max_peers"` -/
  maxPeers : Int
  deriving DecidableEq

/-- The loop's accumulators: `connectedPeers`, `avgLatency` (the latency sum until the
division) and `totalBandwidth`. -/
structure MetricsAcc where
  connectedPeers : Nat
  avgLatency : Int
  totalBandwidth : ℚ

/-- One turn of the loop, on one peer's entry. -/
def MetricsAcc.step (a : MetricsAcc) (info : PeerInfo) : MetricsAcc :=
  ⟨if info.connected then a.connectedPeers + 1 else a.connectedPeers,
    wrapInt64 (a.avgLatency + info.quality.latency), a.totalBandwidth + info.quality.bandwidth⟩

/-- `GetNetworkMetrics`, with the map enumerated in the order `E`. -/
def Manager.getNetworkMetrics (t : Manager) (E : Enumeration t.peers) : NetworkMetrics :=
  let totalPeers := t.peers.keys.length
  let acc := E.order.foldl (fun (a : MetricsAcc) e => a.step e.2) ⟨0, 0, 0⟩
  let avgLatency := if 0 < totalPeers then acc.avgLatency.tdiv totalPeers else acc.avgLatency
  let avgBandwidth :=
    if 0 < acc.connectedPeers then acc.totalBandwidth / acc.connectedPeers else 0
  ⟨totalPeers, acc.connectedPeers, t.getTopologyType, avgLatency, avgBandwidth, t.maxPeers⟩

/-- The latencies of the stored peers. -/
def Manager.latencies (t : Manager) : List Int := t.peers.entries.map fun e => e.2.quality.latency

/-- The bandwidths of the connected peers. -/
def Manager.connectedBandwidths (t : Manager) : List ℚ :=
  (t.peers.entries.filter fun e => e.2.connected).map fun e => e.2.quality.bandwidth

/-- The loop from any accumulator whose latency sum is an `int64`: the count of connected
peers, the exact latency sum wrapped once, and the exact bandwidth sum. -/
theorem foldl_step (l : List (Σ _ : Bytes, PeerInfo)) (c : Nat) (x : Int) (w : ℚ) :
    l.foldl (fun (a : MetricsAcc) e => a.step e.2) ⟨c, wrapInt64 x, w⟩ =
      ⟨c + l.countP (fun e => e.2.connected),
        wrapInt64 (x + (l.map fun e => e.2.quality.latency).sum),
        w + (l.map fun e => e.2.quality.bandwidth).sum⟩ := by
  induction l generalizing c x w with
  | nil => simp
  | cons e l ih =>
    rw [List.foldl_cons, MetricsAcc.step, wrapInt64_add, ih]
    cases h : e.2.connected <;> simp [List.countP_cons, h, add_assoc, add_comm 1]

/-- **The report, whatever order the map is walked in**: the latency sum wrapped to `int64`
and divided toward zero by the number of peers, and the sum of every peer's bandwidth
divided by the number of connected peers. -/
theorem getNetworkMetrics_eq (t : Manager) (E : Enumeration t.peers) :
    t.getNetworkMetrics E =
      ⟨t.peers.keys.length, t.peers.entries.countP (fun e => e.2.connected), t.getTopologyType,
        if 0 < t.peers.keys.length then (wrapInt64 t.latencies.sum).tdiv t.peers.keys.length
          else wrapInt64 t.latencies.sum,
        if 0 < t.peers.entries.countP (fun e => e.2.connected) then
          (t.peers.entries.map fun e => e.2.quality.bandwidth).sum /
            t.peers.entries.countP (fun e => e.2.connected)
          else 0,
        t.maxPeers⟩ := by
  have h0 : (⟨0, 0, 0⟩ : MetricsAcc) = ⟨0, wrapInt64 0, 0⟩ := by
    rw [show wrapInt64 0 = 0 by decide]
  rw [Manager.getNetworkMetrics, h0, foldl_step, E.perm.countP_eq, (E.perm.map _).sum_eq,
    (E.perm.map _).sum_eq, Manager.latencies]
  simp only [zero_add]

/-! ## The mean of the latencies -/

section Mean

variable {l : List Int}

/-- Some element lies at or below the floor of the mean. -/
theorem exists_le_sum_div (hl : l ≠ []) : ∃ x ∈ l, x ≤ l.sum / l.length := by
  have hn : (0 : Int) < l.length := by simpa [List.length_pos] using hl
  by_contra h
  push_neg at h
  have hle := l.card_nsmul_le_sum (l.sum / l.length + 1) fun x hx => h x hx
  have hlt := Int.lt_ediv_add_one_mul_self l.sum hn
  rw [nsmul_eq_mul] at hle
  linarith

/-- Some element lies at or above the floor of the mean. -/
theorem exists_sum_div_le (hl : l ≠ []) : ∃ y ∈ l, l.sum / l.length ≤ y := by
  have hn : (0 : Int) < l.length := by simpa [List.length_pos] using hl
  by_contra h
  push_neg at h
  have hle := l.sum_le_card_nsmul (l.sum / l.length - 1) fun y hy => by linarith [h y hy]
  have hge := Int.ediv_mul_le l.sum hn.ne'
  rw [nsmul_eq_mul] at hle
  linarith

end Mean

theorem length_latencies (t : Manager) : t.latencies.length = t.peers.keys.length := by
  simp [Manager.latencies, AList.keys, List.keys]

/-- **While the latencies are not negative and sum to less than `2^63` nanoseconds,
`avg_latency` is the floor of their mean**, and so lies between the smallest and the largest
of them. -/
theorem avgLatency_of_sum_lt (t : Manager) (E : Enumeration t.peers)
    (hnonneg : ∀ x ∈ t.latencies, 0 ≤ x) (hsum : t.latencies.sum < 2 ^ 63) :
    (t.getNetworkMetrics E).avgLatency = t.latencies.sum / t.latencies.length ∧
      (t.latencies ≠ [] →
        (∃ x ∈ t.latencies, x ≤ (t.getNetworkMetrics E).avgLatency) ∧
          ∃ y ∈ t.latencies, (t.getNetworkMetrics E).avgLatency ≤ y) := by
  have hS : 0 ≤ t.latencies.sum := List.sum_nonneg hnonneg
  have havg : (t.getNetworkMetrics E).avgLatency = t.latencies.sum / t.latencies.length := by
    rw [getNetworkMetrics_eq, wrapInt64_of_lt (by omega) hsum, ← length_latencies]
    dsimp only
    split_ifs with hn
    · exact Int.tdiv_eq_ediv hS (Int.ofNat_nonneg _)
    · rw [List.length_eq_zero.mp (Nat.eq_zero_of_not_pos hn)]
      rfl
  exact ⟨havg, fun hl => havg ▸ ⟨exists_le_sum_div hl, exists_sum_div_le hl⟩⟩

/-! ## Over a run of the manager -/

/-- Every peer a run of the manager stores is connected. -/
theorem allPeers_connected_run (maxPeers : Int) (ops : List ManagerOp) :
    AllPeers (fun info => info.connected = true) ((Manager.new maxPeers).run ops) :=
  (allPeers_new maxPeers).run fun op _ => by
    cases op with
    | addPeer | removePeer => trivial
    | updatePeerQuality | updatePeerReputation | updatePeerLoad | reputation =>
      exact fun _ h => h

/-- **In every state a run of the manager reaches, `avg_bandwidth` is the mean bandwidth of the
connected peers**, which are all the peers, and `connected_peers` counts them. -/
theorem avgBandwidth_run (maxPeers : Int) (ops : List ManagerOp)
    (E : Enumeration ((Manager.new maxPeers).run ops).peers) :
    (((Manager.new maxPeers).run ops).getNetworkMetrics E).connectedPeers =
        ((Manager.new maxPeers).run ops).connectedBandwidths.length ∧
      (((Manager.new maxPeers).run ops).getNetworkMetrics E).avgBandwidth =
        if ((Manager.new maxPeers).run ops).connectedBandwidths = [] then 0
        else ((Manager.new maxPeers).run ops).connectedBandwidths.sum /
          ((Manager.new maxPeers).run ops).connectedBandwidths.length := by
  have hall : ∀ e ∈ ((Manager.new maxPeers).run ops).peers.entries, e.2.connected = true :=
    fun e he => allPeers_connected_run maxPeers ops e.1 e.2 (AList.mem_lookup_iff.mpr he)
  have hfilter := List.filter_eq_self.mpr hall
  have hcount : ((Manager.new maxPeers).run ops).peers.entries.countP (fun e => e.2.connected) =
      ((Manager.new maxPeers).run ops).connectedBandwidths.length := by
    rw [List.countP_eq_length_filter, Manager.connectedBandwidths, List.length_map]
  rw [getNetworkMetrics_eq]
  refine ⟨hcount, ?_⟩
  dsimp only
  rw [hcount, Manager.connectedBandwidths, hfilter]
  simp only [List.length_pos, ne_eq, ite_not]

/-- A second peer, added at time zero. -/
def peerQ : Peer := ⟨ascii "Q", ascii "10.0.0.3:9000", ascii "1.0.0", 0⟩

/-- Two connected peers whose latencies are set to `2^62` nanoseconds: the floor of their
mean is `2^62`, but the `time.Duration` sum wraps to `-2^63`, and `avg_latency` reads
`-2^62`, below both, whichever order the map is walked in. -/
theorem avg_latency_overflows_to_negative :
    ((Manager.new 50).run [.addPeer peerP 0, .addPeer peerQ 0,
        .updatePeerQuality (ascii "P") ⟨2 ^ 62, 1, 0, 10 ^ 7, 0⟩ 0,
        .updatePeerQuality (ascii "Q") ⟨2 ^ 62, 1, 0, 10 ^ 7, 0⟩ 0]).latencies = [2 ^ 62, 2 ^ 62] ∧
      ∀ E, (((Manager.new 50).run [.addPeer peerP 0, .addPeer peerQ 0,
        .updatePeerQuality (ascii "P") ⟨2 ^ 62, 1, 0, 10 ^ 7, 0⟩ 0,
        .updatePeerQuality (ascii "Q") ⟨2 ^ 62, 1, 0, 10 ^ 7, 0⟩ 0]).getNetworkMetrics E).avgLatency =
        -2 ^ 62 := by
  refine ⟨rfl, fun E => ?_⟩
  rw [getNetworkMetrics_eq]
  rfl

end Synapse.Topology
