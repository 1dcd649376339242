import Mathlib.Algebra.Order.Ring.Unbundled.Rat
import Mathlib.Data.List.Sort
import Synapse.Topology.Manager
import Synapse.Topology.Float64

/-!
# Ranking peers (`GetBestPeers`, `GetOptimalPeersForBroadcast`)

`GetBestPeers(n)` scores the peers in the order `range` enumerates the map, sorts the
scores from highest to lowest with `sort.Slice`, and keeps the first `n` ids. A score is a
`float64`, computed and compared as Go computes it (`Float64`); a stored `float64` field is the
rational it equals, which `Float64.ofRat` reads back unchanged.

Go fixes neither order: a map's enumeration order is random, and `sort.Slice` is not stable.
The model takes both as given, as an `Enumeration` of the map (its entries, each once) and a
`SortSlice` (any function meeting `sort.Slice`'s contract). That contract asks `less` to be a
strict weak order, which Go's `>` is on the doubles other than NaN: with a NaN score the slice
is still permuted, but nothing fixes how. On a slice of at most twelve elements `sort.Slice`
runs an insertion sort, which is stable; `insertionSortSlice` is that sort.

When no score is NaN, the ids come back ranked by their `float64` scores (`Ranked`), and the
scores they come with do not depend on the two orders. The ranking is that of the rounded
scores: two peers whose exact scores differ by less than a rounding step can come in the
other order. Which of two tied peers comes first is left to the enumeration.
`GetOptimalPeersForBroadcast` walks the whole ranking and keeps the connected peers other
than the excluded one, up to its bound (`foldl_broadcastTurn`).

## Main definitions

* `calculateQualityScore`, `PeerInfo.score` — what a peer is ranked by.
* `Enumeration`, `SortSlice` — the two orders Go leaves open.
* `Manager.getBestPeers`, `Manager.getOptimalPeersForBroadcast` — the two calls.
* `Ranked` — what `GetBestPeers(n)` returns, as a property of the list.
* `PeerInfo.exactScore` — the score's formula in exact arithmetic, which the code does not
  compute.
-/

namespace Synapse.Topology

open Synapse.P2P (GoMap)
open Float64 (ofInt ofRat key)

/-! ## Scores -/

/-- `calculateQualityScore`, in `float64`: a duration is its count of nanoseconds, converted to
`float64` and divided by `float64(time.Second)`. -/
def calculateQualityScore (quality : ConnectionQuality) : Float64 :=
  let latencyScore := 1.0 / (1.0 + ofInt quality.latency / ofInt 1000000000)
  let bandwidthScore := goMin (ofRat quality.bandwidth / 100.0) 1.0
  let packetLossScore := 1.0 - goMin (ofRat quality.packetLoss / 100.0) 1.0
  let jitterScore := 1.0 / (1.0 + ofInt quality.jitter / ofInt 1000000000)
  let totalScore := latencyScore * 0.3 + bandwidthScore * 0.3 + packetLossScore * 0.2 +
    jitterScore * 0.2
  goMin totalScore 1.0

/-- The score `GetBestPeers` ranks a peer by: 70% quality, 30% reputation. -/
def PeerInfo.score (info : PeerInfo) : Float64 :=
  calculateQualityScore info.quality * 0.7 + ofRat info.reputation * 0.3

/-- The score of a known peer; `0` for an unknown id. -/
def Manager.scoreOf (t : Manager) (id : Bytes) : Float64 :=
  ((t.peers.lookup id).map PeerInfo.score).getD 0

/-- No known peer's score is NaN: `GetBestPeers`' `less` is then a strict weak order. -/
def Manager.ScoresNotNaN (t : Manager) : Prop := ∀ id ∈ t.peers.keys, t.scoreOf id ≠ .nan

instance (t : Manager) : Decidable t.ScoresNotNaN :=
  inferInstanceAs (Decidable (∀ id ∈ t.peers.keys, t.scoreOf id ≠ .nan))

/-- A quality of no negative latency, bandwidth or jitter scores within `[0, 1]`: each term
is, and `math.Min` caps the sum. -/
theorem calculateQualityScore_mem_unit {q : ConnectionQuality} (hl : 0 ≤ q.latency)
    (hb : 0 ≤ q.bandwidth) (hj : 0 ≤ q.jitter) :
    0 ≤ calculateQualityScore q ∧ calculateQualityScore q ≤ .fin 1 := by
  have hdur : ∀ d : ℤ, 0 ≤ d →
      0 ≤ Float64.fin 1 / (Float64.fin 1 + ofInt d / ofInt 1000000000) ∧
        Float64.fin 1 / (Float64.fin 1 + ofInt d / ofInt 1000000000) ≤ .fin 1 := fun d hd =>
    Float64.one_div_mem_unit (Float64.one_le_one_add (Float64.zero_le_div
      (by rw [Float64.ofInt_eq]; exact Float64.zero_le_ofRat (by exact_mod_cast hd))
      (by decide) (by decide)))
  have hbw := goMin_one_mem_unit
    (Float64.zero_le_div (c := 100.0) (Float64.zero_le_ofRat hb) (by decide) (by decide))
  have hpl := Float64.zero_le_one_sub (goMin_le_one (Float64.div_ne_nan
    (c := 100.0) (Float64.ofRat_ne_nan q.packetLoss) (by decide) (by decide)))
  unfold calculateQualityScore
  simp only [Float64.ofScientific_one] at hbw hpl ⊢
  refine goMin_one_mem_unit
    (Float64.zero_le_add (Float64.zero_le_add (Float64.zero_le_add ?_ ?_) ?_) ?_)
  · exact Float64.zero_le_mul (hdur _ hl).1 (by decide) (by decide)
  · exact Float64.zero_le_mul hbw.1 (by decide) (by decide)
  · exact Float64.zero_le_mul hpl (by decide) (by decide)
  · exact Float64.zero_le_mul (hdur _ hj).1 (by decide) (by decide)

/-- A peer whose quality scores within `[0, 1]` and whose reputation lies in `[-1, 1]` has a
finite score. -/
theorem PeerInfo.score_ne_nan {info : PeerInfo}
    (hq : 0 ≤ calculateQualityScore info.quality ∧ calculateQualityScore info.quality ≤ .fin 1)
    (hr : -1 ≤ info.reputation ∧ info.reputation ≤ 1) : info.score ≠ .nan := by
  have hq' : Float64.fin (-1) ≤ calculateQualityScore info.quality := by
    rcases Float64.zero_le_iff.mp hq.1 with h | ⟨a, h, ha⟩ <;> rw [h] at hq ⊢
    · exact absurd hq.2 (by decide)
    · simp only [Float64.le_iff, Float64.le, decide_eq_true_eq]; linarith
  have hr' := abs_le.mpr hr
  have hrep : Float64.fin (-1) ≤ ofRat info.reputation ∧ ofRat info.reputation ≤ .fin 1 := by
    rw [Float64.ofRat_of_abs_le_one hr']
    simpa [Float64.le] using abs_le.mp (abs_roundRat_le_one hr')
  exact Float64.add_ne_nan_of_mem_Icc (Float64.mul_mem_Icc ⟨hq', hq.2⟩ (by decide))
    (Float64.mul_mem_Icc hrep (by decide))

/-- No score is NaN when every peer has a quality of no negative latency, bandwidth or jitter
and a reputation within `[-1, 1]`. -/
theorem Manager.scoresNotNaN_of_entries {t : Manager}
    (h : ∀ e ∈ t.peers.entries, 0 ≤ e.2.quality.latency ∧ 0 ≤ e.2.quality.bandwidth ∧
      0 ≤ e.2.quality.jitter ∧ -1 ≤ e.2.reputation ∧ e.2.reputation ≤ 1) :
    t.ScoresNotNaN := by
  intro id hid
  obtain ⟨info, hl⟩ := Option.isSome_iff_exists.mp (AList.lookup_isSome.mpr (AList.mem_keys.mp hid))
  obtain ⟨hl', hb, hj, hr⟩ := h _ (AList.mem_lookup_iff.mp hl)
  simpa [Manager.scoreOf, hl] using
    PeerInfo.score_ne_nan (calculateQualityScore_mem_unit hl' hb hj) hr

/-! ## The score in exact arithmetic -/

/-- The formula of `calculateQualityScore` evaluated without rounding, with `x / 0 = 0`: what a
specification over the reals ranks by. The code computes its rounding instead. -/
def calculateQualityScoreExact (quality : ConnectionQuality) : ℚ :=
  let latencyScore := 1 / (1 + (quality.latency : ℚ) / 10 ^ 9)
  let bandwidthScore := min (quality.bandwidth / 100) 1
  let packetLossScore := 1 - min (quality.packetLoss / 100) 1
  let jitterScore := 1 / (1 + (quality.jitter : ℚ) / 10 ^ 9)
  let totalScore := latencyScore * (3 / 10) + bandwidthScore * (3 / 10) +
    packetLossScore * (2 / 10) + jitterScore * (2 / 10)
  min totalScore 1

/-- The score's formula without rounding. -/
def PeerInfo.exactScore (info : PeerInfo) : ℚ :=
  calculateQualityScoreExact info.quality * (7 / 10) + info.reputation * (3 / 10)

/-- The exact score of a known peer; `0` for an unknown id. -/
def Manager.exactScoreOf (t : Manager) (id : Bytes) : ℚ :=
  ((t.peers.lookup id).map PeerInfo.exactScore).getD 0

/-- Two peers added at the same instant: they score the same. -/
def tiedPeers : Manager :=
  ((Manager.new 50).addPeer ⟨ascii "A", ascii "10.0.0.1:9000", ascii "1.0.0", 0⟩ 0).addPeer
    ⟨ascii "B", ascii "10.0.0.2:9000", ascii "1.0.0", 0⟩ 0

/-- The two peers, `B` now with two seconds of latency, 31 Mbps and 20% loss, and `A` with a
reputation of `2 ^ -60`. The two qualities are equal in exact arithmetic, so `A` scores higher
by `0.3 * 2 ^ -60`; in `float64` that difference is below a rounding step, and `B`'s quality
rounds above `A`'s. -/
def roundedPeers : Manager :=
  (tiedPeers.updatePeerQuality (ascii "B") ⟨2 * 10 ^ 9, 31, 20, 10 ^ 7, 0⟩ 0).updatePeerReputation
    (ascii "A") (Rat.divInt 1 (2 ^ 60))

/-! ## The two orders Go leaves open -/

/-- An order in which `range` may enumerate a peer map: its entries, each once. -/
structure Enumeration (peers : GoMap Bytes PeerInfo) where
  order : List (Σ _ : Bytes, PeerInfo)
  perm : order.Perm peers.entries

/-- The enumeration in the order the map's entries are stored. -/
def Enumeration.entries (peers : GoMap Bytes PeerInfo) : Enumeration peers :=
  ⟨peers.entries, List.Perm.refl _⟩

/-- `less(i, j)` of `GetBestPeers`, negated and flipped: `a` may stand before `b`, as its score
is not below `b`'s. -/
def ScoreGE (a b : Bytes × Float64) : Prop := ¬ a.2 < b.2

instance : DecidableRel ScoreGE := fun a b => inferInstanceAs (Decidable (¬ a.2 < b.2))

/-- `sort.Slice` with `GetBestPeers`' `less`, by its contract: it permutes the slice, and when
no score is NaN no element ends up less than one before it. -/
structure SortSlice where
  sort : List (Bytes × Float64) → List (Bytes × Float64)
  perm : ∀ s, (sort s).Perm s
  sorted : ∀ s, (∀ p ∈ s, p.2 ≠ .nan) → (sort s).Sorted ScoreGE

section InsertionSort

variable {α : Type*} {r r' : α → α → Prop} [DecidableRel r] [DecidableRel r']

theorem orderedInsert_congr {a : α} {l : List α} (h : ∀ b ∈ l, (r a b ↔ r' a b)) :
    l.orderedInsert r a = l.orderedInsert r' a := by
  induction l with
  | nil => rfl
  | cons b l ih =>
    have hb := h b (List.mem_cons_self _ _)
    rw [List.orderedInsert, List.orderedInsert, ih fun c hc => h c (List.mem_cons_of_mem _ hc)]
    by_cases hr : r a b
    · rw [if_pos hr, if_pos (hb.mp hr)]
    · rw [if_neg hr, if_neg (hb.not.mp hr)]

/-- An insertion sort reads its comparison only on the elements it sorts. -/
theorem insertionSort_congr {l : List α} (h : ∀ a ∈ l, ∀ b ∈ l, (r a b ↔ r' a b)) :
    l.insertionSort r = l.insertionSort r' := by
  induction l with
  | nil => rfl
  | cons a l ih =>
    rw [List.insertionSort, List.insertionSort,
      ih fun x hx y hy => h x (List.mem_cons_of_mem _ hx) y (List.mem_cons_of_mem _ hy)]
    exact orderedInsert_congr fun b hb => h a (List.mem_cons_self _ _) b
      (List.mem_cons_of_mem _ ((List.perm_insertionSort r' l).subset hb))

end InsertionSort

/-- The order of the scores by their `key`: total and transitive, and the same as `ScoreGE`
on scores other than NaN. -/
def KeyGE (a b : Bytes × Float64) : Prop := key b.2 ≤ key a.2

instance : DecidableRel KeyGE := fun a b => inferInstanceAs (Decidable (key b.2 ≤ key a.2))

instance : IsTotal (Bytes × Float64) KeyGE := ⟨fun a b => le_total (key b.2) (key a.2)⟩

instance : IsTrans (Bytes × Float64) KeyGE := ⟨fun _ _ _ hab hbc => le_trans hbc hab⟩

theorem scoreGE_iff_keyGE {a b : Bytes × Float64} (ha : a.2 ≠ .nan) (hb : b.2 ≠ .nan) :
    ScoreGE a b ↔ KeyGE a b := by
  rw [ScoreGE, KeyGE, Float64.lt_iff_key_lt ha hb, not_lt]

/-- On a slice with no NaN score the insertion sort with Go's comparison is the insertion sort
by `key`, which sorts. -/
theorem insertionSort_scoreGE_sorted {s : List (Bytes × Float64)} (hs : ∀ p ∈ s, p.2 ≠ .nan) :
    (s.insertionSort ScoreGE).Sorted ScoreGE := by
  have hiff : ∀ a ∈ s, ∀ b ∈ s, (ScoreGE a b ↔ KeyGE a b) := fun a ha b hb =>
    scoreGE_iff_keyGE (hs a ha) (hs b hb)
  rw [insertionSort_congr hiff]
  have hmem : ∀ {a}, a ∈ s.insertionSort KeyGE → a ∈ s := fun h =>
    (List.perm_insertionSort KeyGE s).subset h
  exact (List.sorted_insertionSort KeyGE s).imp_of_mem fun ha hb h =>
    (hiff _ (hmem ha) _ (hmem hb)).mpr h

/-- The insertion sort `sort.Slice` runs on a slice of at most twelve elements. Both it and
Go's move an element only past elements it is less than, so both are stable and agree. -/
def insertionSortSlice : SortSlice :=
  ⟨List.insertionSort ScoreGE, List.perm_insertionSort _, fun _ => insertionSort_scoreGE_sorted⟩

/-! ## `GetBestPeers` -/

/-- The ids and scores `GetBestPeers` collects, in the map's order. -/
def peerScores {peers : GoMap Bytes PeerInfo} (E : Enumeration peers) : List (Bytes × Float64) :=
  E.order.map fun e => (e.1, e.2.score)

/-- `GetBestPeers(n)`, the map enumerated by `E` and the scores sorted by `S`. -/
def Manager.getBestPeers (t : Manager) (E : Enumeration t.peers) (S : SortSlice) (n : Nat) :
    List Bytes :=
  ((S.sort (peerScores E)).take n).map Prod.fst

/-- What `GetBestPeers(n)` promises of its result `r`: known ids, each once, as many as `n`
allows, from the highest score down, and no peer left out scores above one returned. -/
structure Ranked (t : Manager) (n : Nat) (r : List Bytes) : Prop where
  nodup : r.Nodup
  length : r.length = min n t.peers.keys.length
  known : ∀ id ∈ r, id ∈ t.peers
  sorted : r.Sorted fun a b => t.scoreOf b ≤ t.scoreOf a
  cutoff : ∀ id ∈ t.peers, id ∉ r → ∀ id' ∈ r, t.scoreOf id ≤ t.scoreOf id'

section Sorted

variable {t : Manager} (E : Enumeration t.peers) (S : SortSlice)

/-- Every score in the sorted slice is the score of its peer. -/
theorem scoreOf_of_mem_sort {p : Bytes × Float64} (hp : p ∈ S.sort (peerScores E)) :
    t.scoreOf p.1 = p.2 := by
  obtain ⟨e, he, rfl⟩ := List.mem_map.mp ((S.perm _).mem_iff.mp hp)
  have hl : t.peers.lookup e.1 = some e.2 := AList.mem_lookup_iff.mpr (E.perm.mem_iff.mp he)
  simp [Manager.scoreOf, hl]

/-- The ids of the sorted slice are the map's keys, in some order. -/
theorem map_fst_sort_perm : ((S.sort (peerScores E)).map Prod.fst).Perm t.peers.keys := by
  have h : (peerScores E).map Prod.fst = E.order.map Sigma.fst := by
    simp [peerScores, Function.comp_def]
  exact ((S.perm _).map _).trans (h ▸ E.perm.map _)

theorem mem_keys_of_mem_sort {p : Bytes × Float64} (hp : p ∈ S.sort (peerScores E)) :
    p.1 ∈ t.peers.keys :=
  (map_fst_sort_perm E S).subset (List.mem_map_of_mem _ hp)

theorem peerScores_ne_nan (hnan : t.ScoresNotNaN) : ∀ p ∈ peerScores E, p.2 ≠ .nan := by
  intro p hp
  obtain ⟨e, he, rfl⟩ := List.mem_map.mp hp
  have hl : t.peers.lookup e.1 = some e.2 := AList.mem_lookup_iff.mpr (E.perm.mem_iff.mp he)
  have := hnan e.1 (AList.mem_keys.mpr (AList.lookup_isSome.mp (by simp [hl])))
  simpa [Manager.scoreOf, hl] using this

/-- The sorted slice, ranked by the peers' scores. -/
theorem sort_sorted_scoreOf (hnan : t.ScoresNotNaN) :
    (S.sort (peerScores E)).Pairwise fun a b => t.scoreOf b.1 ≤ t.scoreOf a.1 :=
  have hne : ∀ p ∈ S.sort (peerScores E), p.2 ≠ .nan := fun p hp =>
    peerScores_ne_nan E hnan p ((S.perm _).subset hp)
  (S.sorted _ (peerScores_ne_nan E hnan)).imp_of_mem fun ha hb hab => by
    rw [scoreOf_of_mem_sort E S ha, scoreOf_of_mem_sort E S hb]
    exact Float64.le_of_not_lt' (hne _ ha) (hne _ hb) hab

theorem getBestPeers_nodup (n : Nat) : (t.getBestPeers E S n).Nodup := by
  unfold Manager.getBestPeers
  rw [List.map_take]
  exact ((map_fst_sort_perm E S).nodup_iff.mpr t.peers.keys_nodup).sublist (List.take_sublist _ _)

/-- **`GetBestPeers(n)` ranks the peers by their `float64` scores** when none is NaN, whatever
order the map is enumerated in and however `sort.Slice` places tied scores. -/
theorem getBestPeers_ranked (hnan : t.ScoresNotNaN) (n : Nat) :
    Ranked t n (t.getBestPeers E S n) := by
  have hperm := map_fst_sort_perm E S
  have hsorted := sort_sorted_scoreOf E S hnan
  have hsplit := List.take_append_drop n (S.sort (peerScores E))
  rw [← hsplit, List.pairwise_append] at hsorted
  have hlen : (S.sort (peerScores E)).length = t.peers.keys.length := by
    simpa using hperm.length_eq
  refine ⟨getBestPeers_nodup E S n, by simp [Manager.getBestPeers, hlen], fun id hid => ?_,
    List.pairwise_map.mpr hsorted.1, fun id hid hout id' hid' => ?_⟩
  · unfold Manager.getBestPeers at hid
    rw [AList.mem_keys, ← hperm.mem_iff, ← hsplit, List.map_append]
    exact List.mem_append_left _ hid
  · unfold Manager.getBestPeers at hout hid'
    obtain ⟨p, hp, rfl⟩ := List.mem_map.mp hid'
    obtain ⟨q, hq, rfl⟩ : ∃ q ∈ (S.sort (peerScores E)).drop n, q.1 = id := by
      have hmem := hperm.mem_iff.mpr (AList.mem_keys.mp hid)
      rw [← hsplit, List.map_append, List.mem_append] at hmem
      exact List.mem_map.mp (hmem.resolve_left hout)
    exact hsorted.2.2 p hp q hq

/-- A peer scoring above every other is the one `GetBestPeers(1)` returns. -/
theorem getBestPeers_one_of_forall_lt (hnan : t.ScoresNotNaN) {b : Bytes} (hb : b ∈ t.peers.keys)
    (hlt : ∀ id ∈ t.peers.keys, id ≠ b → t.scoreOf id < t.scoreOf b) :
    t.getBestPeers E S 1 = [b] := by
  have hmem : b ∈ (S.sort (peerScores E)).map Prod.fst := (map_fst_sort_perm E S).mem_iff.mpr hb
  have hsorted := sort_sorted_scoreOf E S hnan
  have hin : ∀ {p}, p ∈ S.sort (peerScores E) → p.1 ∈ t.peers.keys := mem_keys_of_mem_sort E S
  unfold Manager.getBestPeers
  obtain ⟨p, rest, h⟩ : ∃ p rest, S.sort (peerScores E) = p :: rest := by
    cases h : S.sort (peerScores E) with
    | nil => rw [h] at hmem; simp at hmem
    | cons p rest => exact ⟨p, rest, rfl⟩
  rw [h] at hmem hsorted hin ⊢
  have hp : p.1 = b := by
    by_contra hne
    obtain ⟨q, hq, rfl⟩ := List.mem_map.mp ((List.mem_cons.mp hmem).resolve_left (Ne.symm hne))
    exact Float64.not_lt_of_le' ((List.pairwise_cons.mp hsorted).1 q hq)
      (hlt p.1 (hin (List.mem_cons_self _ _)) hne)
  simp [hp]

/-- The ids of the sorted slice, ranked by the `key` of their scores. -/
theorem sort_ids_sorted_key (hnan : t.ScoresNotNaN) :
    ((S.sort (peerScores E)).map Prod.fst).Pairwise fun a b =>
      key (t.scoreOf b) ≤ key (t.scoreOf a) := by
  rw [List.pairwise_map]
  exact (sort_sorted_scoreOf E S hnan).imp_of_mem fun ha hb h =>
    (Float64.le_iff_key_le (hnan _ (mem_keys_of_mem_sort E S hb))
      (hnan _ (mem_keys_of_mem_sort E S ha))).mp h

end Sorted

theorem roundedPeers_scoresNotNaN : roundedPeers.ScoresNotNaN :=
  Manager.scoresNotNaN_of_entries (by decide)

theorem getBestPeers_ranked_rounded :
    roundedPeers.ScoresNotNaN ∧
      Ranked roundedPeers 1 (roundedPeers.getBestPeers (.entries _) insertionSortSlice 1) :=
  ⟨roundedPeers_scoresNotNaN, getBestPeers_ranked _ _ roundedPeers_scoresNotNaN 1⟩

set_option maxRecDepth 20000 in
/-- The peer whose exact score is lower is the one `GetBestPeers(1)` returns, whatever the two
orders. -/
theorem best_peer_by_rounded_score :
    roundedPeers.exactScoreOf (ascii "B") < roundedPeers.exactScoreOf (ascii "A") ∧
      ∀ (E : Enumeration roundedPeers.peers) (S : SortSlice),
        roundedPeers.getBestPeers E S 1 = [ascii "B"] := by
  have hA : roundedPeers.peers.lookup (ascii "A") = some ⟨ascii "A", ascii "10.0.0.1:9000",
      Manager.defaultQuality 0, 0, true, Rat.divInt 1 (2 ^ 60), 0⟩ := by decide
  have hB : roundedPeers.peers.lookup (ascii "B") = some ⟨ascii "B", ascii "10.0.0.2:9000",
      ⟨2 * 10 ^ 9, 31, 20, 10 ^ 7, 0⟩, 0, true, 0, 0⟩ := by decide
  refine ⟨?_, fun E S => getBestPeers_one_of_forall_lt E S roundedPeers_scoresNotNaN (by decide)
    (by decide)⟩
  rw [Manager.exactScoreOf, Manager.exactScoreOf, hA, hB]
  norm_num [PeerInfo.exactScore, calculateQualityScoreExact, Manager.defaultQuality, Rat.divInt_eq_div]

/-- **The scores `GetBestPeers(n)` returns, in order, depend on neither order Go leaves open**
when no score is NaN, and when no two peers score the same neither does the list. -/
theorem getBestPeers_order_independent {t : Manager} (hnan : t.ScoresNotNaN)
    (E E' : Enumeration t.peers) (S S' : SortSlice) (n : Nat) :
    (t.getBestPeers E S n).map t.scoreOf = (t.getBestPeers E' S' n).map t.scoreOf ∧
      ((∀ a ∈ t.peers.keys, ∀ b ∈ t.peers.keys, t.scoreOf a = t.scoreOf b → a = b) →
        t.getBestPeers E S n = t.getBestPeers E' S' n) := by
  have hperm := (map_fst_sort_perm E S).trans (map_fst_sort_perm E' S').symm
  have hkeys := List.eq_of_perm_of_sorted (r := (· ≥ ·))
    (hperm.map fun id => key (t.scoreOf id))
    (List.pairwise_map.mpr (sort_ids_sorted_key E S hnan))
    (List.pairwise_map.mpr (sort_ids_sorted_key E' S' hnan))
  have hscores : ((S.sort (peerScores E)).map Prod.fst).map t.scoreOf =
      ((S'.sort (peerScores E')).map Prod.fst).map t.scoreOf :=
    List.map_injective_iff.mpr Float64.key_injective (by simpa only [List.map_map] using hkeys)
  refine ⟨by simpa only [Manager.getBestPeers, List.map_take] using congrArg (List.take n) hscores,
    fun hinj => ?_⟩
  -- With distinct scores the ids are ranked strictly, and a strict ranking of the keys is unique.
  let R : Bytes → Bytes → Prop := fun a b => key (t.scoreOf b) < key (t.scoreOf a)
  haveI : IsAntisymm Bytes R := ⟨fun _ _ h1 h2 => absurd (h1.trans h2) (lt_irrefl _)⟩
  have hstrict : ∀ (E : Enumeration t.peers) (S : SortSlice),
      ((S.sort (peerScores E)).map Prod.fst).Sorted R := fun E S => by
    have hin := (map_fst_sort_perm E S).subset
    refine ((sort_ids_sorted_key E S hnan).and
      ((map_fst_sort_perm E S).nodup_iff.mpr t.peers.keys_nodup)).imp_of_mem fun ha hb h =>
        lt_of_le_of_ne h.1 fun he =>
          h.2 (hinj _ (hin hb) _ (hin ha) (Float64.key_injective he)).symm
  have hids := List.eq_of_perm_of_sorted hperm (hstrict E S) (hstrict E' S')
  simp only [Manager.getBestPeers, List.map_take, hids]

theorem getBestPeers_order_independent_tied :
    tiedPeers.ScoresNotNaN ∧
      ((tiedPeers.getBestPeers (.entries _) insertionSortSlice 1).map tiedPeers.scoreOf =
          (tiedPeers.getBestPeers ⟨_, List.reverse_perm _⟩ insertionSortSlice 1).map tiedPeers.scoreOf ∧
        ((∀ a ∈ tiedPeers.peers.keys, ∀ b ∈ tiedPeers.peers.keys,
            tiedPeers.scoreOf a = tiedPeers.scoreOf b → a = b) →
          tiedPeers.getBestPeers (.entries _) insertionSortSlice 1 =
            tiedPeers.getBestPeers ⟨_, List.reverse_perm _⟩ insertionSortSlice 1)) := by
  have h : tiedPeers.ScoresNotNaN := Manager.scoresNotNaN_of_entries (by decide)
  exact ⟨h, getBestPeers_order_independent h _ _ _ _ 1⟩

/-- Enumerated one way, `GetBestPeers(1)` returns the second peer added; the other way, the
first. -/
theorem best_peer_depends_on_map_order :
    ∃ E E' : Enumeration tiedPeers.peers, tiedPeers.getBestPeers E insertionSortSlice 1 = [ascii "B"] ∧
      tiedPeers.getBestPeers E' insertionSortSlice 1 = [ascii "A"] := by
  let infoA : PeerInfo := ⟨ascii "A", ascii "10.0.0.1:9000", Manager.defaultQuality 0, 0, true, 0, 0⟩
  let infoB : PeerInfo := ⟨ascii "B", ascii "10.0.0.2:9000", Manager.defaultQuality 0, 0, true, 0, 0⟩
  have htie : ScoreGE (ascii "A", infoA.score) (ascii "B", infoB.score) ∧
      ScoreGE (ascii "B", infoB.score) (ascii "A", infoA.score) :=
    ⟨Float64.not_lt_self _, Float64.not_lt_self _⟩
  have hsort : insertionSortSlice.sort = List.insertionSort ScoreGE := rfl
  refine ⟨.entries _, ⟨_, List.reverse_perm _⟩, ?_, ?_⟩
  · have h : peerScores (Enumeration.entries tiedPeers.peers) =
        [(ascii "B", infoB.score), (ascii "A", infoA.score)] := rfl
    rw [Manager.getBestPeers, h, hsort, List.Sorted.insertionSort_eq (List.pairwise_pair.mpr htie.2)]
    rfl
  · have h : peerScores (⟨_, List.reverse_perm _⟩ : Enumeration tiedPeers.peers) =
        [(ascii "A", infoA.score), (ascii "B", infoB.score)] := rfl
    rw [Manager.getBestPeers, h, hsort, List.Sorted.insertionSort_eq (List.pairwise_pair.mpr htie.1)]
    rfl

/-! ## `GetOptimalPeersForBroadcast` -/

/-- One turn of `GetOptimalPeersForBroadcast`'s loop over the ranking. -/
def Manager.broadcastTurn (t : Manager) (excludePeerID : Bytes) (maxPeers : Nat)
    (result : List Bytes) (peerID : Bytes) : List Bytes :=
  if peerID ≠ excludePeerID ∧ result.length < maxPeers then
    match t.peers.lookup peerID with
    | some peer => if peer.connected then result ++ [peerID] else result
    | none => result
  else result

/-- `GetOptimalPeersForBroadcast(excludePeerID, maxPeers)`: the ranking of every peer, cut
by one walk over it. -/
def Manager.getOptimalPeersForBroadcast (t : Manager) (E : Enumeration t.peers) (S : SortSlice)
    (excludePeerID : Bytes) (maxPeers : Nat) : List Bytes :=
  (t.getBestPeers E S t.peers.keys.length).foldl (t.broadcastTurn excludePeerID maxPeers) []

/-- The peers a broadcast may go to: connected, and other than the excluded one. -/
def Manager.isBroadcastTarget (t : Manager) (exclude id : Bytes) : Bool :=
  id != exclude && ((t.peers.lookup id).map PeerInfo.connected).getD false

theorem Manager.broadcastTurn_eq (t : Manager) (x : Bytes) (m : Nat) (result : List Bytes)
    (id : Bytes) : t.broadcastTurn x m result id =
      if t.isBroadcastTarget x id ∧ result.length < m then result ++ [id] else result := by
  unfold broadcastTurn isBroadcastTarget
  by_cases hx : id = x
  · simp [hx]
  · cases t.peers.lookup id with
    | none => simp
    | some peer => by_cases hc : peer.connected <;> simp [hx, hc]

/-- The loop keeps the targets, in ranking order, until the bound is reached. -/
theorem Manager.foldl_broadcastTurn (t : Manager) (x : Bytes) (m : Nat) (l : List Bytes)
    {acc : List Bytes} (hacc : acc.length ≤ m) :
    l.foldl (t.broadcastTurn x m) acc = acc ++ (l.filter (t.isBroadcastTarget x)).take (m - acc.length) := by
  induction l generalizing acc with
  | nil => simp
  | cons a l ih =>
    rw [List.foldl_cons, t.broadcastTurn_eq]
    by_cases ha : t.isBroadcastTarget x a
    · by_cases hlt : acc.length < m
      · obtain ⟨k, hk⟩ : ∃ k, m - acc.length = k + 1 := ⟨m - acc.length - 1, by omega⟩
        rw [if_pos ⟨ha, hlt⟩, ih (by simp; omega), List.filter_cons_of_pos ha, hk]
        simp [show m - (acc.length + 1) = k by omega]
      · rw [if_neg (fun h => hlt h.2), ih hacc, show m - acc.length = 0 by omega]
        simp
    · rw [if_neg (fun h => ha h.1), ih hacc, List.filter_cons_of_neg ha]

/-- **`GetOptimalPeersForBroadcast` is the ranking, filtered and cut**: the first `maxPeers`
connected peers other than the excluded one, in the order `GetBestPeers(len(peers))` ranks
them; so never the excluded peer or a disconnected one, and each at most once. -/
theorem getOptimalPeersForBroadcast_eq (t : Manager) (E : Enumeration t.peers) (S : SortSlice)
    (x : Bytes) (maxPeers : Nat) :
    t.getOptimalPeersForBroadcast E S x maxPeers =
        ((t.getBestPeers E S t.peers.keys.length).filter (t.isBroadcastTarget x)).take maxPeers ∧
      (t.getOptimalPeersForBroadcast E S x maxPeers).length =
        min maxPeers ((t.getBestPeers E S t.peers.keys.length).filter (t.isBroadcastTarget x)).length ∧
      x ∉ t.getOptimalPeersForBroadcast E S x maxPeers ∧
      (∀ id ∈ t.getOptimalPeersForBroadcast E S x maxPeers,
        ∃ info, t.peers.lookup id = some info ∧ info.connected = true) ∧
      (t.getOptimalPeersForBroadcast E S x maxPeers).Nodup ∧
      (t.getOptimalPeersForBroadcast E S x maxPeers).Sublist (t.getBestPeers E S t.peers.keys.length) := by
  have heq : t.getOptimalPeersForBroadcast E S x maxPeers =
      ((t.getBestPeers E S t.peers.keys.length).filter (t.isBroadcastTarget x)).take maxPeers := by
    simpa using t.foldl_broadcastTurn x maxPeers _ (Nat.zero_le _ : ([] : List Bytes).length ≤ _)
  have hsub := (List.take_sublist maxPeers _).trans (List.filter_sublist (p := t.isBroadcastTarget x)
    (t.getBestPeers E S t.peers.keys.length))
  have htarget : ∀ id ∈ t.getOptimalPeersForBroadcast E S x maxPeers, t.isBroadcastTarget x id := by
    rw [heq]; exact fun id hid => List.of_mem_filter (List.mem_of_mem_take hid)
  refine ⟨heq, by simp [heq], fun hx => ?_, fun id hid => ?_,
    heq ▸ (getBestPeers_nodup E S _).sublist hsub, heq ▸ hsub⟩
  · simpa [Manager.isBroadcastTarget] using htarget x hx
  · have h := htarget id hid
    simp only [Manager.isBroadcastTarget, Bool.and_eq_true, bne_iff_ne] at h
    cases hl : t.peers.lookup id with
    | none => simp [hl] at h
    | some info => exact ⟨info, rfl, by simpa [hl] using h.2⟩

end Synapse.Topology
