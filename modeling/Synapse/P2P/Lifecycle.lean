import Synapse.P2P.Network

/-!
# Starting and stopping a node

`Start` refuses to run once the listener is set, and nothing sets it back to `nil`, so at
most one `Start` returns `nil`. `Stop` runs its body under `shutdownOnce`: the first `Stop`
does the work and every later one returns at once. A `Stop` made before any `Start` uses the
once up, so a `Start` and a `Stop` after it leave the node listening.
-/

namespace Synapse.P2P.Network

open Synapse.Crypto

variable {P : Primitives} {n : Network} {a : Action}

/-- Only `Start` and `Stop` touch the listener, the cancel function and the once. -/
theorem control_step (hs : ∀ ok, a ≠ .start ok) (ht : a ≠ .stop) :
    (n.step P a).1.listener = n.listener ∧ (n.step P a).1.hasCancel = n.hasCancel ∧
      (n.step P a).1.shutdownDone = n.shutdownDone := by
  cases a with
  | start ok => exact absurd rfl (hs ok)
  | stop => exact absurd rfl ht
  | accept address clock =>
    simp only [step]; split
    · rcases openConnection_cases n address true clock with h | ⟨_, -, h⟩ <;> rw [h] <;>
        exact ⟨rfl, rfl, rfl⟩
    · exact ⟨rfl, rfl, rfl⟩
  | connect address clock =>
    simp only [step]
    rcases openConnection_cases n address false clock with h | ⟨_, -, h⟩ <;> rw [h] <;>
      exact ⟨rfl, rfl, rfl⟩
  | handshake c line clock written =>
    simp only [step]; split
    next address incoming _ =>
      rcases performSecureHandshake_cases P n c address incoming line clock written with h | ⟨id, h⟩ <;>
        rw [h] <;> split <;> exact ⟨rfl, rfl, rfl⟩
    · exact ⟨rfl, rfl, rfl⟩
  | readLine c data clock =>
    simp only [step]; split
    next address _ _ =>
      obtain ⟨msg, h | h⟩ := readMessage_cases n c address data clock
      · rw [h]; exact ⟨rfl, rfl, rfl⟩
      · rw [h]
        rcases processMessage_cases ({ n with pool := n.pool.touch c clock.unixNano } : Network)
          msg c address clock with ⟨-, h' | h'⟩ | ⟨peer, -, -, h'⟩ <;> rw [h'] <;>
          exact ⟨rfl, rfl, rfl⟩
    · exact ⟨rfl, rfl, rfl⟩
  | readEnd c => simp only [step]; split <;> exact ⟨rfl, rfl, rfl⟩
  | sweep clock => simp only [step]; split <;> exact ⟨rfl, rfl, rfl⟩

/-- Only `Start` reports what `Start` returned. -/
theorem started_not_mem_step (hs : ∀ ok, a ≠ .start ok) (b : Bool) :
    Event.started b ∉ (n.step P a).2 := by
  cases a with
  | start ok => exact absurd rfl (hs ok)
  | stop => simp [step]
  | accept => simp [step]
  | connect => simp [step]
  | handshake c line clock written =>
    simp only [step]; split
    next address incoming _ =>
      rcases performSecureHandshake_cases P n c address incoming line clock written with h | ⟨id, h⟩ <;>
        simp [h]
    · simp
  | readLine c data clock =>
    simp only [step]; split
    next address _ _ =>
      obtain ⟨msg, h | h⟩ := readMessage_cases n c address data clock
      · simp [h]
      · rcases processMessage_cases ({ n with pool := n.pool.touch c clock.unixNano } : Network)
          msg c address clock with ⟨h', -⟩ | ⟨peer, -, h', -⟩ <;> simp [h, h']
    · simp
  | readEnd c => simp only [step]; split <;> simp
  | sweep clock => simp only [step]; split <;> simp

/-- The listener, once set, stays set. -/
theorem listener_ne_none_step (h : n.listener ≠ .none) : (n.step P a).1.listener ≠ .none := by
  by_cases hs : ∃ ok, a = .start ok
  · obtain ⟨ok, rfl⟩ := hs
    simp [step, start, h]
  by_cases ht : a = .stop
  · subst ht
    simp only [step, stop]
    split <;> simp [h]
  · rw [(control_step (fun ok e => hs ⟨ok, e⟩) ht).1]; exact h

/-- The count of `Start`s that returned `nil` is at most one, and zero while the listener
is unset. -/
def StartedOnce (n : Network) (evs : List Event) : Prop :=
  evs.count (.started true) ≤ if n.listener = .none then 0 else 1

theorem startedOnce_step {evs : List Event} (h : StartedOnce n evs) :
    StartedOnce (n.step P a).1 (evs ++ (n.step P a).2) := by
  unfold StartedOnce at *
  by_cases hs : ∃ ok, a = .start ok
  · obtain ⟨ok, rfl⟩ := hs
    by_cases hl : n.listener = .none
    · simp only [hl, if_true, Nat.le_zero] at h
      cases ok <;> simp [step, start, hl, h]
    · simp only [hl, if_false] at h
      simpa [step, start, hl] using h
  · have hn : (n.step P a).2.count (.started true) = 0 :=
      List.count_eq_zero.mpr (started_not_mem_step (fun ok e => hs ⟨ok, e⟩) true)
    rw [List.count_append, hn, Nat.add_zero]
    refine h.trans ?_
    split
    · exact Nat.zero_le _
    · rw [if_neg (listener_ne_none_step ‹_›)]

/-- `Stop` is the only step that uses the once. -/
theorem shutdownDone_step (ht : a ≠ .stop) : (n.step P a).1.shutdownDone = n.shutdownDone := by
  by_cases hs : ∃ ok, a = .start ok
  · obtain ⟨ok, rfl⟩ := hs
    simp only [step, start]; split <;> rfl
  · exact (control_step (fun ok e => hs ⟨ok, e⟩) ht).2.2

/-- The cancel function, once set, is only used by `Stop`. -/
theorem hasCancel_step (ht : a ≠ .stop) (h : n.hasCancel = true) :
    (n.step P a).1.hasCancel = true := by
  by_cases hs : ∃ ok, a = .start ok
  · obtain ⟨ok, rfl⟩ := hs
    simp only [step, start]; split
    · exact h
    · rfl
  · rw [(control_step (fun ok e => hs ⟨ok, e⟩) ht).2.1, h]

/-- A `Start` that returns `nil` leaves the node listening, with its cancel function set. -/
theorem listening_of_started_step (h : Event.started true ∈ (n.step P a).2) :
    (n.step P a).1.listener = .listening ∧ (n.step P a).1.hasCancel = true := by
  by_cases hs : ∃ ok, a = .start ok
  · obtain ⟨ok, rfl⟩ := hs
    simp only [step, List.mem_singleton, Event.started.injEq] at h ⊢
    unfold start at h ⊢
    by_cases hl : n.listener = .none
    · simp only [hl, ne_eq, not_true_eq_false, if_false] at h ⊢
      simp [← h]
    · simp [hl] at h
  · exact absurd h (started_not_mem_step (fun ok e => hs ⟨ok, e⟩) true)

/-- Before the first `Stop` the once is unused, and after a `Start` that returned `nil` the
listener and the cancel function are set. -/
def BeforeStop (n : Network) (evs : List Event) : Prop :=
  n.shutdownDone = false ∧ (Event.started true ∈ evs → n.listener ≠ .none ∧ n.hasCancel = true)

theorem beforeStop_step {evs : List Event} (ht : a ≠ .stop) (h : BeforeStop n evs) :
    BeforeStop (n.step P a).1 (evs ++ (n.step P a).2) := by
  refine ⟨(shutdownDone_step ht).trans h.1, fun hm => ?_⟩
  rcases List.mem_append.mp hm with hm | hm
  · exact ⟨listener_ne_none_step (h.2 hm).1, hasCancel_step ht (h.2 hm).2⟩
  · have := listening_of_started_step hm
    exact ⟨by simp [this.1], this.2⟩

/-- The node has stopped: its context is done, its listener closed, every pooled
connection closed, and `n.peers` empty. -/
structure Stopped (n : Network) : Prop where
  ctxDone : n.ctxDone = true
  listener : n.listener = .closed
  connections : ∀ c, c ∈ n.pool.connections → c ∈ n.closed
  peers : n.peers = ∅

/-- The first `Stop` after a `Start` that returned `nil` stops the node. -/
theorem stopped_stop {evs : List Event} (h : BeforeStop n evs) (hs : Event.started true ∈ evs) :
    Stopped (n.step P .stop).1 where
  ctxDone := by simp [step, stop, h.1, (h.2 hs).2]
  listener := by simp [step, stop, h.1, (h.2 hs).1]
  connections c hc := by
    simp only [step, stop, h.1] at hc ⊢
    exact List.mem_append_left _ (AList.mem_keys.mp hc)
  peers := by simp [step, stop, h.1]

/-- **At most one `Start` returns `nil`, and the first `Stop`, when it comes after a `Start`
that returned `nil`, stops the node.** -/
theorem start_once_and_first_stop_stops {key : KeyId} {nodeID : Bytes} {maxPeers : Int}
    {n0 : Network} (h0 : Network.new key nodeID maxPeers = some n0) :
    (∀ acts, (run P n0 acts).2.count (.started true) ≤ 1) ∧
    ∀ pre, (∀ a ∈ pre, a ≠ .stop) → Event.started true ∈ (run P n0 pre).2 →
      Stopped ((run P n0 pre).1.step P .stop).1 := by
  have init : n0.listener = .none ∧ n0.shutdownDone = false := by
    unfold Network.new at h0
    split at h0 <;> cases h0
    exact ⟨rfl, rfl⟩
  refine ⟨fun acts => ?_, fun pre hpre hs => ?_⟩
  · have h := run_induction (P := P) (fun _ => True) StartedOnce
      (fun _ _ _ _ => startedOnce_step) n0 [] (by simp [StartedOnce]) acts (fun _ _ => trivial)
    unfold StartedOnce at h
    split at h <;> simpa using h.trans (by omega)
  · have h := run_induction (P := P) (fun a => a ≠ .stop) BeforeStop
      (fun _ _ _ ha => beforeStop_step ha) n0 [] ⟨init.2, by simp⟩ pre hpre
    rw [List.nil_append] at h
    exact stopped_stop h hs

theorem start_once_and_first_stop_stops_node :
    ∃ n0, Network.new 0 (ascii "N") 50 = some n0 ∧
      (∀ acts, (run Primitives.ideal n0 acts).2.count (.started true) ≤ 1) ∧
      ∀ pre, (∀ a ∈ pre, a ≠ .stop) → Event.started true ∈ (run Primitives.ideal n0 pre).2 →
        Stopped ((run Primitives.ideal n0 pre).1.step Primitives.ideal .stop).1 :=
  ⟨_, rfl, @start_once_and_first_stop_stops Primitives.ideal 0 (ascii "N") 50 _ rfl⟩

/-- A `Stop` before any `Start` uses the once up: the `Stop` after a `Start` that returned
`nil` does nothing, and the node still listens. -/
theorem stop_before_start_keeps_listening :
    ∃ n0, Network.new 0 (ascii "N") 50 = some n0 ∧
      Event.started true ∈ (run Primitives.ideal n0 [.stop, .start true]).2 ∧
      ¬ Stopped ((run Primitives.ideal n0 [.stop, .start true]).1.step Primitives.ideal .stop).1 :=
  ⟨_, rfl, by decide, fun h => absurd h.listener (by decide)⟩

end Synapse.P2P.Network
