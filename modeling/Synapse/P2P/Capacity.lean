import Synapse.P2P.Pool

/-!
# The pool's capacity

`AddConnection` refuses a connection once the map holds `maxConnections` of them, before it
touches anything, and is the only call that adds to the map: `RemoveConnection` and the sweep
only delete, and the peer calls leave the connections alone. So from `NewConnectionPool` on,
the map never holds more than the capacity, whatever the calls and however a connection id
comes back. A connection added again under an id the pool holds replaces the old one; at
capacity, it is refused all the same.
-/

namespace Synapse.P2P

/-- A call on the pool. -/
inductive PoolOp where
  | addConnection (c : Connection)
  | removeConnection (id : ConnId)
  /-- A sweep of `cleanInactiveConnections` at time `now`. -/
  | cleanInactiveConnections (now : Int)
  | addPeer (p : Peer)
  | removePeer (id : Bytes)

namespace ConnectionPool

/-- The pool after the call; a refused `AddConnection` leaves it as it was. -/
def apply (cp : ConnectionPool) : PoolOp → ConnectionPool
  | .addConnection c =>
    match cp.addConnection c with
    | .ok cp' => cp'
    | .error _ => cp
  | .removeConnection id => (cp.removeConnection id).1
  | .cleanInactiveConnections now => (cp.cleanInactiveConnections now).1
  | .addPeer p => cp.addPeer p
  | .removePeer id => cp.removePeer id

/-- The pool after the calls, in order. -/
def run (cp : ConnectionPool) (ops : List PoolOp) : ConnectionPool := ops.foldl apply cp

/-- The map holds at most `maxConnections` connections. -/
def Bounded (cp : ConnectionPool) : Prop := cp.connections.keys.length ≤ cp.maxConnections

theorem maxConnections_new (m t : Int) :
    (new m t).maxConnections = if 0 < m then m.toNat else 50 := by
  by_cases h : 0 < m
  · simp [new, h, not_le.mpr h]
  · simp [new, h, le_of_not_lt h, DefaultMaxConnections]

/-! ## The size of the map -/

section Keys

variable {β : Type} (m : GoMap ConnId β)

theorem length_keys_insert_le (k : ConnId) (v : β) : (m.insert k v).keys.length ≤ m.keys.length + 1 := by
  rw [AList.keys_insert, List.length_cons]
  exact Nat.succ_le_succ (List.length_erase_le _ _)

theorem length_keys_erase_le (k : ConnId) : (m.erase k).keys.length ≤ m.keys.length := by
  rw [AList.keys_erase]
  exact List.length_erase_le _ _

theorem length_keys_foldl_erase_le (ids : List ConnId) :
    (ids.foldl (fun m id => m.erase id) m).keys.length ≤ m.keys.length := by
  induction ids generalizing m with
  | nil => exact le_rfl
  | cons i is ih => exact (ih _).trans (length_keys_erase_le m i)

end Keys

/-! ## One call, then a run -/

/-- `AddConnection` fails exactly at capacity, with the capacity in its error. -/
theorem addConnection_error_iff (cp : ConnectionPool) (c : Connection) (e : CapacityError) :
    cp.addConnection c = .error e ↔ cp.maxConnections ≤ cp.connections.keys.length ∧ e = ⟨cp.maxConnections⟩ := by
  unfold addConnection
  split <;> simp_all [eq_comm]

theorem apply_addConnection (cp : ConnectionPool) (c : Connection) :
    cp.apply (.addConnection c) = if cp.maxConnections ≤ cp.connections.keys.length then cp
      else { cp with connections := cp.connections.insert c.id c } := by
  unfold apply addConnection
  split_ifs <;> rfl

theorem apply_removeConnection (cp : ConnectionPool) (id : ConnId) :
    cp.apply (.removeConnection id) = (cp.removeConnection id).1 := rfl

@[simp] theorem maxConnections_apply (cp : ConnectionPool) (op : PoolOp) :
    (cp.apply op).maxConnections = cp.maxConnections := by
  cases op with
  | addConnection c => rw [apply_addConnection]; split <;> rfl
  | removeConnection id => rw [apply_removeConnection, removeConnection]; split <;> rfl
  | cleanInactiveConnections | addPeer | removePeer => rfl

theorem maxConnections_run (cp : ConnectionPool) (ops : List PoolOp) :
    (cp.run ops).maxConnections = cp.maxConnections := by
  induction ops generalizing cp with
  | nil => rfl
  | cons op ops ih => exact (ih _).trans (maxConnections_apply cp op)

theorem bounded_new (m t : Int) : (new m t).Bounded := by
  simp [Bounded, new]

/-- **Every call keeps the map within capacity.** -/
theorem Bounded.apply {cp : ConnectionPool} (h : cp.Bounded) (op : PoolOp) : (cp.apply op).Bounded := by
  unfold Bounded at *
  rw [maxConnections_apply]
  cases op with
  | addConnection c =>
    rw [apply_addConnection]
    split_ifs with hfull
    · exact h
    · exact (length_keys_insert_le _ _ _).trans (by omega)
  | removeConnection id =>
    rw [apply_removeConnection, removeConnection]
    split
    · exact (length_keys_erase_le _ _).trans h
    · exact h
  | cleanInactiveConnections now => exact (length_keys_foldl_erase_le _ _).trans h
  | addPeer | removePeer => exact h

theorem Bounded.run {cp : ConnectionPool} (h : cp.Bounded) (ops : List PoolOp) : (cp.run ops).Bounded := by
  induction ops generalizing cp with
  | nil => exact h
  | cons op ops ih => exact ih (h.apply op)

/-- **From `NewConnectionPool(l, m, t)`, the pool never holds more than its capacity**: `m`,
or fifty when `m` is not positive. In every reachable state `AddConnection` fails exactly when
the map is full, and then it reports the capacity and leaves the pool as it was. -/
theorem pool_within_capacity (m t : Int) (ops : List PoolOp) (c : Connection) :
    ((new m t).run ops).connections.keys.length ≤ (if 0 < m then m.toNat else 50) ∧
    ((∃ e, ((new m t).run ops).addConnection c = .error e) ↔
      (if 0 < m then m.toNat else 50) ≤ ((new m t).run ops).connections.keys.length) ∧
    ∀ e, ((new m t).run ops).addConnection c = .error e →
      e = ⟨if 0 < m then m.toNat else 50⟩ ∧
        ((new m t).run ops).apply (.addConnection c) = (new m t).run ops := by
  have hmax : ((new m t).run ops).maxConnections = if 0 < m then m.toNat else 50 := by
    rw [maxConnections_run, maxConnections_new]
  refine ⟨hmax ▸ (bounded_new m t).run ops, ?_, fun e he => ?_⟩
  · simp only [addConnection_error_iff, hmax, exists_eq_right]
  · obtain ⟨hfull, rfl⟩ := (addConnection_error_iff _ _ _).mp he
    exact ⟨hmax ▸ rfl, by rw [apply_addConnection, if_pos hfull]⟩

end ConnectionPool

end Synapse.P2P
