import Mathlib.Data.List.AList
import Synapse.Json.Utf8

/-!
# Connections, peers and the pool (`pool.go`)

A `Connection` is shared by pointer between the pool, the task that reads from it and
the `Peer` it is bound to; `ConnId` is that pointer's identity, and the pool's map is
keyed by it. Closing a connection's socket is an effect the pool's operations report:
each returns the connections it closed. Times are nanoseconds.

`ConnectionPool` keeps `NewConnectionPool`'s default: its capacity is positive.
-/

namespace Synapse.P2P

/-- A Go map. The model fixes no iteration order and nothing below depends on one. -/
abbrev GoMap (K V : Type) := AList (fun _ : K => V)

/-- The identity of a `*Connection`. -/
abbrev ConnId := Nat

/-- `Connection`. -/
structure Connection where
  id : ConnId
  address : Bytes
  lastSeen : Int
  deriving DecidableEq, Repr

/-- `Connection.IsActive(timeout)` at time `now`. -/
def Connection.isActive (c : Connection) (now timeout : Int) : Bool := now - c.lastSeen < timeout

/-- `Peer`, with its `Connection` pointer. -/
structure Peer where
  id : Bytes
  address : Bytes
  version : Bytes
  lastSeen : Int
  connection : Option ConnId
  deriving DecidableEq, Repr

/-- `NewPeer`, made at time `now`, with no connection yet. -/
def newPeer (id address version : Bytes) (now : Int) : Peer := ⟨id, address, version, now, none⟩

/-- `Peer.SetConnection`. -/
def Peer.setConnection (p : Peer) (c : ConnId) : Peer := { p with connection := some c }

/-- `DefaultMaxConnections`. -/
def DefaultMaxConnections : Nat := 50

/-- `DefaultConnectionTimeout`, thirty seconds. -/
def DefaultConnectionTimeout : Int := 30 * 10 ^ 9

/-- `ConnectionPool`. -/
structure ConnectionPool where
  maxConnections : Nat
  timeout : Int
  connections : GoMap ConnId Connection
  peers : GoMap Bytes Peer
  maxConnections_pos : 0 < maxConnections

namespace ConnectionPool

/-- `NewConnectionPool`: a capacity or timeout that is not positive takes the default. -/
def new (maxConnections : Int) (timeout : Int) : ConnectionPool where
  maxConnections := if maxConnections ≤ 0 then DefaultMaxConnections else maxConnections.toNat
  timeout := if timeout ≤ 0 then DefaultConnectionTimeout else timeout
  connections := ∅
  peers := ∅
  maxConnections_pos := by unfold DefaultMaxConnections; split <;> omega

/-- The error of `AddConnection`: `connection pool at maximum capacity (%d)`. -/
structure CapacityError where
  maxConnections : Nat
  deriving DecidableEq, Repr

/-- `AddConnection`. -/
def addConnection (cp : ConnectionPool) (c : Connection) : Except CapacityError ConnectionPool :=
  if cp.connections.keys.length ≥ cp.maxConnections then .error ⟨cp.maxConnections⟩
  else .ok { cp with connections := cp.connections.insert c.id c }

theorem addConnection_ok {cp cp' : ConnectionPool} {c : Connection}
    (h : cp.addConnection c = .ok cp') :
    cp'.peers = cp.peers ∧ cp'.connections = cp.connections.insert c.id c := by
  unfold addConnection at h
  split at h <;> cases h
  exact ⟨rfl, rfl⟩

/-- `RemoveConnection`: a connection still in the pool is closed and deleted; the
connections closed are returned. -/
def removeConnection (cp : ConnectionPool) (id : ConnId) : ConnectionPool × List ConnId :=
  if id ∈ cp.connections then ({ cp with connections := cp.connections.erase id }, [id])
  else (cp, [])

@[simp] theorem peers_removeConnection (cp : ConnectionPool) (id : ConnId) :
    (cp.removeConnection id).1.peers = cp.peers := by
  unfold removeConnection; split <;> rfl

theorem mem_removeConnection {cp : ConnectionPool} {id k : ConnId} :
    k ∈ (cp.removeConnection id).1.connections ↔ k ≠ id ∧ k ∈ cp.connections := by
  unfold removeConnection
  split
  · exact AList.mem_erase
  · exact ⟨fun h => ⟨fun e => by simp_all, h⟩, And.right⟩

/-- `AddPeer`. -/
def addPeer (cp : ConnectionPool) (p : Peer) : ConnectionPool :=
  { cp with peers := cp.peers.insert p.id p }

@[simp] theorem connections_addPeer (cp : ConnectionPool) (p : Peer) :
    (cp.addPeer p).connections = cp.connections := rfl

@[simp] theorem peers_addPeer (cp : ConnectionPool) (p : Peer) :
    (cp.addPeer p).peers = cp.peers.insert p.id p := rfl

/-- `RemovePeer`. -/
def removePeer (cp : ConnectionPool) (id : Bytes) : ConnectionPool :=
  { cp with peers := cp.peers.erase id }

/-- `UpdateLastSeen` on a connection, seen through the pool's pointer to it. -/
def touch (cp : ConnectionPool) (id : ConnId) (now : Int) : ConnectionPool :=
  match cp.connections.lookup id with
  | some c => { cp with connections := cp.connections.insert id { c with lastSeen := now } }
  | none => cp

@[simp] theorem peers_touch (cp : ConnectionPool) (id : ConnId) (now : Int) :
    (cp.touch id now).peers = cp.peers := by
  unfold touch; split <;> rfl

@[simp] theorem mem_touch {cp : ConnectionPool} {id k : ConnId} {now : Int} :
    k ∈ (cp.touch id now).connections ↔ k ∈ cp.connections := by
  unfold touch
  split
  · rename_i c hc
    simp only [AList.mem_insert, or_iff_right_iff_imp]
    rintro rfl
    exact AList.lookup_isSome.mp (by simp [hc])
  · exact Iff.rfl

/-- `cleanInactiveConnections` at time `now`: every connection that is not active is
closed and deleted; the connections closed are returned. -/
def cleanInactiveConnections (cp : ConnectionPool) (now : Int) : ConnectionPool × List ConnId :=
  let inactive := (cp.connections.entries.filter fun e => !e.2.isActive now cp.timeout).map (·.1)
  ({ cp with connections := inactive.foldl (fun m id => m.erase id) cp.connections }, inactive)

theorem mem_foldl_erase {β : Type} {k : ConnId} (ids : List ConnId) (m : GoMap ConnId β) :
    k ∈ ids.foldl (fun m id => m.erase id) m ↔ k ∉ ids ∧ k ∈ m := by
  induction ids generalizing m with
  | nil => simp
  | cons i is ih => simp only [List.foldl_cons, ih, AList.mem_erase, List.mem_cons, not_or]; tauto

@[simp] theorem peers_cleanInactiveConnections (cp : ConnectionPool) (now : Int) :
    (cp.cleanInactiveConnections now).1.peers = cp.peers := rfl

theorem mem_cleanInactiveConnections {cp : ConnectionPool} {now : Int} {k : ConnId} :
    k ∈ (cp.cleanInactiveConnections now).1.connections ↔
      k ∉ (cp.cleanInactiveConnections now).2 ∧ k ∈ cp.connections :=
  mem_foldl_erase _ _

end ConnectionPool

end Synapse.P2P
