import Mathlib.Data.Rat.Defs
import Synapse.P2P.Pool

/-!
# The topology manager (`manager.go`)

The manager's peer map and the operations on it. A stored `float64` field is the rational
it equals, and a `time.Duration` its count of nanoseconds. The calls here only store and
copy such values; the scores and ranks computed from them round as Go's `float64` does
(`Synapse.Topology.Float64`).
-/

namespace Synapse.Topology

open Synapse.P2P (GoMap)

/-- `ConnectionQuality`. -/
structure ConnectionQuality where
  latency : Int
  bandwidth : ℚ
  packetLoss : ℚ
  jitter : Int
  lastUpdate : Int
  deriving DecidableEq

/-- `PeerInfo`. -/
structure PeerInfo where
  id : Bytes
  address : Bytes
  quality : ConnectionQuality
  lastSeen : Int
  connected : Bool
  reputation : ℚ
  load : Int
  deriving DecidableEq

/-- `topology.Peer`, what `AddPeer` is given. -/
structure Peer where
  id : Bytes
  address : Bytes
  version : Bytes
  lastSeen : Int

/-- `Manager`. -/
structure Manager where
  maxPeers : Int
  meshThreshold : Nat
  peers : GoMap Bytes PeerInfo

namespace Manager

/-- `NewManager`: the mesh threshold is ten peers. -/
def new (maxPeers : Int) : Manager := ⟨maxPeers, 10, ∅⟩

/-- The quality `AddPeer` starts a peer with: one second of latency, 1 Mbps, no loss,
ten milliseconds of jitter. -/
def defaultQuality (now : Int) : ConnectionQuality := ⟨10 ^ 9, 1, 0, 10 ^ 7, now⟩

/-- `AddPeer` at time `now`: a connected peer of reputation zero, replacing any entry
of the same id. -/
def addPeer (t : Manager) (p : Peer) (now : Int) : Manager :=
  { t with peers := t.peers.insert p.id ⟨p.id, p.address, defaultQuality now, now, true, 0, 0⟩ }

/-- `RemovePeer`. -/
def removePeer (t : Manager) (id : Bytes) : Manager := { t with peers := t.peers.erase id }

/-- An update of a known peer's entry in place; an unknown id is left alone. -/
def modifyPeer (t : Manager) (id : Bytes) (f : PeerInfo → PeerInfo) : Manager :=
  match t.peers.lookup id with
  | some info => { t with peers := t.peers.insert id (f info) }
  | none => t

/-- `UpdatePeerQuality` at time `now`. -/
def updatePeerQuality (t : Manager) (id : Bytes) (q : ConnectionQuality) (now : Int) : Manager :=
  t.modifyPeer id fun info => { info with quality := q, lastSeen := now }

/-- `UpdatePeerReputation`: the value is stored as given. -/
def updatePeerReputation (t : Manager) (id : Bytes) (r : ℚ) : Manager :=
  t.modifyPeer id fun info => { info with reputation := r }

/-- `UpdatePeerLoad`. -/
def updatePeerLoad (t : Manager) (id : Bytes) (load : Int) : Manager :=
  t.modifyPeer id fun info => { info with load := load }

/-- `GetPeerInfo`: a copy of the entry. -/
def getPeerInfo (t : Manager) (id : Bytes) : Option PeerInfo := t.peers.lookup id

/-- `GetTopologyType`. -/
def getTopologyType (t : Manager) : Bytes :=
  if t.peers.keys.length ≤ 3 then ascii "star"
  else if t.peers.keys.length ≤ t.meshThreshold then ascii "full-mesh"
  else ascii "partial-mesh"

@[simp] theorem lookup_modifyPeer_self (t : Manager) (id : Bytes) (f : PeerInfo → PeerInfo) :
    (t.modifyPeer id f).peers.lookup id = (t.peers.lookup id).map f := by
  unfold modifyPeer; split <;> simp_all

theorem lookup_modifyPeer_ne (t : Manager) {id id' : Bytes} (f : PeerInfo → PeerInfo)
    (h : id' ≠ id) : (t.modifyPeer id f).peers.lookup id' = t.peers.lookup id' := by
  unfold modifyPeer; split <;> simp [AList.lookup_insert_ne h]

end Manager

end Synapse.Topology
