import Synapse.Topology.Manager

/-!
# The manager's `sync.RWMutex`

Every method of `Manager` takes `t.mu`, and a goroutine running one is the list of calls
it makes on the lock. `GetOptimalPeersForBroadcast` holds the read lock while it calls
`GetBestPeers`, which takes it again; `GetNetworkMetrics` does the same with
`GetTopologyType`. The lock is `sync.RWMutex` as its documentation gives it: once a writer
has called `Lock`, `RLock` blocks until that writer has had the lock and released it, even
in a goroutine that already reads, so recursive read locking is not allowed. `Lock` is two
steps, the call that announces the writer and the moment it gets the lock.
-/

namespace Synapse.Topology

/-- A call on `t.mu`. -/
inductive LockCall where
  | rLock | rUnlock | lock | unlock
  deriving DecidableEq, Repr

/-- The methods of `Manager` that take `t.mu`. -/
inductive Method where
  | addPeer | removePeer | updatePeerQuality | updatePeerReputation | updatePeerLoad
  | getBestPeers | getTopologyType | getRoute | getPeerInfo | getConnectedPeers | getPeerCount
  | getNetworkMetrics | getOptimalPeersForBroadcast
  deriving DecidableEq, Repr

/-- The calls on `t.mu` a method makes, in order. -/
def Method.lockCalls : Method → List LockCall
  | .addPeer | .removePeer | .updatePeerQuality | .updatePeerReputation | .updatePeerLoad =>
    [.lock, .unlock]
  | .getNetworkMetrics | .getOptimalPeersForBroadcast => [.rLock, .rLock, .rUnlock, .rUnlock]
  | .getBestPeers | .getTopologyType | .getRoute | .getPeerInfo | .getConnectedPeers
  | .getPeerCount => [.rLock, .rUnlock]

/-- `sync.RWMutex`: the readers that hold it, the goroutine that holds it for writing, and
the one whose `Lock` waits for the readers to leave. -/
structure RWMutex where
  readers : Nat
  writer : Option Nat
  pending : Option Nat
  deriving DecidableEq, Repr

/-- Goroutines on one manager: the lock, and the calls each goroutine has still to make. -/
structure Sys where
  mu : RWMutex
  goroutines : List (List LockCall)
  deriving DecidableEq, Repr

namespace Sys

/-- The goroutines running the methods `ms`, the lock free. -/
def init (ms : List Method) : Sys := ⟨⟨0, none, none⟩, ms.map Method.lockCalls⟩

/-- Goroutine `g` makes its next call, if the lock lets it: `none` when the goroutine is
blocked or done. -/
def step (s : Sys) (g : Nat) : Option Sys :=
  match s.goroutines.get? g with
  | none | some [] => none
  | some (call :: rest) =>
    let next (mu : RWMutex) : Sys := ⟨mu, s.goroutines.set g rest⟩
    match call with
    | .rLock =>
      if s.mu.writer = none ∧ s.mu.pending = none then
        some (next { s.mu with readers := s.mu.readers + 1 })
      else none
    | .rUnlock => some (next { s.mu with readers := s.mu.readers - 1 })
    | .lock =>
      if s.mu.pending = some g then
        if s.mu.readers = 0 then some (next { s.mu with pending := none, writer := some g })
        else none
      else if s.mu.writer = none ∧ s.mu.pending = none then
        some { s with mu := { s.mu with pending := some g } }
      else none
    | .unlock => some (next { s.mu with writer := none })

/-- The states the goroutines can reach from `s`. -/
inductive Reachable (s : Sys) : Sys → Prop
  | refl : Reachable s s
  | step {s' s'' : Sys} (g : Nat) : Reachable s s' → s'.step g = some s'' → Reachable s s''

/-- A goroutine has calls left, and none can make one. -/
def Deadlocked (s : Sys) : Prop := (∃ calls ∈ s.goroutines, calls ≠ []) ∧ ∀ g, s.step g = none

end Sys

/-- Goroutine 0 runs `GetOptimalPeersForBroadcast` and holds the read lock; goroutine 1
calls `AddPeer`, whose `Lock` waits for that reader; the nested `RLock` of `GetBestPeers`
waits for the writer. -/
theorem nested_rLock_deadlocks :
    Sys.Reachable (Sys.init [.getOptimalPeersForBroadcast, .addPeer])
      ⟨⟨1, none, some 1⟩, [[.rLock, .rUnlock, .rUnlock], [.lock, .unlock]]⟩ ∧
    Sys.Deadlocked ⟨⟨1, none, some 1⟩, [[.rLock, .rUnlock, .rUnlock], [.lock, .unlock]]⟩ := by
  refine ⟨.step 1 (.step 0 .refl rfl) rfl, ⟨_, List.mem_cons_self _ _, nofun⟩, fun g => ?_⟩
  match g with
  | 0 => rfl
  | 1 => rfl
  | _ + 2 => rfl

end Synapse.Topology
