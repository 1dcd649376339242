import Synapse.Topology.Ranking

/-!
# The route cache (`routing.go`)

`RouteMessage(t)` looks `t` up in the cache under the read lock and returns a hit. On a miss
it drops the read lock, takes the write lock, and looks again: only if the entry is still
missing does it compute the route and store it. `UpdateRouteCache` empties the cache under
the write lock. Concurrent calls interleave between these sections, and the manager changes
under its own lock in between, so the model is a step function over all goroutines: each
lock-held section is one step (`RouterAction`), and a step of a goroutine that cannot take it
changes nothing.

The system also counts the calls of `UpdateRouteCache` so far (`epoch`), and records each
call's result with the epoch of the step it returned in. A route is computed only when the
second look-up misses, so an entry, once stored, stays until the cache is emptied, and every
call that returns between two `UpdateRouteCache`s returns that entry (`Consistent`). The
route computed reads the manager at that step; nothing below depends on what it is.
-/

namespace Synapse.Topology

open Synapse.P2P (GoMap)

/-- `Direct`, `Gossip` and `ShortestPath`, the values of `RoutingStrategy`. -/
def Direct : Int := 0

def Gossip : Int := 1

def ShortestPath : Int := 2

/-- `Router`. -/
structure Router where
  manager : Manager
  strategy : Int
  routeCache : GoMap Bytes (List Bytes)

/-- `NewRouter`. -/
def newRouter (manager : Manager) (strategy : Int) : Router := ⟨manager, strategy, ∅⟩

namespace Router

/-- `directRoute`: the target alone, if the manager knows it. -/
def directRoute (r : Router) (targetID : Bytes) : List Bytes :=
  match r.manager.getPeerInfo targetID with
  | some _ => [targetID]
  | none => []

/-- `gossipRoute`: the three best peers. -/
def gossipRoute (r : Router) (E : Enumeration r.manager.peers) (S : SortSlice) : List Bytes :=
  r.manager.getBestPeers E S 3

/-- `shortestPathRoute`: the target alone if known, else the two best peers. -/
def shortestPathRoute (r : Router) (E : Enumeration r.manager.peers) (S : SortSlice)
    (targetID : Bytes) : List Bytes :=
  match r.manager.getPeerInfo targetID with
  | some _ => [targetID]
  | none => r.manager.getBestPeers E S 2

/-- The `switch` of `RouteMessage` on the strategy; another value routes directly. -/
def computeRoute (r : Router) (E : Enumeration r.manager.peers) (S : SortSlice)
    (targetID : Bytes) : List Bytes :=
  if r.strategy = Direct then r.directRoute targetID
  else if r.strategy = Gossip then r.gossipRoute E S
  else if r.strategy = ShortestPath then r.shortestPathRoute E S targetID
  else r.directRoute targetID

end Router

/-- Where a goroutine in `RouteMessage` stands. -/
inductive CallPhase where
  /-- Before the look-up under the read lock. -/
  | start
  /-- The first look-up missed; waiting for the write lock. -/
  | missed
  /-- Returned `route`, from a look-up or a write made while `epoch` calls of
  `UpdateRouteCache` had been made. -/
  | returned (route : List Bytes) (epoch : Nat)

/-- The router, the `RouteMessage` goroutines with their targets, and how many times
`UpdateRouteCache` has run. -/
structure RouterSys where
  router : Router
  calls : List (Bytes × CallPhase)
  epoch : Nat

/-- A step of the system. -/
inductive RouterAction where
  /-- A goroutine calls `RouteMessage(targetID)`. -/
  | call (targetID : Bytes)
  /-- Goroutine `g` runs its section under the read lock. -/
  | readLocked (g : Nat)
  /-- Goroutine `g` runs its section under the write lock; if it computes a route, `range`
  enumerates the manager's map in the order `E` gives. -/
  | writeLocked (g : Nat) (E : (t : Manager) → Enumeration t.peers)
  | updateRouteCache
  /-- The manager changes, by any of its calls. -/
  | manager (t : Manager)

namespace RouterSys

variable (S : SortSlice)

/-- The system with no call made yet. -/
def init (r : Router) : RouterSys := ⟨r, [], 0⟩

/-- Goroutine `g`, called for `t`, returns `route`. -/
def finishCall (s : RouterSys) (g : Nat) (t : Bytes) (route : List Bytes) : RouterSys :=
  { s with calls := s.calls.set g (t, .returned route s.epoch) }

/-- The look-up under `r.mu.RLock()`. -/
def readLocked (s : RouterSys) (g : Nat) : RouterSys :=
  match s.calls.get? g with
  | some (t, .start) =>
    match s.router.routeCache.lookup t with
    | some route => s.finishCall g t route
    | none => { s with calls := s.calls.set g (t, .missed) }
  | _ => s

/-- The section under `r.mu.Lock()`: the second look-up, and on a miss the route computed and
stored. -/
def writeLocked (s : RouterSys) (g : Nat) (E : Enumeration s.router.manager.peers) : RouterSys :=
  match s.calls.get? g with
  | some (t, .missed) =>
    match s.router.routeCache.lookup t with
    | some route => s.finishCall g t route
    | none =>
      { s.finishCall g t (s.router.computeRoute E S t) with
        router := { s.router with
          routeCache := s.router.routeCache.insert t (s.router.computeRoute E S t) } }
  | _ => s

/-- One step. -/
def step (s : RouterSys) : RouterAction → RouterSys
  | .call t => { s with calls := s.calls ++ [(t, .start)] }
  | .readLocked g => s.readLocked g
  | .writeLocked g E => s.writeLocked S g (E s.router.manager)
  | .updateRouteCache => { s with router := { s.router with routeCache := ∅ }, epoch := s.epoch + 1 }
  | .manager t => { s with router := { s.router with manager := t } }

/-- The system after the steps, in order. -/
def run (s : RouterSys) (acts : List RouterAction) : RouterSys := acts.foldl (step S) s

/-! ## What one step does -/

variable {S} {s : RouterSys}

theorem mem_finishCall {g : Nat} {t : Bytes} {route : List Bytes} {x : Bytes × CallPhase}
    (h : x ∈ (s.finishCall g t route).calls) :
    x ∈ s.calls ∨ x = (t, .returned route s.epoch) :=
  List.mem_or_eq_of_mem_set h

/-- **A step adds at most one result, in the current epoch**: the route the cache then holds
for its target, and the one it held before, if any. -/
theorem mem_returned_step {a : RouterAction} {t : Bytes} {route : List Bytes} {ep : Nat}
    (h : (t, CallPhase.returned route ep) ∈ (s.step S a).calls) :
    (t, CallPhase.returned route ep) ∈ s.calls ∨
      (ep = s.epoch ∧ (s.step S a).router.routeCache.lookup t = some route ∧
        ∀ r, s.router.routeCache.lookup t = some r → r = route) := by
  cases a with
  | call t' => exact .inl (by simpa [step] using h)
  | readLocked g =>
    simp only [step, readLocked] at h ⊢
    split at h
    · rename_i t' _
      split at h
      · rename_i route' hl
        rcases mem_finishCall h with h | h
        · exact .inl h
        · simp only [Prod.mk.injEq, CallPhase.returned.injEq] at h
          obtain ⟨rfl, rfl, rfl⟩ := h
          refine .inr ⟨rfl, ?_, fun r hr => ?_⟩ <;> simp_all [finishCall]
      · rcases List.mem_or_eq_of_mem_set h with h | h
        · exact .inl h
        · simp at h
    · exact .inl h
  | writeLocked g E =>
    simp only [step, writeLocked] at h ⊢
    split at h
    · split at h
      · rename_i route' hl
        rcases mem_finishCall h with h | h
        · exact .inl h
        · simp only [Prod.mk.injEq, CallPhase.returned.injEq] at h
          obtain ⟨rfl, rfl, rfl⟩ := h
          refine .inr ⟨rfl, ?_, fun r hr => ?_⟩ <;> simp_all [finishCall]
      · rename_i hl
        rcases mem_finishCall h with h | h
        · exact .inl h
        · simp only [Prod.mk.injEq, CallPhase.returned.injEq] at h
          obtain ⟨rfl, rfl, rfl⟩ := h
          exact .inr ⟨rfl, by simp [finishCall, AList.lookup_insert], by simp [hl]⟩
    · exact .inl h
  | updateRouteCache => exact .inl h
  | manager t' => exact .inl h

/-- **Only `UpdateRouteCache` removes or replaces a cache entry.** -/
theorem lookup_step {a : RouterAction} (ha : a ≠ .updateRouteCache) {t : Bytes} {route : List Bytes}
    (h : s.router.routeCache.lookup t = some route) :
    (s.step S a).router.routeCache.lookup t = some route := by
  cases a with
  | readLocked g =>
    simp only [step, readLocked]
    split
    · split <;> exact h
    · exact h
  | writeLocked g E =>
    simp only [step, writeLocked]
    split
    next _ t' _ =>
      split
      · exact h
      next _ hl =>
        have hne : t ≠ t' := by rintro rfl; rw [hl] at h; cases h
        simpa [AList.lookup_insert_ne hne] using h
    · exact h
  | updateRouteCache => exact absurd rfl ha
  | call | manager => exact h

theorem epoch_step {a : RouterAction} (ha : a ≠ .updateRouteCache) : (s.step S a).epoch = s.epoch := by
  cases a with
  | readLocked g =>
    simp only [step, readLocked]
    split
    · split <;> rfl
    · rfl
  | writeLocked g E =>
    simp only [step, writeLocked]
    split
    · split <;> rfl
    · rfl
  | updateRouteCache => exact absurd rfl ha
  | call | manager => rfl

/-! ## Every run -/

/-- The results so far agree with the cache: a call that returned in the current epoch returned
the entry the cache holds; two calls for one target that returned in one epoch returned one
route; and no call returned in a later epoch than the current one. -/
structure Consistent (s : RouterSys) : Prop where
  current : ∀ t route, (t, CallPhase.returned route s.epoch) ∈ s.calls →
    s.router.routeCache.lookup t = some route
  agree : ∀ t ep r₁ r₂, (t, CallPhase.returned r₁ ep) ∈ s.calls →
    (t, CallPhase.returned r₂ ep) ∈ s.calls → r₁ = r₂
  past : ∀ t route ep, (t, CallPhase.returned route ep) ∈ s.calls → ep ≤ s.epoch

theorem consistent_init (r : Router) : Consistent (init r) :=
  ⟨fun _ _ h => absurd h (List.not_mem_nil _), fun _ _ _ _ h => absurd h (List.not_mem_nil _),
    fun _ _ _ h => absurd h (List.not_mem_nil _)⟩

/-- **Every step keeps the results consistent with the cache.** -/
theorem Consistent.step (h : Consistent s) (a : RouterAction) : Consistent (s.step S a) := by
  by_cases ha : a = .updateRouteCache
  · subst ha
    refine ⟨fun t route hm => ?_, h.agree, fun t route ep hm => ?_⟩
    · have := h.past _ _ _ hm
      simp only [RouterSys.step] at this
      omega
    · exact (h.past _ _ _ hm).trans (Nat.le_succ _)
  · have hep := epoch_step (S := S) (s := s) ha
    refine ⟨fun t route hm => ?_, fun t ep r₁ r₂ h₁ h₂ => ?_, fun t route ep hm => ?_⟩
    · rw [hep] at hm
      rcases mem_returned_step hm with hm | ⟨-, hl, -⟩
      · exact lookup_step ha (h.current _ _ hm)
      · exact hl
    · rcases mem_returned_step h₁ with h₁ | ⟨rfl, hl₁, hu₁⟩ <;>
        rcases mem_returned_step h₂ with h₂ | ⟨hep₂, hl₂, hu₂⟩
      · exact h.agree _ _ _ _ h₁ h₂
      · exact hu₂ _ (h.current _ _ (hep₂ ▸ h₁))
      · exact (hu₁ _ (h.current _ _ h₂)).symm
      · exact Option.some.inj (hl₁.symm.trans hl₂)
    · rw [hep]
      rcases mem_returned_step hm with hm | ⟨rfl, -, -⟩
      · exact h.past _ _ _ hm
      · exact le_rfl

theorem Consistent.run (h : Consistent s) (acts : List RouterAction) : Consistent (s.run S acts) := by
  induction acts generalizing s with
  | nil => exact h
  | cons a as ih => exact ih (h.step a)

theorem lookup_run {acts : List RouterAction} (ha : RouterAction.updateRouteCache ∉ acts)
    {t : Bytes} {route : List Bytes} (h : s.router.routeCache.lookup t = some route) :
    (s.run S acts).router.routeCache.lookup t = some route := by
  induction acts generalizing s with
  | nil => exact h
  | cons a as ih =>
    exact ih (fun hm => ha (List.mem_cons_of_mem _ hm))
      (lookup_step (fun e => ha (e ▸ List.mem_cons_self _ _)) h)

/-- **An entry, once stored, stays until the next `UpdateRouteCache`, and calls that return
between the same two `UpdateRouteCache`s return the same route**: for every router, every
interleaving of `RouteMessage` calls, `UpdateRouteCache` and changes of the manager, and every
way the map is enumerated. -/
theorem routeMessage_agrees_between_updates (r : Router) (acts : List RouterAction) :
    (∀ pre post, acts = pre ++ post → RouterAction.updateRouteCache ∉ post → ∀ t route,
      ((init r).run S pre).router.routeCache.lookup t = some route →
        ((init r).run S acts).router.routeCache.lookup t = some route) ∧
    ∀ t ep r₁ r₂, (t, CallPhase.returned r₁ ep) ∈ ((init r).run S acts).calls →
      (t, CallPhase.returned r₂ ep) ∈ ((init r).run S acts).calls → r₁ = r₂ := by
  refine ⟨fun pre post hacts hpost t route hl => ?_, ((consistent_init r).run acts).agree⟩
  rw [hacts, run, List.foldl_append]
  exact lookup_run hpost hl

end RouterSys

end Synapse.Topology
