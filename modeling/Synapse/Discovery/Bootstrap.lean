import Synapse.P2P.Pool
import Synapse.Discovery.ServiceEntry

/-!
# Bootstrap nodes and peer exchange (`BootstrapManager`, `PeerExchange`)

`ConnectToBootstrapNodes(ctx, connectFunc)` walks a copy of the bootstrap list and gives each
node to `connectWithRetry`: up to `maxRetries` attempts, each of which first looks whether
`ctx` is done, then calls `connectFunc(node)`. A `nil` answer marks the node connected and ends
the node's turn; after the last failed attempt the node's error names it and the number of
attempts. The call returns the last error of any node. `ExchangePeers` calls `peerConnect` on
the discovered peers in order, stopping once `maxPeers` of them connected.

The context and the functions passed in are the world: the loops of this file read them at
their `t`-th attempt (`Context`, `Answers`), and a done context stays done. Each loop also
returns the calls it made, in order, with whether each returned `nil`; that is what it did to
the world.

Over every world, the bootstrap loop marks a node connected exactly when `connectFunc`
returned `nil` on it (`connectToBootstrapNodes_marks_connected`), calls only bootstrap nodes
and each at most `maxRetries` times, returns `nil` exactly when every node connected
(`connectToBootstrapNodes_ok_iff`), and returns the context's error whenever one of its checks
found the context done (`connectToBootstrapNodes_cancelled`). Over every run of `AddNode` and
`ConnectToBootstrapNodes`, the list keeps its start and gains each added node once, and every
connected node is on it (`bootstrap_run`). `ExchangePeers` tries a prefix of the peers, in
order, and connects at most `maxPeers` of them (`exchangePeers_spec`).
-/

namespace Synapse.Discovery

open Synapse.P2P (GoMap)

/-! ## The world -/

/-- A `context.Context` as the loops see it: whether `ctx.Done()` is closed when `select`
looks at it at the `t`-th attempt. A closed context stays closed. -/
structure Context where
  done : Nat → Bool
  done_mono : ∀ {i j : Nat}, i ≤ j → done i = true → done j = true

/-- A context that is never done. -/
def Context.live : Context := ⟨fun _ => false, fun _ h => h⟩

/-- A context done from the start. -/
def Context.cancelled : Context := ⟨fun _ => true, fun _ h => h⟩

/-- A function the loops call, by what it returns at the `t`-th attempt (`none` for `nil`). -/
abbrev Answers (E : Type) := Nat → Option E

/-! ## `BootstrapManager` -/

/-- `BootstrapManager`: the bootstrap addresses and the map of those connected. -/
structure BootstrapManager where
  nodes : List Bytes
  connected : GoMap Bytes Bool
  maxRetries : Int

/-- The errors of `connectWithRetry`, which `ConnectToBootstrapNodes` passes on. -/
inductive BootstrapError (E : Type) where
  /-- `ctx.Err()` -/
  | context
  /-- `failed to connect to bootstrap node %s after %d attempts: %w` -/
  | failed (node : Bytes) (attempts : Int) (lastErr : Option E)
  deriving DecidableEq, Repr

/-- What a bootstrap loop did: the `connectFunc` calls, in order, each with its node and
whether it returned `nil`; the error returned (`ok` for `nil`); and the clock after it. -/
structure Attempts (E : Type) where
  calls : List (Bytes × Bool)
  result : Except (BootstrapError E) Unit
  clock : Nat

namespace BootstrapManager

variable {E : Type}

/-- `NewBootstrapManager(nodes)`. -/
def new (nodes : List Bytes) : BootstrapManager := ⟨nodes, ∅, 3⟩

/-- `AddNode(node)`: appended unless already listed. -/
def addNode (b : BootstrapManager) (node : Bytes) : BootstrapManager :=
  if node ∈ b.nodes then b else { b with nodes := b.nodes ++ [node] }

/-- `GetNodes()`. -/
def getNodes (b : BootstrapManager) : List Bytes := b.nodes

/-- `IsConnected(node)`: a missing key reads `false`. -/
def isConnected (b : BootstrapManager) (node : Bytes) : Bool := (b.connected.lookup node).getD false

/-- The loop of `connectWithRetry` at clock `t` with `k` attempts left, `lastErr` the last error
`connectFunc` returned. The `time.Sleep` between attempts looks at nothing. -/
def retryLoop (ctx : Context) (connectFunc : Answers E) (node : Bytes) (maxRetries : Int) :
    Nat → Nat → Option E → Attempts E
  | 0, t, lastErr => ⟨[], .error (.failed node maxRetries lastErr), t⟩
  | k + 1, t, _ =>
    if ctx.done t then ⟨[], .error .context, t + 1⟩
    else match connectFunc t with
      | none => ⟨[(node, true)], .ok (), t + 1⟩
      | some err =>
        let r := retryLoop ctx connectFunc node maxRetries k (t + 1) (some err)
        { r with calls := (node, false) :: r.calls }

/-- `connectWithRetry(ctx, node, connectFunc)` from clock `t`: its loop runs `maxRetries`
times at most, and a `nil` answer marks the node connected. -/
def connectWithRetry (b : BootstrapManager) (ctx : Context) (node : Bytes)
    (connectFunc : Answers E) (t : Nat) : BootstrapManager × Attempts E :=
  let r := retryLoop ctx connectFunc node b.maxRetries b.maxRetries.toNat t none
  match r.result with
  | .ok () => ({ b with connected := b.connected.insert node true }, r)
  | .error _ => (b, r)

/-- One turn of `ConnectToBootstrapNodes`' loop: a node's error becomes the last error. -/
def connectTurn (ctx : Context) (connectFunc : Answers E) (acc : BootstrapManager × Attempts E)
    (node : Bytes) : BootstrapManager × Attempts E :=
  let r := acc.1.connectWithRetry ctx node connectFunc acc.2.clock
  (r.1, ⟨acc.2.calls ++ r.2.calls,
    match r.2.result with
    | .error e => .error e
    | .ok () => acc.2.result, r.2.clock⟩)

/-- `ConnectToBootstrapNodes(ctx, connectFunc)` from clock `t`, over a copy of the list. -/
def connectToBootstrapNodes (b : BootstrapManager) (ctx : Context) (connectFunc : Answers E)
    (t : Nat) : BootstrapManager × Attempts E :=
  b.nodes.foldl (connectTurn ctx connectFunc) (b, ⟨[], .ok (), t⟩)

/-! ## One node's attempts -/

section Retry

variable (ctx : Context) (connectFunc : Answers E) (node : Bytes) (m : Int)

/-- What one attempt can do: find the context done, connect, or fail and go on. -/
theorem retryLoop_succ (k t : Nat) (lastErr : Option E) :
    (ctx.done t = true ∧ retryLoop ctx connectFunc node m (k + 1) t lastErr =
        ⟨[], .error .context, t + 1⟩) ∨
    (ctx.done t = false ∧ connectFunc t = none ∧
      retryLoop ctx connectFunc node m (k + 1) t lastErr = ⟨[(node, true)], .ok (), t + 1⟩) ∨
    (∃ err, ctx.done t = false ∧ connectFunc t = some err ∧
      retryLoop ctx connectFunc node m (k + 1) t lastErr =
        { retryLoop ctx connectFunc node m k (t + 1) (some err) with
          calls := (node, false) ::
            (retryLoop ctx connectFunc node m k (t + 1) (some err)).calls }) := by
  cases hd : ctx.done t
  · cases ha : connectFunc t with
    | none => exact .inr (.inl ⟨rfl, rfl, by simp [retryLoop, hd, ha]⟩)
    | some err => exact .inr (.inr ⟨err, rfl, rfl, by simp [retryLoop, hd, ha]⟩)
  · exact .inl ⟨rfl, by simp [retryLoop, hd]⟩

theorem retryLoop_calls_node (k t : Nat) (lastErr : Option E) :
    ∀ c ∈ (retryLoop ctx connectFunc node m k t lastErr).calls, c.1 = node := by
  induction k generalizing t lastErr with
  | zero => simp [retryLoop]
  | succ k ih =>
    rcases retryLoop_succ ctx connectFunc node m k t lastErr with
      ⟨-, h⟩ | ⟨-, -, h⟩ | ⟨err, -, -, h⟩ <;> rw [h]
    · simp
    · simp
    · simpa using ih (t + 1) (some err)

theorem retryLoop_length_calls (k t : Nat) (lastErr : Option E) :
    (retryLoop ctx connectFunc node m k t lastErr).calls.length ≤ k := by
  induction k generalizing t lastErr with
  | zero => simp [retryLoop]
  | succ k ih =>
    rcases retryLoop_succ ctx connectFunc node m k t lastErr with
      ⟨-, h⟩ | ⟨-, -, h⟩ | ⟨err, -, -, h⟩ <;> rw [h]
    · simp
    · simp
    · simpa using ih (t + 1) (some err)

/-- A node's loop returns `nil` exactly when one of its calls did. -/
theorem retryLoop_ok_iff (k t : Nat) (lastErr : Option E) :
    (retryLoop ctx connectFunc node m k t lastErr).result = .ok () ↔
      (node, true) ∈ (retryLoop ctx connectFunc node m k t lastErr).calls := by
  induction k generalizing t lastErr with
  | zero => simp [retryLoop]
  | succ k ih =>
    rcases retryLoop_succ ctx connectFunc node m k t lastErr with
      ⟨-, h⟩ | ⟨-, -, h⟩ | ⟨err, -, -, h⟩ <;> rw [h]
    · simp
    · simp
    · simpa using ih (t + 1) (some err)

/-- The loop makes at most `k` attempts, and at least one when it may. -/
theorem retryLoop_clock (k t : Nat) (lastErr : Option E) :
    t ≤ (retryLoop ctx connectFunc node m k t lastErr).clock ∧
      (retryLoop ctx connectFunc node m k t lastErr).clock ≤ t + k ∧
      (0 < k → t < (retryLoop ctx connectFunc node m k t lastErr).clock) := by
  induction k generalizing t lastErr with
  | zero => simp [retryLoop]
  | succ k ih =>
    rcases retryLoop_succ ctx connectFunc node m k t lastErr with
      ⟨-, h⟩ | ⟨-, -, h⟩ | ⟨err, -, -, h⟩ <;> rw [h]
    · simp only; omega
    · simp only; omega
    · have := ih (t + 1) (some err)
      simp only
      omega

/-- A check that finds the context done ends the loop with the context's error. -/
theorem retryLoop_cancelled (k t : Nat) (lastErr : Option E) {t0 : Nat} (h0 : t ≤ t0)
    (h1 : t0 < (retryLoop ctx connectFunc node m k t lastErr).clock) (hd : ctx.done t0 = true) :
    (retryLoop ctx connectFunc node m k t lastErr).result = .error .context := by
  induction k generalizing t lastErr with
  | zero => simp [retryLoop] at h1; omega
  | succ k ih =>
    rcases retryLoop_succ ctx connectFunc node m k t lastErr with
      ⟨-, h⟩ | ⟨hn, -, h⟩ | ⟨err, hn, -, h⟩
    · rw [h]
    · rw [h] at h1
      obtain rfl : t0 = t := by simp only at h1; omega
      simp [hn] at hd
    · rw [h] at h1 ⊢
      rcases Nat.eq_or_lt_of_le h0 with rfl | hlt
      · simp [hn] at hd
      · exact ih (t + 1) (some err) hlt h1

/-- A node's error other than the context's names the node and `maxRetries`, after `k`
attempts that all failed. -/
theorem retryLoop_failed (k t : Nat) (lastErr : Option E) {x : Bytes} {n : Int} {e : Option E}
    (h : (retryLoop ctx connectFunc node m k t lastErr).result = .error (.failed x n e)) :
    x = node ∧ n = m ∧ (retryLoop ctx connectFunc node m k t lastErr).calls.length = k ∧
      ∀ c ∈ (retryLoop ctx connectFunc node m k t lastErr).calls, c.2 = false := by
  induction k generalizing t lastErr with
  | zero =>
    simp only [retryLoop, Except.error.injEq, BootstrapError.failed.injEq] at h
    simp [retryLoop, h]
  | succ k ih =>
    rcases retryLoop_succ ctx connectFunc node m k t lastErr with
      ⟨-, h'⟩ | ⟨-, -, h'⟩ | ⟨err, -, -, h'⟩ <;> rw [h'] at h ⊢
    · cases h
    · cases h
    · obtain ⟨h1, h2, h3, h4⟩ := ih (t + 1) (some err) h
      refine ⟨h1, h2, by simp [h3], ?_⟩
      exact List.forall_mem_cons.mpr ⟨rfl, h4⟩

end Retry

/-! ## One node's turn -/

section Turn

variable (b : BootstrapManager) (ctx : Context) (node : Bytes) (connectFunc : Answers E) (t : Nat)

@[simp] theorem connectWithRetry_snd :
    (b.connectWithRetry ctx node connectFunc t).2 =
      retryLoop ctx connectFunc node b.maxRetries b.maxRetries.toNat t none := by
  unfold connectWithRetry; dsimp only; split <;> rfl

@[simp] theorem connectWithRetry_nodes :
    (b.connectWithRetry ctx node connectFunc t).1.nodes = b.nodes := by
  unfold connectWithRetry; dsimp only; split <;> rfl

@[simp] theorem connectWithRetry_maxRetries :
    (b.connectWithRetry ctx node connectFunc t).1.maxRetries = b.maxRetries := by
  unfold connectWithRetry; dsimp only; split <;> rfl

/-- `connectWithRetry` marks its node, and only when a call returned `nil`. -/
theorem isConnected_connectWithRetry (x : Bytes) :
    (b.connectWithRetry ctx node connectFunc t).1.isConnected x = true ↔
      b.isConnected x = true ∨ (x, true) ∈ (b.connectWithRetry ctx node connectFunc t).2.calls := by
  have hnode := retryLoop_calls_node ctx connectFunc node b.maxRetries b.maxRetries.toNat t none
  have hok := retryLoop_ok_iff ctx connectFunc node b.maxRetries b.maxRetries.toNat t none
  rw [connectWithRetry_snd]
  unfold connectWithRetry
  dsimp only
  split
  · next hr =>
    by_cases hx : x = node
    · subst hx
      simp [isConnected, hok.mp hr]
    · have : (x, true) ∉
          (retryLoop ctx connectFunc node b.maxRetries b.maxRetries.toNat t none).calls :=
        fun h => hx (hnode _ h)
      simp [isConnected, AList.lookup_insert_ne hx, this]
  · next e hr =>
    have : ∀ y, (y, true) ∉
        (retryLoop ctx connectFunc node b.maxRetries b.maxRetries.toNat t none).calls :=
      fun y h => by cases (hnode _ h); simp [hok.mpr h] at hr
    simp [this]

end Turn

/-! ## The loop over the nodes -/

/-- What holds once `ConnectToBootstrapNodes`, started on `b` at clock `t`, has run over the
nodes `p`: the list is untouched, a node is marked exactly when a call on it returned `nil`,
each node of `p` was called at most `maxRetries` times, the result is `nil` exactly when each
connected, and a check that found the context done made it the result. -/
structure Progress (ctx : Context) (b : BootstrapManager) (t : Nat) (p : List Bytes)
    (acc : BootstrapManager × Attempts E) : Prop where
  nodes : acc.1.nodes = b.nodes
  maxRetries : acc.1.maxRetries = b.maxRetries
  marked : ∀ x, acc.1.isConnected x = true ↔ b.isConnected x = true ∨ (x, true) ∈ acc.2.calls
  called : ∀ c ∈ acc.2.calls, c.1 ∈ p
  bounded : ∀ x, (acc.2.calls.map Prod.fst).count x ≤ b.maxRetries.toNat * p.count x
  clock : t ≤ acc.2.clock ∧ acc.2.clock ≤ t + b.maxRetries.toNat * p.length
  ok_iff : p.Nodup → (acc.2.result = .ok () ↔ ∀ x ∈ p, (x, true) ∈ acc.2.calls)
  cancelled : ∀ t0, t ≤ t0 → t0 < acc.2.clock → ctx.done t0 = true →
    acc.2.result = .error .context

section Loop

variable {ctx : Context} {connectFunc : Answers E} {b : BootstrapManager} {t : Nat}

theorem Progress.init : Progress ctx b t [] (b, (⟨[], .ok (), t⟩ : Attempts E)) where
  nodes := rfl
  maxRetries := rfl
  marked _ := by simp
  called _ h := by simp at h
  bounded _ := by simp
  clock := by simp
  ok_iff _ := by simp
  cancelled _ h0 h1 := by simp at h1; omega

/-- The result of a turn: the node's error, or the last one before. -/
theorem connectTurn_result_ok (acc : BootstrapManager × Attempts E) (y : Bytes) :
    (connectTurn ctx connectFunc acc y).2.result = .ok () ↔
      acc.2.result = .ok () ∧
        (acc.1.connectWithRetry ctx y connectFunc acc.2.clock).2.result = .ok () := by
  unfold connectTurn
  dsimp only
  split <;> simp_all

theorem connectTurn_result_error {acc : BootstrapManager × Attempts E} {y : Bytes}
    {e : BootstrapError E}
    (h : (acc.1.connectWithRetry ctx y connectFunc acc.2.clock).2.result = .error e) :
    (connectTurn ctx connectFunc acc y).2.result = .error e := by
  unfold connectTurn
  dsimp only
  split <;> simp_all

theorem Progress.step {p : List Bytes} {acc : BootstrapManager × Attempts E}
    (h : Progress ctx b t p acc) (y : Bytes) :
    Progress ctx b t (p ++ [y]) (connectTurn ctx connectFunc acc y) := by
  set r := retryLoop ctx connectFunc y b.maxRetries b.maxRetries.toNat acc.2.clock none with hr
  have hsnd : (acc.1.connectWithRetry ctx y connectFunc acc.2.clock).2 = r := by
    rw [connectWithRetry_snd, h.maxRetries]
  have hcalls : (connectTurn ctx connectFunc acc y).2.calls = acc.2.calls ++ r.calls := by
    rw [← hsnd]; rfl
  have hclock' : (connectTurn ctx connectFunc acc y).2.clock = r.clock := by rw [← hsnd]; rfl
  have hnode :=
    retryLoop_calls_node ctx connectFunc y b.maxRetries b.maxRetries.toNat acc.2.clock none
  have hok := retryLoop_ok_iff ctx connectFunc y b.maxRetries b.maxRetries.toNat acc.2.clock none
  have hlen :=
    retryLoop_length_calls ctx connectFunc y b.maxRetries b.maxRetries.toNat acc.2.clock none
  have hclk := retryLoop_clock ctx connectFunc y b.maxRetries b.maxRetries.toNat acc.2.clock none
  rw [← hr] at hnode hok hlen hclk
  constructor
  case nodes => simp [connectTurn, h.nodes]
  case maxRetries => simp [connectTurn, h.maxRetries]
  case marked =>
    intro x
    rw [show (connectTurn ctx connectFunc acc y).1 =
        (acc.1.connectWithRetry ctx y connectFunc acc.2.clock).1 from rfl,
      isConnected_connectWithRetry, h.marked, hsnd, hcalls, List.mem_append, or_assoc]
  case called =>
    intro c hc
    rw [hcalls, List.mem_append] at hc
    rcases hc with hc | hc
    · exact List.mem_append_left _ (h.called c hc)
    · simp [hnode c hc]
  case bounded =>
    intro x
    have hrep : r.calls.map Prod.fst = List.replicate r.calls.length y := by
      refine List.eq_replicate_iff.mpr ⟨List.length_map _ _, fun a ha => ?_⟩
      obtain ⟨c, hc, rfl⟩ := List.mem_map.mp ha
      exact hnode c hc
    have hb := h.bounded x
    rw [hcalls, List.map_append, List.count_append, hrep, List.count_append, Nat.mul_add]
    by_cases hxy : x = y
    · subst hxy
      rw [List.count_replicate_self, List.count_singleton_self, Nat.mul_one]
      omega
    · rw [List.count_eq_zero_of_not_mem (by simp [hxy] : x ∉ List.replicate r.calls.length y),
        List.count_eq_zero_of_not_mem (by simp [hxy] : x ∉ [y])]
      omega
  case clock =>
    have := h.clock
    rw [hclock', List.length_append, List.length_singleton, Nat.mul_add, Nat.mul_one]
    omega
  case ok_iff =>
    intro hnd
    have hy : y ∉ p := fun hyp => (List.nodup_append.mp hnd).2.2 hyp (List.mem_singleton_self y)
    rw [connectTurn_result_ok, h.ok_iff (List.nodup_append.mp hnd).1, hsnd, hok, hcalls]
    rw [List.forall_mem_append, List.forall_mem_singleton]
    simp only [List.mem_append]
    constructor
    · rintro ⟨hp, hy'⟩
      exact ⟨fun x hx => .inl (hp x hx), .inr hy'⟩
    · rintro ⟨hp, hy' | hy'⟩
      · exact absurd (h.called _ hy') hy
      · refine ⟨fun x hx => (hp x hx).resolve_right fun hx' => hy ?_, hy'⟩
        rwa [← hnode _ hx']
  case cancelled =>
    intro t0 h0 h1 hd
    rw [hclock'] at h1
    have herr : r.result = .error .context := by
      rcases Nat.lt_or_ge t0 acc.2.clock with hlt | hge
      · rcases Nat.eq_zero_or_pos b.maxRetries.toNat with hk | hk
        · have := h.clock; rw [hk, Nat.zero_mul] at this; omega
        · have hd' := ctx.done_mono (Nat.le_of_lt hlt) hd
          exact retryLoop_cancelled ctx connectFunc y b.maxRetries _ _ _ le_rfl
            (hclk.2.2 hk) hd'
      · exact retryLoop_cancelled ctx connectFunc y b.maxRetries _ _ _ hge h1 hd
    exact connectTurn_result_error (by rw [hsnd, herr])

theorem Progress.run {p : List Bytes} {acc : BootstrapManager × Attempts E}
    (h : Progress ctx b t p acc) (l : List Bytes) :
    Progress ctx b t (p ++ l) (l.foldl (connectTurn ctx connectFunc) acc) := by
  induction l generalizing p acc with
  | nil => simpa using h
  | cons y l ih => simpa using ih (h.step y)

theorem progress_connectToBootstrapNodes (b : BootstrapManager) (ctx : Context)
    (connectFunc : Answers E) (t : Nat) :
    Progress ctx b t b.nodes (b.connectToBootstrapNodes ctx connectFunc t) := by
  have h : Progress ctx b t ([] ++ b.nodes)
      (b.nodes.foldl (connectTurn ctx connectFunc) (b, ⟨[], .ok (), t⟩)) :=
    Progress.init.run b.nodes
  simpa using h

end Loop

/-! ## `ConnectToBootstrapNodes` over every world -/

section Connect

variable (b : BootstrapManager) (ctx : Context) (connectFunc : Answers E) (t : Nat)

/-- **Whatever the context and `connectFunc` do, `ConnectToBootstrapNodes` leaves the list as it
was, marks a node connected exactly when `connectFunc` returned `nil` on it, and calls a node at
most `maxRetries` times for each time it is listed, so never one that is not listed.** -/
theorem connectToBootstrapNodes_marks_connected :
    (b.connectToBootstrapNodes ctx connectFunc t).1.getNodes = b.getNodes ∧
    (∀ x, (b.connectToBootstrapNodes ctx connectFunc t).1.isConnected x = true ↔
      b.isConnected x = true ∨ (x, true) ∈ (b.connectToBootstrapNodes ctx connectFunc t).2.calls) ∧
    ∀ x, ((b.connectToBootstrapNodes ctx connectFunc t).2.calls.map Prod.fst).count x ≤
      b.maxRetries.toNat * b.nodes.count x :=
  let h := progress_connectToBootstrapNodes b ctx connectFunc t
  ⟨h.nodes, h.marked, h.bounded⟩

/-- **On a list without repeats, `ConnectToBootstrapNodes` returns `nil` exactly when
`connectFunc` returned `nil` on every node.** -/
theorem connectToBootstrapNodes_ok_iff (hb : b.nodes.Nodup) :
    (b.connectToBootstrapNodes ctx connectFunc t).2.result = .ok () ↔
      ∀ x ∈ b.nodes, (x, true) ∈ (b.connectToBootstrapNodes ctx connectFunc t).2.calls :=
  (progress_connectToBootstrapNodes b ctx connectFunc t).ok_iff hb

/-- **Once a check of `ConnectToBootstrapNodes` finds the context done, the call returns the
context's error**: every later node finds it done too, and is skipped with that error. -/
theorem connectToBootstrapNodes_cancelled {t0 : Nat} (h0 : t ≤ t0)
    (h1 : t0 < (b.connectToBootstrapNodes ctx connectFunc t).2.clock) (hd : ctx.done t0 = true) :
    (b.connectToBootstrapNodes ctx connectFunc t).2.result = .error .context :=
  (progress_connectToBootstrapNodes b ctx connectFunc t).cancelled t0 h0 h1 hd

end Connect

theorem connectToBootstrapNodes_ok_iff_two :
    (new [[0x61], [0x62]]).nodes.Nodup ∧
      (((new [[0x61], [0x62]]).connectToBootstrapNodes Context.live
          (fun _ => (none : Option Unit)) 0).2.result = .ok () ↔
        ∀ x ∈ (new [[0x61], [0x62]]).nodes, (x, true) ∈ ((new [[0x61], [0x62]]).connectToBootstrapNodes
          Context.live (fun _ => (none : Option Unit)) 0).2.calls) :=
  ⟨by decide, connectToBootstrapNodes_ok_iff _ _ _ _ (by decide)⟩

theorem connectToBootstrapNodes_cancelled_at_start :
    0 ≤ 0 ∧ 0 < ((new [[0x61]]).connectToBootstrapNodes Context.cancelled (fun _ => (none : Option Unit)) 0).2.clock ∧
      Context.cancelled.done 0 = true ∧
      ((new [[0x61]]).connectToBootstrapNodes Context.cancelled (fun _ => (none : Option Unit)) 0).2.result =
        .error .context :=
  ⟨le_rfl, by decide, rfl, connectToBootstrapNodes_cancelled _ _ _ _ le_rfl (by decide) rfl⟩

/-! ## Every run of the manager -/

/-- An order in which `range` may enumerate the map of connected nodes: its entries, each once. -/
structure ConnectedEnumeration (connected : GoMap Bytes Bool) where
  order : List (Σ _ : Bytes, Bool)
  perm : order.Perm connected.entries

/-- `GetConnectedNodes()`, with the map enumerated in the order `En`. -/
def getConnectedNodes (b : BootstrapManager) (En : ConnectedEnumeration b.connected) : List Bytes :=
  En.order.filterMap fun e => if e.2 then some e.1 else none

/-- In whatever order the map is enumerated, `GetConnectedNodes` returns each node `IsConnected`
holds of, once. -/
theorem getConnectedNodes_spec (b : BootstrapManager) (En : ConnectedEnumeration b.connected) :
    (b.getConnectedNodes En).Nodup ∧ ∀ x, x ∈ b.getConnectedNodes En ↔ b.isConnected x = true := by
  refine ⟨List.Nodup.filterMap (fun e e' x h h' => ?_)
    (En.perm.nodup_iff.mpr b.connected.nodupKeys.nodup), fun x => ?_⟩
  · obtain ⟨y, v⟩ := e
    obtain ⟨y', v'⟩ := e'
    cases v <;> cases v' <;> simp_all
  · rw [getConnectedNodes, List.mem_filterMap]
    constructor
    · rintro ⟨⟨y, v⟩, he, hf⟩
      cases v <;>
        simp only [if_false, if_true, Bool.false_eq_true, reduceCtorEq, Option.some.injEq] at hf
      subst hf
      simp [isConnected, Option.mem_def.mp (AList.mem_lookup_iff.mpr (En.perm.subset he))]
    · intro hx
      have : b.connected.lookup x = some true := by
        unfold isConnected at hx
        cases h : b.connected.lookup x <;> simp_all
      exact ⟨⟨x, true⟩, En.perm.symm.subset (AList.mem_lookup_iff.mp this), rfl⟩

/-- The calls a program makes on one `BootstrapManager`, one after another; each
`ConnectToBootstrapNodes` with its own context and `connectFunc`, from clock `0`. -/
inductive Call (E : Type) where
  | addNode (node : Bytes)
  | connectToBootstrapNodes (ctx : Context) (connectFunc : Answers E)

/-- The nodes a call asks `AddNode` for. -/
def Call.added : Call E → List Bytes
  | .addNode node => [node]
  | .connectToBootstrapNodes _ _ => []

/-- One call. -/
def apply (b : BootstrapManager) : Call E → BootstrapManager
  | .addNode node => b.addNode node
  | .connectToBootstrapNodes ctx connectFunc => (b.connectToBootstrapNodes ctx connectFunc 0).1

/-- The calls, one after another. -/
def run (b : BootstrapManager) (calls : List (Call E)) : BootstrapManager := calls.foldl apply b

/-- What every run from `NewBootstrapManager(init)` keeps, `adds` the nodes it asked `AddNode`
for: the list is `init` followed by each added node not in `init`, once, and every connected
node is listed. -/
structure Listed (init adds : List Bytes) (b : BootstrapManager) : Prop where
  nodes : ∃ added, b.nodes = init ++ added ∧ added.Nodup ∧ ∀ x, x ∈ added ↔ x ∉ init ∧ x ∈ adds
  connected : ∀ x, b.isConnected x = true → x ∈ b.nodes
  maxRetries : b.maxRetries = 3

theorem Listed.init (init : List Bytes) : Listed init [] (new init) where
  nodes := ⟨[], by simp [BootstrapManager.new]⟩
  connected x h := by simp [isConnected, BootstrapManager.new] at h
  maxRetries := rfl

theorem Listed.addNode {init adds : List Bytes} {b : BootstrapManager} (h : Listed init adds b)
    (node : Bytes) : Listed init (adds ++ [node]) (b.addNode node) := by
  obtain ⟨added, hb, hnd, hmem⟩ := h.nodes
  unfold BootstrapManager.addNode
  split_ifs with hn
  · refine ⟨⟨added, hb, hnd, fun x => ?_⟩, h.connected, h.maxRetries⟩
    rw [hmem, List.mem_append, List.mem_singleton]
    constructor
    · exact fun ⟨hx, ha⟩ => ⟨hx, .inl ha⟩
    · rintro ⟨hx, ha | rfl⟩
      · exact ⟨hx, ha⟩
      · rw [hb, List.mem_append] at hn
        exact ⟨hx, ((hmem x).mp (hn.resolve_left hx)).2⟩
  · have hna : node ∉ added := fun h' => hn (hb ▸ List.mem_append_right _ h')
    have hni : node ∉ init := fun h' => hn (hb ▸ List.mem_append_left _ h')
    refine ⟨⟨added ++ [node], by simp [hb],
      List.nodup_append.mpr ⟨hnd, List.nodup_singleton _,
        fun a ha ha' => hna (List.mem_singleton.mp ha' ▸ ha)⟩,
      fun x => ?_⟩, fun x hx => List.mem_append_left _ (h.connected x hx), h.maxRetries⟩
    simp only [List.mem_append, List.mem_singleton, hmem]
    constructor
    · rintro (⟨hx, ha⟩ | rfl)
      · exact ⟨hx, .inl ha⟩
      · exact ⟨hni, .inr rfl⟩
    · rintro ⟨hx, ha | rfl⟩
      · exact .inl ⟨hx, ha⟩
      · exact .inr rfl

theorem Listed.connectToBootstrapNodes {init adds : List Bytes} {b : BootstrapManager}
    (h : Listed init adds b) (ctx : Context) (connectFunc : Answers E) :
    Listed init adds (b.connectToBootstrapNodes ctx connectFunc 0).1 := by
  have hp := progress_connectToBootstrapNodes b ctx connectFunc 0
  refine ⟨hp.nodes ▸ h.nodes, fun x hx => ?_, hp.maxRetries.trans h.maxRetries⟩
  rw [hp.nodes]
  rcases (hp.marked x).mp hx with hx | hx
  · exact h.connected x hx
  · have hpos : 0 < b.maxRetries.toNat * b.nodes.count x :=
      Nat.lt_of_lt_of_le (List.count_pos_iff.mpr (List.mem_map_of_mem Prod.fst hx)) (hp.bounded x)
    exact List.count_pos_iff.mp (Nat.pos_of_mul_pos_left hpos)

theorem Listed.run {init adds : List Bytes} {b : BootstrapManager} (h : Listed init adds b)
    (calls : List (Call E)) : Listed init (adds ++ calls.flatMap Call.added) (b.run calls) := by
  induction calls generalizing adds b with
  | nil => simpa [BootstrapManager.run] using h
  | cons c calls ih =>
    have hc : Listed init (adds ++ c.added) (b.apply c) := by
      cases c with
      | addNode node => exact h.addNode node
      | connectToBootstrapNodes ctx connectFunc =>
        simpa [Call.added] using h.connectToBootstrapNodes ctx connectFunc
    simpa [BootstrapManager.run] using ih hc

/-- **Over every run of `AddNode` and `ConnectToBootstrapNodes` calls from
`NewBootstrapManager(init)`, the list is `init` followed by each node `AddNode` was asked for and
`init` lacks, once, and every node `GetConnectedNodes` returns, in whatever order the map is
enumerated, is on the list.** -/
theorem bootstrap_run (init : List Bytes) (calls : List (Call E)) :
    (∃ added, ((new init).run calls).getNodes = init ++ added ∧ added.Nodup ∧
      ∀ x, x ∈ added ↔ x ∉ init ∧ x ∈ calls.flatMap Call.added) ∧
    ∀ (En : ConnectedEnumeration ((new init).run calls).connected),
      ∀ x ∈ ((new init).run calls).getConnectedNodes En, x ∈ ((new init).run calls).getNodes := by
  have h := (Listed.init init).run calls
  rw [List.nil_append] at h
  exact ⟨h.nodes, fun En x hx => h.connected x (((getConnectedNodes_spec _ En).2 x).mp hx)⟩

end BootstrapManager

/-! ## `PeerExchange` -/

/-- The errors of `ExchangePeers`. -/
inductive ExchangeError (E : Type) where
  /-- `discovery and connect functions must be set` -/
  | unset
  /-- `failed to discover peers: %w` -/
  | discover (err : E)
  /-- `ctx.Err()` -/
  | context
  deriving DecidableEq, Repr

/-- `PeerExchange`; a function set on it is given by what it returns: `peerDiscovery` by the
peers (or the error) of its one call, `peerConnect` by its answer at each attempt. -/
structure PeerExchange (E : Type) where
  maxPeers : Int
  peerDiscovery : Option (Except E (List Peer))
  peerConnect : Option (Answers E)

namespace PeerExchange

variable {E : Type}

/-- The loop of `ExchangePeers` over the peers left, `connectedCount` of them connected so far,
at clock `t`: the `peerConnect` calls, each with whether it returned `nil`, and the result. -/
def exchangeLoop (maxPeers : Int) (ctx : Context) (peerConnect : Answers E) :
    List Peer → Nat → Nat → List (Peer × Bool) × Except (ExchangeError E) Unit
  | [], _, _ => ([], .ok ())
  | peer :: peers, connectedCount, t =>
    if maxPeers ≤ connectedCount then ([], .ok ())
    else if ctx.done t then ([], .error .context)
    else match peerConnect t with
      | some _ =>
        let r := exchangeLoop maxPeers ctx peerConnect peers connectedCount (t + 1)
        ((peer, false) :: r.1, r.2)
      | none =>
        let r := exchangeLoop maxPeers ctx peerConnect peers (connectedCount + 1) (t + 1)
        ((peer, true) :: r.1, r.2)

/-- `ExchangePeers(ctx)`: the `peerConnect` calls, and the result. -/
def exchangePeers (p : PeerExchange E) (ctx : Context) :
    List (Peer × Bool) × Except (ExchangeError E) Unit :=
  match p.peerDiscovery, p.peerConnect with
  | some discovered, some peerConnect =>
    match discovered with
    | .error err => ([], .error (.discover err))
    | .ok peers => exchangeLoop p.maxPeers ctx peerConnect peers 0 0
  | _, _ => ([], .error .unset)

section Loop

variable (m : Int) (ctx : Context) (peerConnect : Answers E)

/-- What one turn can do: stop with `maxPeers` connected, find the context done, or call
`peerConnect` and go on, counting a `nil`. -/
theorem exchangeLoop_cons (peer : Peer) (peers : List Peer) (c t : Nat) :
    ((m ≤ c) ∧ exchangeLoop m ctx peerConnect (peer :: peers) c t = ([], .ok ())) ∨
    (¬ (m ≤ c) ∧ ctx.done t = true ∧
      exchangeLoop m ctx peerConnect (peer :: peers) c t = ([], .error .context)) ∨
    (¬ (m ≤ c) ∧ ctx.done t = false ∧ (peerConnect t).isSome ∧
      exchangeLoop m ctx peerConnect (peer :: peers) c t =
        ((peer, false) :: (exchangeLoop m ctx peerConnect peers c (t + 1)).1,
          (exchangeLoop m ctx peerConnect peers c (t + 1)).2)) ∨
    (¬ (m ≤ c) ∧ ctx.done t = false ∧
      exchangeLoop m ctx peerConnect (peer :: peers) c t =
        ((peer, true) :: (exchangeLoop m ctx peerConnect peers (c + 1) (t + 1)).1,
          (exchangeLoop m ctx peerConnect peers (c + 1) (t + 1)).2)) := by
  by_cases hm : m ≤ c
  · exact .inl ⟨hm, by simp [exchangeLoop, hm]⟩
  cases hd : ctx.done t
  · cases ha : peerConnect t with
    | none => exact .inr (.inr (.inr ⟨hm, rfl, by simp [exchangeLoop, hm, hd, ha]⟩))
    | some err => exact .inr (.inr (.inl ⟨hm, rfl, rfl, by simp [exchangeLoop, hm, hd, ha]⟩))
  · exact .inr (.inl ⟨hm, rfl, by simp [exchangeLoop, hm, hd]⟩)

/-- The number of calls that returned `nil`. -/
def connected (calls : List (Peer × Bool)) : Nat := (calls.filter (·.2)).length

@[simp] theorem connected_nil : connected [] = 0 := rfl
@[simp] theorem connected_cons (peer : Peer) (ok : Bool) (calls : List (Peer × Bool)) :
    connected ((peer, ok) :: calls) = connected calls + if ok then 1 else 0 := by
  cases ok <;> simp [connected, List.filter_cons]

theorem exchangeLoop_tries_in_order (peers : List Peer) (c t : Nat) :
    (exchangeLoop m ctx peerConnect peers c t).1.map Prod.fst <+: peers := by
  induction peers generalizing c t with
  | nil => simp [exchangeLoop]
  | cons peer peers ih =>
    rcases exchangeLoop_cons m ctx peerConnect peer peers c t with
      ⟨-, h⟩ | ⟨-, -, h⟩ | ⟨-, -, -, h⟩ | ⟨-, -, h⟩ <;> rw [h]
    · simp
    · simp
    · simpa using ih c (t + 1)
    · simpa using ih (c + 1) (t + 1)

theorem exchangeLoop_connected_le (peers : List Peer) (c t : Nat) :
    (c + connected (exchangeLoop m ctx peerConnect peers c t).1 : Int) ≤ max (c : Int) m := by
  induction peers generalizing c t with
  | nil => simp [exchangeLoop]
  | cons peer peers ih =>
    rcases exchangeLoop_cons m ctx peerConnect peer peers c t with
      ⟨-, h⟩ | ⟨-, -, h⟩ | ⟨hm, -, -, h⟩ | ⟨hm, -, h⟩ <;> rw [h]
    · simp
    · simp
    · simpa using ih c (t + 1)
    · have := ih (c + 1) (t + 1)
      simp only [connected_cons, if_true, Nat.cast_add, Nat.cast_one] at this ⊢
      omega

theorem exchangeLoop_ok (peers : List Peer) (c t : Nat)
    (h : (exchangeLoop m ctx peerConnect peers c t).2 = .ok ()) :
    (exchangeLoop m ctx peerConnect peers c t).1.length = peers.length ∨
      m ≤ c + connected (exchangeLoop m ctx peerConnect peers c t).1 := by
  induction peers generalizing c t with
  | nil => simp [exchangeLoop]
  | cons peer peers ih =>
    rcases exchangeLoop_cons m ctx peerConnect peer peers c t with
      ⟨hm, h'⟩ | ⟨-, -, h'⟩ | ⟨-, -, -, h'⟩ | ⟨-, -, h'⟩ <;> rw [h'] at h ⊢
    · simp [hm]
    · cases h
    · simpa using ih c (t + 1) h
    · have := ih (c + 1) (t + 1) h
      simp only [List.length_cons, connected_cons, if_true, Nat.cast_add, Nat.cast_one] at this ⊢
      omega

theorem exchangeLoop_error (peers : List Peer) (c t : Nat) {e : ExchangeError E}
    (h : (exchangeLoop m ctx peerConnect peers c t).2 = .error e) :
    e = .context ∧ (c + connected (exchangeLoop m ctx peerConnect peers c t).1 : Int) < m ∧
      (exchangeLoop m ctx peerConnect peers c t).1.length < peers.length := by
  induction peers generalizing c t with
  | nil => simp [exchangeLoop] at h
  | cons peer peers ih =>
    rcases exchangeLoop_cons m ctx peerConnect peer peers c t with
      ⟨-, h'⟩ | ⟨hm, -, h'⟩ | ⟨-, -, -, h'⟩ | ⟨-, -, h'⟩ <;> rw [h'] at h ⊢
    · cases h
    · cases h
      refine ⟨rfl, ?_, ?_⟩ <;> simp only [connected_nil, Nat.cast_zero, add_zero, List.length_nil,
        List.length_cons] <;> omega
    · simpa using ih c (t + 1) h
    · obtain ⟨he, h1, h2⟩ := ih (c + 1) (t + 1) h
      simp only [List.length_cons, connected_cons, if_true, Nat.cast_add, Nat.cast_one] at h1 ⊢
      exact ⟨he, by omega, by omega⟩

end Loop

/-- **Whatever peers discovery returns and whatever the context and `peerConnect` do,
`ExchangePeers` calls `peerConnect` on a prefix of the peers, in their order, gets at most
`maxPeers` connections, stops before the end of the list only once `maxPeers` connected or
with the context's error, and returns that error only while fewer than `maxPeers` connected.** -/
theorem exchangePeers_spec (p : PeerExchange E) (ctx : Context) {peers : List Peer}
    {peerConnect : Answers E} (hd : p.peerDiscovery = some (.ok peers))
    (hc : p.peerConnect = some peerConnect) :
    (p.exchangePeers ctx).1.map Prod.fst <+: peers ∧
    (connected (p.exchangePeers ctx).1 : Int) ≤ max 0 p.maxPeers ∧
    ((p.exchangePeers ctx).2 = .ok () → (p.exchangePeers ctx).1.length = peers.length ∨
      p.maxPeers ≤ connected (p.exchangePeers ctx).1) ∧
    ((p.exchangePeers ctx).2 ≠ .ok () → (p.exchangePeers ctx).2 = .error .context ∧
      (connected (p.exchangePeers ctx).1 : Int) < p.maxPeers ∧
      (p.exchangePeers ctx).1.length < peers.length) := by
  have hloop : p.exchangePeers ctx = exchangeLoop p.maxPeers ctx peerConnect peers 0 0 := by
    simp [exchangePeers, hd, hc]
  rw [hloop]
  refine ⟨exchangeLoop_tries_in_order _ _ _ _ _ _,
    by simpa using exchangeLoop_connected_le p.maxPeers ctx peerConnect peers 0 0,
    fun h => by simpa using exchangeLoop_ok _ _ _ _ _ _ h, fun h => ?_⟩
  cases hr : (exchangeLoop p.maxPeers ctx peerConnect peers 0 0).2 with
  | ok u => exact absurd hr h
  | error e =>
    obtain ⟨rfl, h1, h2⟩ := exchangeLoop_error _ _ _ _ _ _ hr
    exact ⟨rfl, by simpa using h1, h2⟩

/-- A peer with the given id and nothing else. -/
def peerNamed (id : Bytes) : Peer := ⟨id, [], 0, [], 0⟩

theorem exchangePeers_spec_two_of_three :
    let p : PeerExchange Unit := ⟨2, some (.ok [peerNamed [0x61], peerNamed [0x62], peerNamed [0x63]]),
      some fun _ => none⟩
    p.peerDiscovery = some (.ok [peerNamed [0x61], peerNamed [0x62], peerNamed [0x63]]) ∧
      p.peerConnect = some (fun _ => none) ∧
      (p.exchangePeers Context.live).1.map Prod.fst <+:
        [peerNamed [0x61], peerNamed [0x62], peerNamed [0x63]] ∧
      (connected (p.exchangePeers Context.live).1 : Int) ≤ max 0 p.maxPeers ∧
      ((p.exchangePeers Context.live).2 = .ok () → (p.exchangePeers Context.live).1.length = 3 ∨
        p.maxPeers ≤ connected (p.exchangePeers Context.live).1) ∧
      ((p.exchangePeers Context.live).2 ≠ .ok () →
        (p.exchangePeers Context.live).2 = .error .context ∧
        (connected (p.exchangePeers Context.live).1 : Int) < p.maxPeers ∧
        (p.exchangePeers Context.live).1.length < 3) :=
  ⟨rfl, rfl, exchangePeers_spec _ Context.live rfl rfl⟩

end PeerExchange

end Synapse.Discovery
