import Mathlib.Data.List.Basic

/-!
# A node of package `node`: start, stop, start again

A `Node` is a status behind a mutex and two channels that `New` makes once: `stopCh`, which
`Stop` closes, and `doneCh`, which the goroutine `run` closes in its deferred call as it
returns. Each `Start` that succeeds launches a new `run`. The calls are made one after
another, so each is one step; each `run` goroutine takes one step of its own, when it sees
`stopCh` closed and returns. The context is never cancelled, and the ticker's case changes
nothing. Closing a closed channel panics, and `panicked` records it.

Up to a second successful `Start` the design holds (`calm_run`): while the node reads
running, its one loop is still looping. Both channels outlive `Stop`, though, so a `Start`
after a `Stop` launches a `run` that finds `stopCh` closed, returns at once and closes
`doneCh` a second time, while the status reads running.
-/

namespace Synapse

/-- `Status`. The model takes each call as one step, so `starting` and `stopping`, which
only a call in progress shows, do not occur in it. -/
inductive Node.Status where
  | stopped | starting | running | stopping
  deriving DecidableEq, Repr

/-- Where a goroutine running `run` stands. -/
inductive Node.RunPhase where
  | looping | returned
  deriving DecidableEq, Repr

/-- The state of a `Node` its methods change. -/
structure Node where
  status : Node.Status
  /-- `stopCh` is closed. -/
  stopClosed : Bool
  /-- `doneCh` is closed. -/
  doneClosed : Bool
  /-- The `run` goroutines `Start` launched, oldest first. -/
  runs : List Node.RunPhase
  /-- A goroutine has closed a channel that was closed already. -/
  panicked : Bool
  deriving DecidableEq, Repr

namespace Node

/-- `New`, once its configuration checks have passed. -/
def new : Node := ⟨.stopped, false, false, [], false⟩

/-- `Start`: `nil` (here `true`) unless the node is not stopped. `initialize` never fails,
so it launches `run` and reads running. -/
def start (n : Node) : Node × Bool :=
  if n.status ≠ .stopped then (n, false)
  else ({ n with status := .running, runs := n.runs ++ [.looping] }, true)

/-- `Stop`: `nil` unless the node is not running. It closes `stopCh`, waits for `doneCh`
or ten seconds, and reads stopped either way. -/
def stop (n : Node) : Node × Bool :=
  if n.status ≠ .running then (n, false)
  else ({ n with status := .stopped, stopClosed := true, panicked := n.panicked || n.stopClosed },
    true)

/-- The `run` goroutine `g` sees `stopCh` closed and returns, closing `doneCh`. -/
def exit (n : Node) (g : Nat) : Option Node :=
  if n.runs.get? g = some .looping ∧ n.stopClosed = true then
    some { n with
      runs := n.runs.set g RunPhase.returned
      doneClosed := true
      panicked := n.panicked || n.doneClosed }
  else none

/-- A call, or the step of a `run` goroutine. -/
inductive Action where
  | start | stop
  /-- The `run` goroutine launched by the `g`-th successful `Start` returns. -/
  | exit (g : Nat)
  deriving DecidableEq, Repr

/-- What a step reports: the results of `Start` and `Stop`, and a `run` that returned. -/
inductive Event where
  | started (ok : Bool)
  | stopped (ok : Bool)
  | returned (g : Nat)
  deriving DecidableEq, Repr

/-- One step; an `exit` of a goroutine that cannot return yet changes nothing. -/
def step (n : Node) : Action → Node × List Event
  | .start => (n.start.1, [.started n.start.2])
  | .stop => (n.stop.1, [.stopped n.stop.2])
  | .exit g =>
    match n.exit g with
    | some n' => (n', [.returned g])
    | none => (n, [])

@[simp] theorem step_start (n : Node) : n.step .start = (n.start.1, [.started n.start.2]) := rfl

@[simp] theorem step_stop (n : Node) : n.step .stop = (n.stop.1, [.stopped n.stop.2]) := rfl

theorem step_exit (n : Node) (g : Nat) :
    n.step (.exit g) = ((n.exit g).getD n, if (n.exit g).isSome then [.returned g] else []) := by
  cases h : n.exit g <;> simp [step, h]

/-- A run: the node after the steps, and every event, in order. -/
def run : Node → List Action → Node × List Event
  | n, [] => (n, [])
  | n, a :: as => ((run (n.step a).1 as).1, (n.step a).2 ++ (run (n.step a).1 as).2)

/-! ## One `Start` at a time -/

/-- The node while `Start` has succeeded at most once: no panic; while it reads running,
its one loop is looping and `stopCh` is open; once stopped, either nothing has started or
`stopCh` is closed; and `doneCh` is closed exactly when the loop has returned. -/
structure Calm (n : Node) : Prop where
  not_panicked : n.panicked = false
  running : n.status = .running → n.runs = [.looping] ∧ n.stopClosed = false
  stopped : n.status = .stopped →
    (n.runs = [] ∧ n.stopClosed = false) ∨ (n.runs.length = 1 ∧ n.stopClosed = true)
  status : n.status = .running ∨ n.status = .stopped
  done : n.doneClosed = true ↔ n.runs = [.returned]

theorem calm_new : Calm new :=
  ⟨rfl, by simp [new], fun _ => .inl ⟨rfl, rfl⟩, .inr rfl, by simp [new]⟩

theorem length_runs_step_le (n : Node) (a : Action) : n.runs.length ≤ (n.step a).1.runs.length := by
  cases a with
  | start => simp only [step_start, start]; split <;> simp
  | stop => simp only [step_stop, stop]; split <;> simp
  | exit g => simp only [step_exit, exit]; split <;> simp

theorem length_runs_run_le (n : Node) (acts : List Action) :
    n.runs.length ≤ (run n acts).1.runs.length := by
  induction acts generalizing n with
  | nil => exact le_rfl
  | cons a as ih => exact (length_runs_step_le n a).trans (ih _)

/-- **A step keeps the node calm unless it is a second `Start`.** -/
theorem calm_step {n : Node} (h : Calm n) (a : Action) (hlen : (n.step a).1.runs.length ≤ 1) :
    Calm (n.step a).1 := by
  cases a with
  | start =>
    simp only [step_start, start] at *
    split
    · exact h
    · rename_i hs
      have hs : n.status = .stopped := by simpa using hs
      rcases h.stopped hs with ⟨hr, hc⟩ | ⟨hr, -⟩
      · exact ⟨h.not_panicked, fun _ => by simp [hr, hc], by simp, .inl rfl,
          by simp [hr, h.done]⟩
      · simp_all
  | stop =>
    simp only [step_stop, stop]
    split
    · exact h
    · rename_i hs
      obtain ⟨hr, hc⟩ := h.running (by simpa using hs)
      exact ⟨by simp [h.not_panicked, hc], by simp, fun _ => .inr ⟨by simp [hr], rfl⟩, .inr rfl,
        by simp [h.done, hr]⟩
  | exit g =>
    simp only [step_exit, exit]
    split
    · rename_i hx
      obtain ⟨hg, hc⟩ := hx
      have hst : n.status = .stopped := by
        rcases h.status with hs | hs
        · simp [h.running hs] at hc
        · exact hs
      rcases h.stopped hst with ⟨hr, -⟩ | ⟨hr, -⟩
      · simp [hr] at hg
      · obtain ⟨r, hr⟩ := List.length_eq_one.mp hr
        cases g with
        | succ g => simp [hr] at hg
        | zero =>
          obtain rfl : r = .looping := by simpa [hr] using hg
          have hd : n.doneClosed = false := by
            rw [Bool.eq_false_iff]; intro hd; simpa [hr] using h.done.mp hd
          exact ⟨by simp [h.not_panicked, hd], by simp [hst], fun _ => .inr ⟨by simp [hr], hc⟩,
            .inr hst, by simp [hr]⟩
    · exact h

theorem calm_run_of_calm {n : Node} (h : Calm n) (acts : List Action)
    (hlen : (run n acts).1.runs.length ≤ 1) : Calm (run n acts).1 := by
  induction acts generalizing n with
  | nil => exact h
  | cons a as ih => exact ih (calm_step h a ((length_runs_run_le _ as).trans hlen)) hlen

/-- **While `Start` has succeeded at most once, no channel is closed twice, and between a
`Start` and the next `Stop` the loop it launched keeps looping.** -/
theorem calm_run (acts : List Action) (hlen : (run new acts).1.runs.length ≤ 1) :
    Calm (run new acts).1 :=
  calm_run_of_calm calm_new acts hlen

/-! ## A second `Start` -/

/-- `Start`, `Stop` and the first loop's return, then `Start` again: its loop finds `stopCh`
closed and returns at once, closing `doneCh` a second time, with no `Stop` in between and
the node reading running. -/
theorem restart_closes_doneCh_twice :
    run new [.start, .stop, .exit 0, .start, .exit 1] =
      (⟨.running, true, true, [.returned, .returned], true⟩,
        [.started true, .stopped true, .returned 0, .started true, .returned 1]) := by
  decide

end Node

end Synapse
