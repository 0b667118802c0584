import RetaOS.Sched.Queues
import Mathlib.Logic.Function.Iterate

/-!
# Turns

`pick_next_thread` takes the head of the ready queue and `sched_add_thread` puts the current thread in front of it, so
two threads hand the processor to each other and the ones behind them wait. The turns go round when one thread is
ready; with more, the second yield comes back to the first thread.
-/

namespace RetaOS.Sched
open Lib

variable {s : State} {c : Nat} {ts : List Nat}

/-- The threads `ts` take their turns in order, and then the thread `c` and the queue are back. -/
structure RoundRobin (s : State) (c : Nat) (ts : List Nat) : Prop where
  turn : ∀ k, 1 ≤ k → k ≤ ts.length → (schedYield^[k] s).schedCurrent = ts[k - 1]?
  back : (schedYield^[ts.length + 1] s).schedCurrent = some c
  queue : Linked (schedYield^[ts.length + 1] s).next (schedYield^[ts.length + 1] s).readyQueue ts

/-- The current thread runs and others are ready. -/
structure Waiting (s : State) (c : Nat) (ts : List Nat) : Prop where
  queue : Linked s.next s.readyQueue ts
  current : s.schedCurrent = some c
  running : (s.threads c).state = .running
  fresh : c ∉ ts

/-- The current thread and the head of the ready queue change places. -/
lemma Waiting.yield {t : Nat} (w : Waiting s c (t :: ts)) (init : s.schedInitialized = true) :
    Waiting (schedYield s) t (c :: ts) ∧ (schedYield s).schedInitialized = true := by
  have only (d : Nat) (hd : s.schedCurrent = some d) : d ∉ t :: ts := by
    cases hd.symm.trans w.current
    exact w.fresh
  have y := schedYield_spec w.queue init only
  have requeued : s.requeued = [c] := by simp [State.requeued, w.current, w.running]
  have ready := y.ready
  rw [requeued] at ready
  refine ⟨⟨ready, y.current, by simp [y.state t], fun mem => ?_⟩, ?_⟩
  · rcases List.mem_cons.mp mem with rfl | mem
    · exact w.fresh List.mem_cons_self
    · exact (List.nodup_cons.mp w.queue.nodup).1 mem
  · exact (congrArg State.schedInitialized y.rest).trans init

/-- Turns go round exactly when the scheduler is initialised and one thread is ready. -/
theorem roundRobin_iff (w : Waiting s c ts) (ne : ts ≠ []) :
    RoundRobin s c ts ↔ s.schedInitialized = true ∧ ts.length = 1 := by
  obtain ⟨t, ts, rfl⟩ := List.exists_cons_of_ne_nil ne
  cases init : s.schedInitialized with
  | false =>
    refine ⟨fun h => ?_, by rintro ⟨⟨⟩, -⟩⟩
    have still : schedYield s = s := by simp [schedYield, init]
    have first := h.turn 1 (le_refl 1) (by simp)
    rw [Function.iterate_one, still, w.current] at first
    cases first
    exact absurd List.mem_cons_self w.fresh
  | true =>
    obtain ⟨w₁, init₁⟩ := w.yield init
    obtain ⟨w₂, -⟩ := w₁.yield init₁
    cases ts with
    | nil =>
      refine ⟨fun _ => ⟨rfl, rfl⟩, fun _ => ⟨fun k low high => ?_, w₂.current, w₂.queue⟩⟩
      obtain rfl : k = 1 := le_antisymm high low
      exact w₁.current
    | cons t' ts =>
      refine ⟨fun h => ?_, by rintro ⟨-, ⟨⟩⟩⟩
      have second := h.turn 2 (by decide) (by simp)
      have again : c = t' := Option.some.inj (w₂.current.symm.trans second)
      exact absurd (by simp [again]) w.fresh

theorem roundRobin_iff_restless : RoundRobin restless 0 [1] := by
  refine (roundRobin_iff ⟨.cons .nil, rfl, rfl, ?_⟩ ?_).mpr ⟨rfl, rfl⟩
  · decide
  · decide

/-- One thread running and two ready. -/
def crowded : State :=
  let thread (t : Nat) (st : ThreadState) (next : Option Nat) : Thread :=
    { Thread.zero with tid := t, state := st, next }
  { bootState (fun
      | 0 => thread 0 .running none
      | 1 => thread 1 .ready (some 2)
      | 2 => thread 2 .ready none
      | _ => Thread.zero) (fun _ => false) 0 0 with
    readyQueue := some 1
    schedCurrent := some 0
    schedInitialized := true }

/-- The third of three threads waits while the other two take turns. -/
theorem crowded_starves :
    Waiting crowded 0 [1, 2] ∧ crowded.schedInitialized = true ∧ ¬ RoundRobin crowded 0 [1, 2] := by
  refine ⟨⟨.cons (.cons .nil), rfl, rfl, by decide⟩, rfl, fun h => ?_⟩
  have second : (schedYield^[2] crowded).schedCurrent = some 2 := h.turn 2 (by decide) (by decide)
  have first : (schedYield^[2] crowded).schedCurrent = some 0 := rfl
  cases first.symm.trans second

end RetaOS.Sched
