import RetaOS.Sched.RoundRobin
import RetaOS.Sched.TimeSlice

/-!
# Waiting for ever

The ready queue is a stack: `sched_add_thread` puts new threads, woken ones and the one that yields on top, and
`pick_next_thread` takes the top. As long as the running threads only yield or use up their slices, there is always a
thread above the ones that waited below the first, and none of these has a turn again, however long the run, whatever
the timer, the quantum and the preemption flag, and whoever else is created or wakes up (`waits_for_ever`).
-/

namespace RetaOS.Sched
open Lib

variable {s s' : State} {c t : Nat} {R S above bottom : List Nat}

/-- `scheduler_set_preempt`. -/
def schedulerSetPreempt (s : State) (on : Int) : State := { s with preemptEnabled := on ≠ 0 }

/-- What happens while threads run that neither sleep nor exit. -/
inductive TurnOp where
  | threadCreate (entry arg : UInt32)
  | schedYield
  | schedTick
  | setQuantum (ticks : Int)
  | setPreempt (on : Int)
  | clock (timerTicks : UInt32)

namespace TurnOp

/-- The state after an operation; `none` when it never returns. -/
def exec (s : State) : TurnOp → Option State
  | threadCreate entry arg => some (Sched.threadCreate s entry arg).2
  | schedYield => some (Sched.schedYield s)
  | schedTick => Sched.schedTick s
  | setQuantum ticks => some (schedulerSetQuantum s ticks)
  | setPreempt on => some (schedulerSetPreempt s on)
  | clock timerTicks => some { s with timerTicks }

end TurnOp

/-- The threads that the scheduler holds are blocks that were handed out. -/
structure Turns (s : State) (c : Nat) (R S : List Nat) : Prop extends Scheduled s c R S where
  used : ∀ t ∈ c :: R ++ S, t < s.calls
  init : s.schedInitialized = true

/-- The thread on top of the stack and the current one change places. -/
lemma Scheduled.swap (h : Scheduled s c (t :: R) S) (init : s.schedInitialized = true) :
    Scheduled (schedYield s) t (c :: R) S ∧ (schedYield s).rest = s.rest := by
  obtain ⟨c', R', h', -, rest, -⟩ := h.yield init
  have y := h.queues.yields init
  have requeued : s.requeued = [c] := by simp [State.requeued, h.current, h.running]
  have ready := y.ready
  rw [requeued] at ready
  obtain rfl : c' = t := Option.some.inj (h'.current.symm.trans y.current)
  obtain rfl : R' = c :: R := h'.queues.ready.unique ready
  exact ⟨h', rest⟩

/-- What no thread that the scheduler holds notices. -/
lemma Scheduled.congr (h : Scheduled s c R S) (threads : ∀ t ∈ c :: R ++ S, s'.threads t = s.threads t)
    (readyQueue : s'.readyQueue = s.readyQueue) (sleepingThreads : s'.sleepingThreads = s.sleepingThreads)
    (schedCurrent : s'.schedCurrent = s.schedCurrent) : Scheduled s' c R S := by
  have inR (t : Nat) (mem : t ∈ R) : s'.threads t = s.threads t :=
    threads t (List.mem_append_left _ (List.mem_cons_of_mem c mem))
  have inS (t : Nat) (mem : t ∈ S) : s'.threads t = s.threads t := threads t (List.mem_append_right _ mem)
  have self : s'.threads c = s.threads c := threads c (List.mem_append_left _ List.mem_cons_self)
  refine ⟨?_, schedCurrent.trans h.current, ?_, fun t mem => ?_, fun t mem => ?_⟩
  · exact h.queues.congr (fun t mem => congrArg Thread.next (inR t mem))
      (fun t mem => congrArg Thread.nextSleeping (inS t mem)) readyQueue sleepingThreads schedCurrent
  · rw [self]
    exact h.running
  · rw [inR t mem]
    exact h.ready t mem
  · rw [inS t mem]
    exact h.sleeping t mem

/-- A thread below the top of the stack stays where it is. -/
structure Below (s : State) (bottom : List Nat) : Prop where
  turns : ∃ c t above S, Turns s c (t :: above ++ bottom) S

/-- The scheduler runs another thread. -/
lemma Below.waits (b : Below s bottom) :
    (∃ c, s.schedCurrent = some c ∧ (s.threads c).state = .running ∧ c ∉ bottom) ∧
      ∀ u ∈ bottom, (s.threads u).state = .ready := by
  obtain ⟨c, t, above, S, h⟩ := b.turns
  obtain ⟨cR, -⟩ := h.queues.current c h.current
  refine ⟨⟨c, h.current, h.running, fun mem => cR (List.mem_append_right _ mem)⟩, fun u mem => ?_⟩
  exact h.ready u (List.mem_append_right _ mem)

/-- Scheduling moves the threads about that the scheduler holds. -/
lemma Turns.moved {c' : Nat} {R' S' : List Nat} (h : Turns s c R S) (h' : Scheduled s' c' R' S')
    (sub : ∀ t ∈ c' :: R' ++ S', t ∈ c :: R ++ S) (rest : s'.rest = s.rest) : Turns s' c' R' S' := by
  have calls : s'.calls = s.calls := by simpa [State.rest] using congrArg State.calls rest
  refine ⟨h', fun t mem => ?_, (congrArg State.schedInitialized rest).trans h.init⟩
  rw [calls]
  exact h.used t (sub t mem)

lemma Turns.yield (h : Turns s c (t :: R) S) : Turns (schedYield s) t (c :: R) S := by
  obtain ⟨h', rest⟩ := h.swap h.init
  refine h.moved h' (fun u mem => ?_) rest
  simp only [List.cons_append, List.mem_cons, List.mem_append] at mem ⊢
  tauto

lemma Turns.slice (h : Turns s c R S) (k : Int) : Turns (s.setSlice c k) c R S :=
  h.moved (h.toScheduled.slice k) (fun _ mem => mem) setSlice_rest

/-- Threads that wake up come on top. -/
lemma Turns.wake (h : Turns s c R S) : ∃ s', checkSleepingThreads s = some s' ∧
    Turns s' c ((S.filter s.due).reverse ++ R) (S.filter fun t => !s.due t) := by
  obtain ⟨s', run, h', rest, -⟩ := h.toScheduled.wake
  refine ⟨s', run, h.moved h' (fun u mem => ?_) rest⟩
  simp only [List.cons_append, List.mem_cons, List.mem_append, List.mem_reverse, List.mem_filter] at mem ⊢
  tauto

/-- A tick gives the turn to the top of the stack or to none. -/
lemma Turns.tick (h : Turns s c (t :: above ++ bottom) S) : ∃ s', schedTick s = some s' ∧ Below s' bottom := by
  obtain ⟨k, s₁, tick, before⟩ := schedTick_cases h.current
  have sliced := h.slice k
  obtain ⟨c', t', above', h₁⟩ : ∃ c' t' above', Turns s₁ c' (t' :: above' ++ bottom) S := by
    obtain rfl | rfl := before
    · exact ⟨c, t, above, sliced⟩
    · exact ⟨t, c, above, sliced.yield⟩
  obtain ⟨s', run, h'⟩ := h₁.wake
  refine ⟨s', tick.trans run, ⟨c', ?_⟩⟩
  cases woken : (S.filter s₁.due).reverse with
  | nil =>
    rw [woken] at h'
    exact ⟨t', above', _, h'⟩
  | cons w ws =>
    rw [woken, ← List.append_assoc] at h'
    exact ⟨w, ws ++ t' :: above', _, h'⟩

/-- A new thread comes on top. -/
lemma Turns.create (h : Turns s c R S) (entry arg : UInt32) :
    Turns (s.created entry arg) c (s.calls :: R) S := by
  have fresh : s.calls ∉ c :: R ++ S := fun mem => Nat.lt_irrefl _ (h.used _ mem)
  have same (t : Nat) (mem : t ∈ c :: R ++ S) : (s.created entry arg).threads t = s.threads t :=
    Function.update_of_ne (fun eq => fresh (by rwa [← eq])) _ s.threads
  have self : (s.created entry arg).threads s.calls = { s.threads s.calls with
      tid := s.nextTid, stackBase := some (s.calls + 1), state := .ready, entry, arg, retval := 0,
      next := s.readyQueue } := Function.update_self s.calls _ s.threads
  simp only [List.cons_append, List.mem_cons, List.mem_append, not_or] at fresh
  have queues : Queues (s.created entry arg) (s.calls :: R) S := h.queues.create fresh.2.1 fresh.2.2 fun eq =>
    fresh.1 (Option.some.inj (h.current.symm.trans eq)).symm
  refine ⟨⟨queues, h.current, ?_, fun t mem => ?_, fun t mem => ?_⟩, fun t mem => ?_, h.init⟩
  · rw [same c (by simp)]
    exact h.running
  · rcases List.mem_cons.mp mem with rfl | mem
    · rw [self]
    · rw [same t (by simp [mem])]
      exact h.ready t mem
  · rw [same t (by simp [mem])]
    exact h.sleeping t mem
  · change t < s.calls + 2
    simp only [List.cons_append, List.mem_cons, List.mem_append] at mem
    obtain rfl | rfl | mem := mem
    · exact Nat.lt_add_right 2 (h.used t (by simp))
    · exact Nat.lt_add_of_pos_right (by decide)
    · exact Nat.lt_add_right 2 (h.used t (by simp [mem]))

/-- A creation that fails writes to no thread of the scheduler. -/
lemma Turns.createFails {th : Thread} {calls : Nat} {freed : List Nat} (h : Turns s c R S) (le : s.calls ≤ calls) :
    Turns { s with threads := Function.update s.threads s.calls th, calls, freed } c R S := by
  refine ⟨h.toScheduled.congr (fun t mem => ?_) rfl rfl rfl, fun t mem => ?_, h.init⟩
  · exact Function.update_of_ne (Nat.ne_of_lt (h.used t mem)) th s.threads
  · exact Nat.lt_of_lt_of_le (h.used t mem) le

/-- Each operation leaves what is below the top of the stack. -/
theorem Below.step (b : Below s bottom) (op : TurnOp) : ∃ s', op.exec s = some s' ∧ Below s' bottom := by
  obtain ⟨c, t, above, S, h⟩ := b.turns
  cases op with
  | threadCreate entry arg =>
    refine ⟨_, rfl, ⟨c, ?_⟩⟩
    by_cases fails : CreateFails s entry
    · obtain ⟨-, th, calls, freed, le, eq⟩ := threadCreate_fails arg fails
      rw [eq]
      exact ⟨t, above, S, h.createFails le⟩
    · rw [threadCreate_succeeds arg fails]
      exact ⟨s.calls, t :: above, S, h.create entry arg⟩
  | schedYield => exact ⟨_, rfl, ⟨t, c, above, S, h.yield⟩⟩
  | schedTick => exact h.tick
  | setQuantum ticks =>
    refine ⟨_, rfl, ⟨c, t, above, S, ?_⟩⟩
    rw [schedulerSetQuantum]
    split_ifs
    · exact ⟨h.toScheduled.congr (fun _ _ => rfl) rfl rfl rfl, h.used, h.init⟩
    · exact h
  | setPreempt on =>
    exact ⟨_, rfl, ⟨c, t, above, S, ⟨h.toScheduled.congr (fun _ _ => rfl) rfl rfl rfl, h.used, h.init⟩⟩⟩
  | clock timerTicks =>
    exact ⟨_, rfl, ⟨c, t, above, S, ⟨h.toScheduled.congr (fun _ _ => rfl) rfl rfl rfl, h.used, h.init⟩⟩⟩

/-- The threads below the first of the ready queue never run again: after any operations, each of which returns, another
    thread runs, and they are still ready. -/
theorem waits_for_ever (h : Turns s c (t :: bottom) S) (ops : List TurnOp) :
    ∃ s', ops.foldlM TurnOp.exec s = some s' ∧
      (∃ c', s'.schedCurrent = some c' ∧ (s'.threads c').state = .running ∧ c' ∉ bottom) ∧
      ∀ u ∈ bottom, (s'.threads u).state = .ready := by
  have b : Below s bottom := ⟨c, t, [], S, h⟩
  clear h
  induction ops generalizing s with
  | nil => exact ⟨s, rfl, b.waits⟩
  | cons op ops ih =>
    obtain ⟨s₁, first, b₁⟩ := b.step op
    obtain ⟨s', rest, waits⟩ := ih b₁
    exact ⟨s', by rw [List.foldlM_cons, first]; exact rest, waits⟩

/-- The third of three threads. -/
theorem waits_for_ever_crowded : ∃ s',
    [TurnOp.schedYield, .schedTick, .threadCreate 1 0, .schedYield].foldlM TurnOp.exec { crowded with calls := 3 } =
      some s' ∧ (s'.threads 2).state = .ready := by
  have queues : Queues { crowded with calls := 3 } [1, 2] [] := by
    refine ⟨.cons (.cons .nil), .nil, by simp, ?_⟩
    rintro c ⟨⟩
    simp
  have scheduled : Scheduled { crowded with calls := 3 } 0 [1, 2] [] := by
    refine ⟨queues, rfl, rfl, ?_, ?_⟩
    · decide
    · decide
  obtain ⟨s', run, -, ready⟩ := waits_for_ever ⟨scheduled, by decide, rfl⟩
    [TurnOp.schedYield, .schedTick, .threadCreate 1 0, .schedYield]
  exact ⟨s', run, ready 2 (by simp)⟩

end RetaOS.Sched
