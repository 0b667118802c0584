import RetaOS.Sched.Queues
import RetaOS.Lib.Runs

/-!
# Runs of the threads and the scheduler

The operations that kernel code and the timer interrupt perform, in any order, from the state that `threading_init`
and `sched_init` leave. A state goes with the list of the threads that were created and not joined since, the
bootstrap thread last; that thread is block 0. Between two operations the timer may count on (`clock`).
-/

namespace RetaOS.Sched
open Lib

/-- The operations. -/
inductive Op where
  | threadCreate (entry arg : UInt32)
  | schedStart
  | schedYield
  | schedTick
  | schedSwitch (next : Nat)
  | threadSleep (ms : UInt32)
  | threadExit (retval : UInt32)
  | threadJoin (tid : Int)
  | clock (timerTicks : UInt32)

/-- A state and the threads created and not joined. -/
abbrev World := State × List Nat

namespace Op

/-- The state after an operation; `none` when it never returns. -/
def exec (s : State) : Op → Option State
  | threadCreate entry arg => some (Sched.threadCreate s entry arg).2
  | schedStart => some (Sched.schedStart s)
  | schedYield => some (Sched.schedYield s)
  | schedTick => Sched.schedTick s
  | schedSwitch next => some (Sched.schedSwitch s next)
  | threadSleep ms => some (Sched.threadSleep s ms)
  | threadExit retval => some (Sched.threadExit s retval)
  | threadJoin tid => (Sched.threadJoin s tid).map fun r => r.2.2
  | clock timerTicks => some { s with timerTicks }

/-- The threads created and not joined after an operation. -/
def live (s : State) (L : List Nat) : Op → List Nat
  | threadCreate entry arg => if (Sched.threadCreate s entry arg).1 = -1 then L else s.calls :: L
  | threadJoin tid =>
    match Sched.threadJoin s tid with
    | some (0, _, _) => L.filter fun t => (s.threads t).tid ≠ tid
    | _ => L
  | _ => L

/-- One operation. -/
def step (x : World) (op : Op) : Option World := (op.exec x.1).map fun s => (s, op.live x.1 x.2)

lemma step_eq_some {x x' : World} {op : Op} :
    op.step x = some x' ↔ ∃ s, op.exec x.1 = some s ∧ x' = (s, op.live x.1 x.2) := by
  simp [step, eq_comm]

end Op

/-! ## The start. -/

/-- What `threading_init` leaves when it returns, with the scheduler initialised or not. -/
structure Fresh (s : State) : Prop where
  calls : s.calls = 2
  nextTid : s.nextTid = 2
  threadList : s.threadList = some 0
  threadCurrent : s.threadCurrent = some 0
  readyQueue : s.readyQueue = none
  sleepingThreads : s.sleepingThreads = none
  schedCurrent : s.schedCurrent = none
  tid : (s.threads 0).tid = 1
  state : (s.threads 0).state = .running
  next : (s.threads 0).next = none

/-- The states after `threading_init`, and those after `sched_init` behind it. -/
inductive Booted : State → Prop where
  | threading {threads oom timerTicks ticks s} :
    threadingInit (bootState threads oom timerTicks ticks) = some s →
    Booted s
  | scheduler {threads oom timerTicks ticks s} :
    threadingInit (bootState threads oom timerTicks ticks) = some s →
    Booted (schedInit s)

/-- A heap full of zeros, with memory for every request, and the timer at 0. -/
def powerOn : State := bootState (fun _ => Thread.zero) (fun _ => false) 0 0

variable {s s' : State} {threads : Nat → Thread} {oom : Nat → Bool} {timerTicks ticks : UInt32} {entry : UInt32}

lemma threadingInit_fresh (h : threadingInit (bootState threads oom timerTicks ticks) = some s) : Fresh s := by
  unfold threadingInit State.kmalloc at h
  cases first : oom 0 with
  | true => simp [bootState, first] at h
  | false =>
    cases second : oom 1 with
    | true => simp [bootState, first, second] at h
    | false =>
      simp only [bootState, first, second, Bool.false_eq_true, if_false, Nat.zero_add, Option.some.injEq] at h
      subst h
      exact ⟨rfl, rfl, rfl, rfl, rfl, rfl, rfl, by simp, by simp, by simp [Thread.zero]⟩

lemma Booted.fresh (h : Booted s) : Fresh s := by
  cases h with
  | threading h => exact threadingInit_fresh h
  | scheduler h =>
    have f := threadingInit_fresh h
    exact ⟨f.calls, f.nextTid, f.threadList, f.threadCurrent, rfl, rfl, rfl, f.tid, f.state, f.next⟩

/-! ## Creating a thread. -/

/-- `thread_create` returns -1: no entry point, or no memory. -/
def CreateFails (s : State) (entry : UInt32) : Prop :=
  entry = 0 ∨ s.oom s.calls = true ∨ s.oom (s.calls + 1) = true

/-- A failed creation touches at most the block that it gives back. -/
lemma threadCreate_fails (arg : UInt32) (h : CreateFails s entry) :
    (threadCreate s entry arg).1 = -1 ∧ ∃ th calls freed, s.calls ≤ calls ∧ (threadCreate s entry arg).2 =
      { s with threads := Function.update s.threads s.calls th, calls, freed } := by
  by_cases entry0 : entry = 0
  · have unfolded : threadCreate s entry arg = (-1, s) := by simp [threadCreate, entry0]
    rw [unfolded]
    refine ⟨rfl, s.threads s.calls, s.calls, s.freed, le_refl _, ?_⟩
    rw [Function.update_eq_self]
  cases first : s.oom s.calls with
  | true =>
    have unfolded : threadCreate s entry arg = (-1, { s with calls := s.calls + 1 }) := by
      simp [threadCreate, entry0, State.kmalloc, first]
    rw [unfolded]
    refine ⟨rfl, s.threads s.calls, s.calls + 1, s.freed, Nat.le_succ _, ?_⟩
    rw [Function.update_eq_self]
  | false =>
    have second : s.oom (s.calls + 1) = true := by simpa [CreateFails, entry0, first] using h
    refine ⟨by simp [threadCreate, entry0, State.kmalloc, first, second],
      { s.threads s.calls with stackBase := none }, s.calls + 2, s.calls :: s.freed, by omega, ?_⟩
    simp [threadCreate, entry0, State.kmalloc, first, second, State.kfree, State.setThread]

/-- The state after a creation that succeeds. -/
def State.created (s : State) (entry arg : UInt32) : State :=
  { s with
    threads := Function.update s.threads s.calls { s.threads s.calls with
      tid := s.nextTid, stackBase := some (s.calls + 1), state := .ready, entry, arg, retval := 0,
      next := s.readyQueue }
    calls := s.calls + 2
    nextTid := s.nextTid + 1
    threadList := some s.calls
    readyQueue := some s.calls }

lemma threadCreate_succeeds (arg : UInt32) (h : ¬ CreateFails s entry) :
    threadCreate s entry arg = (s.nextTid, s.created entry arg) := by
  simp only [CreateFails, not_or, Bool.not_eq_true] at h
  obtain ⟨entry0, first, second⟩ := h
  simp [threadCreate, entry0, State.kmalloc, first, second, schedAddThread, State.setNext, State.setThread,
    State.created]

/-- A new block goes to the front of the ready queue. -/
lemma Queues.create {R S : List Nat} {arg : UInt32} (q : Queues s R S) (ready : s.calls ∉ R) (asleep : s.calls ∉ S)
    (current : s.schedCurrent ≠ some s.calls) : Queues (s.created entry arg) (s.calls :: R) S := by
  have same (t : Nat) (ne : t ≠ s.calls) : (s.created entry arg).threads t = s.threads t :=
    Function.update_of_ne ne _ s.threads
  have self : ((s.created entry arg).threads s.calls).next = s.readyQueue :=
    congrArg Thread.next (Function.update_self s.calls _ s.threads)
  refine ⟨.cons ?_, ?_, List.disjoint_cons_left.mpr ⟨asleep, q.disjoint⟩, fun c hc => ?_⟩
  · rw [State.next, self]
    refine q.ready.congr fun t mem => ?_
    rw [State.next, same t fun eq => ready (eq ▸ mem)]
    rfl
  · refine q.sleeping.congr fun t mem => ?_
    rw [State.nextSleeping, same t fun eq => asleep (eq ▸ mem)]
    rfl
  · obtain ⟨cR, cS⟩ := q.current c hc
    have ne : c ≠ s.calls := fun eq => current (eq ▸ hc)
    simp [cR, cS, ne]

/-! ## Going to sleep. -/

/-- What `thread_sleep` does to the thread `b`. -/
structure Sleeps (s s' : State) (b : Nat) : Prop where
  next : s'.next = s.next
  nextSleeping : ∀ t, s'.nextSleeping t = if t = b then s.sleepingThreads else s.nextSleeping t
  sleepingThreads : s'.sleepingThreads = some b
  state : ∀ t, (s'.threads t).state = if t = b then .blocked else (s.threads t).state
  readyQueue : s'.readyQueue = s.readyQueue
  schedCurrent : s'.schedCurrent = s.schedCurrent
  threadCurrent : s'.threadCurrent = s.threadCurrent
  init : s'.schedInitialized = s.schedInitialized
  calls : s'.calls = s.calls
  nextTid : s'.nextTid = s.nextTid

/-- `thread_sleep` puts the `current_thread` of `thread.c` in front of the sleeping list. -/
lemma threadSleep_spec {b : Nat} {ms : UInt32} (hms : ms ≠ 0) (hb : s.threadCurrent = some b) :
    Sleeps s (threadSleep s ms) b := by
  have unfolded : threadSleep s ms = timerTick (schedAddSleepingThread (s.setThread b { s.threads b with
      state := .blocked, wakeupTime := s.timerTicks + ms * 1000 / 100 }) b) := by
    simp [threadSleep, threadYield, hms, hb]
  rw [unfolded]
  refine ⟨?_, fun t => ?_, rfl, fun t => ?_, rfl, rfl, rfl, rfl, rfl, rfl⟩
  · funext t
    by_cases ht : t = b <;> simp [timerTick, schedAddSleepingThread, State.next, ht]
  · by_cases ht : t = b <;> simp [timerTick, schedAddSleepingThread, State.nextSleeping, ht]
  · by_cases ht : t = b <;> simp [timerTick, schedAddSleepingThread, ht]

end RetaOS.Sched
