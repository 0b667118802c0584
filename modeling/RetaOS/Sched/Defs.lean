import RetaOS.Lib.Linked
import Mathlib.Logic.Function.Basic

/-!
# Threads and the scheduler

`kernel/thread.c` and the thread part of `kernel/sched.c`. Thread control blocks are numbered by the call of
`kmalloc` that returned them, and a block that was never written holds whatever `threads` says. The ready queue and
the list of all threads go through one field, `next`. Both files have a variable `current_thread`: the one of
`thread.c` is `threadCurrent`, the one of `sched.c` is `schedCurrent`.

`switch_threads` and `switch_to_thread` exchange stack pointers, which are no part of this state, so a switch shows
in `schedCurrent` alone. `timer_ticks` stays as it is during a call. Counters of type `int` are integers: their
overflow is undefined. Walks along a list need not end, and `none` is a call that never returns.
-/

namespace RetaOS.Sched
open Lib

/-- `thread_state_t`. -/
inductive ThreadState where
  | new
  | ready
  | running
  | blocked
  | terminated
  deriving DecidableEq

/-- `struct thread`. -/
structure Thread where
  tid : Int
  stackBase : Option Nat
  state : ThreadState
  entry : UInt32
  arg : UInt32
  retval : UInt32
  next : Option Nat
  nextSleeping : Option Nat
  wakeupTime : UInt32
  timeSlice : Int

/-- A thread after `memset(thread, 0, sizeof(thread_t))`. -/
def Thread.zero : Thread where
  tid := 0
  stackBase := none
  state := .new
  entry := 0
  arg := 0
  retval := 0
  next := none
  nextSleeping := none
  wakeupTime := 0
  timeSlice := 0

/-- The blocks on the heap and the static variables of `thread.c`, `sched.c` and `timer.c`; `ticks` is the count
    of `isr.c`. The `k`th call of `kmalloc` returns the block `k`, or `NULL` when `oom k`. -/
structure State where
  threads : Nat → Thread
  oom : Nat → Bool
  calls : Nat
  freed : List Nat
  nextTid : Int
  threadList : Option Nat
  threadCurrent : Option Nat
  readyQueue : Option Nat
  sleepingThreads : Option Nat
  schedCurrent : Option Nat
  schedInitialized : Bool
  preemptEnabled : Bool
  rrQuantum : Int
  timerTicks : UInt32
  ticks : UInt32

namespace State

/-- The thread at `t` is overwritten. -/
def setThread (s : State) (t : Nat) (th : Thread) : State :=
  { s with threads := Function.update s.threads t th }

/-- `thread->next = p`. -/
def setNext (s : State) (t : Nat) (p : Option Nat) : State := s.setThread t { s.threads t with next := p }

/-- `thread->state = st`. -/
def setState (s : State) (t : Nat) (st : ThreadState) : State := s.setThread t { s.threads t with state := st }

/-- The successor functions of the two kinds of list. -/
def next (s : State) (t : Nat) : Option Nat := (s.threads t).next

def nextSleeping (s : State) (t : Nat) : Option Nat := (s.threads t).nextSleeping

/-- `kmalloc`. -/
def kmalloc (s : State) : Option Nat × State :=
  (if s.oom s.calls then none else some s.calls, { s with calls := s.calls + 1 })

/-- `kfree`; the content of the block stays. -/
def kfree (s : State) (p : Nat) : State := { s with freed := p :: s.freed }

end State

/-! ## The queues. -/

/-- `sched_add_thread`. -/
def schedAddThread (s : State) (t : Nat) : State :=
  { s.setNext t s.readyQueue with readyQueue := some t }

/-- `pick_next_thread`. -/
def pickNextThread (s : State) : Option Nat × State :=
  match s.readyQueue with
  | none => (none, s)
  | some next => (some next, { s with readyQueue := s.next next }.setNext next none)

/-- `sched_add_sleeping_thread`. -/
def schedAddSleepingThread (s : State) (t : Nat) : State :=
  { s.setThread t { s.threads t with nextSleeping := s.sleepingThreads } with sleepingThreads := some t }

/-- A pointer to a pointer of the sleeping list: to `sleeping_threads`, or to `next_sleeping` of a thread. -/
def readPtr (s : State) : Option Nat → Option Nat
  | none => s.sleepingThreads
  | some t => s.nextSleeping t

/-- `*ptr = p`. -/
def writePtr (s : State) (ptr p : Option Nat) : State :=
  match ptr with
  | none => { s with sleepingThreads := p }
  | some t => s.setThread t { s.threads t with nextSleeping := p }

/-- The variables of `check_sleeping_threads` at the head of its loop. -/
structure Check where
  s : State
  ptr : Option Nat
  current : Option Nat

/-- One pass of the loop of `check_sleeping_threads`. -/
def checkBody (c : Check) : Pass Check State :=
  match c.current with
  | none => .done c.s
  | some t =>
    if (c.s.threads t).wakeupTime ≤ c.s.timerTicks then
      let s := writePtr c.s c.ptr (c.s.nextSleeping t)
      let s := schedAddThread (s.setState t .ready) t
      .next ⟨s, c.ptr, readPtr s c.ptr⟩
    else .next ⟨c.s, some t, c.s.nextSleeping t⟩

/-- `check_sleeping_threads`. -/
def checkSleepingThreads (s : State) : Option State := loop checkBody ⟨s, none, s.sleepingThreads⟩

/-! ## Scheduling. -/

/-- The part of `sched_yield` and `sched_switch` that makes a thread the current one. -/
def makeCurrent (s : State) (next : Nat) : State :=
  { s.setThread next { s.threads next with state := .running, timeSlice := s.rrQuantum } with
    schedCurrent := some next }

/-- `sched_yield`. -/
def schedYield (s : State) : State :=
  if s.schedInitialized = false then s
  else
    match pickNextThread s with
    | (none, s) => s
    | (some next, s) =>
      let s :=
        match s.schedCurrent with
        | none => s
        | some current =>
          if (s.threads current).state = .running then schedAddThread (s.setState current .ready) current else s
      makeCurrent s next

/-- `sched_tick`. -/
def schedTick (s : State) : Option State :=
  match s.schedCurrent with
  | none => some s
  | some c =>
    let s := s.setThread c { s.threads c with timeSlice := (s.threads c).timeSlice - 1 }
    let s :=
      if (s.threads c).timeSlice ≤ 0 then
        let s := s.setThread c { s.threads c with timeSlice := s.rrQuantum }
        if s.preemptEnabled then schedYield s else s
      else s
    checkSleepingThreads s

/-- `sched_init`. -/
def schedInit (s : State) : State :=
  { s with
    readyQueue := none
    sleepingThreads := none
    schedCurrent := none
    preemptEnabled := true
    schedInitialized := true }

/-- `sched_start`. -/
def schedStart (s : State) : State :=
  match s.readyQueue with
  | none => s
  | some next => { { s with readyQueue := s.next next }.setState next .running with schedCurrent := some next }

/-- `sched_switch`. -/
def schedSwitch (s : State) (next : Nat) : State :=
  if (s.threads next).state ≠ .ready then s
  else if s.schedCurrent = some next then s
  else
    let s :=
      match s.schedCurrent with
      | none => s
      | some current => schedAddThread (s.setState current .ready) current
    makeCurrent s next

/-! ## Threads. -/

/-- `timer_tick` of `isr.c`, the handler that `irq_init_basic` installs for `IRQ 0`. -/
def timerTick (s : State) : State := { s with ticks := s.ticks + 1 }

/-- `thread_yield`: the vector of `int $0x20` is that of `IRQ 0`. -/
def threadYield (s : State) : State := timerTick s

/-- `thread_create`. -/
def threadCreate (s : State) (entry arg : UInt32) : Int × State :=
  if entry = 0 then (-1, s)
  else
    match s.kmalloc with
    | (none, s) => (-1, s)
    | (some thread, s) =>
      match s.kmalloc with
      | (none, s) => (-1, (s.setThread thread { s.threads thread with stackBase := none }).kfree thread)
      | (some stack, s) =>
        let tid := s.nextTid
        let s := { s with nextTid := s.nextTid + 1 }.setThread thread { s.threads thread with
          tid, stackBase := some stack, state := .ready, entry, arg, retval := 0 }
        let s := { s.setNext thread s.threadList with threadList := some thread }
        (tid, schedAddThread s thread)

/-- `thread_exit`, up to the loop that it ends in. -/
def threadExit (s : State) (retval : UInt32) : State :=
  match s.threadCurrent with
  | none => s
  | some t => threadYield (s.setThread t { s.threads t with retval, state := .terminated })

/-- `thread_self`. -/
def threadSelf (s : State) : Int :=
  match s.threadCurrent with
  | none => 0
  | some t => (s.threads t).tid

/-- `thread_sleep`. A thread calls it, so `current_thread` is not `NULL`. -/
def threadSleep (s : State) (ms : UInt32) : State :=
  if ms = 0 then threadYield s
  else
    match s.threadCurrent with
    | none => s
    | some t =>
      let wakeupTime := s.timerTicks + ms * 1000 / 100
      let s := s.setThread t { s.threads t with state := .blocked, wakeupTime }
      threadYield (schedAddSleepingThread s t)

/-- One pass of the search of `thread_join`, over `thread` and `prev`. -/
def joinBody (s : State) (tid : Int) :
    Option Nat × Option Nat → Pass (Option Nat × Option Nat) (Option Nat × Option Nat)
  | (none, prev) => .done (none, prev)
  | (some t, prev) => if (s.threads t).tid = tid then .done (some t, prev) else .next (s.next t, some t)

/-- One pass of the wait of `thread_join`. -/
def waitBody (t : Nat) (s : State) : Pass State State :=
  if (s.threads t).state ≠ .terminated then .next (threadYield s) else .done s

/-- `thread_join`: the value returned and, for 0, the one of the thread. -/
def threadJoin (s : State) (tid : Int) : Option (Int × UInt32 × State) :=
  if tid ≤ 0 then some (-1, 0, s)
  else
    match loop (joinBody s tid) (s.threadList, none) with
    | none => none
    | some (none, _) => some (-1, 0, s)
    | some (some t, prev) =>
      if s.threadCurrent = some t then some (-1, 0, s)
      else
        match loop (waitBody t) s with
        | none => none
        | some s =>
          let th := s.threads t
          let s :=
            match prev with
            | some p => s.setNext p th.next
            | none => { s with threadList := th.next }
          let s :=
            match th.stackBase with
            | none => s
            | some stack => s.kfree stack
          some (0, th.retval, s.kfree t)

/-- `threading_init`; `none` when `kernel_bsod` stops the system. -/
def threadingInit (s : State) : Option State :=
  match s.kmalloc with
  | (none, _) => none
  | (some t, s) =>
    let tid := s.nextTid
    let s := { s with nextTid := s.nextTid + 1 }
    match s.kmalloc with
    | (none, _) => none
    | (some stack, s) =>
      some { s.setThread t { Thread.zero with
          tid, state := .running, timeSlice := s.rrQuantum, stackBase := some stack } with
        threadCurrent := some t
        threadList := some t }

/-- One pass of the count of `scheduler_task_count`. -/
def countBody (s : State) : Nat × Option Nat → Pass (Nat × Option Nat) Nat
  | (count, none) => .done count
  | (count, some t) => .next (count + 1, s.next t)

/-- `scheduler_task_count`. -/
def schedulerTaskCount (s : State) : Option Nat := loop (countBody s) (0, s.threadList)

/-- The static variables before any call; the heap holds anything. -/
def bootState (threads : Nat → Thread) (oom : Nat → Bool) (timerTicks ticks : UInt32) : State where
  threads := threads
  oom := oom
  calls := 0
  freed := []
  nextTid := 1
  threadList := none
  threadCurrent := none
  readyQueue := none
  sleepingThreads := none
  schedCurrent := none
  schedInitialized := false
  preemptEnabled := true
  rrQuantum := 5
  timerTicks := timerTicks
  ticks := ticks

end RetaOS.Sched
