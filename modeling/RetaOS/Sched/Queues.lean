import RetaOS.Sched.Defs
import Mathlib.Data.List.Basic

/-!
# The ready queue and the sleeping list

What each operation on the queues does, as one lemma each. `Queues s R S` says that `R` is the ready queue and `S`
the sleeping list, that they share no thread and that the current thread is in neither; they are free of
repetitions because they are linked lists that end (`Linked.nodup`). `State.rest` forgets what the scheduler moves
threads with, so `s'.rest = s.rest` is the frame of an operation.

The main result is about a timer tick: it loses no thread, duplicates none, and moves exactly the sleeping threads
whose time has come to the ready queue.
-/

namespace RetaOS.Sched
open Lib

variable {s s' : State} {t u n c : Nat} {th : Thread} {st : ThreadState} {p : Option Nat} {R S K : List Nat}

namespace State

@[simp] lemma setThread_threads : (s.setThread t th).threads u = if u = t then th else s.threads u :=
  Function.update_apply s.threads t th u

@[simp] lemma setThread_readyQueue : (s.setThread t th).readyQueue = s.readyQueue := rfl
@[simp] lemma setThread_sleepingThreads : (s.setThread t th).sleepingThreads = s.sleepingThreads := rfl
@[simp] lemma setThread_schedCurrent : (s.setThread t th).schedCurrent = s.schedCurrent := rfl
@[simp] lemma setThread_timerTicks : (s.setThread t th).timerTicks = s.timerTicks := rfl

/-- The state but for the queues, the current thread of the scheduler, and the states and time slices. -/
def rest (s : State) : State :=
  { s with
    threads := fun t => { s.threads t with next := none, nextSleeping := none, state := .new, timeSlice := 0 }
    readyQueue := none
    sleepingThreads := none
    schedCurrent := none }

/-- A thread keeps the fields that scheduling does not use. -/
lemma rest_setThread (e : { th with next := none, nextSleeping := none, state := .new, timeSlice := 0 } =
    { s.threads t with next := none, nextSleeping := none, state := .new, timeSlice := 0 }) :
    (s.setThread t th).rest = s.rest := by
  have eq : (s.setThread t th).rest.threads = s.rest.threads := by
    funext u
    by_cases h : u = t
    · subst h
      simpa [rest] using e
    · simp [rest, h]
  unfold rest at eq ⊢
  rw [State.mk.injEq]
  exact ⟨eq, rfl, rfl, rfl, rfl, rfl, rfl, rfl, rfl, rfl, rfl, rfl, rfl, rfl, rfl⟩

lemma tid_of_rest (h : s'.rest = s.rest) : (s'.threads t).tid = (s.threads t).tid :=
  congrArg (fun s => (s.threads t).tid) h

end State

/-! ## Adding and picking. -/

@[simp] lemma schedAddThread_state : ((schedAddThread s t).threads u).state = (s.threads u).state := by
  by_cases h : u = t <;> simp [schedAddThread, State.setNext, h]

@[simp] lemma schedAddThread_nextSleeping : (schedAddThread s t).nextSleeping = s.nextSleeping := by
  funext u
  by_cases h : u = t <;> simp [schedAddThread, State.nextSleeping, State.setNext, h]

lemma schedAddThread_next : (schedAddThread s t).next u = if u = t then s.readyQueue else s.next u := by
  by_cases h : u = t <;> simp [schedAddThread, State.next, State.setNext, h]

@[simp] lemma schedAddThread_sleepingThreads : (schedAddThread s t).sleepingThreads = s.sleepingThreads := rfl

@[simp] lemma schedAddThread_schedCurrent : (schedAddThread s t).schedCurrent = s.schedCurrent := rfl

@[simp] lemma schedAddThread_rest : (schedAddThread s t).rest = s.rest :=
  State.rest_setThread (s := s) (t := t) rfl

/-- A thread that is not queued is put in front of the ready queue. -/
lemma schedAddThread_ready (h : Linked s.next s.readyQueue R) (fresh : t ∉ R) :
    Linked (schedAddThread s t).next (schedAddThread s t).readyQueue (t :: R) := by
  apply Linked.cons
  rw [schedAddThread_next, if_pos rfl]
  apply h.congr
  intro q hq
  rw [schedAddThread_next, if_neg]
  rintro rfl
  exact fresh hq

@[simp] lemma setState_readyQueue : (s.setState t st).readyQueue = s.readyQueue := rfl
@[simp] lemma setState_sleepingThreads : (s.setState t st).sleepingThreads = s.sleepingThreads := rfl
@[simp] lemma setState_schedCurrent : (s.setState t st).schedCurrent = s.schedCurrent := rfl

@[simp] lemma setState_state : ((s.setState t st).threads u).state = if u = t then st else (s.threads u).state := by
  by_cases h : u = t <;> simp [State.setState, h]

@[simp] lemma setState_next : (s.setState t st).next = s.next := by
  funext u
  by_cases h : u = t <;> simp [State.setState, State.next, h]

@[simp] lemma setState_nextSleeping : (s.setState t st).nextSleeping = s.nextSleeping := by
  funext u
  by_cases h : u = t <;> simp [State.setState, State.nextSleeping, h]

@[simp] lemma setState_rest : (s.setState t st).rest = s.rest := State.rest_setThread rfl

/-- `thread->time_slice = k`. -/
def State.setSlice (s : State) (t : Nat) (k : Int) : State := s.setThread t { s.threads t with timeSlice := k }

@[simp] lemma setSlice_state {k : Int} : ((s.setSlice t k).threads u).state = (s.threads u).state := by
  by_cases h : u = t <;> simp [State.setSlice, h]

@[simp] lemma setSlice_next {k : Int} : (s.setSlice t k).next = s.next := by
  funext u
  by_cases h : u = t <;> simp [State.setSlice, State.next, h]

@[simp] lemma setSlice_nextSleeping {k : Int} : (s.setSlice t k).nextSleeping = s.nextSleeping := by
  funext u
  by_cases h : u = t <;> simp [State.setSlice, State.nextSleeping, h]

@[simp] lemma setSlice_rest {k : Int} : (s.setSlice t k).rest = s.rest := State.rest_setThread rfl

@[simp] lemma makeCurrent_state :
    ((makeCurrent s n).threads u).state = if u = n then .running else (s.threads u).state := by
  by_cases h : u = n <;> simp [makeCurrent, h]

@[simp] lemma makeCurrent_readyQueue : (makeCurrent s n).readyQueue = s.readyQueue := rfl
@[simp] lemma makeCurrent_sleepingThreads : (makeCurrent s n).sleepingThreads = s.sleepingThreads := rfl

@[simp] lemma makeCurrent_next : (makeCurrent s n).next = s.next := by
  funext u
  by_cases h : u = n <;> simp [makeCurrent, State.next, h]

@[simp] lemma makeCurrent_nextSleeping : (makeCurrent s n).nextSleeping = s.nextSleeping := by
  funext u
  by_cases h : u = n <;> simp [makeCurrent, State.nextSleeping, h]

@[simp] lemma makeCurrent_rest : (makeCurrent s n).rest = s.rest := State.rest_setThread (s := s) (t := n) rfl

lemma pickNextThread_rest : (pickNextThread s).2.rest = s.rest := by
  unfold pickNextThread
  cases s.readyQueue with
  | none => rfl
  | some n => exact State.rest_setThread (s := { s with readyQueue := s.next n }) (t := n) rfl

/-- The head of the ready queue leaves it. -/
lemma pickNextThread_spec (h : Linked s.next s.readyQueue (n :: R)) :
    ∃ s', pickNextThread s = (some n, s') ∧ Linked s'.next s'.readyQueue R ∧
      s'.nextSleeping = s.nextSleeping ∧ s'.sleepingThreads = s.sleepingThreads ∧
      s'.schedCurrent = s.schedCurrent ∧ (∀ t, (s'.threads t).state = (s.threads t).state) ∧ s'.rest = s.rest := by
  have fresh := (List.nodup_cons.mp h.nodup).1
  generalize e : s.readyQueue = q at h
  cases h with
  | cons h =>
    refine ⟨{ s with readyQueue := s.next n }.setNext n none, by simp [pickNextThread, e], ?_, ?_, rfl, rfl, ?_, ?_⟩
    · refine h.congr fun q hq => ?_
      have ne : q ≠ n := by
        rintro rfl
        exact fresh hq
      simp [State.next, State.setNext, ne]
    · funext u
      by_cases hu : u = n <;> simp [State.nextSleeping, State.setNext, hu]
    · intro u
      by_cases hu : u = n <;> simp [State.setNext, hu]
    · exact State.rest_setThread (s := { s with readyQueue := s.next n }) (t := n) rfl

/-! ## A yield. -/

/-- `R` is the ready queue and `S` the sleeping list; the two share no thread and the current one is in neither. -/
structure Queues (s : State) (R S : List Nat) : Prop where
  ready : Linked s.next s.readyQueue R
  sleeping : Linked s.nextSleeping s.sleepingThreads S
  disjoint : R.Disjoint S
  current : ∀ c, s.schedCurrent = some c → c ∉ R ∧ c ∉ S

/-- The queues depend on the links of their threads only. -/
lemma Queues.congr (q : Queues s R S) (next : ∀ t ∈ R, s'.next t = s.next t)
    (nextSleeping : ∀ t ∈ S, s'.nextSleeping t = s.nextSleeping t) (readyQueue : s'.readyQueue = s.readyQueue)
    (sleepingThreads : s'.sleepingThreads = s.sleepingThreads) (schedCurrent : s'.schedCurrent = s.schedCurrent) :
    Queues s' R S := by
  refine ⟨?_, ?_, q.disjoint, ?_⟩
  · rw [readyQueue]
    exact q.ready.congr next
  · rw [sleepingThreads]
    exact q.sleeping.congr nextSleeping
  · rw [schedCurrent]
    exact q.current

/-- The current thread, when `sched_yield` puts it back into the ready queue. -/
def State.requeued (s : State) : List Nat :=
  match s.schedCurrent with
  | none => []
  | some c => if (s.threads c).state = .running then [c] else []

lemma State.mem_requeued : t ∈ s.requeued ↔ s.schedCurrent = some t ∧ (s.threads t).state = .running := by
  unfold State.requeued
  cases h : s.schedCurrent with
  | none => simp
  | some c =>
    by_cases run : (s.threads c).state = .running
    · simp only [run, if_true, List.mem_singleton, Option.some.injEq]
      constructor
      · rintro rfl
        exact ⟨rfl, run⟩
      · exact fun h => h.1.symm
    · simp only [run, if_false, List.not_mem_nil, Option.some.injEq, false_iff, not_and]
      rintro rfl
      exact run

/-- Nothing is ready and the current thread goes on. -/
lemma schedYield_empty (h : s.readyQueue = none) : schedYield s = s := by
  simp [schedYield, pickNextThread, h]

/-- The thread `n` gets the turn, and the threads of `back` go to the front of the ready queue `R`. -/
structure Dispatches (s s' : State) (n : Nat) (back R : List Nat) : Prop where
  ready : Linked s'.next s'.readyQueue (back ++ R)
  nextSleeping : s'.nextSleeping = s.nextSleeping
  sleepingThreads : s'.sleepingThreads = s.sleepingThreads
  current : s'.schedCurrent = some n
  state : ∀ t, (s'.threads t).state = if t = n then .running else if t ∈ back then .ready else (s.threads t).state
  rest : s'.rest = s.rest

/-- `sched_yield` takes the head of the ready queue. -/
theorem schedYield_spec (h : Linked s.next s.readyQueue (n :: R)) (init : s.schedInitialized = true)
    (hc : ∀ c, s.schedCurrent = some c → c ∉ n :: R) : Dispatches s (schedYield s) n s.requeued R := by
  obtain ⟨s₁, pick, ready, nextSleeping, sleepingThreads, current, state, rest⟩ := pickNextThread_spec h
  -- the current thread goes back to the queue when it is running
  by_cases put : ∃ c, s.schedCurrent = some c ∧ (s.threads c).state = .running
  · obtain ⟨c, eq, run⟩ := put
    have cR : c ∉ R := fun mem => hc c eq (List.mem_cons_of_mem n mem)
    have requeued : s.requeued = [c] := by simp [State.requeued, eq, run]
    have unfolded : schedYield s = makeCurrent (schedAddThread (s₁.setState c .ready) c) n := by
      simp [schedYield, init, pick, current, eq, state, run]
    rw [unfolded, requeued]
    refine ⟨?_, by simp [nextSleeping], by simp [sleepingThreads], rfl, fun t => by simp [state], by simp [rest]⟩
    rw [makeCurrent_next]
    apply schedAddThread_ready _ cR
    rw [setState_next, setState_readyQueue]
    exact ready
  · have requeued : s.requeued = [] := by
      refine List.eq_nil_iff_forall_not_mem.mpr fun t mem => ?_
      exact put ⟨t, State.mem_requeued.mp mem⟩
    have unfolded : schedYield s = makeCurrent s₁ n := by
      unfold schedYield
      rw [init, pick]
      cases eq : s.schedCurrent with
      | none => simp [current, eq]
      | some c =>
        have stop : (s.threads c).state ≠ .running := fun run => put ⟨c, eq, run⟩
        simp [current, eq, state, stop]
    rw [unfolded, requeued]
    refine ⟨?_, by simp [nextSleeping], by simp [sleepingThreads], rfl, fun t => by simp [state], by simp [rest]⟩
    rw [makeCurrent_next]
    exact ready

/-- `sched_start` takes the head of the ready queue, too, and forgets the current thread. -/
theorem schedStart_spec (h : Linked s.next s.readyQueue (n :: R)) : Dispatches s (schedStart s) n [] R := by
  have head : s.readyQueue = some n := h.start_eq
  have unfolded : schedStart s =
      { { s with readyQueue := s.next n }.setState n .running with schedCurrent := some n } := by
    simp [schedStart, head]
  rw [unfolded]
  refine ⟨?_, setState_nextSleeping, rfl, rfl, fun t => setState_state, State.rest_setThread rfl⟩
  rw [head] at h
  cases h with
  | cons h =>
    refine h.congr fun q _ => ?_
    exact congrFun (setState_next (s := { s with readyQueue := s.next n })) q

@[simp] lemma schedYield_rest : (schedYield s).rest = s.rest := by
  unfold schedYield
  cases s.schedInitialized with
  | false => rfl
  | true =>
    have pick : (pickNextThread s).2.rest = s.rest := pickNextThread_rest
    generalize pickNextThread s = r at pick
    obtain ⟨n, s'⟩ := r
    cases n with
    | none => exact pick
    | some n =>
      cases hc : s'.schedCurrent with
      | none => simpa [hc] using pick
      | some c => by_cases run : (s'.threads c).state = .running <;> simpa [hc, run] using pick

@[simp] lemma schedStart_rest : (schedStart s).rest = s.rest := by
  unfold schedStart
  cases s.readyQueue with
  | none => rfl
  | some n => exact setState_rest (s := { s with readyQueue := s.next n })

lemma Queues.yields (q : Queues s (n :: R) S) (init : s.schedInitialized = true) :
    Dispatches s (schedYield s) n s.requeued R :=
  schedYield_spec q.ready init fun c hc => (q.current c hc).1

/-- The queues stay apart when the head of the ready queue gets the turn and no other thread than the current one is
    put back. -/
theorem Queues.dispatch {back : List Nat} (q : Queues s (n :: R) S) (d : Dispatches s s' n back R)
    (only : ∀ t ∈ back, s.schedCurrent = some t) : Queues s' (back ++ R) S := by
  have nR := (List.nodup_cons.mp q.ready.nodup).1
  refine ⟨d.ready, ?_, ?_, fun m hm => ?_⟩
  · rw [d.nextSleeping, d.sleepingThreads]
    exact q.sleeping
  · refine List.disjoint_append_left.mpr ⟨fun c mem => ?_, List.disjoint_of_disjoint_cons_left q.disjoint⟩
    exact (q.current c (only c mem)).2
  · cases hm.symm.trans d.current
    refine ⟨fun mem => ?_, fun mem => q.disjoint List.mem_cons_self mem⟩
    rcases List.mem_append.mp mem with mem | mem
    · exact (q.current n (only n mem)).1 List.mem_cons_self
    · exact nR mem

/-! ## Waking up. -/

/-- The time of a thread has come. -/
def State.due (s : State) (t : Nat) : Bool := (s.threads t).wakeupTime ≤ s.timerTicks

lemma State.due_of_rest (h : s'.rest = s.rest) : s'.due = s.due := by
  have eq : s'.rest.due = s.rest.due := congrArg State.due h
  exact eq

/-- A store through the pointer behind the threads of `K` takes the next one off the sleeping list. -/
lemma writePtr_spec (h : Linked s.nextSleeping s.sleepingThreads (K ++ t :: S)) :
    ∃ s', writePtr s K.getLast? (s.nextSleeping t) = s' ∧ Linked s'.nextSleeping s'.sleepingThreads (K ++ S) ∧
      readPtr s' K.getLast? = S.head? ∧ s'.next = s.next ∧ s'.readyQueue = s.readyQueue ∧
      s'.schedCurrent = s.schedCurrent ∧ (∀ u, (s'.threads u).state = (s.threads u).state) ∧ s'.rest = s.rest := by
  have tail : Linked s.nextSleeping (s.nextSleeping t) S := h.suffix.tail
  refine ⟨_, rfl, ?_⟩
  -- the pointer is `sleeping_threads` itself, or the link of the last thread that stays asleep
  obtain rfl | ⟨K, k, rfl⟩ := K.eq_nil_or_concat'
  · exact ⟨tail, tail.start_eq, rfl, rfl, rfl, fun _ => rfl, rfl⟩
  · rw [List.append_assoc, List.singleton_append] at h
    have links : (s.setThread k { s.threads k with nextSleeping := s.nextSleeping t }).nextSleeping =
        Function.update s.nextSleeping k (s.nextSleeping t) := by
      funext u
      by_cases hu : u = k
      · subst hu
        simp [State.nextSleeping]
      · simp [State.nextSleeping, hu]
    simp only [List.getLast?_append, List.getLast?_singleton, Option.some_or, writePtr, readPtr]
    refine ⟨?_, ?_, ?_, rfl, rfl, fun u => ?_, State.rest_setThread rfl⟩
    · rw [links, List.append_assoc]
      exact h.remove
    · simpa [State.nextSleeping] using tail.start_eq
    · funext u
      by_cases hu : u = k <;> simp [State.next, hu]
    · by_cases hu : u = k <;> simp [hu]

/-- What `check_sleeping_threads` makes of the queues `R` and `S`. -/
structure Wakes (s s' : State) (R K S : List Nat) : Prop where
  ready : Linked s'.next s'.readyQueue ((S.filter s.due).reverse ++ R)
  sleeping : Linked s'.nextSleeping s'.sleepingThreads (K ++ S.filter fun t => !s.due t)
  current : s'.schedCurrent = s.schedCurrent
  state : ∀ t, (s'.threads t).state = if t ∈ S ∧ s.due t then .ready else (s.threads t).state
  rest : s'.rest = s.rest

/-- The walk from the threads of `S` on, behind those of `K` that stay asleep. -/
lemma checkBody_walk (ready : Linked s.next s.readyQueue R)
    (sleeping : Linked s.nextSleeping s.sleepingThreads (K ++ S)) (disjoint : R.Disjoint S) :
    ∃ s', loop checkBody ⟨s, K.getLast?, S.head?⟩ = some s' ∧ Wakes s s' R K S := by
  induction S generalizing s K R with
  | nil => exact ⟨s, loop_done rfl, ready, sleeping, rfl, by simp, rfl⟩
  | cons t S ih =>
    -- a thread that is due moves to the ready queue and the pointer stays; the others move the pointer on
    cases hd : s.due t with
    | true =>
      obtain ⟨s₁, write, sleeping₁, read, next, queue, current, state, rest⟩ := writePtr_spec sleeping
      obtain ⟨tR, disjoint⟩ := List.disjoint_cons_right.mp disjoint
      have tS : t ∉ S := (List.nodup_cons.mp sleeping.suffix.nodup).1
      have pass : checkBody ⟨s, K.getLast?, some t⟩ =
          .next ⟨schedAddThread (s₁.setState t .ready) t, K.getLast?, S.head?⟩ := by
        have due : (s.threads t).wakeupTime ≤ s.timerTicks := of_decide_eq_true hd
        rw [← read]
        simp only [checkBody, due, if_true, write]
        cases K.getLast? <;> simp [readPtr]
      have ready₂ : Linked (schedAddThread (s₁.setState t .ready) t).next
          (schedAddThread (s₁.setState t .ready) t).readyQueue (t :: R) := by
        apply schedAddThread_ready _ tR
        rw [setState_next, setState_readyQueue, next, queue]
        exact ready
      have rest₂ : (schedAddThread (s₁.setState t .ready) t).rest = s.rest := by simp [rest]
      obtain ⟨s', run, w⟩ := ih ready₂ (by simpa using sleeping₁)
        (List.disjoint_cons_left.mpr ⟨tS, disjoint⟩)
      have due := State.due_of_rest rest₂
      refine ⟨s', (loop_next pass).trans run, ?_, ?_, ?_, fun u => ?_, w.rest.trans rest₂⟩
      · simpa [hd, due] using w.ready
      · simpa [hd, due] using w.sleeping
      · simpa [current] using w.current
      · rw [w.state u, due]
        by_cases hu : u = t
        · subst hu
          simp [hd]
        · simp [hu, state]
    | false =>
      have next : s.nextSleeping t = S.head? := by
        cases sleeping.suffix with
        | cons h => exact h.start_eq
      have pass : checkBody ⟨s, K.getLast?, some t⟩ = .next ⟨s, (K ++ [t]).getLast?, S.head?⟩ := by
        have wait : ¬ (s.threads t).wakeupTime ≤ s.timerTicks := of_decide_eq_false hd
        simp [checkBody, wait, next]
      obtain ⟨s', run, w⟩ := ih (K := K ++ [t]) ready (by simpa using sleeping)
        (List.disjoint_cons_right.mp disjoint).2
      refine ⟨s', (loop_next pass).trans run, ?_, ?_, w.current, fun u => ?_, w.rest⟩
      · simpa [hd] using w.ready
      · simpa [hd] using w.sleeping
      · rw [w.state u]
        by_cases hu : u = t
        · subst hu
          simp [hd]
        · simp [hu]

/-- When nothing sleeps, nothing is woken up. -/
lemma checkSleepingThreads_empty (h : s.sleepingThreads = none) : checkSleepingThreads s = some s := by
  rw [checkSleepingThreads, h]
  exact loop_done rfl

/-- `check_sleeping_threads` returns, and moves the threads whose time has come to the ready queue. -/
theorem Queues.wake (q : Queues s R S) : ∃ s', checkSleepingThreads s = some s' ∧ Wakes s s' R [] S := by
  have run := checkBody_walk (K := []) q.ready q.sleeping q.disjoint
  rw [← q.sleeping.start_eq] at run
  exact run

/-- The threads that are due go from one list to the other, so the lists stay disjoint. -/
lemma disjoint_woken {due : Nat → Bool} (disjoint : R.Disjoint S) :
    ((S.filter due).reverse ++ R).Disjoint (S.filter fun t => !due t) := by
  intro t ready sleeping
  obtain ⟨memS, wait⟩ := List.mem_filter.mp sleeping
  rcases List.mem_append.mp ready with mem | mem
  · obtain ⟨-, due⟩ := List.mem_filter.mp (List.mem_reverse.mp mem)
    simp [due] at wait
  · exact disjoint mem memS

/-- Behind that the lists are disjoint again, and the current thread is in none of them. -/
lemma Queues.woken (q : Queues s R S) (w : Wakes s s' R [] S) :
    Queues s' ((S.filter s.due).reverse ++ R) (S.filter fun t => !s.due t) := by
  refine ⟨w.ready, w.sleeping, disjoint_woken q.disjoint, fun c hc => ?_⟩
  rw [w.current] at hc
  obtain ⟨cR, cS⟩ := q.current c hc
  simp [cR, cS]

/-! ## A tick. -/

lemma Queues.slice (q : Queues s R S) (k : Int) : Queues (s.setSlice t k) R S := by
  refine ⟨?_, ?_, q.disjoint, q.current⟩
  · rw [setSlice_next]
    exact q.ready
  · rw [setSlice_nextSleeping]
    exact q.sleeping

/-- A tick counts down the time slice of the current thread, which yields when it is used up, and wakes the sleeping
    threads up. -/
lemma schedTick_eq (h : s.schedCurrent = some c) : schedTick s = checkSleepingThreads
    (if (s.threads c).timeSlice ≤ 1 then
      if s.preemptEnabled then schedYield (s.setSlice c s.rrQuantum) else s.setSlice c s.rrQuantum
    else s.setSlice c ((s.threads c).timeSlice - 1)) := by
  have reset : (s.setSlice c ((s.threads c).timeSlice - 1)).setSlice c s.rrQuantum = s.setSlice c s.rrQuantum := by
    simp [State.setSlice, State.setThread]
  have unfolded : schedTick s = checkSleepingThreads
      (if ((s.setSlice c ((s.threads c).timeSlice - 1)).threads c).timeSlice ≤ 0 then
        if s.preemptEnabled then
          schedYield ((s.setSlice c ((s.threads c).timeSlice - 1)).setSlice c s.rrQuantum)
        else (s.setSlice c ((s.threads c).timeSlice - 1)).setSlice c s.rrQuantum
      else s.setSlice c ((s.threads c).timeSlice - 1)) := by
    unfold schedTick
    rw [h]
    rfl
  have counted : ((s.setSlice c ((s.threads c).timeSlice - 1)).threads c).timeSlice = (s.threads c).timeSlice - 1 := by
    simp [State.setSlice]
  have expired : (s.threads c).timeSlice - 1 ≤ 0 ↔ (s.threads c).timeSlice ≤ 1 := by omega
  simp only [unfolded, reset, counted, expired]

/-- The state that the threads are woken up in: behind a change of the time slice, and a yield or none. -/
lemma schedTick_cases (h : s.schedCurrent = some c) : ∃ k s₁, schedTick s = checkSleepingThreads s₁ ∧
    (s₁ = s.setSlice c k ∨ s₁ = schedYield (s.setSlice c k)) := by
  rw [schedTick_eq h]
  by_cases expired : (s.threads c).timeSlice ≤ 1
  · rw [if_pos expired]
    cases s.preemptEnabled with
    | true => exact ⟨s.rrQuantum, _, rfl, .inr rfl⟩
    | false => exact ⟨s.rrQuantum, _, rfl, .inl rfl⟩
  · rw [if_neg expired]
    exact ⟨_, _, rfl, .inl rfl⟩

/-- The thread `c` runs, those of `R` are ready and those of `S` asleep. -/
structure Scheduled (s : State) (c : Nat) (R S : List Nat) : Prop where
  queues : Queues s R S
  current : s.schedCurrent = some c
  running : (s.threads c).state = .running
  ready : ∀ t ∈ R, (s.threads t).state = .ready
  sleeping : ∀ t ∈ S, (s.threads t).state = .blocked

namespace Scheduled

/-- One thread is running, of those that the scheduler holds. -/
lemma running_iff (h : Scheduled s c R S) (mem : t ∈ c :: R ++ S) : (s.threads t).state = .running ↔ t = c := by
  constructor
  · intro run
    rcases List.mem_append.mp mem with mem | mem
    · rcases List.mem_cons.mp mem with eq | mem
      · exact eq
      · cases run.symm.trans (h.ready t mem)
    · cases run.symm.trans (h.sleeping t mem)
  · rintro rfl
    exact h.running

/-- The time slice of a thread plays no part in the queues. -/
lemma slice (h : Scheduled s c R S) (k : Int) : Scheduled (s.setSlice t k) c R S := by
  refine ⟨h.queues.slice k, h.current, ?_, fun t ht => ?_, fun t ht => ?_⟩
  · simpa using h.running
  · simpa using h.ready t ht
  · simpa using h.sleeping t ht

/-- A yield gives the turn to the head of the ready queue, whose place the current thread takes. -/
lemma yield (h : Scheduled s c R S) (init : s.schedInitialized = true) :
    ∃ c' R', Scheduled (schedYield s) c' R' S ∧ (c' :: R').Perm (c :: R) ∧ (schedYield s).rest = s.rest ∧
      ∀ t ∉ c :: R, ((schedYield s).threads t).state = (s.threads t).state := by
  cases R with
  | nil =>
    have empty : schedYield s = s := schedYield_empty (h.queues.ready.start_eq)
    rw [empty]
    exact ⟨c, [], h, .refl _, rfl, fun _ _ => rfl⟩
  | cons n R =>
    -- the head `n` of the queue runs, and the current thread is ready behind the others
    have y := h.queues.yields init
    have requeued : s.requeued = [c] := by simp [State.requeued, h.current, h.running]
    obtain ⟨cR, cS⟩ := h.queues.current c h.current
    have nS : n ∉ S := fun mem => h.queues.disjoint List.mem_cons_self mem
    have nR := (List.nodup_cons.mp h.queues.ready.nodup).1
    have queues := h.queues.dispatch y fun t ht => (State.mem_requeued.mp ht).1
    have state := y.state
    rw [requeued] at queues state
    refine ⟨n, c :: R, ⟨queues, y.current, ?_, fun t ht => ?_, fun t ht => ?_⟩, .swap c n R, y.rest, fun t ht => ?_⟩
    · simp [state n]
    · have ne : t ≠ n := by
        rintro rfl
        rcases List.mem_cons.mp ht with rfl | ht
        · exact cR List.mem_cons_self
        · exact nR ht
      rw [state t, if_neg ne]
      rcases List.mem_cons.mp ht with rfl | ht
      · simp
      · simp [h.ready t (List.mem_cons_of_mem n ht)]
    · have ne : t ≠ n := by
        rintro rfl
        exact nS ht
      have ne' : t ≠ c := by
        rintro rfl
        exact cS ht
      simp [state t, ne, ne', h.sleeping t ht]
    · simp only [List.mem_cons, not_or] at ht
      simp [state t, ht.1, ht.2.1]

/-- The threads that wake up join the ready queue, the last one first. -/
lemma wake (h : Scheduled s c R S) :
    ∃ s', checkSleepingThreads s = some s' ∧
      Scheduled s' c ((S.filter s.due).reverse ++ R) (S.filter fun t => !s.due t) ∧ s'.rest = s.rest ∧
      ∀ t ∉ S, (s'.threads t).state = (s.threads t).state := by
  obtain ⟨s', run, w⟩ := h.queues.wake
  obtain ⟨cR, cS⟩ := h.queues.current c h.current
  have current := w.current.trans h.current
  refine ⟨s', run, ⟨h.queues.woken w, current, ?_, fun t ht => ?_, fun t ht => ?_⟩, w.rest, fun t ht => ?_⟩
  · rw [w.state c, if_neg fun both => cS both.1]
    exact h.running
  · rw [w.state t]
    rcases List.mem_append.mp ht with mem | mem
    · obtain ⟨memS, due⟩ := List.mem_filter.mp (List.mem_reverse.mp mem)
      simp [memS, due]
    · simp [h.ready t mem]
  · obtain ⟨memS, wait⟩ := List.mem_filter.mp ht
    rw [w.state t, if_neg]
    · exact h.sleeping t memS
    · rintro ⟨-, due⟩
      simp [due] at wait
  · rw [w.state t, if_neg fun both => ht both.1]

end Scheduled

/-- A timer tick loses no thread and duplicates none: the current thread and the two lists hold the threads they held,
    one of these runs and it is the current one, and of the sleeping threads exactly those whose time has come are
    ready, while the others keep their order. -/
theorem schedTick_conserves (h : Scheduled s c R S) (init : s.schedInitialized = true) :
    ∃ s' c' R', schedTick s = some s' ∧ Scheduled s' c' R' (S.filter fun t => !s.due t) ∧
      R'.Nodup ∧ (S.filter fun t => !s.due t).Nodup ∧
      (c' :: R' ++ S.filter fun t => !s.due t).Perm (c :: R ++ S) ∧
      (∀ t, (s'.threads t).state = .running ↔ t = c' ∨ t ∉ c :: R ++ S ∧ (s.threads t).state = .running) ∧
      (∀ t ∈ S, t ∈ R' ↔ s.due t) ∧ s'.rest = s.rest := by
  obtain ⟨k, s₁, tick, before⟩ := schedTick_cases h.current
  -- the slice of the current thread has run out, and it yields, or it has not
  obtain ⟨c', R₁, h₁, perm₁, rest₁, frame₁⟩ : ∃ c' R₁, Scheduled s₁ c' R₁ S ∧ (c' :: R₁).Perm (c :: R) ∧
      s₁.rest = s.rest ∧ ∀ t ∉ c :: R, (s₁.threads t).state = (s.threads t).state := by
    have sliced : Scheduled (s.setSlice c k) c R S := h.slice k
    obtain rfl | rfl := before
    · exact ⟨c, R, sliced, .refl _, setSlice_rest, fun t _ => setSlice_state⟩
    · obtain ⟨c', R', h', perm, rest, frame⟩ := sliced.yield init
      exact ⟨c', R', h', perm, rest.trans setSlice_rest, fun t ht => (frame t ht).trans setSlice_state⟩
  obtain ⟨s', run, h', rest', frame'⟩ := h₁.wake
  rw [State.due_of_rest rest₁] at h'
  have perm : (c' :: ((S.filter s.due).reverse ++ R₁) ++ S.filter fun t => !s.due t).Perm (c :: R ++ S) := by
    have awake : ((S.filter s.due).reverse ++ R₁).Perm (R₁ ++ S.filter s.due) :=
      List.perm_append_comm.trans ((List.reverse_perm _).append_left R₁)
    have split : (S.filter s.due ++ S.filter fun t => !s.due t).Perm S := List.filter_append_perm s.due S
    refine ((awake.cons c').append_right _).trans ?_
    rw [← List.cons_append, List.append_assoc]
    exact perm₁.append split
  refine ⟨s', c', _, tick.trans run, h', h'.queues.ready.nodup, h'.queues.sleeping.nodup, perm, fun t => ?_,
    fun t ht => ?_, rest'.trans rest₁⟩
  · by_cases mem : t ∈ c :: R ++ S
    · simp only [mem, not_true, false_and, or_false]
      exact h'.running_iff (perm.mem_iff.mpr mem)
    · have outside : t ≠ c' := by
        rintro rfl
        exact mem (perm.mem_iff.mp (by simp))
      simp only [mem, outside, not_false_iff, true_and, false_or]
      rw [List.mem_append, not_or] at mem
      rw [frame' t mem.2, frame₁ t mem.1]
  · constructor
    · intro mem
      rcases List.mem_append.mp mem with mem | mem
      · exact (List.mem_filter.mp (List.mem_reverse.mp mem)).2
      · exact absurd ht (h₁.queues.disjoint mem)
    · intro due
      exact List.mem_append_left _ (List.mem_reverse.mpr (List.mem_filter.mpr ⟨ht, due⟩))

/-- One thread running, one ready and two asleep, of which the time of one has come; the quantum is used up. -/
def restless : State :=
  let thread (t : Nat) (st : ThreadState) (next nextSleeping : Option Nat) (wakeupTime : UInt32) : Thread :=
    { Thread.zero with tid := t, state := st, next, nextSleeping, wakeupTime, timeSlice := 1 }
  { bootState (fun
      | 0 => thread 0 .running none none 0
      | 1 => thread 1 .ready none none 0
      | 2 => thread 2 .blocked none (some 3) 9
      | 3 => thread 3 .blocked none none 7
      | _ => Thread.zero) (fun _ => false) 8 8 with
    readyQueue := some 1
    sleepingThreads := some 2
    schedCurrent := some 0
    schedInitialized := true }

theorem schedTick_conserves_restless : ∃ s' c' R', schedTick restless = some s' ∧ Scheduled s' c' R' [2] ∧
    3 ∈ R' ∧ (c' :: R' ++ [2]).Perm [0, 1, 2, 3] := by
  have queues : Queues restless [1] [2, 3] := by
    refine ⟨.cons .nil, .cons (.cons .nil), by simp, ?_⟩
    rintro c ⟨⟩
    simp
  have scheduled : Scheduled restless 0 [1] [2, 3] := by
    refine ⟨queues, rfl, rfl, ?_, ?_⟩
    · decide
    · decide
  obtain ⟨s', c', R', run, h, -, -, perm, -, woken, -⟩ := schedTick_conserves scheduled rfl
  exact ⟨s', c', R', run, h, (woken 3 (by simp)).mpr rfl, perm⟩

end RetaOS.Sched
