import RetaOS.Sched.Consistency
import RetaOS.Lib.Word

/-!
# How long a sleep lasts

`thread_sleep`, and `kernel_sleep` and `timer_wait` of `kernel/timer.c`. The counter reads `start + e` when `e` ticks
have passed since the call. A loop that halts looks at the counter at once and then after every tick. A sleeping thread
waits for `check_sleeping_threads`, which may be run at any times (`SleepsFor`) or at every tick (`SleepsTicking`).

The three convert milliseconds to ticks on their own, and compare the counter with a deadline that may have wrapped.
`thread_sleep` takes ten ticks for a millisecond, so that they agree in next to no case (`sleeps_agree_iff`).
-/

namespace RetaOS.Sched
open Lib

variable {s s' s1 : State} {b e W : Nat} {R S L es : List Nat} {ms start ticks w : UInt32}

/-! ## Waiting by halting. -/

/-- One pass of `while (timer_ticks < eticks) hlt`, over the ticks that have passed. -/
def haltBody (start eticks : UInt32) (e : Nat) : Pass Nat Nat :=
  if start + UInt32.ofNat e < eticks then .next (e + 1) else .done e

/-- `timer_wait` with the counter at `start`: the ticks that pass until it returns. -/
def timerWait (start ticks : UInt32) : Option Nat := loop (haltBody start (start + ticks)) 0

/-- `kernel_sleep` with the counter at `start`: the ticks that pass until it returns. -/
def kernelSleep (start ms : UInt32) : Option Nat :=
  let ticks := ms * 100 / 1000
  let ticks := if ticks = 0 then 1 else ticks
  loop (haltBody start (start + ticks)) 0

/-- The ticks until the counter is at a deadline `n` ticks away, or none at all if the deadline wraps. -/
def unwrapped (start : UInt32) (n : Nat) : Nat := if start.toNat + n < 2 ^ 32 then n else 0

lemma unwrapped_eq_zero {n : Nat} : unwrapped start n = 0 ↔ n = 0 ∨ 2 ^ 32 ≤ start.toNat + n := by
  rw [unwrapped]
  split <;> omega

lemma unwrapped_eq_iff {n : Nat} (pos : 0 < W) : unwrapped start n = W ↔ n = W ∧ start.toNat + n < 2 ^ 32 := by
  rw [unwrapped]
  split <;> omega

/-- `timer_wait` waits for its ticks, unless their deadline wraps. -/
lemma timerWait_eq : timerWait start ticks = some (unwrapped start ticks.toNat) := by
  have short := ticks.toNat_lt
  have below := start.toNat_lt
  rw [unwrapped]
  split
  case isTrue room =>
    have deadline : (start + ticks).toNat = start.toNat + ticks.toNat := toNat_add_of_lt room
    have before (e : Nat) (lt : e ≤ ticks.toNat) : (start + UInt32.ofNat e).toNat = start.toNat + e :=
      toNat_add_ofNat (by omega)
    have passes : ∀ n ≤ ticks.toNat, Passes (haltBody start (start + ticks)) 0 n n := by
      intro n le
      induction n with
      | zero => exact .refl
      | succ n ih =>
        refine .step (ih (by omega)) (if_pos ?_)
        rw [UInt32.lt_iff_toNat_lt, before n (by omega), deadline]
        omega
    rw [timerWait, (passes _ le_rfl).loop_eq]
    refine loop_done (if_neg ?_)
    rw [UInt32.lt_iff_toNat_lt, before _ le_rfl, deadline]
    exact lt_irrefl _
  case isFalse wraps =>
    have deadline : (start + ticks).toNat = start.toNat + ticks.toNat - 2 ^ 32 := by
      rw [UInt32.toNat_add]
      omega
    refine loop_done (if_neg ?_)
    rw [show start + UInt32.ofNat 0 = start from UInt32.add_zero start, UInt32.lt_iff_toNat_lt, deadline]
    omega

/-- The ticks that `kernel_sleep` waits for. -/
def kernelTicks (ms : Nat) : Nat := max 1 (ms * 100 % 2 ^ 32 / 1000)

/-- `kernel_sleep` waits for its ticks, unless their deadline wraps. -/
lemma kernelSleep_eq : kernelSleep start ms = some (unwrapped start (kernelTicks ms.toNat)) := by
  have converted : (ms * 100 / 1000).toNat = ms.toNat * 100 % 2 ^ 32 / 1000 := rfl
  have least : (if ms * 100 / 1000 = 0 then 1 else ms * 100 / 1000).toNat = kernelTicks ms.toNat := by
    have zero : ms * 100 / 1000 = 0 ↔ ms.toNat * 100 % 2 ^ 32 / 1000 = 0 := by
      rw [← converted]
      exact UInt32.toNat_inj.symm
    rw [kernelTicks]
    split
    case isTrue short =>
      rw [zero.mp short]
      rfl
    case isFalse long =>
      rw [zero] at long
      omega
  rw [← least]
  exact timerWait_eq

/-! ## Sleeping until a check. -/

/-- `check_sleeping_threads`, run when `e` ticks have passed. -/
def checkAt (s : State) (start : UInt32) (e : Nat) : Option State :=
  checkSleepingThreads { s with timerTicks := start + UInt32.ofNat e }

/-- Checks at several times, one after the other. -/
def checksAt (s : State) (start : UInt32) (es : List Nat) : Option State :=
  es.foldlM (fun s e => checkAt s start e) s

/-- The thread `b` calls `thread_sleep`, then checks are run at the times `es` and at `e`: it is asleep until the last
    of them, which makes it ready. -/
def WokenAt (s : State) (b : Nat) (ms : UInt32) (es : List Nat) (e : Nat) : Prop :=
  ∃ s1 s2, checksAt (threadSleep s ms) s.timerTicks es = some s1 ∧ (s1.threads b).state = .blocked ∧
    checkAt s1 s.timerTicks e = some s2 ∧ (s2.threads b).state = .ready

/-- `thread_sleep` waits for `W` ticks: it returns at once, or the thread is ready after the first check, of any, that
    is run when `W` ticks have passed, and not before. -/
def SleepsFor (s : State) (b : Nat) (ms : UInt32) (W : Nat) : Prop :=
  ms = 0 ∧ W = 0 ∨ ms ≠ 0 ∧ ∀ es e, es.Pairwise (· < ·) → (∀ x ∈ es, x < W) → W ≤ e → WokenAt s b ms es e

/-- The same with a check at every tick. -/
def SleepsTicking (s : State) (b : Nat) (ms : UInt32) (W : Nat) : Prop :=
  ms = 0 ∧ W = 0 ∨ ms ≠ 0 ∧ WokenAt s b ms (List.range W) W

/-- Checks at every tick are checks at some times. -/
lemma SleepsFor.ticking (sleeps : SleepsFor s b ms W) : SleepsTicking s b ms W := by
  obtain zero | ⟨pos, woken⟩ := sleeps
  · exact .inl zero
  · refine .inr ⟨pos, woken _ _ List.pairwise_lt_range (fun x mem => ?_) le_rfl⟩
    exact List.mem_range.mp mem

/-- The queues are lists that share no thread. -/
structure Lists (s : State) (R S : List Nat) : Prop where
  ready : Linked s.next s.readyQueue R
  sleeping : Linked s.nextSleeping s.sleepingThreads S
  disjoint : R.Disjoint S

/-- The thread `b` runs and is in no queue. -/
structure Caller (s : State) (b : Nat) : Prop where
  lists : ∃ R S, Lists s R S ∧ b ∉ R ∧ b ∉ S
  current : s.threadCurrent = some b

/-- In a consistent state the bootstrap thread is a caller, unless it is ready or asleep. -/
lemma Kept.caller (k : Kept s L R S) (idle : (s.threads 0).state ≠ .ready) (awake : 0 ∉ S) : Caller s 0 :=
  ⟨⟨R, S, ⟨k.queues.ready, k.queues.sleeping, k.queues.disjoint⟩, fun mem => idle ((k.ready 0).mp mem).2, awake⟩,
    k.boot⟩

/-- A check wakes the threads of the sleeping list up whose time has come. -/
lemma Lists.check (start : UInt32) (e : Nat) (l : Lists s R S) : ∃ s', checkAt s start e = some s' ∧
    Wakes { s with timerTicks := start + UInt32.ofNat e } s' R [] S ∧ ∃ R' S', Lists s' R' S' ∧
      ∀ t, t ∈ S' ↔ t ∈ S ∧ ¬ (s.threads t).wakeupTime ≤ start + UInt32.ofNat e := by
  have run :=
    checkBody_walk (s := { s with timerTicks := start + UInt32.ofNat e }) (K := []) l.ready l.sleeping l.disjoint
  rw [← l.sleeping.start_eq] at run
  obtain ⟨s', run, wakes⟩ := run
  refine ⟨s', run, wakes, _, _, ⟨wakes.ready, wakes.sleeping, disjoint_woken l.disjoint⟩, fun t => ?_⟩
  simp [State.due]

/-- The thread `b` is asleep until the counter is at `w`. -/
structure Dormant (s : State) (b : Nat) (w : UInt32) : Prop where
  lists : ∃ R S, Lists s R S ∧ b ∈ S
  state : (s.threads b).state = .blocked
  wakeup : (s.threads b).wakeupTime = w

/-- The thread `b` is ready, and asleep no more. -/
structure Woken (s : State) (b : Nat) : Prop where
  lists : ∃ R S, Lists s R S ∧ b ∉ S
  state : (s.threads b).state = .ready

/-- A check leaves the wakeup times alone. -/
lemma Wakes.wakeupTime {K : List Nat} (w : Wakes s s' R K S) (t : Nat) :
    (s'.threads t).wakeupTime = (s.threads t).wakeupTime :=
  congrArg (fun s => (s.threads t).wakeupTime) w.rest

/-- A check before the time of a thread leaves it asleep. -/
lemma Dormant.early (d : Dormant s b w) (wait : ¬ w ≤ start + UInt32.ofNat e) :
    ∃ s', checkAt s start e = some s' ∧ Dormant s' b w := by
  obtain ⟨⟨R, S, lists, mem⟩, blocked, wakeup⟩ := d
  obtain ⟨s', run, wakes, R', S', lists', asleep⟩ := lists.check start e
  refine ⟨s', run, ⟨R', S', lists', (asleep b).mpr ⟨mem, by rwa [wakeup]⟩⟩, ?_, (wakes.wakeupTime b).trans wakeup⟩
  have early : State.due { s with timerTicks := start + UInt32.ofNat e } b = false := by
    rw [State.due]
    simpa [wakeup] using wait
  rw [wakes.state b, early]
  simpa using blocked

/-- A check behind the time of a thread makes it ready. -/
lemma Dormant.late (d : Dormant s b w) (due : w ≤ start + UInt32.ofNat e) :
    ∃ s', checkAt s start e = some s' ∧ Woken s' b := by
  obtain ⟨⟨R, S, lists, mem⟩, blocked, wakeup⟩ := d
  obtain ⟨s', run, wakes, R', S', lists', asleep⟩ := lists.check start e
  refine ⟨s', run, ⟨R', S', lists', fun mem' => ((asleep b).mp mem').2 (by rwa [wakeup])⟩, ?_⟩
  have late : State.due { s with timerTicks := start + UInt32.ofNat e } b = true := by
    rw [State.due]
    simpa [wakeup] using due
  rw [wakes.state b, late]
  simp [mem]

/-- A check leaves a ready thread ready. -/
lemma Woken.check (start : UInt32) (e : Nat) (w : Woken s b) : ∃ s', checkAt s start e = some s' ∧ Woken s' b := by
  obtain ⟨⟨R, S, lists, awake⟩, ready⟩ := w
  obtain ⟨s', run, wakes, R', S', lists', asleep⟩ := lists.check start e
  refine ⟨s', run, ⟨R', S', lists', fun mem => awake ((asleep b).mp mem).1⟩, ?_⟩
  rw [wakes.state b, if_neg fun mem => awake mem.1]
  exact ready

/-- A thread asleep is asleep after checks that come before its time, and ready after any others. -/
theorem Dormant.checks (start : UInt32) (es : List Nat) (d : Dormant s b w) : ∃ s', checksAt s start es = some s' ∧
    ((∀ x ∈ es, ¬ w ≤ start + UInt32.ofNat x) ∧ Dormant s' b w ∨
      (∃ x ∈ es, w ≤ start + UInt32.ofNat x) ∧ Woken s' b) := by
  have woken {s : State} (es : List Nat) (ready : Woken s b) : ∃ s', checksAt s start es = some s' ∧ Woken s' b := by
    induction es generalizing s with
    | nil => exact ⟨s, rfl, ready⟩
    | cons e es ih =>
      obtain ⟨s1, run, ready1⟩ := ready.check start e
      obtain ⟨s', rest, ready'⟩ := ih ready1
      refine ⟨s', ?_, ready'⟩
      rw [checksAt, List.foldlM_cons, run]
      exact rest
  induction es generalizing s with
  | nil => exact ⟨s, rfl, .inl ⟨nofun, d⟩⟩
  | cons e es ih =>
    by_cases due : w ≤ start + UInt32.ofNat e
    · obtain ⟨s1, run, ready⟩ := d.late due
      obtain ⟨s', rest, ready'⟩ := woken es ready
      refine ⟨s', ?_, .inr ⟨⟨e, List.mem_cons_self, due⟩, ready'⟩⟩
      rw [checksAt, List.foldlM_cons, run]
      exact rest
    · obtain ⟨s1, run, d1⟩ := d.early due
      obtain ⟨s', rest, result⟩ := ih d1
      refine ⟨s', ?_, ?_⟩
      · rw [checksAt, List.foldlM_cons, run]
        exact rest
      · obtain ⟨before, d'⟩ | ⟨⟨x, mem, late⟩, ready⟩ := result
        · exact .inl ⟨List.forall_mem_cons.mpr ⟨due, before⟩, d'⟩
        · exact .inr ⟨⟨x, List.mem_cons_of_mem e mem, late⟩, ready⟩

/-- The counter when `thread_sleep` wants its thread to wake up. -/
def wakeupTime (start ms : UInt32) : UInt32 := start + ms * 1000 / 100

/-- `thread_sleep` puts its caller to sleep. -/
lemma Caller.sleep (c : Caller s b) (pos : ms ≠ 0) : Dormant (threadSleep s ms) b (wakeupTime s.timerTicks ms) := by
  obtain ⟨⟨R, S, lists, bR, bS⟩, current⟩ := c
  have sl := threadSleep_spec pos current
  refine ⟨⟨R, b :: S, ⟨?_, ?_, ?_⟩, List.mem_cons_self⟩, by simp [sl.state b], ?_⟩
  · rw [sl.next, sl.readyQueue]
    exact lists.ready
  · rw [sl.sleepingThreads]
    refine .cons ?_
    rw [sl.nextSleeping b, if_pos rfl]
    refine lists.sleeping.congr fun t mem => ?_
    rw [sl.nextSleeping t, if_neg]
    rintro rfl
    exact bS mem
  · exact List.disjoint_cons_right.mpr ⟨bR, lists.disjoint⟩
  · simp [threadSleep, pos, current, threadYield, timerTick, schedAddSleepingThread, wakeupTime]

/-- When the thread is woken up: the checks before come before its wakeup time, and the last one does not. -/
theorem Caller.wokenAt_iff (c : Caller s b) (pos : ms ≠ 0) : WokenAt s b ms es e ↔
    (∀ x ∈ es, ¬ wakeupTime s.timerTicks ms ≤ s.timerTicks + UInt32.ofNat x) ∧
      wakeupTime s.timerTicks ms ≤ s.timerTicks + UInt32.ofNat e := by
  obtain ⟨s1, run, result⟩ := (c.sleep pos).checks s.timerTicks es
  constructor
  · rintro ⟨s1', s2, run', blocked, last, ready⟩
    cases run.symm.trans run'
    obtain ⟨before, d⟩ | ⟨-, woken⟩ := result
    · refine ⟨before, ?_⟩
      by_contra wait
      obtain ⟨s2', last', d'⟩ := d.early wait
      cases last.symm.trans last'
      cases ready.symm.trans d'.state
    · cases blocked.symm.trans woken.state
  · rintro ⟨before, due⟩
    obtain ⟨-, d⟩ | ⟨⟨x, mem, late⟩, -⟩ := result
    · obtain ⟨s2, last, woken⟩ := d.late due
      exact ⟨s1, s2, run, d.state, last, woken.state⟩
    · exact absurd late (before x mem)

/-! ## Agreement. -/

/-- The ticks of `ms` milliseconds at 100 ticks per second, rounded down. -/
def exactTicks (ms : Nat) : Nat := ms * 100 / 1000

/-- A sleep of `thread_sleep` lasts as long as those of `kernel_sleep` and of `timer_wait` for the exact number of
    ticks, which is that number or one more. -/
def SleepsAgree (start ms : UInt32) (sleeps : Nat → Prop) : Prop :=
  ∃ W, sleeps W ∧ kernelSleep start ms = some W ∧ timerWait start (UInt32.ofNat (exactTicks ms.toNat)) = some W ∧
    exactTicks ms.toNat ≤ W ∧ W ≤ exactTicks ms.toNat + 1

/-- The ticks that `thread_sleep` waits for. -/
def sleepTicks (ms : Nat) : Nat := ms * 1000 % 2 ^ 32 / 100

/-- The counter when `n` ticks have passed. -/
lemma counter_toNat {n : Nat} : (start + UInt32.ofNat n).toNat = (start.toNat + n) % 2 ^ 32 := by
  rw [UInt32.toNat_add, UInt32.toNat_ofNat']
  omega

/-- The wakeup time is as many ticks away as `thread_sleep` waits for. -/
lemma wakeupTime_toNat : (wakeupTime start ms).toNat = (start.toNat + sleepTicks ms.toNat) % 2 ^ 32 := by
  have ticks : (ms * 1000 / 100).toNat = sleepTicks ms.toNat := rfl
  rw [wakeupTime, UInt32.toNat_add, ticks]

/-- With a check at every tick a sleep lasts for its ticks, unless the wakeup time wraps. -/
lemma Caller.sleepsTicking_iff (c : Caller s b) :
    SleepsTicking s b ms W ↔ W = unwrapped s.timerTicks (sleepTicks ms.toNat) := by
  have below := s.timerTicks.toNat_lt
  by_cases zero : ms = 0
  · subst zero
    have once : unwrapped s.timerTicks (sleepTicks (0 : UInt32).toNat) = 0 := ite_self 0
    rw [once]
    simp [SleepsTicking]
  have short : sleepTicks ms.toNat < 2 ^ 31 := by
    rw [sleepTicks]
    omega
  have unfolded : SleepsTicking s b ms W ↔ WokenAt s b ms (List.range W) W := by
    simp [SleepsTicking, zero]
  rw [unfolded, c.wokenAt_iff zero]
  simp only [List.mem_range, UInt32.le_iff_toNat_le, counter_toNat, wakeupTime_toNat]
  rw [unwrapped]
  split
  case isTrue room =>
    constructor
    · rintro ⟨before, due⟩
      by_contra ne
      by_cases lt : W < sleepTicks ms.toNat
      · omega
      · exact before (sleepTicks ms.toNat) (by omega) le_rfl
    · rintro rfl
      exact ⟨fun x lt => by omega, le_rfl⟩
  case isFalse wraps =>
    constructor
    · rintro ⟨before, -⟩
      by_contra pos
      exact before 0 (by omega) (by omega)
    · rintro rfl
      exact ⟨nofun, by omega⟩

/-- `kernel_sleep` waits for the exact number of ticks only as long as its product does not wrap. -/
lemma kernelTicks_exact {m : Nat} (kernel : kernelTicks m = exactTicks m) : m * 100 < 2 ^ 32 := by
  by_contra large
  have wraps : 1 ≤ m * 100 / 2 ^ 32 := by omega
  rw [kernelTicks, exactTicks] at kernel
  omega

/-- A product that wraps gives `thread_sleep` the exact number of ticks once: modulo 100 and then modulo 99 the equation
    leaves `5 * r = 4 * q`. -/
lemma coincidence {n r q y : Nat} (pos : 1 ≤ n) (r9 : r ≤ 9) (q9 : q ≤ 9) (y99 : y ≤ 99)
    (split : 10000 * n + 1000 * r = 2 ^ 32 * q + (100 * n + y)) : 10 * n + r = 21691754 := by
  have remainder : y = 4 * q := by omega
  have scaled : 99 * n + 10 * r = 99 * (433835 * q) + 8 * q := by omega
  have proportion : 5 * r = 4 * q := by
    clear split remainder
    omega
  obtain rfl | rfl : q = 0 ∨ q = 5 := by
    clear split remainder scaled
    omega
  · omega
  · have four : r = 4 := by omega
    subst four
    omega

/-- The one number of milliseconds, from ten on, for which `thread_sleep` and `kernel_sleep` wait for the exact number
    of ticks. -/
lemma sleepTicks_exact {m : Nat} (many : 10 ≤ m) (kernel : kernelTicks m = exactTicks m)
    (thread : sleepTicks m = exactTicks m) : m = 21691754 := by
  have small := kernelTicks_exact kernel
  clear kernel
  rw [sleepTicks, exactTicks] at thread
  obtain ⟨n, r, rfl, r9⟩ : ∃ n r, m = 10 * n + r ∧ r ≤ 9 := ⟨m / 10, m % 10, by omega, by omega⟩
  have exact : (10 * n + r) * 100 / 1000 = n := by omega
  rw [exact] at thread
  have last := Nat.div_add_mod ((10 * n + r) * 1000 % 2 ^ 32) 100
  have y99 : (10 * n + r) * 1000 % 2 ^ 32 % 100 ≤ 99 := by omega
  have q9 : (10 * n + r) * 1000 / 2 ^ 32 ≤ 9 := by omega
  rw [thread] at last
  exact coincidence (by omega) r9 q9 y99 (by omega)

/-- The three sleeps agree, with a check at every tick: all deadlines wrap at the last value of the counter, or the
    wrapped product of `thread_sleep` is right by coincidence. -/
lemma Caller.ticking_agree_iff (c : Caller s b) : SleepsAgree s.timerTicks ms (SleepsTicking s b ms) ↔
    ms.toNat ≤ 9 ∧ s.timerTicks.toNat = 2 ^ 32 - 1 ∨
      ms.toNat = 21691754 ∧ s.timerTicks.toNat + 2169175 < 2 ^ 32 := by
  have below := s.timerTicks.toNat_lt
  have short := ms.toNat_lt
  have exact : (UInt32.ofNat (exactTicks ms.toNat)).toNat = exactTicks ms.toNat := by
    refine toNat_ofNat_lt ?_
    rw [exactTicks]
    omega
  simp only [SleepsAgree, c.sleepsTicking_iff, kernelSleep_eq, timerWait_eq, exact, Option.some.injEq]
  constructor
  · rintro ⟨W, sleep, kernel, wait, le, -⟩
    by_cases few : ms.toNat ≤ 9
    · -- `timer_wait` does not wait, and `kernel_sleep` does unless its deadline wraps
      refine .inl ⟨few, ?_⟩
      have zero : exactTicks ms.toNat = 0 := by
        rw [exactTicks]
        omega
      have one : kernelTicks ms.toNat = 1 := by
        rw [kernelTicks, Nat.mod_eq_of_lt (by omega)]
        omega
      rw [zero, unwrapped_eq_zero.mpr (.inl rfl)] at wait
      rw [← wait, one, unwrapped_eq_zero] at kernel
      omega
    · have least : 1 ≤ exactTicks ms.toNat := by
        rw [exactTicks]
        omega
      have pos : 0 < W := by omega
      obtain ⟨sleeps, room⟩ := (unwrapped_eq_iff pos).mp sleep.symm
      obtain ⟨halts, -⟩ := (unwrapped_eq_iff pos).mp kernel
      obtain ⟨waits, -⟩ := (unwrapped_eq_iff pos).mp wait
      have ms_eq := sleepTicks_exact (by omega) (halts.trans waits.symm) (sleeps.trans waits.symm)
      have ticks : sleepTicks 21691754 = 2169175 := rfl
      rw [ms_eq, ticks] at room
      exact .inr ⟨ms_eq, room⟩
  · rintro (⟨few, last⟩ | ⟨ms_eq, room⟩)
    · have zero : exactTicks ms.toNat = 0 := by
        rw [exactTicks]
        omega
      refine ⟨0, ?_, ?_, ?_, by omega, by omega⟩
      · refine (unwrapped_eq_zero.mpr ?_).symm
        rw [sleepTicks]
        omega
      · refine unwrapped_eq_zero.mpr (.inr ?_)
        rw [kernelTicks]
        omega
      · rw [zero]
        exact unwrapped_eq_zero.mpr (.inl rfl)
    · rw [ms_eq]
      have wait : unwrapped s.timerTicks 2169175 = 2169175 := if_pos room
      exact ⟨2169175, wait.symm, wait, wait, by decide, by decide⟩

/-- `thread_sleep`, `kernel_sleep` and `timer_wait` wait for the same right number of ticks: whenever the checks are
    run, only for no milliseconds at the last value of the counter; with a check at every tick, also at that value for
    less than ten milliseconds, or for one number of milliseconds whose product with 1000 wraps. -/
theorem sleeps_agree_iff (c : Caller s b) :
    (SleepsAgree s.timerTicks ms (SleepsFor s b ms) ↔ ms = 0 ∧ s.timerTicks = 0xFFFFFFFF) ∧
    (SleepsAgree s.timerTicks ms (SleepsTicking s b ms) ↔
      ms.toNat ≤ 9 ∧ s.timerTicks.toNat = 2 ^ 32 - 1 ∨
        ms.toNat = 21691754 ∧ s.timerTicks.toNat + 2169175 < 2 ^ 32) := by
  refine ⟨?_, c.ticking_agree_iff⟩
  have max : s.timerTicks = 0xFFFFFFFF ↔ s.timerTicks.toNat = 2 ^ 32 - 1 := UInt32.toNat_inj.symm
  have zero_iff : ms = 0 ↔ ms.toNat = 0 := UInt32.toNat_inj.symm
  rw [max]
  constructor
  · rintro ⟨W, sleeps, agree⟩
    have exact := c.ticking_agree_iff.mp ⟨W, sleeps.ticking, agree⟩
    obtain ⟨zero, -⟩ | ⟨pos, woken⟩ := sleeps
    · rw [zero_iff] at zero
      exact ⟨zero_iff.mpr zero, by omega⟩
    · -- a check that is run when the counter reads 0 misses every deadline but 0
      have late : W ≤ 2 ^ 33 - s.timerTicks.toNat := by
        have most := agree.2.2.2
        rw [exactTicks] at most
        omega
      have due := ((c.wokenAt_iff pos).mp (woken [] _ .nil nofun late)).2
      rw [UInt32.le_iff_toNat_le, counter_toNat, wakeupTime_toNat] at due
      obtain ⟨few, last⟩ | ⟨ms_eq, room⟩ := exact
      · rw [sleepTicks, Nat.mod_eq_of_lt (show ms.toNat * 1000 < 2 ^ 32 by omega)] at due
        omega
      · have ticks : sleepTicks 21691754 = 2169175 := rfl
        rw [ms_eq, ticks] at due
        omega
  · rintro ⟨zero, last⟩
    obtain ⟨W, sleeps, agree⟩ := c.ticking_agree_iff.mpr (.inl ⟨by rw [zero_iff.mp zero]; omega, last⟩)
    obtain sleeps | ⟨pos, -⟩ := sleeps
    · exact ⟨W, .inl sleeps, agree⟩
    · exact absurd zero pos

/-- The bootstrap thread may call `thread_sleep` once threading is initialised. -/
lemma Fresh.caller (f : Fresh s) : Caller s 0 := by
  refine ⟨⟨[], [], ⟨?_, ?_, nofun⟩, nofun, nofun⟩, f.threadCurrent⟩
  · rw [f.readyQueue]
    exact .nil
  · rw [f.sleepingThreads]
    exact .nil

theorem sleeps_agree_iff_powerOn : ∃ s, threadingInit powerOn = some s ∧
    (SleepsAgree s.timerTicks 1 (SleepsFor s 0 1) ↔ (1 : UInt32) = 0 ∧ s.timerTicks = 0xFFFFFFFF) ∧
    (SleepsAgree s.timerTicks 1 (SleepsTicking s 0 1) ↔
      (1 : UInt32).toNat ≤ 9 ∧ s.timerTicks.toNat = 2 ^ 32 - 1 ∨
        (1 : UInt32).toNat = 21691754 ∧ s.timerTicks.toNat + 2169175 < 2 ^ 32) := by
  obtain ⟨s, init⟩ : ∃ s, threadingInit powerOn = some s := ⟨_, rfl⟩
  exact ⟨s, init, sleeps_agree_iff (threadingInit_fresh init).caller⟩

/-- A sleep of one millisecond takes `thread_sleep` ten ticks, and `kernel_sleep` one. -/
theorem sleeps_disagree : ∃ s, threadingInit powerOn = some s ∧ s.timerTicks = 0 ∧ SleepsTicking s 0 1 10 ∧
    kernelSleep 0 1 = some 1 ∧ ¬ SleepsAgree s.timerTicks 1 (SleepsTicking s 0 1) ∧
    ¬ SleepsAgree s.timerTicks 1 (SleepsFor s 0 1) := by
  obtain ⟨s, init⟩ : ∃ s, threadingInit powerOn = some s := ⟨_, rfl⟩
  have start : s.timerTicks = 0 := by
    cases init
    rfl
  have caller := (threadingInit_fresh init).caller
  have ticking : ¬ SleepsAgree s.timerTicks 1 (SleepsTicking s 0 1) := by
    rw [caller.ticking_agree_iff, start]
    decide
  refine ⟨s, init, start, ?_, kernelSleep_eq, ticking, ?_⟩
  · rw [caller.sleepsTicking_iff, start]
    decide
  · rintro ⟨W, sleeps, agree⟩
    exact ticking ⟨W, sleeps.ticking, agree⟩

end RetaOS.Sched
