import RetaOS.Sched.Run

/-!
# Consistent queues

The queues are consistent when they end, share no thread, leave out the current one, and the ready queue holds
exactly the threads whose state is `THREAD_READY`. Three operations break this. `sched_switch` leaves the thread that
it runs in the ready queue. `thread_sleep` and `thread_exit` act on the `current_thread` of `thread.c`, which stays the
bootstrap thread and by then may be ready, asleep already, or the thread that the scheduler keeps running. Every other
operation keeps the queues consistent, and so do these two where they meet the bootstrap thread in a state they expect.
-/

namespace RetaOS.Sched
open Lib

variable {s s' : State} {x x' : World} {op : Op} {t n c b : Nat} {L L' R S : List Nat} {entry arg ms v : UInt32}

/-- The queues end without repetition, share no thread and leave out the current one, and the ready queue holds the
    threads that are ready. -/
def Consistent (x : World) : Prop :=
  ∃ R S, Queues x.1 R S ∧ R.Nodup ∧ S.Nodup ∧ ∀ t, t ∈ R ↔ t ∈ x.2 ∧ (x.1.threads t).state = .ready

namespace Op

/-- The operations on the queues, where `sched_switch` gets a thread that is ready. -/
def Scheduling (x : World) : Op → Prop
  | schedSwitch next => next ∈ x.2 ∧ (x.1.threads next).state = .ready
  | threadJoin _ => False
  | _ => True

/-- No `sched_switch`; `thread_sleep` and `thread_exit` find the `current_thread` of `thread.c` not ready, and
    `thread_sleep` neither asleep nor current. -/
def Sound (x : World) : Op → Prop
  | schedSwitch _ => False
  | threadSleep ms => ms = 0 ∨ ∀ b, x.1.threadCurrent = some b → (x.1.threads b).state ≠ .ready ∧
      x.1.schedCurrent ≠ some b ∧ ∀ S, Linked x.1.nextSleeping x.1.sleepingThreads S → b ∉ S
  | threadExit _ => ∀ b, x.1.threadCurrent = some b → (x.1.threads b).state ≠ .ready
  | _ => True

end Op

/-! ## What sound operations keep. -/

/-- The queues are consistent and their threads are among `L`, as is the bootstrap thread. -/
structure Kept (s : State) (L R S : List Nat) : Prop where
  queues : Queues s R S
  ready : ∀ t, t ∈ R ↔ t ∈ L ∧ (s.threads t).state = .ready
  asleep : ∀ t ∈ S, t ∈ L
  current : ∀ c, s.schedCurrent = some c → c ∈ L
  old : ∀ t ∈ L, t < s.calls
  boot : s.threadCurrent = some 0
  mem : 0 ∈ L
  init : s.schedInitialized = true
  tid : 0 < s.nextTid

namespace Kept

lemma consistent (k : Kept s L R S) : Consistent (s, L) :=
  ⟨R, S, k.queues, k.queues.ready.nodup, k.queues.sleeping.nodup, k.ready⟩

/-- The queues depend on the threads of `L` only, and on a state as far as it is ready. -/
lemma congr (k : Kept s L R S) (next : ∀ t ∈ L, s'.next t = s.next t)
    (nextSleeping : ∀ t ∈ L, s'.nextSleeping t = s.nextSleeping t)
    (state : ∀ t ∈ L, (s'.threads t).state = .ready ↔ (s.threads t).state = .ready)
    (readyQueue : s'.readyQueue = s.readyQueue) (sleepingThreads : s'.sleepingThreads = s.sleepingThreads)
    (schedCurrent : s'.schedCurrent = s.schedCurrent) (threadCurrent : s'.threadCurrent = s.threadCurrent)
    (init : s'.schedInitialized = s.schedInitialized) (calls : s.calls ≤ s'.calls)
    (nextTid : s'.nextTid = s.nextTid) : Kept s' L R S := by
  have queues := k.queues.congr (fun t ht => next t ((k.ready t).mp ht).1)
    (fun t ht => nextSleeping t (k.asleep t ht)) readyQueue sleepingThreads schedCurrent
  refine ⟨queues, fun t => ?_, k.asleep, ?_, fun t ht => ?_, ?_, k.mem, ?_, ?_⟩
  · rw [k.ready t]
    exact and_congr_right fun ht => (state t ht).symm
  · rw [schedCurrent]
    exact k.current
  · exact lt_of_lt_of_le (k.old t ht) calls
  · exact threadCurrent.trans k.boot
  · exact init.trans k.init
  · exact lt_of_lt_of_eq k.tid nextTid.symm

lemma slice (k : Kept s L R S) (q : Int) : Kept (s.setSlice c q) L R S := by
  refine k.congr (fun t _ => ?_) (fun t _ => ?_) (fun t _ => ?_) rfl rfl rfl rfl rfl (le_refl _) rfl
  · rw [setSlice_next]
  · rw [setSlice_nextSleeping]
  · rw [setSlice_state]

/-- The head of the ready queue gets the turn, and no other thread than the current one is put back. -/
lemma dispatch {back : List Nat} (k : Kept s L (n :: R) S) (d : Dispatches s s' n back R)
    (only : ∀ t ∈ back, s.schedCurrent = some t) : Kept s' L (back ++ R) S := by
  have nR := (List.nodup_cons.mp k.queues.ready.nodup).1
  have other (t : Nat) (ht : t ∈ back) : t ≠ n := by
    rintro rfl
    exact (k.queues.current t (only t ht)).1 List.mem_cons_self
  refine ⟨k.queues.dispatch d only, fun t => ?_, k.asleep, fun c hc => ?_, fun t ht => ?_, ?_, k.mem, ?_, ?_⟩
  · rw [d.state t, List.mem_append]
    by_cases tn : t = n
    · subst tn
      simpa [nR] using fun ht => other t ht rfl
    · rw [if_neg tn]
      by_cases ht : t ∈ back
      · simp [ht, k.current t (only t ht)]
      · simpa [ht, tn] using k.ready t
  · cases hc.symm.trans d.current
    exact ((k.ready n).mp List.mem_cons_self).1
  · exact lt_of_lt_of_eq (k.old t ht) (congrArg State.calls d.rest).symm
  · exact (congrArg State.threadCurrent d.rest).trans k.boot
  · exact (congrArg State.schedInitialized d.rest).trans k.init
  · exact lt_of_lt_of_eq k.tid (congrArg State.nextTid d.rest).symm

lemma yield (k : Kept s L R S) : ∃ R', Kept (schedYield s) L R' S := by
  cases R with
  | nil =>
    rw [schedYield_empty k.queues.ready.start_eq]
    exact ⟨[], k⟩
  | cons n R =>
    exact ⟨_, k.dispatch (k.queues.yields k.init) fun t ht => (State.mem_requeued.mp ht).1⟩

lemma start (k : Kept s L R S) : ∃ R', Kept (schedStart s) L R' S := by
  cases R with
  | nil =>
    have empty : schedStart s = s := by simp [schedStart, k.queues.ready.start_eq]
    rw [empty]
    exact ⟨[], k⟩
  | cons n R => exact ⟨_, k.dispatch (schedStart_spec k.queues.ready) (List.forall_mem_nil _)⟩

/-- The threads that wake up are ready and in the ready queue. -/
lemma wake (k : Kept s L R S) : ∃ s' R' S', checkSleepingThreads s = some s' ∧ Kept s' L R' S' := by
  obtain ⟨s', run, w⟩ := k.queues.wake
  refine ⟨s', _, _, run, k.queues.woken w, fun t => ?_, fun t ht => ?_, ?_, fun t ht => ?_, ?_, k.mem, ?_, ?_⟩
  · rw [w.state t, List.mem_append, List.mem_reverse, List.mem_filter]
    by_cases woken : t ∈ S ∧ s.due t = true
    · simp [woken, k.asleep t woken.1]
    · simpa [woken] using k.ready t
  · exact k.asleep t (List.mem_filter.mp ht).1
  · rw [w.current]
    exact k.current
  · exact lt_of_lt_of_eq (k.old t ht) (congrArg State.calls w.rest).symm
  · exact (congrArg State.threadCurrent w.rest).trans k.boot
  · exact (congrArg State.schedInitialized w.rest).trans k.init
  · exact lt_of_lt_of_eq k.tid (congrArg State.nextTid w.rest).symm

lemma tick (k : Kept s L R S) : ∃ s' R' S', schedTick s = some s' ∧ Kept s' L R' S' := by
  cases hc : s.schedCurrent with
  | none => exact ⟨s, R, S, by simp [schedTick, hc], k⟩
  | some c =>
    obtain ⟨q, s₁, tick, before⟩ := schedTick_cases hc
    obtain ⟨R₁, k₁⟩ : ∃ R₁, Kept s₁ L R₁ S := by
      obtain rfl | rfl := before
      · exact ⟨R, k.slice q⟩
      · exact (k.slice q).yield
    rw [tick]
    exact k₁.wake

/-- A new thread is ready. -/
lemma create (k : Kept s L R S) : Kept (s.created entry arg) (s.calls :: L) (s.calls :: R) S := by
  -- the new block has a number that no thread has
  have fresh (t : Nat) (ht : t ∈ L) : t ≠ s.calls := Nat.ne_of_lt (k.old t ht)
  have self : (s.created entry arg).threads s.calls = { s.threads s.calls with
      tid := s.nextTid, stackBase := some (s.calls + 1), state := .ready, entry, arg, retval := 0,
      next := s.readyQueue } := Function.update_self s.calls _ s.threads
  have ready : s.calls ∉ R := fun mem => fresh _ ((k.ready _).mp mem).1 rfl
  have queues : Queues (s.created entry arg) (s.calls :: R) S :=
    k.queues.create ready (fun mem => fresh _ (k.asleep _ mem) rfl) fun hc => fresh _ (k.current _ hc) rfl
  refine ⟨queues, fun t => ?_, fun t ht => ?_, fun c hc => ?_, fun t ht => ?_, k.boot,
    List.mem_cons_of_mem _ k.mem, k.init, Int.add_pos_of_pos_of_nonneg k.tid (by decide)⟩
  · by_cases ht : t = s.calls
    · subst ht
      simp [self]
    · have eq : (s.created entry arg).threads t = s.threads t := Function.update_of_ne ht _ s.threads
      simpa [ht, eq] using k.ready t
  · exact List.mem_cons_of_mem _ (k.asleep t ht)
  · exact List.mem_cons_of_mem _ (k.current c hc)
  · rcases List.mem_cons.mp ht with rfl | ht
    · exact Nat.lt_add_of_pos_right (by decide)
    · exact Nat.lt_add_right 2 (k.old t ht)

/-- A failed creation writes to no thread of `L`. -/
lemma createFails {th : Thread} {calls : Nat} {freed : List Nat} (k : Kept s L R S) (le : s.calls ≤ calls) :
    Kept { s with threads := Function.update s.threads s.calls th, calls, freed } L R S := by
  have same (t : Nat) (ht : t ∈ L) : Function.update s.threads s.calls th t = s.threads t :=
    Function.update_of_ne (Nat.ne_of_lt (k.old t ht)) th s.threads
  refine k.congr (fun t ht => ?_) (fun t ht => ?_) (fun t ht => ?_) rfl rfl rfl rfl rfl le rfl
  · exact congrArg Thread.next (same t ht)
  · exact congrArg Thread.nextSleeping (same t ht)
  · exact iff_of_eq (congrArg (fun th => th.state = .ready) (same t ht))

/-- The bootstrap thread goes to sleep when it is not ready, nor current, nor asleep. -/
lemma sleep (k : Kept s L R S) (sl : Sleeps s s' 0) (idle : (s.threads 0).state ≠ .ready)
    (away : s.schedCurrent ≠ some 0) (awake : 0 ∉ S) : Kept s' L R (0 :: S) := by
  have notReady : 0 ∉ R := fun mem => idle ((k.ready 0).mp mem).2
  refine ⟨⟨?_, ?_, ?_, fun c hc => ?_⟩, fun t => ?_, fun t ht => ?_, fun c hc => ?_, fun t ht => ?_, ?_, k.mem,
    ?_, ?_⟩
  · rw [sl.next, sl.readyQueue]
    exact k.queues.ready
  · rw [sl.sleepingThreads]
    apply Linked.cons
    rw [sl.nextSleeping, if_pos rfl]
    refine k.queues.sleeping.congr fun t ht => ?_
    rw [sl.nextSleeping, if_neg]
    rintro rfl
    exact awake ht
  · exact List.disjoint_cons_right.mpr ⟨notReady, k.queues.disjoint⟩
  · rw [sl.schedCurrent] at hc
    obtain ⟨cR, cS⟩ := k.queues.current c hc
    refine ⟨cR, fun mem => ?_⟩
    rcases List.mem_cons.mp mem with rfl | mem
    · exact away hc
    · exact cS mem
  · rw [sl.state, k.ready t]
    by_cases ht : t = 0
    · subst ht
      simp [idle]
    · rw [if_neg ht]
  · rcases List.mem_cons.mp ht with rfl | ht
    · exact k.mem
    · exact k.asleep t ht
  · exact k.current c (sl.schedCurrent ▸ hc)
  · rw [sl.calls]
    exact k.old t ht
  · exact sl.threadCurrent.trans k.boot
  · exact sl.init.trans k.init
  · exact lt_of_lt_of_eq k.tid sl.nextTid.symm

/-- The bootstrap thread ends when it is not ready. -/
lemma exit (k : Kept s L R S) (idle : (s.threads 0).state ≠ .ready) : Kept (threadExit s v) L R S := by
  have unfolded : threadExit s v = timerTick (s.setThread 0 { s.threads 0 with
      retval := v, state := .terminated }) := by simp [threadExit, threadYield, k.boot]
  rw [unfolded]
  refine k.congr (fun t _ => ?_) (fun t _ => ?_) (fun t _ => ?_) rfl rfl rfl rfl rfl (le_refl _) rfl
  · by_cases ht : t = 0 <;> simp [timerTick, State.next, ht]
  · by_cases ht : t = 0 <;> simp [timerTick, State.nextSleeping, ht]
  · by_cases ht : t = 0
    · subst ht
      simp [timerTick, idle]
    · simp [timerTick, ht]

/-- The counters of the timer play no part. -/
lemma clock {timerTicks ticks : UInt32} (k : Kept s L R S) : Kept { s with timerTicks, ticks } L R S :=
  k.congr (fun _ _ => rfl) (fun _ _ => rfl) (fun _ _ => Iff.rfl) rfl rfl rfl rfl rfl (le_refl _) rfl

/-- A sound operation returns and keeps the queues. -/
theorem step (k : Kept s L R S) (sched : op.Scheduling (s, L)) (sound : op.Sound (s, L)) :
    ∃ s' R' S', op.exec s = some s' ∧ Kept s' (op.live s L) R' S' := by
  cases op with
  | threadCreate entry arg =>
    by_cases fails : CreateFails s entry
    · obtain ⟨result, th, calls, freed, le, eq⟩ := threadCreate_fails arg fails
      refine ⟨_, R, S, rfl, ?_⟩
      simp only [Op.live, result, if_true, eq]
      exact k.createFails le
    · have eq := threadCreate_succeeds arg fails
      refine ⟨_, s.calls :: R, S, rfl, ?_⟩
      have result : s.nextTid ≠ -1 := by
        have := k.tid
        omega
      simp only [Op.live, eq, result, if_false]
      exact k.create
  | schedStart =>
    obtain ⟨R', k'⟩ := k.start
    exact ⟨_, R', S, rfl, k'⟩
  | schedYield =>
    obtain ⟨R', k'⟩ := k.yield
    exact ⟨_, R', S, rfl, k'⟩
  | schedTick => exact k.tick
  | schedSwitch next => exact sound.elim
  | threadSleep ms =>
    -- `thread_sleep(0)` only yields, and a yield outside the scheduler moves nothing but a counter
    by_cases zero : ms = 0
    · refine ⟨_, R, S, rfl, ?_⟩
      simp only [threadSleep, zero, if_true]
      exact k.clock
    · obtain ⟨idle, away, awake⟩ := (sound.resolve_left zero) 0 k.boot
      exact ⟨_, R, 0 :: S, rfl, k.sleep (threadSleep_spec zero k.boot) idle away (awake S k.queues.sleeping)⟩
  | threadExit v => exact ⟨_, R, S, rfl, k.exit (sound 0 k.boot)⟩
  | threadJoin tid => exact sched.elim
  | clock timerTicks => exact ⟨_, R, S, rfl, k.clock⟩

end Kept

/-! ## What the other operations break. -/

/-- A thread that is queued and not ready. -/
lemma not_consistent_of_queued (ready : Linked s.next s.readyQueue R) (mem : t ∈ R)
    (state : (s.threads t).state ≠ .ready) : ¬ Consistent (s, L) := by
  rintro ⟨R', S, q, -, -, iff⟩
  rw [ready.unique q.ready] at mem
  exact state ((iff t).mp mem).2

/-- `sched_switch` runs a thread that stays in the ready queue. -/
lemma switch_breaks (k : Kept s L R S) (mem : n ∈ L) (ready : (s.threads n).state = .ready) :
    ¬ Consistent (schedSwitch s n, L) := by
  have nR := (k.ready n).mpr ⟨mem, ready⟩
  have other : s.schedCurrent ≠ some n := fun h => (k.queues.current n h).1 nR
  cases hc : s.schedCurrent with
  | none =>
    have unfolded : schedSwitch s n = makeCurrent s n := by simp [schedSwitch, ready, hc]
    rw [unfolded]
    refine not_consistent_of_queued (R := R) ?_ nR (by simp)
    rw [makeCurrent_next]
    exact k.queues.ready
  | some c =>
    have unfolded : schedSwitch s n = makeCurrent (schedAddThread (s.setState c .ready) c) n := by
      have ne : c ≠ n := fun e => other (e ▸ hc)
      simp [schedSwitch, ready, hc, ne]
    rw [unfolded]
    refine not_consistent_of_queued (R := c :: R) ?_ (List.mem_cons_of_mem c nR) (by simp)
    rw [makeCurrent_next]
    apply schedAddThread_ready _ (k.queues.current c hc).1
    rw [setState_next, setState_readyQueue]
    exact k.queues.ready

/-- `thread_exit` ends a thread that stays in the ready queue. -/
lemma exit_breaks (k : Kept s L R S) (ready : (s.threads 0).state = .ready) : ¬ Consistent (threadExit s v, L) := by
  have unfolded : threadExit s v = timerTick (s.setThread 0 { s.threads 0 with
      retval := v, state := .terminated }) := by simp [threadExit, threadYield, k.boot]
  rw [unfolded]
  refine not_consistent_of_queued (R := R) ?_ ((k.ready 0).mpr ⟨k.mem, ready⟩) (by simp [timerTick])
  refine k.queues.ready.congr fun t _ => ?_
  by_cases ht : t = 0 <;> simp [timerTick, State.next, ht]

/-- `thread_sleep` puts a thread on the sleeping list that is ready, current, or on the list already. -/
lemma sleep_breaks (k : Kept s L R S) (sl : Sleeps s s' 0)
    (h : (s.threads 0).state = .ready ∨ s.schedCurrent = some 0 ∨ 0 ∈ S) : ¬ Consistent (s', L) := by
  by_cases ready : (s.threads 0).state = .ready
  · refine not_consistent_of_queued (R := R) ?_ ((k.ready 0).mpr ⟨k.mem, ready⟩) (by simp [sl.state])
    rw [sl.next, sl.readyQueue]
    exact k.queues.ready
  rintro ⟨R', S', q, -, -, -⟩
  have sleeping := q.sleeping
  rw [sl.sleepingThreads] at sleeping
  obtain current | asleep := h.resolve_left ready
  · exact (q.current 0 (sl.schedCurrent.trans current)).2 (sleeping.head_mem rfl)
  · -- behind the thread comes the list that it is on
    have twice := sleeping.nodup
    cases sleeping with
    | cons tail =>
      rw [sl.nextSleeping, if_pos rfl] at tail
      have off (r : Nat) (hr : r ≠ 0) : s'.nextSleeping r = s.nextSleeping r := by rw [sl.nextSleeping, if_neg hr]
      exact (List.nodup_cons.mp twice).1 (k.queues.sleeping.mem_of_eq_off asleep off tail)

/-- An operation that is not sound leaves the queues inconsistent. -/
theorem Kept.breaks (k : Kept s L R S) (sched : op.Scheduling (s, L)) (unsound : ¬ op.Sound (s, L)) :
    ∃ s', op.exec s = some s' ∧ ¬ Consistent (s', op.live s L) := by
  cases op with
  | schedSwitch next => exact ⟨_, rfl, switch_breaks k sched.1 sched.2⟩
  | threadSleep ms =>
    simp only [Op.Sound, not_or] at unsound
    obtain ⟨nonzero, bad⟩ := unsound
    refine ⟨_, rfl, sleep_breaks k (threadSleep_spec nonzero k.boot) ?_⟩
    by_contra good
    simp only [not_or] at good
    obtain ⟨idle, away, awake⟩ := good
    refine bad fun b hb => ?_
    cases hb.symm.trans k.boot
    refine ⟨idle, away, fun S' h => ?_⟩
    rw [h.unique k.queues.sleeping]
    exact awake
  | threadExit v =>
    refine ⟨_, rfl, exit_breaks k ?_⟩
    by_contra idle
    refine unsound fun b hb => ?_
    cases hb.symm.trans k.boot
    exact idle
  | threadJoin tid => exact sched.elim
  | threadCreate entry arg => exact absurd trivial unsound
  | schedStart => exact absurd trivial unsound
  | schedYield => exact absurd trivial unsound
  | schedTick => exact absurd trivial unsound
  | clock timerTicks => exact absurd trivial unsound

/-- The queues at the start are empty. -/
lemma Fresh.kept (f : Fresh s) (init : s.schedInitialized = true) : Kept s [0] [] [] := by
  refine ⟨⟨?_, ?_, by simp, ?_⟩, fun t => ?_, by simp, ?_, ?_, f.threadCurrent, by simp, init, ?_⟩
  · rw [f.readyQueue]
    exact .nil
  · rw [f.sleepingThreads]
    exact .nil
  · simp
  · simp only [List.not_mem_nil, List.mem_singleton, false_iff, not_and]
    rintro rfl
    simp [f.state]
  · simp [f.schedCurrent]
  · simp [f.calls]
  · simp [f.nextTid]

/-- Sound operations keep the queues consistent, and every operation then returns and keeps them so exactly when it is
    sound. -/
theorem consistent_iff_sound {threads oom timerTicks ticks}
    (boot : threadingInit (bootState threads oom timerTicks ticks) = some s)
    (run : Runs Op.step (fun x op => op.Scheduling x ∧ Op.Sound x op) (schedInit s, [0]) x) :
    Consistent x ∧ ∀ op : Op, op.Scheduling x → ∃ x', op.step x = some x' ∧ (Consistent x' ↔ op.Sound x) := by
  have kept : ∃ R S, Kept x.1 x.2 R S := by
    refine run.invariant (I := fun x => ∃ R S, Kept x.1 x.2 R S) ⟨[], [], (Booted.scheduler boot).fresh.kept rfl⟩ ?_
    rintro ⟨s, L⟩ op x' ⟨R, S, k⟩ ⟨sched, sound⟩ step
    obtain ⟨s', R', S', exec, k'⟩ := k.step sched sound
    obtain ⟨s'', exec', rfl⟩ := Op.step_eq_some.mp step
    cases exec.symm.trans exec'
    exact ⟨R', S', k'⟩
  obtain ⟨s, L⟩ := x
  obtain ⟨R, S, k⟩ := kept
  refine ⟨k.consistent, fun op sched => ?_⟩
  by_cases sound : op.Sound (s, L)
  · obtain ⟨s', R', S', exec, k'⟩ := k.step sched sound
    exact ⟨_, Op.step_eq_some.mpr ⟨s', exec, rfl⟩, iff_of_true k'.consistent sound⟩
  · obtain ⟨s', exec, broken⟩ := k.breaks sched sound
    exact ⟨_, Op.step_eq_some.mpr ⟨s', exec, rfl⟩, iff_of_false broken sound⟩

/-- After `thread_create` the bootstrap thread may go to sleep. -/
theorem consistent_iff_sound_powerOn : ∃ s x, threadingInit powerOn = some s ∧
    Op.step (schedInit s, [0]) (.threadCreate 0x1000 0) = some x ∧ Consistent x ∧
    ∃ x', Op.step x (.threadSleep 10) = some x' ∧ Consistent x' := by
  obtain ⟨s, boot⟩ : ∃ s, threadingInit powerOn = some s := ⟨_, rfl⟩
  obtain ⟨x, step⟩ : ∃ x, Op.step (schedInit s, [0]) (.threadCreate 0x1000 0) = some x := ⟨_, rfl⟩
  obtain ⟨consistent, next⟩ := consistent_iff_sound boot (Runs.refl.step (by exact ⟨trivial, trivial⟩) step)
  obtain ⟨x', sleep, iff⟩ := next (.threadSleep 10) trivial
  refine ⟨s, x, boot, step, consistent, x', sleep, iff.mpr (.inr ?_)⟩
  cases boot
  cases step
  rintro b ⟨⟩
  refine ⟨by decide, by decide, fun S h => ?_⟩
  cases h
  simp

/-- A thread that is switched to with `sched_switch` runs and is queued. -/
theorem switched_queued : ∃ s x, threadingInit powerOn = some s ∧
    Runs Op.step (fun x op => op.Scheduling x) (schedInit s, [0]) x ∧ ¬ Consistent x := by
  obtain ⟨s, boot⟩ : ∃ s, threadingInit powerOn = some s := ⟨_, rfl⟩
  obtain ⟨x, create⟩ : ∃ x, Op.step (schedInit s, [0]) (.threadCreate 0x1000 0) = some x := ⟨_, rfl⟩
  obtain ⟨x', switch⟩ : ∃ x', Op.step x (.schedSwitch 2) = some x' := ⟨_, rfl⟩
  refine ⟨s, x', boot, (Runs.refl.step (by exact trivial) create).step ?_ switch, ?_⟩
  all_goals
    cases boot
    cases create
  · exact ⟨by decide, by decide⟩
  · cases switch
    exact not_consistent_of_queued (R := [2]) (.cons .nil) List.mem_cons_self (by decide)

end RetaOS.Sched
