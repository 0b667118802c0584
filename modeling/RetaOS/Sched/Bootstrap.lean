import RetaOS.Sched.Run

/-!
# The bootstrap thread and the others

`threading_init` makes a thread of the running kernel and does not put it into the ready queue, so no operation on the
ready queue ever meets it: no pointer that the scheduler follows leads to block 0 (`Apart`). This holds of every run
of the operations that create threads and hand the processor on, `sched_switch` included, which may tie the ready
queue into a knot.
-/

namespace RetaOS.Sched
open Lib

variable {s s' : State} {x : World} {op : Op} {t n c : Nat} {L : List Nat} {b th : Thread} {st : ThreadState}
  {entry arg : UInt32}

/-- The operations that create threads and hand the processor on. -/
def Op.Switching (x : World) : Op → Prop
  | schedSwitch next => next ∈ x.2
  | threadSleep _ => False
  | threadExit _ => False
  | threadJoin _ => False
  | _ => True

/-- No thread gets the turn: nothing is ready, or `sched_switch` is given a thread that is not. -/
def Op.Stays (x : World) : Op → Prop
  | schedStart => x.1.readyQueue = none
  | schedYield => x.1.schedInitialized = false ∨ x.1.readyQueue = none
  | schedSwitch next => (x.1.threads next).state ≠ .ready
  | _ => True

/-- A thread of `L` other than the bootstrap thread. -/
abbrev Later (L : List Nat) (t : Nat) : Prop := t ∈ L ∧ t ≠ 0

/-- The bootstrap thread stays as it is, and no pointer of the scheduler leads to it. -/
structure Apart (b : Thread) (s : State) (L : List Nat) : Prop where
  self : s.threads 0 = b
  tid : b.tid = 1
  idle : b.state ≠ .ready
  threadCurrent : s.threadCurrent = some 0
  sleepingThreads : s.sleepingThreads = none
  nextTid : 1 < s.nextTid
  calls : 0 < s.calls
  old : ∀ t ∈ L, t < s.calls
  tids : ∀ t, Later L t → 1 < (s.threads t).tid
  alive : ∀ t, Later L t → (s.threads t).state ≠ .terminated
  ready : ∀ t, s.readyQueue = some t → Later L t
  next : ∀ t, Later L t → ∀ u, s.next t = some u → Later L u
  current : ∀ t, s.schedCurrent = some t → Later L t

namespace Apart

/-- The number of a new thread is not the error code. -/
lemma nextTid_ne (a : Apart b s L) : s.nextTid ≠ -1 := by
  have := a.nextTid
  omega

lemma congr (a : Apart b s L) (rest : s'.rest = s.rest) (self : s'.threads 0 = s.threads 0)
    (sleepingThreads : s'.sleepingThreads = s.sleepingThreads)
    (alive : ∀ t, Later L t → (s'.threads t).state ≠ .terminated)
    (ready : ∀ t, s'.readyQueue = some t → Later L t)
    (next : ∀ t, Later L t → ∀ u, s'.next t = some u → Later L u)
    (current : ∀ t, s'.schedCurrent = some t → Later L t) : Apart b s' L := by
  have calls : s'.calls = s.calls := by simpa [State.rest] using congrArg State.calls rest
  refine ⟨self.trans a.self, a.tid, a.idle, ?_, sleepingThreads.trans a.sleepingThreads, ?_, ?_, ?_, fun t ht => ?_,
    alive, ready, next, current⟩
  · exact (congrArg State.threadCurrent rest).trans a.threadCurrent
  · exact lt_of_lt_of_eq a.nextTid (congrArg State.nextTid rest).symm
  · rw [calls]
    exact a.calls
  · rw [calls]
    exact a.old
  · rw [State.tid_of_rest rest]
    exact a.tids t ht

lemma setState (a : Apart b s L) (st : ThreadState) (ht : Later L t) (hst : st ≠ .terminated) :
    Apart b (s.setState t st) L := by
  refine a.congr setState_rest ?_ rfl (fun u hu => ?_) a.ready (fun u hu v hv => ?_) a.current
  · simp [State.setState, ht.2.symm]
  · by_cases eq : u = t
    · simpa [eq] using hst
    · simpa [eq] using a.alive u hu
  · exact a.next u hu v (by simpa using hv)

lemma slice (a : Apart b s L) (ht : Later L t) (k : Int) : Apart b (s.setSlice t k) L := by
  refine a.congr setSlice_rest ?_ rfl (fun u hu => ?_) a.ready (fun u hu v hv => ?_) a.current
  · simp [State.setSlice, ht.2.symm]
  · simpa using a.alive u hu
  · exact a.next u hu v (by simpa using hv)

lemma add (a : Apart b s L) (ht : Later L t) : Apart b (schedAddThread s t) L := by
  refine a.congr schedAddThread_rest ?_ rfl (fun u hu => ?_) (fun u hu => ?_) (fun u hu v hv => ?_) a.current
  · simp [schedAddThread, State.setNext, State.setThread, ht.2.symm]
  · simpa using a.alive u hu
  · cases hu
    exact ht
  · rw [schedAddThread_next] at hv
    by_cases eq : u = t
    · rw [if_pos eq] at hv
      exact a.ready v hv
    · rw [if_neg eq] at hv
      exact a.next u hu v hv

lemma makeCurrent (a : Apart b s L) (hn : Later L n) : Apart b (makeCurrent s n) L := by
  refine a.congr makeCurrent_rest ?_ rfl (fun u hu => ?_) a.ready (fun u hu v hv => ?_) (fun u hu => ?_)
  · simp [Sched.makeCurrent, hn.2.symm]
  · by_cases eq : u = n
    · simp [eq]
    · simpa [eq] using a.alive u hu
  · exact a.next u hu v (by simpa using hv)
  · cases hu
    exact hn

/-- The thread that `pick_next_thread` takes. -/
lemma pick (a : Apart b s L) (head : s.readyQueue = some n) :
    Later L n ∧ ∃ s', pickNextThread s = (some n, s') ∧ s'.schedCurrent = s.schedCurrent ∧ Apart b s' L := by
  have hn := a.ready n head
  refine ⟨hn, { s with readyQueue := s.next n }.setNext n none, by simp [pickNextThread, head], rfl, ?_⟩
  refine a.congr ?_ ?_ rfl (fun u hu => ?_) (a.next n hn) (fun u hu v hv => ?_) a.current
  · exact State.rest_setThread (s := { s with readyQueue := s.next n }) (t := n) rfl
  · simp [State.setNext, hn.2.symm]
  · by_cases eq : u = n
    · simpa [State.setNext, eq] using a.alive n hn
    · simpa [State.setNext, eq] using a.alive u hu
  · by_cases eq : u = n
    · simp [State.setNext, State.next, eq] at hv
    · refine a.next u hu v ?_
      simpa [State.setNext, State.next, eq] using hv

/-- The current thread goes back to the ready queue and `n` gets the turn. -/
lemma hand (a : Apart b s L) (hn : Later L n) : Apart b (Sched.makeCurrent s n) L ∧
    ∀ c, s.schedCurrent = some c → Apart b (Sched.makeCurrent (schedAddThread (s.setState c .ready) c) n) L := by
  refine ⟨a.makeCurrent hn, fun c hc => ?_⟩
  have later := a.current c hc
  exact ((a.setState .ready later (by decide)).add later).makeCurrent hn

/-- A yield leaves the state, or gives the turn to a thread. -/
lemma yield (a : Apart b s L) : Apart b (schedYield s) L ∧ ((schedYield s).schedCurrent = none ↔
    s.schedCurrent = none ∧ (s.schedInitialized = false ∨ s.readyQueue = none)) := by
  cases init : s.schedInitialized with
  | false =>
    have still : schedYield s = s := by simp [schedYield, init]
    rw [still]
    exact ⟨a, by simp⟩
  | true =>
    cases head : s.readyQueue with
    | none =>
      rw [schedYield_empty head]
      exact ⟨a, by simp⟩
    | some n =>
      obtain ⟨hn, s₁, pick, current, a₁⟩ := a.pick head
      obtain ⟨plain, back⟩ := a₁.hand hn
      have turn : ∃ s', schedYield s = Sched.makeCurrent s' n ∧ Apart b (Sched.makeCurrent s' n) L := by
        cases hc : s.schedCurrent with
        | none => exact ⟨s₁, by simp [schedYield, init, pick, current, hc], plain⟩
        | some c =>
          by_cases run : (s₁.threads c).state = .running
          · exact ⟨_, by simp [schedYield, init, pick, current, hc, run], back c (current.trans hc)⟩
          · exact ⟨s₁, by simp [schedYield, init, pick, current, hc, run], plain⟩
      obtain ⟨s', eq, a'⟩ := turn
      rw [eq]
      exact ⟨a', by simp [Sched.makeCurrent]⟩

/-- Nothing sleeps, so no walk wakes anything up. -/
lemma check (a : Apart b s L) : checkSleepingThreads s = some s := checkSleepingThreads_empty a.sleepingThreads

lemma tick (a : Apart b s L) : ∃ s', schedTick s = some s' ∧ Apart b s' L ∧
    (s'.schedCurrent = none ↔ s.schedCurrent = none) ∧ s'.rest = s.rest := by
  cases hc : s.schedCurrent with
  | none => exact ⟨s, by simp [schedTick, hc], a, by simp [hc], rfl⟩
  | some c =>
    obtain ⟨k, s₁, tick, before⟩ := schedTick_cases hc
    have sliced : Apart b (s.setSlice c k) L := a.slice (a.current c hc) k
    have still : (s.setSlice c k).schedCurrent = some c := hc
    obtain rfl | rfl := before
    · exact ⟨_, tick.trans sliced.check, sliced, by simp [still], by simp⟩
    · obtain ⟨a', iff⟩ := sliced.yield
      exact ⟨_, tick.trans a'.check, a', by simp [iff, still], by simp⟩

lemma start (a : Apart b s L) : Apart b (schedStart s) L ∧ ((schedStart s).schedCurrent = none ↔
    s.schedCurrent = none ∧ s.readyQueue = none) := by
  cases head : s.readyQueue with
  | none =>
    have still : schedStart s = s := by simp [schedStart, head]
    rw [still]
    exact ⟨a, by simp⟩
  | some n =>
    have hn := a.ready n head
    have unfolded : schedStart s =
        { { s with readyQueue := s.next n }.setState n .running with schedCurrent := some n } := by
      simp [schedStart, head]
    have queue : Apart b { s with readyQueue := s.next n } L :=
      a.congr rfl rfl rfl a.alive (a.next n hn) a.next a.current
    rw [unfolded]
    have run := queue.setState .running hn (by decide)
    refine ⟨run.congr rfl rfl rfl run.alive run.ready run.next fun t ht => ?_, by simp⟩
    cases ht
    exact hn

lemma switch (a : Apart b s L) (hn : n ∈ L) : Apart b (schedSwitch s n) L ∧ ((schedSwitch s n).schedCurrent = none ↔
    s.schedCurrent = none ∧ (s.threads n).state ≠ .ready) := by
  by_cases ready : (s.threads n).state = .ready
  · have later : Later L n := by
      refine ⟨hn, ?_⟩
      rintro rfl
      rw [a.self] at ready
      exact a.idle ready
    obtain ⟨plain, back⟩ := a.hand later
    cases hc : s.schedCurrent with
    | none =>
      have unfolded : schedSwitch s n = Sched.makeCurrent s n := by simp [schedSwitch, ready, hc]
      rw [unfolded]
      exact ⟨plain, by simp [Sched.makeCurrent, ready]⟩
    | some c =>
      by_cases same : c = n
      · have unfolded : schedSwitch s n = s := by simp [schedSwitch, ready, hc, same]
        rw [unfolded]
        exact ⟨a, by simp [hc]⟩
      · have unfolded : schedSwitch s n = Sched.makeCurrent (schedAddThread (s.setState c .ready) c) n := by
          simp [schedSwitch, ready, hc, same]
        rw [unfolded]
        exact ⟨back c hc, by simp [Sched.makeCurrent]⟩
  · have unfolded : schedSwitch s n = s := by simp [schedSwitch, ready]
    rw [unfolded]
    exact ⟨a, by simp [ready]⟩

/-- A new thread is one more that is not the bootstrap thread. -/
lemma create (a : Apart b s L) : Apart b (s.created entry arg) (s.calls :: L) := by
  have fresh (t : Nat) (ht : Later L t) : t ≠ s.calls := Nat.ne_of_lt (a.old t ht.1)
  have same (t : Nat) (ht : t ≠ s.calls) : (s.created entry arg).threads t = s.threads t :=
    Function.update_of_ne ht _ s.threads
  have self : (s.created entry arg).threads s.calls = { s.threads s.calls with
      tid := s.nextTid, stackBase := some (s.calls + 1), state := .ready, entry, arg, retval := 0,
      next := s.readyQueue } := Function.update_self s.calls _ s.threads
  have widen (t : Nat) (ht : Later L t) : Later (s.calls :: L) t := ⟨List.mem_cons_of_mem _ ht.1, ht.2⟩
  have narrow (t : Nat) (ht : Later (s.calls :: L) t) : t = s.calls ∨ Later L t :=
    (List.mem_cons.mp ht.1).imp_right fun mem => ⟨mem, ht.2⟩
  refine ⟨(same 0 (Nat.ne_of_lt a.calls)).trans a.self, a.tid, a.idle, a.threadCurrent, a.sleepingThreads,
    Int.lt_trans a.nextTid (Int.lt_succ s.nextTid), Nat.add_pos_left a.calls 2,
    fun t ht => ?_, fun t ht => ?_, fun t ht => ?_,
    fun t ht => ?_, fun t ht u hu => ?_, fun t ht => widen t (a.current t ht)⟩
  · rcases List.mem_cons.mp ht with rfl | ht
    · exact Nat.lt_add_of_pos_right (by decide)
    · exact Nat.lt_add_right 2 (a.old t ht)
  · obtain rfl | ht := narrow t ht
    · rw [self]
      exact a.nextTid
    · rw [same t (fresh t ht)]
      exact a.tids t ht
  · obtain rfl | ht := narrow t ht
    · simp [self]
    · rw [same t (fresh t ht)]
      exact a.alive t ht
  · cases ht
    exact ⟨List.mem_cons_self, Nat.ne_of_gt a.calls⟩
  · obtain rfl | ht := narrow t ht
    · rw [State.next, self] at hu
      exact widen u (a.ready u hu)
    · rw [State.next, same t (fresh t ht)] at hu
      exact widen u (a.next t ht u hu)

lemma createFails {calls : Nat} {freed : List Nat} (a : Apart b s L) (le : s.calls ≤ calls) :
    Apart b { s with threads := Function.update s.threads s.calls th, calls, freed } L := by
  have same (t : Nat) (ht : Later L t) : Function.update s.threads s.calls th t = s.threads t :=
    Function.update_of_ne (Nat.ne_of_lt (a.old t ht.1)) th s.threads
  refine ⟨(Function.update_of_ne (Nat.ne_of_lt a.calls) th s.threads).trans a.self, a.tid, a.idle, a.threadCurrent,
    a.sleepingThreads, a.nextTid, lt_of_lt_of_le a.calls le, fun t ht => lt_of_lt_of_le (a.old t ht) le,
    fun t ht => ?_, fun t ht => ?_, a.ready, fun t ht u hu => ?_, a.current⟩
  · exact lt_of_lt_of_eq (a.tids t ht) (congrArg Thread.tid (same t ht)).symm
  · exact fun h => a.alive t ht ((congrArg Thread.state (same t ht)).symm.trans h)
  · exact a.next t ht u ((congrArg Thread.next (same t ht)).symm.trans hu)

/-- Every operation returns and keeps the bootstrap thread apart. There is no current thread until one gets the turn,
    and from then on there always is. -/
theorem step (a : Apart b s L) (h : op.Switching (s, L)) : ∃ s', op.exec s = some s' ∧ Apart b s' (op.live s L) ∧
    (s'.schedCurrent = none ↔ s.schedCurrent = none ∧ op.Stays (s, L)) := by
  cases op with
  | threadCreate entry arg =>
    by_cases fails : CreateFails s entry
    · obtain ⟨result, th, calls, freed, le, eq⟩ := threadCreate_fails arg fails
      refine ⟨_, rfl, ?_⟩
      simp only [Op.live, result, if_true, eq]
      exact ⟨a.createFails le, by simp [Op.Stays]⟩
    · have eq := threadCreate_succeeds arg fails
      refine ⟨_, rfl, ?_⟩
      simp only [Op.live, eq, a.nextTid_ne, if_false]
      exact ⟨a.create, by simp [Op.Stays, State.created]⟩
  | schedStart => exact ⟨_, rfl, a.start⟩
  | schedYield => exact ⟨_, rfl, a.yield⟩
  | schedTick =>
    obtain ⟨s', run, a', iff, -⟩ := a.tick
    exact ⟨s', run, a', by simp [iff, Op.Stays]⟩
  | schedSwitch next => exact ⟨_, rfl, a.switch h⟩
  | threadSleep ms => exact h.elim
  | threadExit v => exact h.elim
  | threadJoin tid => exact h.elim
  | clock timerTicks =>
    refine ⟨_, rfl, ?_, by simp [Op.Stays]⟩
    exact ⟨a.self, a.tid, a.idle, a.threadCurrent, a.sleepingThreads, a.nextTid, a.calls, a.old, a.tids, a.alive,
      a.ready, a.next, a.current⟩

lemma world {x' : World} (a : Apart b x.1 x.2) (h : op.Switching x) (step : op.step x = some x') :
    Apart b x'.1 x'.2 ∧ (x'.1.schedCurrent = none ↔ x.1.schedCurrent = none ∧ op.Stays x) := by
  obtain ⟨s', exec, rfl⟩ := Op.step_eq_some.mp step
  obtain ⟨s'', exec', a', current⟩ := a.step h
  cases exec.symm.trans exec'
  exact ⟨a', current⟩

/-- A run keeps the bootstrap thread apart. -/
theorem runs {x₀ : World} (a : Apart b x₀.1 x₀.2) (run : Runs Op.step (fun x op => op.Switching x) x₀ x) :
    Apart b x.1 x.2 :=
  run.invariant (I := fun x => Apart b x.1 x.2) a fun _ _ _ a h step => (a.world h step).1

end Apart

/-- At the start there is no other thread. -/
lemma Fresh.apart (f : Fresh s) : Apart (s.threads 0) s [0] := by
  have none (t : Nat) : ¬ Later [0] t := fun h => h.2 (List.mem_singleton.mp h.1)
  refine ⟨rfl, f.tid, by simp [f.state], f.threadCurrent, f.sleepingThreads, ?_, ?_, ?_, fun t h => (none t h).elim,
    fun t h => (none t h).elim, ?_, fun t h => (none t h).elim, ?_⟩
  · simp [f.nextTid]
  · simp [f.calls]
  · simp [f.calls]
  · simp [f.readyQueue]
  · simp [f.schedCurrent]

end RetaOS.Sched
