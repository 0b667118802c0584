import RetaOS.Sched.Bootstrap

/-!
# The two current threads

`thread.c` and `sched.c` each have a variable `current_thread`. A switch sets the one of `sched.c`; the one of
`thread.c` is written by `threading_init` alone, so it names the bootstrap thread for ever. As long as no thread has
got the turn the bootstrap thread does run and `thread_self`, `thread_exit` and `thread_sleep` are about the thread
that calls them. From the first turn on they are about another one.
-/

namespace RetaOS.Sched
open Lib

variable {s : State} {x x₀ : World} {L : List Nat} {b : Thread} {v ms : UInt32}

/-- The thread that runs: the current one of the scheduler, and before there is one the bootstrap thread. -/
def running (s : State) : Option Nat := s.schedCurrent.or s.threadCurrent

/-- `thread_self`, `thread_exit` and `thread_sleep` are about the thread that runs; when it ends, `sched_yield` never
    picks it again. -/
structure Coherent (x : World) : Prop where
  self : ∀ c, x.1.schedCurrent = some c → threadSelf x.1 = (x.1.threads c).tid
  exit : ∀ v t, running x.1 = some t →
    ((threadExit x.1 v).threads t).state = .terminated ∧ ((threadExit x.1 v).threads t).retval = v ∧
    ∀ y, Runs Op.step (fun x op => op.Switching x) (threadExit x.1 v, x.2) y → (pickNextThread y.1).1 ≠ some t
  sleep : ∀ ms t, ms ≠ 0 → running x.1 = some t →
    ((threadSleep x.1 ms).threads t).state = .blocked ∧
    ∃ S, Linked (threadSleep x.1 ms).nextSleeping (threadSleep x.1 ms).sleepingThreads S ∧ t ∈ S

/-- The bootstrap thread ends and stays apart. -/
lemma Apart.exit (a : Apart b s L) :
    Apart { b with retval := v, state := .terminated } (threadExit s v) L := by
  have unfolded : threadExit s v = timerTick (s.setThread 0 { b with retval := v, state := .terminated }) := by
    simp [threadExit, threadYield, a.threadCurrent, a.self]
  have same (t : Nat) (ht : Later L t) :
      (s.setThread 0 { b with retval := v, state := .terminated }).threads t = s.threads t := by simp [ht.2]
  rw [unfolded]
  refine ⟨by simp [timerTick], a.tid, by simp, a.threadCurrent, a.sleepingThreads, a.nextTid, a.calls, a.old,
    fun t ht => ?_, fun t ht => ?_, a.ready, fun t ht u hu => ?_, a.current⟩
  · exact lt_of_lt_of_eq (a.tids t ht) (congrArg Thread.tid (same t ht)).symm
  · exact fun h => a.alive t ht ((congrArg Thread.state (same t ht)).symm.trans h)
  · exact a.next t ht u ((congrArg Thread.next (same t ht)).symm.trans hu)

/-- While no thread has got the turn, the calls are about the bootstrap thread, which runs. -/
lemma Apart.coherent (a : Apart b s L) (unset : s.schedCurrent = none) : Coherent (s, L) := by
  have boot : running s = some 0 := by simp [running, unset, a.threadCurrent]
  refine ⟨fun c hc => ?_, fun v t ht => ?_, fun ms t nonzero ht => ?_⟩
  · cases unset.symm.trans hc
  · cases boot.symm.trans ht
    have self := a.exit (v := v).self
    refine ⟨by simp [self], by simp [self], fun y run picked => ?_⟩
    have apart : Apart _ y.1 y.2 := (a.exit (v := v)).runs run
    cases head : y.1.readyQueue with
    | none => simp [pickNextThread, head] at picked
    | some n =>
      have first : n = 0 := by simpa [pickNextThread, head] using picked
      exact (apart.ready n head).2 first
  · cases boot.symm.trans ht
    have sl := threadSleep_spec nonzero a.threadCurrent
    refine ⟨by simp [sl.state], [0], ?_, List.mem_singleton.mpr rfl⟩
    rw [sl.sleepingThreads]
    apply Linked.cons
    rw [sl.nextSleeping, if_pos rfl, a.sleepingThreads]
    exact .nil

/-- After a turn `thread_self` is still the number of the bootstrap thread. -/
lemma Apart.not_coherent {c : Nat} (a : Apart b s L) (set : s.schedCurrent = some c) : ¬ Coherent (s, L) := by
  intro h
  have self : threadSelf s = 1 := by simp [threadSelf, a.threadCurrent, a.self, a.tid]
  have other := a.tids c (a.current c set)
  rw [← h.self c set, self] at other
  exact absurd other (by decide)

/-- The calls are about the thread that runs exactly when no operation of the run has given a thread the turn. -/
theorem coherent_iff (boot : Booted s) (run : Runs Op.step (fun x op => op.Switching x) (s, [0]) x) :
    Coherent x ↔ Runs Op.step (fun x op => op.Switching x ∧ op.Stays x) (s, [0]) x := by
  refine Runs.iff_safe (I := fun x => Apart (s.threads 0) x.1 x.2 ∧ x.1.schedCurrent = none)
    (B := fun x => Apart (s.threads 0) x.1 x.2 ∧ x.1.schedCurrent ≠ none)
    ⟨boot.fresh.apart, boot.fresh.schedCurrent⟩ ?_ ?_ ?_ ?_ ?_ run
  · intro x op x' ⟨a, unset⟩ h stays step
    obtain ⟨a', iff⟩ := a.world h step
    exact ⟨a', iff.mpr ⟨unset, stays⟩⟩
  · intro x op x' ⟨a, _⟩ h leaves step
    obtain ⟨a', iff⟩ := a.world h step
    exact ⟨a', fun unset => leaves (iff.mp unset).2⟩
  · intro x op x' ⟨a, set⟩ h step
    obtain ⟨a', iff⟩ := a.world h step
    exact ⟨a', fun unset => set (iff.mp unset).1⟩
  · intro x ⟨a, unset⟩
    exact a.coherent unset
  · intro x ⟨a, set⟩
    obtain ⟨c, hc⟩ := Option.ne_none_iff_exists'.mp set
    exact a.not_coherent hc

/-- A created thread changes nothing as long as it waits. -/
theorem coherent_iff_powerOn : ∃ s x, threadingInit powerOn = some s ∧
    Op.step (s, [0]) (.threadCreate 0x1000 0) = some x ∧ Coherent x := by
  obtain ⟨s, boot⟩ : ∃ s, threadingInit powerOn = some s := ⟨_, rfl⟩
  obtain ⟨x, step⟩ : ∃ x, Op.step (s, [0]) (.threadCreate 0x1000 0) = some x := ⟨_, rfl⟩
  refine ⟨s, x, boot, step, (coherent_iff (.threading boot) (Runs.refl.step (by exact trivial) step)).mpr ?_⟩
  exact Runs.refl.step (by exact ⟨trivial, trivial⟩) step

/-- Once the first thread runs, `thread_self` is not its number. -/
theorem started_other : ∃ s x, threadingInit powerOn = some s ∧
    Runs Op.step (fun x op => op.Switching x) (s, [0]) x ∧ ¬ Coherent x := by
  obtain ⟨s, boot⟩ : ∃ s, threadingInit powerOn = some s := ⟨_, rfl⟩
  obtain ⟨x, create⟩ : ∃ x, Op.step (s, [0]) (.threadCreate 0x1000 0) = some x := ⟨_, rfl⟩
  obtain ⟨x', start⟩ : ∃ x', Op.step x .schedStart = some x' := ⟨_, rfl⟩
  refine ⟨s, x', boot, (Runs.refl.step (by exact trivial) create).step (by exact trivial) start, fun h => ?_⟩
  cases boot
  cases create
  cases start
  have self : (1 : Int) = 2 := h.self 2 rfl
  exact absurd self (by decide)

end RetaOS.Sched
