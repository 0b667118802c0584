import RetaOS.Sched.Bootstrap

/-!
# The list of all threads

`thread_create` puts a thread in front of the list of all threads, through `next`, and then in front of the ready
queue, through the same field. So the list holds the bootstrap thread as long as no thread is created, and from the
first thread on `thread_list` leads into the ready queue, which the bootstrap thread is not in.

No thread ends in these runs, so `thread_join` returns -1 or waits for ever.
-/

namespace RetaOS.Sched
open Lib

variable {s s' : State} {x x' x₀ : World} {op : Op} {t : Nat} {L : List Nat} {b : Thread} {tid : Int}

/-- The list holds the threads that were created and not joined, `thread_join` finds each, and
    `scheduler_task_count` counts them. -/
structure Listed (s : State) (L l : List Nat) : Prop where
  linked : Linked s.next s.threadList l
  nodup : l.Nodup
  mem : ∀ t, t ∈ l ↔ t ∈ L
  found : ∀ t ∈ L, ∃ prev, loop (joinBody s (s.threads t).tid) (s.threadList, none) = some (some t, prev)
  count : schedulerTaskCount s = some L.length

def Complete (x : World) : Prop := ∃ l, Listed x.1 x.2 l

namespace Op

/-- The operations that create and join threads and hand the processor on. -/
def Managing : Op → Prop
  | schedSwitch _ => False
  | threadSleep _ => False
  | threadExit _ => False
  | _ => True

/-- No thread is created. -/
def Refused (x : World) : Op → Prop
  | threadCreate entry _ => CreateFails x.1 entry
  | _ => True

end Op

/-! ## Joining. -/

/-- The wait for a thread that does not end does not end. -/
lemma wait_diverges (alive : (s.threads t).state ≠ .terminated) : loop (waitBody t) s = none := by
  refine loop_diverges (I := fun s => (s.threads t).state ≠ .terminated) (fun s alive => ?_) alive
  exact ⟨threadYield s, by simp [waitBody, alive], alive⟩

/-- No thread that the list leads to has ended, so `thread_join` returns -1 and changes nothing, if it returns. -/
lemma threadJoin_alive {P : Nat → Prop} (tid : Int) (head : ∀ t, s.threadList = some t → P t)
    (next : ∀ t, P t → ∀ u, s.next t = some u → P u) (alive : ∀ t, P t → (s.threads t).state ≠ .terminated) :
    threadJoin s tid = none ∨ threadJoin s tid = some (-1, 0, s) := by
  unfold threadJoin
  by_cases neg : tid ≤ 0
  · rw [if_pos neg]
    exact .inr rfl
  rw [if_neg neg]
  cases walk : loop (joinBody s tid) (s.threadList, none) with
  | none => exact .inl rfl
  | some r =>
    obtain ⟨found, prev⟩ := r
    cases found with
    | none => exact .inr rfl
    | some t =>
      -- the walk stays on the threads that the list leads to
      have reached : P t := by
        have inv := loop_invariant (I := fun c : Option Nat × Option Nat => ∀ u, c.1 = some u → P u)
          (Q := fun r : Option Nat × Option Nat => ∀ u, r.1 = some u → P u) ?_ ?_ head walk
        · exact inv t rfl
        · rintro ⟨_ | u, q⟩ c' h step
          · cases step
          · simp only [joinBody] at step
            split at step
            · cases step
            · cases step
              exact next u (h u rfl)
        · rintro ⟨_ | u, q⟩ r h done
          · cases done
            exact h
          · simp only [joinBody] at done
            split at done
            · cases done
              exact h
            · cases done
      simp only [wait_diverges (alive t reached)]
      by_cases current : s.threadCurrent = some t
      · rw [if_pos current]
        exact .inr rfl
      · rw [if_neg current]
        exact .inl rfl

/-- Then the operation leaves everything as it is. -/
lemma join_same {P : Nat → Prop} (head : ∀ t, x.1.threadList = some t → P t)
    (next : ∀ t, P t → ∀ u, x.1.next t = some u → P u) (alive : ∀ t, P t → (x.1.threads t).state ≠ .terminated)
    (step : Op.step x (.threadJoin tid) = some x') : x' = x := by
  obtain ⟨s', exec, rfl⟩ := Op.step_eq_some.mp step
  obtain never | fails := threadJoin_alive tid head next alive
  · simp [Op.exec, never] at exec
  · have same : s' = x.1 := by simpa [Op.exec, fails] using exec.symm
    simp [Op.live, fails, same]

/-! ## One thread, and more. -/

/-- No thread has been created. -/
structure Alone (b : Thread) (x : World) : Prop where
  apart : Apart b x.1 x.2
  state : b.state = .running
  next : b.next = none
  live : x.2 = [0]
  threadList : x.1.threadList = some 0
  readyQueue : x.1.readyQueue = none
  schedCurrent : x.1.schedCurrent = none

/-- A thread has been created, and the list leads to such threads only. -/
structure Adrift (b : Thread) (x : World) : Prop where
  apart : Apart b x.1 x.2
  mem : 0 ∈ x.2
  threadList : ∀ t, x.1.threadList = some t → Later x.2 t

lemma Fresh.alone (f : Fresh s) : Alone (s.threads 0) (s, [0]) :=
  ⟨f.apart, f.state, f.next, rfl, f.threadList, f.readyQueue, f.schedCurrent⟩

/-- A list of one thread is complete. -/
lemma Alone.complete (a : Alone b x) : Complete x := by
  have next : x.1.next 0 = none := by rw [State.next, a.apart.self, a.next]
  have list := a.threadList
  refine ⟨[0], ?_, by simp, by simp [a.live], fun t ht => ?_, ?_⟩
  · rw [list]
    apply Linked.cons
    rw [next]
    exact .nil
  · rw [a.live] at ht
    obtain rfl := List.mem_singleton.mp ht
    refine ⟨none, ?_⟩
    rw [list]
    apply loop_done
    simp [joinBody]
  · rw [schedulerTaskCount, list, a.live]
    have one : countBody x.1 (0, some 0) = .next (1, none) := by simp [countBody, next]
    rw [loop_next one]
    exact loop_done rfl

/-- The bootstrap thread is missing from any list that leads to other threads. -/
lemma Adrift.not_complete (a : Adrift b x) : ¬ Complete x := by
  rintro ⟨l, listed⟩
  have later := listed.linked.forall_mem a.threadList fun t u ht => a.apart.next t ht u
  exact (later 0 ((listed.mem 0).mpr a.mem)).2 rfl

/-- Without a creation nothing happens. -/
lemma Alone.keep (a : Alone b x) (manage : op.Managing) (refused : op.Refused x) (step : op.step x = some x') :
    Alone b x' := by
  obtain ⟨s, L⟩ := x
  have empty : s.readyQueue = none := a.readyQueue
  have unset : s.schedCurrent = none := a.schedCurrent
  cases op with
  | threadCreate entry arg =>
    obtain ⟨result, th, calls, freed, le, eq⟩ := threadCreate_fails arg refused
    obtain ⟨s', exec, rfl⟩ := Op.step_eq_some.mp step
    cases exec
    simp only [Op.live, result, if_true, eq]
    exact ⟨a.apart.createFails le, a.state, a.next, a.live, a.threadList, empty, unset⟩
  | schedStart =>
    have still : schedStart s = s := by simp [schedStart, empty]
    cases step
    simp only [still]
    exact a
  | schedYield =>
    cases step
    simp only [schedYield_empty empty]
    exact a
  | schedTick =>
    have still : schedTick s = some s := by simp [schedTick, unset]
    simp only [Op.step, Op.exec, still] at step
    cases step
    exact a
  | threadJoin tid =>
    -- the bootstrap thread is the only one the list leads to, and it has not ended
    have next : s.next 0 = none := by rw [State.next, a.apart.self, a.next]
    have state : (s.threads 0).state ≠ .terminated := by rw [a.apart.self, a.state]; decide
    have same : x' = (s, L) := by
      refine join_same (P := fun t => t = 0) (fun t ht => ?_) (fun t ht u hu => ?_) (fun t ht => ?_) step
      · cases a.threadList.symm.trans ht
        rfl
      · subst ht
        cases next.symm.trans hu
      · subst ht
        exact state
    exact same ▸ a
  | clock timerTicks =>
    have apart := (a.apart.world (by exact trivial) step).1
    cases step
    exact ⟨apart, a.state, a.next, a.live, a.threadList, empty, unset⟩
  | schedSwitch next => exact manage.elim
  | threadSleep ms => exact manage.elim
  | threadExit v => exact manage.elim

/-- The first creation cuts the list loose. -/
lemma Alone.leave (a : Alone b x) (created : ¬ op.Refused x) (step : op.step x = some x') : Adrift b x' := by
  cases op with
  | threadCreate entry arg =>
    obtain ⟨s, L⟩ := x
    have eq := threadCreate_succeeds arg created
    have result : s.nextTid ≠ -1 := a.apart.nextTid_ne
    obtain ⟨s', exec, rfl⟩ := Op.step_eq_some.mp step
    cases exec
    simp only [Op.live, eq, result, if_false]
    refine ⟨a.apart.create, ?_, fun t ht => ?_⟩
    · have live : L = [0] := a.live
      simp [live]
    · cases ht
      exact ⟨List.mem_cons_self, Nat.ne_of_gt a.apart.calls⟩
  | _ => exact absurd trivial created

/-- No operation brings the bootstrap thread back. -/
lemma Adrift.stay (a : Adrift b x) (manage : op.Managing) (step : op.step x = some x') : Adrift b x' := by
  obtain ⟨s, L⟩ := x
  cases op with
  | threadCreate entry arg =>
    have apart := (a.apart.world (by exact trivial) step).1
    obtain ⟨s', exec, rfl⟩ := Op.step_eq_some.mp step
    cases exec
    -- a new head of the list leads to what the ready queue leads to, never to thread 0
    by_cases fails : CreateFails s entry
    · obtain ⟨result, th, calls, freed, le, eq⟩ := threadCreate_fails arg fails
      simp only [Op.live, result, if_true, eq] at apart ⊢
      exact ⟨apart, a.mem, a.threadList⟩
    · have eq := threadCreate_succeeds arg fails
      have result : s.nextTid ≠ -1 := a.apart.nextTid_ne
      simp only [Op.live, eq, result, if_false] at apart ⊢
      refine ⟨apart, List.mem_cons_of_mem _ a.mem, fun t ht => ?_⟩
      cases ht
      exact ⟨List.mem_cons_self, Nat.ne_of_gt a.apart.calls⟩
  | schedStart =>
    have apart := (a.apart.world (by exact trivial) step).1
    cases step
    refine ⟨apart, a.mem, fun t ht => a.threadList t ?_⟩
    exact (congrArg State.threadList schedStart_rest).symm.trans ht
  | schedYield =>
    have apart := (a.apart.world (by exact trivial) step).1
    cases step
    refine ⟨apart, a.mem, fun t ht => a.threadList t ?_⟩
    exact (congrArg State.threadList schedYield_rest).symm.trans ht
  | schedTick =>
    obtain ⟨s', run, apart, -, rest⟩ := a.apart.tick
    obtain ⟨s'', exec, rfl⟩ := Op.step_eq_some.mp step
    cases run.symm.trans exec
    refine ⟨apart, a.mem, fun t ht => a.threadList t ?_⟩
    exact (congrArg State.threadList rest).symm.trans ht
  | threadJoin tid =>
    have same : x' = (s, L) := join_same a.threadList (fun t ht => a.apart.next t ht) a.apart.alive step
    exact same ▸ a
  | clock timerTicks =>
    have apart := (a.apart.world (by exact trivial) step).1
    cases step
    exact ⟨apart, a.mem, a.threadList⟩
  | schedSwitch next => exact manage.elim
  | threadSleep ms => exact manage.elim
  | threadExit v => exact manage.elim

/-- The list of all threads is complete exactly when the run has created none. -/
theorem complete_iff (boot : Booted s) (run : Runs Op.step (fun _ op => op.Managing) (s, [0]) x) :
    Complete x ↔ Runs Op.step (fun x op => op.Managing ∧ op.Refused x) (s, [0]) x := by
  refine Runs.iff_safe (I := Alone (s.threads 0)) (B := Adrift (s.threads 0)) boot.fresh.alone ?_ ?_ ?_ ?_ ?_ run
  · exact fun x op x' a manage refused step => a.keep manage refused step
  · exact fun x op x' a _ created step => a.leave created step
  · exact fun x op x' a manage step => a.stay manage step
  · exact fun x a => a.complete
  · exact fun x a => a.not_complete

/-- A refused creation leaves the list as it was. -/
theorem complete_iff_powerOn : ∃ s x, threadingInit powerOn = some s ∧
    Op.step (schedInit s, [0]) (.threadCreate 0 0) = some x ∧ Complete x := by
  obtain ⟨s, boot⟩ : ∃ s, threadingInit powerOn = some s := ⟨_, rfl⟩
  obtain ⟨x, step⟩ : ∃ x, Op.step (schedInit s, [0]) (.threadCreate 0 0) = some x := ⟨_, rfl⟩
  refine ⟨s, x, boot, step, (complete_iff (.scheduler boot) (Runs.refl.step (by exact trivial) step)).mpr ?_⟩
  exact Runs.refl.step (by exact ⟨trivial, .inl rfl⟩) step

/-- After the first `thread_create` the list is the ready queue, without the bootstrap thread. -/
theorem created_incomplete : ∃ s x, threadingInit powerOn = some s ∧
    Runs Op.step (fun _ op => op.Managing) (schedInit s, [0]) x ∧ ¬ Complete x := by
  obtain ⟨s, boot⟩ : ∃ s, threadingInit powerOn = some s := ⟨_, rfl⟩
  obtain ⟨x, create⟩ : ∃ x, Op.step (schedInit s, [0]) (.threadCreate 0x1000 0) = some x := ⟨_, rfl⟩
  refine ⟨s, x, boot, Runs.refl.step (by exact trivial) create, fun ⟨l, h⟩ => ?_⟩
  cases boot
  cases create
  have short : l = [2] := h.linked.unique (.cons .nil)
  have missing : (0 : Nat) ∈ l := (h.mem 0).mpr (by decide)
  simp [short] at missing

end RetaOS.Sched
