import RetaOS.Sched.Consistency
import RetaOS.Lib.Runs

/-!
# Time slices

Runs of `thread_create`, `sched_start`, `sched_yield`, `sched_tick` and `scheduler_set_quantum` from `sched_init` on,
with the largest quantum in force so far. `Slicing` is what every such run keeps, and `turn` says what one operation
does to the current thread and its time slice.

`sched_yield` gives the thread that gets the turn a whole quantum. `sched_start` leaves it the time slice it has, which
in a thread that never ran is what the memory of its block held (`slices_bounded_iff`).
-/

namespace RetaOS.Sched
open Lib

variable {s s' : State} {R : List Nat}

/-- `scheduler_set_quantum`. -/
def schedulerSetQuantum (s : State) (ticks : Int) : State := if ticks > 0 then { s with rrQuantum := ticks } else s

/-- The operations. -/
inductive SliceOp where
  | threadCreate (entry arg : UInt32)
  | schedStart
  | schedYield
  | schedTick
  | setQuantum (ticks : Int)
  deriving DecidableEq

namespace SliceOp

/-- The state after an operation; `none` when it never returns. -/
def exec (s : State) : SliceOp → Option State
  | threadCreate entry arg => some (Sched.threadCreate s entry arg).2
  | schedStart => some (Sched.schedStart s)
  | schedYield => some (Sched.schedYield s)
  | schedTick => Sched.schedTick s
  | setQuantum ticks => some (schedulerSetQuantum s ticks)

/-- One operation, on a state and the largest quantum so far. -/
def step (x : State × Int) (op : SliceOp) : Option (State × Int) :=
  (op.exec x.1).map fun s => (s, max x.2 s.rrQuantum)

end SliceOp

variable {x x' : State × Int} {op : SliceOp}

/-- The time slice of the current thread is between 1 and the largest quantum so far. -/
def InSlice (x : State × Int) : Prop :=
  ∀ c, x.1.schedCurrent = some c → 1 ≤ (x.1.threads c).timeSlice ∧ (x.1.threads c).timeSlice ≤ x.2

/-- With preemption on and another thread ready, the current thread does not run on through as many ticks as the largest
    quantum so far, whatever is done between them. -/
def SwitchesInTime (x : State × Int) : Prop :=
  ∀ c n, x.1.schedCurrent = some c → x.1.preemptEnabled = true → x.1.readyQueue = some n →
    ∀ ops : List SliceOp, x.2 ≤ (ops.count .schedTick : Int) →
      ∃ pre post y, ops = pre ++ post ∧ pre.foldlM SliceOp.step x = some y ∧ y.1.schedCurrent ≠ some c

/-- The thread that `sched_start` would make current has a time slice in bounds. -/
def StartsInSlice (x : State × Int) : Prop :=
  ∀ n, x.1.readyQueue = some n → 1 ≤ (x.1.threads n).timeSlice ∧ (x.1.threads n).timeSlice ≤ x.2

/-! ## What every run keeps. -/

/-- Threads of the queue and the current one are blocks handed out before, nothing sleeps and preemption is on. -/
structure Slicing (x : State × Int) : Prop where
  queue : ∃ R, Queues x.1 R [] ∧ ∀ t ∈ R, t < x.1.calls
  old : ∀ c, x.1.schedCurrent = some c → c < x.1.calls
  init : x.1.schedInitialized = true
  preempt : x.1.preemptEnabled = true
  pos : 1 ≤ x.1.rrQuantum
  le : x.1.rrQuantum ≤ x.2

/-- What an operation does to the current thread: another one gets the turn, or it stays, and then only a tick touches
    its time slice, which it counts down, or renews when no thread is ready. -/
inductive Turn (x x' : State × Int) (op : SliceOp) : Prop where
  | dispatch {n} :
    x.1.readyQueue = some n →
    x'.1.schedCurrent = some n →
    (x'.1.threads n).timeSlice = (if op = .schedStart then (x.1.threads n).timeSlice else x.1.rrQuantum) →
    Turn x x' op
  | stay :
    (op = .schedTick → x.1.schedCurrent = none) →
    x'.1.schedCurrent = x.1.schedCurrent →
    (x.1.readyQueue ≠ none → x'.1.readyQueue ≠ none) →
    (∀ c, x.1.schedCurrent = some c → (x'.1.threads c).timeSlice = (x.1.threads c).timeSlice) →
    Turn x x' op
  | count {c} :
    x.1.schedCurrent = some c →
    x'.1.schedCurrent = some c →
    x'.1.readyQueue = x.1.readyQueue →
    2 ≤ (x.1.threads c).timeSlice →
    (x'.1.threads c).timeSlice = (x.1.threads c).timeSlice - 1 →
    Turn x x' op
  | renew {c} :
    x.1.schedCurrent = some c →
    x'.1.schedCurrent = some c →
    x.1.readyQueue = none →
    (x'.1.threads c).timeSlice = x.1.rrQuantum →
    Turn x x' op

/-- Behind `sched_init` nothing is queued. -/
lemma schedInit_slicing (pos : 0 < s.rrQuantum) : Slicing (schedInit s, s.rrQuantum) :=
  ⟨⟨[], ⟨.nil, .nil, List.disjoint_nil_left _, nofun⟩, nofun⟩, nofun, rfl, rfl, pos, Int.le_refl _⟩

/-- The head of the ready queue gets the turn, and at most the current thread goes back. -/
lemma Slicing.dispatch {n : Nat} {back : List Nat} (inv : Slicing x) (q : Queues x.1 (n :: R) [])
    (old : ∀ t ∈ n :: R, t < x.1.calls) (d : Dispatches x.1 s' n back R)
    (only : ∀ t ∈ back, x.1.schedCurrent = some t) :
    Slicing (s', max x.2 s'.rrQuantum) := by
  have calls : s'.rest.calls = x.1.rest.calls := congrArg State.calls d.rest
  have quantum : s'.rest.rrQuantum = x.1.rest.rrQuantum := congrArg State.rrQuantum d.rest
  refine ⟨⟨back ++ R, q.dispatch d only, fun t mem => ?_⟩, fun c hc => ?_, ?_, ?_, ?_, Int.le_max_right _ _⟩
  · obtain mem | mem := List.mem_append.mp mem
    · exact lt_of_lt_of_eq (inv.old t (only t mem)) calls.symm
    · exact lt_of_lt_of_eq (old t (List.mem_cons_of_mem n mem)) calls.symm
  · cases hc.symm.trans d.current
    exact lt_of_lt_of_eq (old n List.mem_cons_self) calls.symm
  · exact (congrArg State.schedInitialized d.rest).trans inv.init
  · exact (congrArg State.preemptEnabled d.rest).trans inv.preempt
  · exact le_of_le_of_eq inv.pos quantum.symm

/-- `sched_yield` gives the thread that gets the turn a whole quantum. -/
lemma schedYield_slice {n : Nat} (init : s.schedInitialized = true) (head : s.readyQueue = some n) :
    ((schedYield s).threads n).timeSlice = s.rrQuantum := by
  have made (s : State) : ((makeCurrent s n).threads n).timeSlice = s.rrQuantum := by simp [makeCurrent]
  have pick : pickNextThread s = (some n, { s with readyQueue := s.next n }.setNext n none) := by
    simp [pickNextThread, head]
  unfold schedYield
  rw [init, pick, if_neg (by decide)]
  dsimp only
  rw [made]
  split
  · rfl
  · split
    · rfl
    · rfl

/-- The time slices of other threads are the same behind a creation. -/
lemma created_slice (entry arg : UInt32) (t : Nat) :
    ((s.created entry arg).threads t).timeSlice = (s.threads t).timeSlice := by
  by_cases self : t = s.calls
  · subst self
    simp [State.created]
  · simp [State.created, self]

/-- A tick of a running thread when nothing sleeps and preemption is on. -/
lemma Slicing.tick {c : Nat} (inv : Slicing x) (current : x.1.schedCurrent = some c) :
    schedTick x.1 = some (if (x.1.threads c).timeSlice ≤ 1 then schedYield (x.1.setSlice c x.1.rrQuantum)
      else x.1.setSlice c ((x.1.threads c).timeSlice - 1)) := by
  obtain ⟨R, q, -⟩ := inv.queue
  have awake : x.1.sleepingThreads = none := q.sleeping.start_eq
  rw [schedTick_eq current, inv.preempt]
  apply checkSleepingThreads_empty
  split
  · cases R with
    | nil =>
      have empty : (x.1.setSlice c x.1.rrQuantum).readyQueue = none := q.ready.start_eq
      rw [if_pos rfl, schedYield_empty empty]
      exact awake
    | cons n R => exact ((q.slice x.1.rrQuantum).yields inv.init).sleepingThreads.trans awake
  · exact awake

/-! ## One operation. -/

lemma Slicing.slice (inv : Slicing x) (c : Nat) (k : Int) : Slicing (x.1.setSlice c k, x.2) := by
  obtain ⟨R, q, old⟩ := inv.queue
  exact ⟨⟨R, q.slice k, old⟩, inv.old, inv.init, inv.preempt, inv.pos, inv.le⟩

/-- The largest quantum so far stays when the quantum does. -/
lemma Slicing.largest (inv : Slicing x) : (x.1, max x.2 x.1.rrQuantum) = x :=
  Prod.ext rfl (Int.max_eq_left inv.le)

/-- A yield goes on with the current thread when no other is ready, and gives the head of the queue the turn else. -/
lemma Slicing.yield (inv : Slicing x) : Slicing (schedYield x.1, max x.2 (schedYield x.1).rrQuantum) ∧
    (x.1.readyQueue = none ∧ schedYield x.1 = x.1 ∨ ∃ n, x.1.readyQueue = some n ∧
      (schedYield x.1).schedCurrent = some n ∧ ((schedYield x.1).threads n).timeSlice = x.1.rrQuantum) := by
  obtain ⟨R, q, old⟩ := inv.queue
  have head := q.ready.start_eq
  cases R with
  | nil =>
    have same := schedYield_empty head
    rw [same, inv.largest]
    exact ⟨inv, .inl ⟨head, rfl⟩⟩
  | cons n R =>
    have d := q.yields inv.init
    exact ⟨inv.dispatch q old d fun t mem => (State.mem_requeued.mp mem).1,
      .inr ⟨n, head, d.current, schedYield_slice inv.init head⟩⟩

/-- `sched_start` gives the head of the queue the turn, with the time slice it has. -/
lemma Slicing.start (inv : Slicing x) : Slicing (schedStart x.1, max x.2 (schedStart x.1).rrQuantum) ∧
    Turn x (schedStart x.1, max x.2 (schedStart x.1).rrQuantum) .schedStart := by
  obtain ⟨R, q, old⟩ := inv.queue
  have head := q.ready.start_eq
  cases R with
  | nil =>
    have same : schedStart x.1 = x.1 := by simp [schedStart, head]
    rw [same, inv.largest]
    exact ⟨inv, .stay (by rintro ⟨⟩) rfl id fun _ _ => rfl⟩
  | cons n R =>
    have d := schedStart_spec q.ready
    refine ⟨inv.dispatch q old d (List.forall_mem_nil _), .dispatch head d.current ?_⟩
    rw [if_pos rfl]
    simp [schedStart, head, State.setState]

/-- A tick counts the time slice down, and yields with a new one when it is used up. -/
lemma Slicing.ticks (inv : Slicing x) : ∃ s', schedTick x.1 = some s' ∧ Slicing (s', max x.2 s'.rrQuantum) ∧
    Turn x (s', max x.2 s'.rrQuantum) .schedTick := by
  cases current : x.1.schedCurrent with
  | none =>
    have idle : schedTick x.1 = some x.1 := by
      unfold schedTick
      rw [current]
    refine ⟨x.1, idle, ?_, .stay (fun _ => current) rfl id fun _ _ => rfl⟩
    rw [inv.largest]
    exact inv
  | some c =>
    rw [inv.tick current]
    split
    case isTrue =>
      have sliced := inv.slice c x.1.rrQuantum
      obtain ⟨inv', ⟨empty, same⟩ | ⟨n, head, turn, slice⟩⟩ := sliced.yield
      · refine ⟨_, rfl, inv', .renew current ?_ empty ?_⟩
        · rw [same]
          exact current
        · rw [same]
          simp [State.setSlice]
      · exact ⟨_, rfl, inv', .dispatch head turn slice⟩
    case isFalse more =>
      have inv' := inv.slice c ((x.1.threads c).timeSlice - 1)
      refine ⟨_, rfl, ?_, .count current current rfl (by omega) ?_⟩
      · rw [← inv'.largest] at inv'
        exact inv'
      · simp [State.setSlice]

/-- A new thread is ready, and nothing else changes. -/
lemma Slicing.create (inv : Slicing x) (entry arg : UInt32) :
    Slicing ((threadCreate x.1 entry arg).2, max x.2 (threadCreate x.1 entry arg).2.rrQuantum) ∧
    Turn x ((threadCreate x.1 entry arg).2, max x.2 (threadCreate x.1 entry arg).2.rrQuantum)
      (.threadCreate entry arg) := by
  obtain ⟨R, q, old⟩ := inv.queue
  by_cases fails : CreateFails x.1 entry
  · obtain ⟨-, th, calls, freed, le, eq⟩ := threadCreate_fails arg fails
    rw [eq]
    have same (t : Nat) (lt : t < x.1.calls) : Function.update x.1.threads x.1.calls th t = x.1.threads t :=
      Function.update_of_ne (Nat.ne_of_lt lt) th x.1.threads
    have queues : Queues { x.1 with threads := Function.update x.1.threads x.1.calls th, calls, freed } R [] :=
      q.congr (fun t mem => congrArg Thread.next (same t (old t mem))) nofun rfl rfl rfl
    refine ⟨⟨⟨R, queues, fun t mem => lt_of_lt_of_le (old t mem) le⟩, fun c hc => lt_of_lt_of_le (inv.old c hc) le,
      inv.init, inv.preempt, inv.pos, Int.le_max_right _ _⟩, .stay nofun rfl id fun c hc => ?_⟩
    exact congrArg Thread.timeSlice (same c (inv.old c hc))
  · rw [threadCreate_succeeds arg fails]
    have queues : Queues (x.1.created entry arg) (x.1.calls :: R) [] :=
      q.create (fun mem => lt_irrefl _ (old _ mem)) nofun fun hc => lt_irrefl _ (inv.old _ hc)
    refine ⟨⟨⟨_, queues, fun t mem => ?_⟩, fun c hc => Nat.lt_add_right 2 (inv.old c hc), inv.init, inv.preempt,
      inv.pos, Int.le_max_right _ _⟩, .stay nofun rfl (fun _ => Option.some_ne_none _)
        fun c _ => created_slice entry arg c⟩
    obtain rfl | mem := List.mem_cons.mp mem
    · exact Nat.lt_add_of_pos_right (by decide)
    · exact Nat.lt_add_right 2 (old t mem)

/-- A quantum is in force from the next turn on. -/
lemma Slicing.quantum (inv : Slicing x) (ticks : Int) :
    Slicing (schedulerSetQuantum x.1 ticks, max x.2 (schedulerSetQuantum x.1 ticks).rrQuantum) ∧
    Turn x (schedulerSetQuantum x.1 ticks, max x.2 (schedulerSetQuantum x.1 ticks).rrQuantum) (.setQuantum ticks) := by
  unfold schedulerSetQuantum
  split
  case isTrue pos =>
    obtain ⟨R, q, old⟩ := inv.queue
    have queues : Queues { x.1 with rrQuantum := ticks } R [] := q.congr (fun _ _ => rfl) nofun rfl rfl rfl
    exact ⟨⟨⟨R, queues, old⟩, inv.old, inv.init, inv.preempt, pos, Int.le_max_right _ _⟩,
      .stay nofun rfl id fun _ _ => rfl⟩
  case isFalse =>
    rw [inv.largest]
    exact ⟨inv, .stay nofun rfl id fun _ _ => rfl⟩

/-- Every operation returns. -/
theorem Slicing.step (inv : Slicing x) (op : SliceOp) :
    ∃ x', op.step x = some x' ∧ Slicing x' ∧ Turn x x' op ∧ x.2 ≤ x'.2 := by
  have one (s' : State) (run : op.exec x.1 = some s') : op.step x = some (s', max x.2 s'.rrQuantum) := by
    rw [SliceOp.step, run]
    rfl
  cases op with
  | threadCreate entry arg =>
    obtain ⟨inv', turn⟩ := inv.create entry arg
    exact ⟨_, one _ rfl, inv', turn, Int.le_max_left _ _⟩
  | schedStart =>
    obtain ⟨inv', turn⟩ := inv.start
    exact ⟨_, one _ rfl, inv', turn, Int.le_max_left _ _⟩
  | schedYield =>
    obtain ⟨inv', ⟨empty, same⟩ | ⟨n, head, turn, slice⟩⟩ := inv.yield
    · refine ⟨_, one _ rfl, inv', ?_, Int.le_max_left _ _⟩
      rw [same]
      exact .stay nofun rfl id fun _ _ => rfl
    · exact ⟨_, one _ rfl, inv', .dispatch head turn slice, Int.le_max_left _ _⟩
  | schedTick =>
    obtain ⟨s', run, inv', turn⟩ := inv.ticks
    exact ⟨_, one s' run, inv', turn, Int.le_max_left _ _⟩
  | setQuantum ticks =>
    obtain ⟨inv', turn⟩ := inv.quantum ticks
    exact ⟨_, one _ rfl, inv', turn, Int.le_max_left _ _⟩

/-- An operation keeps the time slice in bounds, unless it starts a thread with another one. -/
lemma InSlice.step (slice : InSlice x) (inv : Slicing x) (start : op = .schedStart → StartsInSlice x)
    (turn : Turn x x' op) (le : x.2 ≤ x'.2) : InSlice x' := by
  have quantum := inv.le
  intro c current
  cases turn with
  | dispatch head turned renewed =>
    cases current.symm.trans turned
    rw [renewed]
    split
    case isTrue eq =>
      obtain ⟨lo, hi⟩ := start eq c head
      exact ⟨lo, Int.le_trans hi le⟩
    case isFalse => exact ⟨inv.pos, Int.le_trans quantum le⟩
  | stay _ same _ kept =>
    rw [same] at current
    obtain ⟨lo, hi⟩ := slice c current
    rw [kept c current]
    exact ⟨lo, Int.le_trans hi le⟩
  | count before after _ two counted =>
    cases current.symm.trans after
    obtain ⟨-, hi⟩ := slice c before
    omega
  | renew _ after _ renewed =>
    cases current.symm.trans after
    rw [renewed]
    exact ⟨inv.pos, Int.le_trans quantum le⟩

/-! ## Runs. -/

/-- A property holds in every state of a run. -/
def Throughout (P : State × Int → Prop) (x₀ : State × Int) (ops : List SliceOp) : Prop :=
  ∀ pre post x, ops = pre ++ post → pre.foldlM SliceOp.step x₀ = some x → P x

/-- Every `sched_start` of a run starts a thread with a time slice in bounds. -/
def StartsSafe (x₀ : State × Int) (ops : List SliceOp) : Prop :=
  ∀ pre post x, ops = pre ++ .schedStart :: post → pre.foldlM SliceOp.step x₀ = some x → StartsInSlice x

/-- What every run keeps. -/
lemma Slicing.run {x₀ : State × Int} {ops : List SliceOp} (inv : Slicing x₀)
    (run : ops.foldlM SliceOp.step x₀ = some x) : Slicing x := by
  have runs : Runs SliceOp.step (fun _ _ => True) x₀ x := Runs.of_foldlM (fun _ _ => trivial) ops .refl run
  refine runs.invariant inv fun x op x' inv _ step => ?_
  obtain ⟨x1, step', inv', -⟩ := inv.step op
  cases step.symm.trans step'
  exact inv'

/-- With another thread ready, the current thread does not run on through as many ticks as its time slice. -/
theorem Slicing.switches {c : Nat} (inv : Slicing x) (current : x.1.schedCurrent = some c)
    (ready : x.1.readyQueue ≠ none) (pos : 1 ≤ (x.1.threads c).timeSlice) (ops : List SliceOp)
    (enough : (x.1.threads c).timeSlice ≤ (ops.count .schedTick : Int)) :
    ∃ pre post y, ops = pre ++ post ∧ pre.foldlM SliceOp.step x = some y ∧ y.1.schedCurrent ≠ some c := by
  induction ops generalizing x with
  | nil =>
    rw [List.count_nil] at enough
    omega
  | cons op ops ih =>
    obtain ⟨x', step, inv', turn, -⟩ := inv.step op
    by_cases same : x'.1.schedCurrent = some c
    · have more : x'.1.readyQueue ≠ none ∧ 1 ≤ (x'.1.threads c).timeSlice ∧
          (x'.1.threads c).timeSlice ≤ (ops.count .schedTick : Int) := by
        have most : (op :: ops).count .schedTick ≤ ops.count .schedTick + 1 := by
          rw [List.count_cons]
          split <;> omega
        cases turn with
        | dispatch head turned _ =>
          cases same.symm.trans turned
          obtain ⟨R, q, -⟩ := inv.queue
          exact absurd (q.ready.head_mem head) (q.current c current).1
        | stay idle _ queue kept =>
          have other : op ≠ .schedTick := fun eq => by cases current.symm.trans (idle eq)
          rw [List.count_cons_of_ne other] at enough
          rw [kept c current]
          exact ⟨queue ready, pos, enough⟩
        | count before after queue two counted =>
          cases current.symm.trans before
          rw [queue, counted]
          exact ⟨ready, by omega, by omega⟩
        | renew _ _ empty _ => exact absurd empty ready
      obtain ⟨pre, post, y, split, run, switched⟩ := ih inv' same more.1 more.2.1 more.2.2
      refine ⟨op :: pre, post, y, by rw [split, List.cons_append], ?_, switched⟩
      rw [List.foldlM_cons, step]
      exact run
    · refine ⟨[op], ops, x', rfl, ?_, same⟩
      rw [List.foldlM_cons, step]
      rfl

/-- A time slice in bounds is used up in time. -/
lemma InSlice.switchesInTime (slice : InSlice x) (inv : Slicing x) : SwitchesInTime x := by
  intro c n current _ head ops enough
  obtain ⟨lo, hi⟩ := slice c current
  exact inv.switches current (by rw [head]; exact Option.some_ne_none n) lo ops (Int.le_trans hi enough)

/-- While the starts are safe, time slices are in bounds. -/
theorem InSlice.run {x₀ : State × Int} {ops : List SliceOp} (slice : InSlice x₀) (inv : Slicing x₀)
    (safe : StartsSafe x₀ ops) : Throughout InSlice x₀ ops := by
  intro pre post x split run
  induction pre generalizing x₀ ops with
  | nil =>
    cases run
    exact slice
  | cons op pre ih =>
    obtain ⟨x1, step, inv1, turn, le⟩ := inv.step op
    have onward {qs : List SliceOp} : (op :: qs).foldlM SliceOp.step x₀ = qs.foldlM SliceOp.step x1 := by
      rw [List.foldlM_cons, step]
      rfl
    subst split
    have slice1 : InSlice x1 := by
      refine slice.step inv (fun eq => ?_) turn le
      exact safe [] (pre ++ post) x₀ (by rw [eq]; rfl) rfl
    have safe1 : StartsSafe x1 (pre ++ post) := by
      intro pre' post' y split run
      refine safe (op :: pre') post' y ?_ (onward.trans run)
      rw [List.cons_append, split, List.cons_append]
    exact ih slice1 inv1 safe1 rfl (onward.symm.trans run)

/-- The current thread has a time slice between 1 and the largest quantum so far in every state of a run, and with
    preemption on and another thread ready runs for at most that many ticks, exactly when every `sched_start` of the run
    starts a thread with such a time slice. -/
theorem slices_bounded_iff (pos : 0 < s.rrQuantum) (ops : List SliceOp) :
    Throughout (fun x => InSlice x ∧ SwitchesInTime x) (schedInit s, s.rrQuantum) ops ↔
      StartsSafe (schedInit s, s.rrQuantum) ops := by
  have inv := schedInit_slicing pos
  constructor
  · intro kept pre post x split run n head
    have here := inv.run run
    have same : (schedStart x.1).rest.rrQuantum = x.1.rest.rrQuantum := congrArg State.rrQuantum schedStart_rest
    have largest : max x.2 (schedStart x.1).rrQuantum = x.2 := Int.max_eq_left (le_of_eq_of_le same here.le)
    have step : SliceOp.step x .schedStart = some (schedStart x.1, x.2) := by
      rw [← largest]
      rfl
    have through : (pre ++ [SliceOp.schedStart]).foldlM SliceOp.step (schedInit s, s.rrQuantum) =
        some (schedStart x.1, x.2) := by
      rw [List.foldlM_append, run]
      change ([SliceOp.schedStart].foldlM SliceOp.step x) = _
      rw [List.foldlM_cons, step]
      rfl
    have current : (schedStart x.1).schedCurrent = some n := by simp [schedStart, head]
    have slice : ((schedStart x.1).threads n).timeSlice = (x.1.threads n).timeSlice := by
      simp [schedStart, head, State.setState]
    rw [← slice]
    exact (kept (pre ++ [SliceOp.schedStart]) post _ (by rw [split, List.append_assoc]; rfl) through).1 n current
  · intro safe pre post x split run
    have none : InSlice (schedInit s, s.rrQuantum) := fun _ current => by cases current
    have slice := none.run inv safe pre post x split run
    exact ⟨slice, slice.switchesInTime (inv.run run)⟩

/-- A run without `sched_start`. -/
theorem slices_bounded_powerOn :
    Throughout (fun x => InSlice x ∧ SwitchesInTime x) (schedInit powerOn, powerOn.rrQuantum)
      [.threadCreate 1 0, .threadCreate 1 0, .schedYield, .schedTick, .setQuantum 3] := by
  refine (slices_bounded_iff (s := powerOn) (by decide) _).mpr fun pre post x split _ => ?_
  have mem : SliceOp.schedStart ∈ pre ++ .schedStart :: post := by simp
  rw [← split] at mem
  simp at mem

/-- A heap whose blocks hold a time slice of 1000 ticks. -/
def dirty : State := bootState (fun _ => { Thread.zero with timeSlice := 1000 }) (fun _ => false) 0 0

/-- The first thread started on that heap has 1000 ticks, with another one ready and a quantum of 5. -/
theorem started_unsliced : ∃ x,
    [.threadCreate 1 0, .threadCreate 1 0, .schedStart].foldlM SliceOp.step (schedInit dirty, dirty.rrQuantum) =
        some x ∧
      x.1.schedCurrent = some 2 ∧ x.1.readyQueue = some 0 ∧ (x.1.threads 2).timeSlice = 1000 ∧ x.2 = 5 ∧
      ¬ InSlice x := by
  refine ⟨_, rfl, rfl, rfl, rfl, rfl, fun slice => ?_⟩
  exact absurd (slice 2 rfl).2 (by decide)

end RetaOS.Sched
