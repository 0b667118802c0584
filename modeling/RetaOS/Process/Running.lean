import RetaOS.Process.Defs
import RetaOS.Lib.Runs

/-!
# The running process

`process_init` marks the first process as running and makes it the current one. No other function ever marks a process
so, and `process_switch` changes the current process without touching the states. `Running` is what holds until then:
the first process is the current one and the only one that runs. `Lost` holds ever after: the current process is not
marked as running. `oneRunning_iff` says which runs stay on the first side.
-/

namespace RetaOS.Process
open Lib

variable {s s' : State} {p q : Nat} {pcb : Pcb} {regs : Registers}

/-- The operations. -/
inductive Op where
  | create
  | exec (proc : Nat) (entry : UInt32)
  | block (proc : Option Nat)
  | unblock (proc : Option Nat)
  | exit (regs : Registers) (exitCode : UInt32)
  | schedule (regs : Registers)

/-- The state after an operation. -/
def step (s : State) : Op → Option State
  | .create => some (processCreate s).2
  | .exec proc entry => some (processExec s proc entry)
  | .block proc => some (processBlock s proc)
  | .unblock proc => some (processUnblock s proc)
  | .exit regs exitCode => processExit s regs exitCode
  | .schedule regs => processSchedule s regs

/-- `process_exit` is for processes other than init. -/
def Ok (s : State) : Op → Prop
  | .exit _ _ => ∀ p, processCurrent s = some p → (s.pcbs p).pid ≠ 1
  | _ => True

/-- Exactly one process is running, and it is the current one. -/
def OneRunning (s : State) : Prop :=
  ∃ p, processCurrent s = some p ∧ ∀ q, q ∈ s.processList ∧ (s.pcbs q).state = .running ↔ q = p

/-- The operations that leave it so: no other process gets the turn, and the current one is neither blocked nor
    loaded anew. -/
def Safe (s : State) : Op → Prop
  | .create => True
  | .exec proc _ => some proc ≠ processCurrent s
  | .block proc => proc = none ∨ proc ≠ processCurrent s
  | .unblock _ => True
  | .exit _ _ => False
  | .schedule _ => False

/-! ## Before the first switch. -/

/-- The first process runs, and is the current one. -/
structure Running (s : State) (p : Nat) : Prop where
  old : ∀ q ∈ s.processList, q < s.calls
  mem : p ∈ s.processList
  current : s.currentProcess = some p
  state : (s.pcbs p).state = .running
  only : ∀ q ∈ s.processList, (s.pcbs q).state = .running → q = p
  pid : (s.pcbs p).pid = 1

lemma Running.oneRunning (r : Running s p) : OneRunning s := by
  refine ⟨p, r.current, fun q => ⟨fun h => r.only q h.1 h.2, ?_⟩⟩
  rintro rfl
  exact ⟨r.mem, r.state⟩

/-- Writing to another process, which does not run afterwards. -/
lemma Running.set (r : Running s p) (ne : q ≠ p) (idle : pcb.state ≠ .running) : Running (s.set q pcb) p := by
  have same : (s.set q pcb).pcbs p = s.pcbs p := State.pcbs_set_ne ne.symm
  refine ⟨r.old, r.mem, r.current, ?_, fun k mem runs => ?_, ?_⟩
  · rw [same]
    exact r.state
  · by_cases eq : k = q
    · subst eq
      rw [State.pcbs_set] at runs
      exact absurd runs idle
    · rw [State.pcbs_set_ne eq] at runs
      exact r.only k mem runs
  · rw [same]
    exact r.pid

/-- `process_create` takes the next block, and puts it on the list unless it fails. -/
lemma processCreate_spec (s : State) :
    (processCreate s).2.calls = s.calls + 1 ∧ (processCreate s).2.currentProcess = s.currentProcess ∧
      (∀ q, q ≠ s.calls → (processCreate s).2.pcbs q = s.pcbs q) ∧
      ((processCreate s).2.processList = s.processList ∨
        (processCreate s).2.processList = s.calls :: s.processList ∧
          ((processCreate s).2.pcbs s.calls).state = .new) := by
  cases full : s.oom s.calls with
  | true =>
    simp only [processCreate, State.kmalloc, full, if_true]
    exact ⟨trivial, trivial, fun _ _ => trivial, .inl trivial⟩
  | false =>
    simp only [processCreate, State.kmalloc, full, Bool.false_eq_true, if_false]
    split
    · exact ⟨rfl, rfl, fun q ne => State.pcbs_set_ne ne, .inl rfl⟩
    · refine ⟨rfl, rfl, fun q ne => State.pcbs_set_ne ne, .inr ⟨rfl, ?_⟩⟩
      exact congrArg Pcb.state State.pcbs_set

/-- The members of the list after `process_create`. -/
lemma processCreate_list (old : ∀ q ∈ s.processList, q < s.calls) :
    (∀ q ∈ (processCreate s).2.processList, q < (processCreate s).2.calls) ∧
      ∀ q ∈ (processCreate s).2.processList, ((processCreate s).2.pcbs q).state = .running →
        q ∈ s.processList ∧ (s.pcbs q).state = .running := by
  obtain ⟨calls, -, same, list⟩ := processCreate_spec s
  rw [calls]
  have kept : ∀ q ∈ s.processList, (processCreate s).2.pcbs q = s.pcbs q :=
    fun q mem => same q (Nat.ne_of_lt (old q mem))
  cases list with
  | inl list =>
    rw [list]
    refine ⟨fun q mem => Nat.lt_succ_of_lt (old q mem), fun q mem runs => ⟨mem, ?_⟩⟩
    rw [← kept q mem]
    exact runs
  | inr list =>
    obtain ⟨list, idle⟩ := list
    rw [list]
    refine ⟨fun q mem => ?_, fun q mem runs => ?_⟩
    · cases List.mem_cons.mp mem with
      | inl eq => exact Nat.lt_succ_of_le (Nat.le_of_eq eq)
      | inr mem => exact Nat.lt_succ_of_lt (old q mem)
    · cases List.mem_cons.mp mem with
      | inl eq =>
        rw [eq, idle] at runs
        cases runs
      | inr mem =>
        rw [kept q mem] at runs
        exact ⟨mem, runs⟩

lemma Running.create (r : Running s p) : Running (processCreate s).2 p := by
  obtain ⟨calls, current, same, list⟩ := processCreate_spec s
  obtain ⟨old, only⟩ := processCreate_list r.old
  have kept : (processCreate s).2.pcbs p = s.pcbs p := same p (Nat.ne_of_lt (r.old p r.mem))
  refine ⟨old, ?_, current.trans r.current, ?_, fun q mem runs => ?_, ?_⟩
  · cases list with
    | inl list =>
      rw [list]
      exact r.mem
    | inr list =>
      rw [list.1]
      exact List.mem_cons_of_mem _ r.mem
  · rw [kept]
    exact r.state
  · obtain ⟨mem, runs⟩ := only q mem runs
    exact r.only q mem runs
  · rw [kept]
    exact r.pid

/-- A safe operation. -/
lemma Running.keep {op : Op} (r : Running s p) (safe : Safe s op) (next : step s op = some s') : Running s' p := by
  cases op with
  | create =>
    cases next
    exact r.create
  | exec proc entry =>
    cases next
    have ne : proc ≠ p := fun eq => safe ((congrArg some eq).trans r.current.symm)
    refine r.set ne ?_
    intro runs
    cases runs
  | block proc =>
    cases next
    cases proc with
    | none => exact r
    | some q =>
      have ne : q ≠ p := by
        intro eq
        cases safe with
        | inl none => cases none
        | inr other => exact other ((congrArg some eq).trans r.current.symm)
      rw [processBlock]
      split
      · exact r.set ne (by simp)
      · exact r
  | unblock proc =>
    cases next
    cases proc with
    | none => exact r
    | some q =>
      rw [processUnblock]
      split
      · case isTrue blocked =>
        have ne : q ≠ p := by
          rintro rfl
          rw [r.state] at blocked
          cases blocked
        exact r.set ne (by simp)
      · exact r
  | exit regs exitCode => exact absurd safe id
  | schedule regs => exact absurd safe id

/-! ## From the first switch on. -/

/-- The current process is not marked as running. -/
structure Lost (s : State) : Prop where
  old : ∀ q ∈ s.processList, q < s.calls
  notRunning : ∀ q ∈ s.processList, (s.pcbs q).state = .running → s.currentProcess ≠ some q

lemma Lost.not_oneRunning (l : Lost s) : ¬ OneRunning s := by
  intro ⟨p, current, only⟩
  obtain ⟨mem, runs⟩ := (only p).mpr rfl
  exact l.notRunning p mem runs current

/-- Writing a process that does not run afterwards, or did before. -/
lemma Lost.set (l : Lost s) (idle : pcb.state = .running → (s.pcbs q).state = .running) : Lost (s.set q pcb) := by
  refine ⟨l.old, fun k mem runs => ?_⟩
  by_cases eq : k = q
  · subst eq
    rw [State.pcbs_set] at runs
    exact l.notRunning k mem (idle runs)
  · rw [State.pcbs_set_ne eq] at runs
    exact l.notRunning k mem runs

lemma Lost.create (l : Lost s) : Lost (processCreate s).2 := by
  obtain ⟨-, current, -, -⟩ := processCreate_spec s
  obtain ⟨old, only⟩ := processCreate_list l.old
  refine ⟨old, fun q mem runs => ?_⟩
  obtain ⟨mem, runs⟩ := only q mem runs
  rw [current]
  exact l.notRunning q mem runs

/-- Marking the current process as anything else. -/
lemma Running.lost (r : Running s p) (idle : pcb.state ≠ .running) : Lost (s.set p pcb) := by
  refine ⟨r.old, fun k mem runs => ?_⟩
  by_cases eq : k = p
  · subst eq
    rw [State.pcbs_set] at runs
    exact absurd runs idle
  · rw [State.pcbs_set_ne eq] at runs
    exact absurd (r.only k mem runs) eq

/-- `process_schedule` gives the turn to a process that is ready, and stays so. -/
lemma processSchedule_lost (old : ∀ q ∈ s.processList, q < s.calls) (next : processSchedule s regs = some s') :
    Lost s' := by
  rw [processSchedule] at next
  split at next
  · cases next
  · case h_2 n found =>
    cases next
    have test := List.find?_some found
    have ready : (s.pcbs n).state = .ready := of_decide_eq_true test
    have states : ∀ q, ((processSwitch s regs n).pcbs q).state = (s.pcbs q).state := by
      intro q
      rw [processSwitch]
      cases s.currentProcess with
      | none => rfl
      | some c =>
        by_cases eq : q = c
        · subst eq
          show ((s.set q (saveContext regs (s.pcbs q))).pcbs q).state = _
          rw [State.pcbs_set]
          rfl
        · exact congrArg Pcb.state (State.pcbs_set_ne eq)
    have list : (processSwitch s regs n).processList = s.processList ∧ (processSwitch s regs n).calls = s.calls := by
      rw [processSwitch]
      cases s.currentProcess with
      | none => exact ⟨rfl, rfl⟩
      | some c => exact ⟨rfl, rfl⟩
    refine ⟨?_, fun q _ runs current => ?_⟩
    · rw [list.1, list.2]
      exact old
    · cases current
      rw [states, ready] at runs
      cases runs

/-- The walk of `process_exit` leaves the list and the number of calls alone. -/
lemma reparent_frame (pid : UInt32) (ps : List Nat) (s : State) :
    (ps.foldl (reparent pid) s).processList = s.processList ∧ (ps.foldl (reparent pid) s).calls = s.calls := by
  induction ps generalizing s with
  | nil => exact ⟨rfl, rfl⟩
  | cons p ps ih =>
    obtain ⟨list, calls⟩ := ih (reparent pid s p)
    have one : (reparent pid s p).processList = s.processList ∧ (reparent pid s p).calls = s.calls := by
      rw [reparent]
      split
      · exact ⟨rfl, rfl⟩
      · exact ⟨rfl, rfl⟩
    exact ⟨list.trans one.1, calls.trans one.2⟩

/-- `process_exit` ends in `process_schedule`. -/
lemma processExit_lost {exitCode : UInt32} (l : Lost s) (next : processExit s regs exitCode = some s') : Lost s' := by
  rw [processExit] at next
  split at next
  · cases next
    exact l
  · case h_2 proc current =>
    dsimp only at next
    split at next
    · cases next
    · refine processSchedule_lost ?_ next
      obtain ⟨list, calls⟩ := reparent_frame
        ((s.set proc { s.pcbs proc with exitCode, state := .terminated }).pcbs proc).pid s.processList
        (s.set proc { s.pcbs proc with exitCode, state := .terminated })
      intro q mem
      refine Nat.lt_of_lt_of_eq (l.old q ?_) calls.symm
      exact Eq.mp (congrArg (q ∈ ·) list) mem

/-- Any operation. -/
lemma Lost.keep {op : Op} (l : Lost s) (next : step s op = some s') : Lost s' := by
  cases op with
  | create =>
    cases next
    exact l.create
  | exec proc entry =>
    cases next
    refine l.set ?_
    intro runs
    cases runs
  | block proc =>
    cases next
    cases proc with
    | none => exact l
    | some q =>
      rw [processBlock]
      split
      · exact l.set (by simp)
      · exact l
  | unblock proc =>
    cases next
    cases proc with
    | none => exact l
    | some q =>
      rw [processUnblock]
      split
      · exact l.set (by simp)
      · exact l
  | exit regs exitCode => exact processExit_lost l next
  | schedule regs => exact processSchedule_lost l.old next

/-- An operation that is not safe ends it. -/
lemma Running.leave {op : Op} (r : Running s p) (ok : Ok s op) (unsafe_ : ¬ Safe s op) (next : step s op = some s') :
    Lost s' := by
  cases op with
  | create => exact absurd trivial unsafe_
  | exec proc entry =>
    cases next
    have eq : proc = p := Option.some.inj ((Decidable.not_not.mp unsafe_).trans r.current)
    subst eq
    refine r.lost ?_
    intro runs
    cases runs
  | block proc =>
    cases next
    have eq : proc = some p := by
      by_contra ne
      exact unsafe_ (.inr fun same => ne (same.trans r.current))
    subst eq
    rw [processBlock, if_pos (.inl r.state)]
    exact r.lost (by simp)
  | unblock proc => exact absurd trivial unsafe_
  | exit regs exitCode => exact absurd r.pid (ok p r.current)
  | schedule regs => exact processSchedule_lost r.old next

/-! ## Runs. -/

/-- `process_init` with a block for the first process. -/
lemma processInit_running {pcbs : Nat → Pcb} {oom : Nat → Bool} (kernelDirectory : UInt32) (ok : oom 0 = false) :
    Running (processInit (boot pcbs oom kernelDirectory)) 0 := by
  have list : (processInit (boot pcbs oom kernelDirectory)).processList = [0] ∧
      (processInit (boot pcbs oom kernelDirectory)).calls = 1 ∧
      (processInit (boot pcbs oom kernelDirectory)).currentProcess = some 0 ∧
      (processInit (boot pcbs oom kernelDirectory)).pcbs 0 =
        { Pcb.zero with pid := 1, state := .running, pageDir := kernelDirectory } := by
    simp only [processInit, State.kmalloc, boot, ok, Bool.false_eq_true, if_false]
    exact ⟨trivial, rfl, trivial, State.pcbs_set⟩
  obtain ⟨list, calls, current, pcb⟩ := list
  refine ⟨fun q mem => ?_, ?_, current, ?_, fun q mem _ => ?_, ?_⟩
  · rw [list] at mem
    rw [calls, List.mem_singleton.mp mem]
    exact Nat.one_pos
  · rw [list]
    exact List.mem_singleton_self 0
  · rw [pcb]
  · rw [list] at mem
    exact List.mem_singleton.mp mem
  · rw [pcb]

/-- `process_init` without one. -/
lemma processInit_lost {pcbs : Nat → Pcb} {oom : Nat → Bool} (kernelDirectory : UInt32) (full : oom 0 = true) :
    Lost (processInit (boot pcbs oom kernelDirectory)) := by
  have list : (processInit (boot pcbs oom kernelDirectory)).processList = [] := by
    simp only [processInit, State.kmalloc, boot, full, if_true]
  refine ⟨fun q mem => ?_, fun q mem => ?_⟩
  · rw [list] at mem
    cases mem
  · rw [list] at mem
    cases mem

/-- In a state reached from `process_init` exactly one process runs and it is the current one just when `process_init`
    had memory for it and the way there was safe: no other process got the turn, and the current process was neither
    blocked nor loaded anew. -/
theorem oneRunning_iff {pcbs : Nat → Pcb} {oom : Nat → Bool} {kernelDirectory : UInt32}
    (run : Runs step Ok (processInit (boot pcbs oom kernelDirectory)) s) :
    OneRunning s ↔ oom 0 = false ∧
      Runs step (fun s op => Ok s op ∧ Safe s op) (processInit (boot pcbs oom kernelDirectory)) s := by
  cases full : oom 0 with
  | true =>
    have lost : Lost s := run.invariant (processInit_lost kernelDirectory full) fun _ _ _ l _ next => l.keep next
    exact ⟨fun one => absurd one lost.not_oneRunning, fun ⟨enough, _⟩ => by cases enough⟩
  | false =>
    have iff : OneRunning s ↔
        Runs step (fun s op => Ok s op ∧ Safe s op) (processInit (boot pcbs oom kernelDirectory)) s :=
      Runs.iff_safe (I := fun s => Running s 0) (B := Lost) (P := OneRunning)
      (processInit_running kernelDirectory full) (fun _ _ _ r _ safe next => r.keep safe next)
      (fun _ _ _ r ok unsafe_ next => r.leave ok unsafe_ next) (fun _ _ _ l _ next => l.keep next)
      (fun _ r => r.oneRunning) (fun _ l => l.not_oneRunning) run
    rw [iff]
    exact ⟨fun safeRun => ⟨rfl, safeRun⟩, fun h => h.2⟩

/-- A machine with memory for every process. -/
abbrev booted : State := processInit (boot (fun _ => .zero) (fun _ => false) 0x101000)

/-- A second process has been created and loaded while the first one runs. -/
def loaded : State := processExec (processCreate booted).2 1 0x400000

lemma loaded_safe : Runs step (fun s op => Ok s op ∧ Safe s op) booted loaded := by
  have created : Runs step (fun s op => Ok s op ∧ Safe s op) booted (processCreate booted).2 :=
    Runs.refl.step (show Ok booted .create ∧ Safe booted .create from ⟨trivial, trivial⟩) rfl
  have other : Safe (processCreate booted).2 (.exec 1 0x400000) := by
    show some 1 ≠ some 0
    decide
  exact created.step (show Ok (processCreate booted).2 (.exec 1 0x400000) ∧ _ from ⟨trivial, other⟩) rfl

theorem oneRunning_loaded : OneRunning loaded :=
  (oneRunning_iff (loaded_safe.mono fun _ _ h => h.1)).mpr ⟨rfl, loaded_safe⟩

/-- The registers of the first process. -/
def someRegisters : Registers := ⟨0x202, 0x1F0000, 0x10, 0x10, 0x10, 0x10⟩

/-- The second process gets the turn, and the first stays marked as running. -/
theorem not_oneRunning : ∃ s, Runs step Ok booted s ∧ ¬ OneRunning s := by
  have next : processSchedule loaded someRegisters = some (processSwitch loaded someRegisters 1) := rfl
  have old : ∀ q ∈ loaded.processList, q < loaded.calls := by
    show ∀ q ∈ [1, 0], q < 2
    decide
  refine ⟨_, (loaded_safe.mono fun _ _ h => h.1).step (show Ok loaded (.schedule someRegisters) from trivial) next, ?_⟩
  exact (processSchedule_lost old next).not_oneRunning

end RetaOS.Process
