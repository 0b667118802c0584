import RetaOS.Lib.Linked
import RetaOS.Lib.Runs
import Mathlib.Data.Set.Basic
import Mathlib.Order.BooleanAlgebra.Set
import Mathlib.Logic.Function.Basic

/-!
# The process list

The process part of `kernel/sched.c`: a list through `proc->next`, and `current_process`. `Tracked` says that the list
holds the processes that were added and not removed since, and that the current process is one of them.

`sched_remove_process` unlinks the first process and returns before it looks at `current_process`. So `Tracked` holds
throughout a run exactly when the run never removes the current process from the head of the list
(`processes_tracked_iff`).
-/

namespace RetaOS.Sched
open Lib

/-- The `next` fields of the processes, and the two static variables. -/
structure Processes where
  next : Nat → Option Nat
  processList : Option Nat
  currentProcess : Option Nat

namespace Processes

/-- What `sched_init` does to them. -/
def schedInit (s : Processes) : Processes := { s with processList := none, currentProcess := none }

/-- `sched_current_process`. -/
def schedCurrentProcess (s : Processes) : Option Nat := s.currentProcess

/-- `sched_add_process`. -/
def schedAddProcess (s : Processes) : Option Nat → Processes
  | none => s
  | some proc =>
    let s := { s with next := Function.update s.next proc s.processList, processList := some proc }
    if s.currentProcess = none then { s with currentProcess := some proc } else s

/-- One pass of the loop of `sched_remove_process`, over `prev`. -/
def prevBody (next : Nat → Option Nat) (proc prev : Nat) : Pass Nat Nat :=
  match next prev with
  | none => .done prev
  | some q => if q ≠ proc then .next q else .done prev

/-- `sched_remove_process`. -/
def schedRemoveProcess (s : Processes) : Option Nat → Option Processes
  | none => some s
  | some proc =>
    match s.processList with
    | none => some s
    | some head =>
      if head = proc then some { s with processList := s.next proc }
      else
        match loop (prevBody s.next proc) head with
        | none => none
        | some prev =>
          let s :=
            if s.next prev = some proc then { s with next := Function.update s.next prev (s.next proc) } else s
          some (if s.currentProcess = some proc then { s with currentProcess := s.processList } else s)

end Processes

/-- The calls, with `none` for `NULL`. -/
inductive ProcOp where
  | schedAddProcess (proc : Option Nat)
  | schedRemoveProcess (proc : Option Nat)

namespace ProcOp

/-- The state after a call; `none` when it never returns. -/
def exec (s : Processes) : ProcOp → Option Processes
  | schedAddProcess proc => some (s.schedAddProcess proc)
  | schedRemoveProcess proc => s.schedRemoveProcess proc

/-- The processes added and not removed after a call. -/
def listed (L : Set Nat) : ProcOp → Set Nat
  | schedAddProcess proc => L ∪ {p | proc = some p}
  | schedRemoveProcess proc => L \ {p | proc = some p}

/-- One call, over the state and the processes added and not removed. -/
def step (x : Processes × Set Nat) (op : ProcOp) : Option (Processes × Set Nat) :=
  (op.exec x.1).map fun s => (s, op.listed x.2)

/-- Only processes that are not in the list are added. -/
def New (x : Processes × Set Nat) : ProcOp → Prop
  | schedAddProcess proc => ∀ p, proc = some p → p ∉ x.2
  | schedRemoveProcess _ => True

/-- The first process is not removed while it is the current one. -/
def KeepsCurrent (x : Processes × Set Nat) : ProcOp → Prop
  | schedAddProcess _ => True
  | schedRemoveProcess proc => ∀ p, proc = some p → ¬ (x.1.processList = some p ∧ x.1.currentProcess = some p)

end ProcOp

/-- The list holds the processes added and not removed, each once, and the current process is one of them, if there is
    any. -/
structure Tracked (x : Processes × Set Nat) : Prop where
  list : ∃ l, Linked x.1.next x.1.processList l ∧ l.Nodup ∧ ∀ p, p ∈ l ↔ p ∈ x.2
  current : ∀ p, x.1.schedCurrentProcess = some p → p ∈ x.2
  idle : x.1.schedCurrentProcess = none → x.2 = ∅

open Processes

variable {s : Processes} {L : Set Nat} {l : List Nat} {proc head : Nat}

/-! ## Adding and removing. -/

lemma schedInit_tracked (s : Processes) : Tracked (s.schedInit, ∅) :=
  ⟨⟨[], .nil, List.nodup_nil, fun _ => iff_of_false List.not_mem_nil id⟩, nofun, fun _ => rfl⟩

/-- A new process goes to the head of the list. -/
lemma Tracked.add (tr : Tracked (s, L)) (new : proc ∉ L) : Tracked (s.schedAddProcess (some proc), L ∪ {proc}) := by
  obtain ⟨⟨l, linked, nodup, mem⟩, current, idle⟩ := tr
  have fresh : proc ∉ l := fun h => new ((mem proc).mp h)
  have cons : Linked (Function.update s.next proc s.processList) (some proc) (proc :: l) := by
    refine .cons ?_
    rw [Function.update_self]
    exact linked.congr fun q hq => Function.update_of_ne (ne_of_mem_of_not_mem hq fresh) ..
  have member (p : Nat) : p ∈ proc :: l ↔ p ∈ L ∪ {proc} := by
    rw [List.mem_cons, or_comm]
    exact or_congr_left (mem p)
  have list : ∃ l, Linked (Function.update s.next proc s.processList) (some proc) l ∧ l.Nodup ∧
      ∀ p, p ∈ l ↔ p ∈ L ∪ {proc} := ⟨proc :: l, cons, List.nodup_cons.mpr ⟨fresh, nodup⟩, member⟩
  unfold Processes.schedAddProcess
  dsimp only
  split
  case isTrue =>
    refine ⟨list, fun p hp => ?_, nofun⟩
    cases hp
    exact .inr rfl
  case isFalse busy => exact ⟨list, fun p hp => .inl (current p hp), fun none => absurd none busy⟩

/-- The loop ends at the process in front of the one to remove, or else at the last one. -/
lemma prev_spec (proc : Nat) (h : Linked s.next (some head) (head :: l)) :
    ∃ prev, loop (prevBody s.next proc) head = some prev ∧
      (proc ∉ l ∧ s.next prev = none ∨ ∃ l₁ l₂, head :: l = l₁ ++ prev :: proc :: l₂) := by
  induction l generalizing head with
  | nil =>
    cases h with
    | cons rest =>
      have last : s.next head = none := rest.start_eq
      refine ⟨head, loop_done ?_, .inl ⟨List.not_mem_nil, last⟩⟩
      rw [prevBody, last]
  | cons q l ih =>
    cases h with
    | cons rest =>
      have next : s.next head = some q := rest.start_eq
      by_cases found : q = proc
      · refine ⟨head, loop_done ?_, .inr ⟨[], l, by rw [found]; rfl⟩⟩
        rw [prevBody, next]
        exact if_neg (not_not_intro found)
      · rw [next] at rest
        obtain ⟨prev, run, result⟩ := ih rest
        have pass : prevBody s.next proc head = .next q := by
          rw [prevBody, next]
          exact if_pos found
        refine ⟨prev, (loop_next pass).trans run, ?_⟩
        obtain ⟨absent, last⟩ | ⟨l₁, l₂, split⟩ := result
        · exact .inl ⟨fun mem => (List.mem_cons.mp mem).elim (fun eq => found eq.symm) absent, last⟩
        · exact .inr ⟨head :: l₁, l₂, by rw [split]; rfl⟩

/-- A process removed from behind the first one, or not in the list. -/
lemma Tracked.removeInner (tr : Tracked (s, L)) (first : s.processList = some head) (ne : head ≠ proc) :
    ∃ s', s.schedRemoveProcess (some proc) = some s' ∧ Tracked (s', L \ {proc}) := by
  obtain ⟨⟨l, linked, nodup, mem⟩, current, idle⟩ := tr
  have start : some head = l.head? := first.symm.trans linked.start_eq
  obtain ⟨rest, rfl⟩ : ∃ rest, l = head :: rest := by
    cases l with
    | nil => cases start
    | cons q rest =>
      cases start
      exact ⟨rest, rfl⟩
  dsimp only [schedCurrentProcess] at linked mem current idle
  rw [first] at linked
  obtain ⟨prev, run, result⟩ := prev_spec proc linked
  rw [Processes.schedRemoveProcess, first]
  dsimp only
  rw [if_neg ne, run]
  refine ⟨_, rfl, ?_⟩
  have headMem : head ∈ L := (mem head).mp List.mem_cons_self
  obtain ⟨absent, last⟩ | ⟨l₁, l₂, split⟩ := result
  · -- nothing is removed, and the current process is another
    have out : proc ∉ L := fun h => (List.mem_cons.mp ((mem proc).mpr h)).elim (fun eq => ne eq.symm) absent
    rw [last, if_neg (Option.some_ne_none proc).symm, if_neg fun eq => out (current proc eq),
      Set.sdiff_singleton_eq_self out]
    exact ⟨⟨_, first ▸ linked, nodup, mem⟩, current, idle⟩
  · have next : s.next prev = some proc := by
      rw [split] at linked
      exact linked.next_eq
    rw [split] at linked nodup mem
    have spliced := linked.remove
    have member (p : Nat) : p ∈ l₁ ++ prev :: l₂ ↔ p ∈ L \ {proc} := by
      rw [List.append_cons] at nodup ⊢
      rw [mem_without nodup, ← List.append_cons, mem]
      rfl
    rw [next, if_pos rfl]
    have list : ∃ l, Linked (Function.update s.next prev (s.next proc)) (some head) l ∧ l.Nodup ∧
        ∀ p, p ∈ l ↔ p ∈ L \ {proc} := ⟨_, spliced, spliced.nodup, member⟩
    dsimp only
    split
    case isTrue =>
      refine ⟨list, fun p hp => ?_, fun none => ?_⟩
      · cases hp
        exact ⟨headMem, ne⟩
      · cases none
    case isFalse other =>
      refine ⟨list, fun p hp => ⟨current p hp, ?_⟩, fun none => ?_⟩
      · rintro rfl
        exact other hp
      · rw [idle none] at headMem
        cases headMem

/-- The first process is taken out of the list whoever is the current one. -/
lemma Tracked.removeFirst (tr : Tracked (s, L)) (first : s.processList = some proc) :
    ∃ s', s.schedRemoveProcess (some proc) = some s' ∧
      (Tracked (s', L \ {proc}) ↔ s.currentProcess ≠ some proc) := by
  obtain ⟨⟨l, linked, nodup, mem⟩, current, idle⟩ := tr
  dsimp only [schedCurrentProcess] at linked mem current idle
  rw [first] at linked
  refine ⟨{ s with processList := s.next proc }, ?_, ?_⟩
  · rw [Processes.schedRemoveProcess, first]
    exact if_pos rfl
  · constructor
    · intro tracked eq
      exact (tracked.current proc eq).2 rfl
    · intro other
      cases linked with
      | @cons _ l rest =>
        obtain ⟨out, nodup⟩ := List.nodup_cons.mp nodup
        refine ⟨⟨l, rest, nodup, fun p => ?_⟩, fun p hp => ⟨current p hp, ?_⟩, fun none => ?_⟩
        · constructor
          · intro h
            exact ⟨(mem p).mp (List.mem_cons_of_mem proc h), ne_of_mem_of_not_mem h out⟩
          · rintro ⟨h, ne⟩
            exact (List.mem_cons.mp ((mem p).mpr h)).resolve_left ne
        · rintro rfl
          exact other hp
        · have here : proc ∈ L := (mem proc).mp List.mem_cons_self
          rw [idle none] at here
          cases here

/-- A call that removes a process, which may not be in the list. -/
lemma Tracked.remove (proc : Nat) (tr : Tracked (s, L)) : ∃ s', s.schedRemoveProcess (some proc) = some s' ∧
    (Tracked (s', L \ {proc}) ↔ ¬ (s.processList = some proc ∧ s.currentProcess = some proc)) := by
  cases first : s.processList with
  | none =>
    have out : proc ∉ L := by
      obtain ⟨l, linked, -, mem⟩ := tr.list
      have empty : l.head? = none := linked.start_eq.symm.trans first
      rw [List.head?_eq_none_iff] at empty
      subst empty
      exact fun h => nomatch (mem proc).mpr h
    refine ⟨s, ?_, ?_⟩
    · rw [Processes.schedRemoveProcess, first]
    · rw [Set.sdiff_singleton_eq_self out]
      exact iff_of_true tr nofun
  | some head =>
    by_cases eq : head = proc
    · subst eq
      obtain ⟨s', run, iff⟩ := tr.removeFirst first
      exact ⟨s', run, iff.trans (not_congr (and_iff_right rfl).symm)⟩
    · obtain ⟨s', run, tr'⟩ := tr.removeInner first eq
      exact ⟨s', run, iff_of_true tr' fun h => eq (Option.some.inj h.1)⟩

/-! ## Runs. -/

/-- A call returns, and the list and the current process are in order after it exactly when it does not remove the
    current process from the head of the list. -/
theorem Tracked.step {x : Processes × Set Nat} {op : ProcOp} (tr : Tracked x) (new : op.New x) :
    ∃ x', op.step x = some x' ∧ (Tracked x' ↔ op.KeepsCurrent x) := by
  obtain ⟨s, L⟩ := x
  have add_none : L ∪ {p | (none : Option Nat) = some p} = L := Set.union_eq_left.mpr nofun
  have remove_none : L \ {p | (none : Option Nat) = some p} = L := Set.ext fun p => ⟨And.left, fun mem => ⟨mem, nofun⟩⟩
  have single (proc : Nat) : {p | some proc = some p} = ({proc} : Set Nat) :=
    Set.ext fun p => ⟨fun eq => (Option.some.inj eq).symm, fun eq => congrArg some eq.symm⟩
  cases op with
  | schedAddProcess proc =>
    refine ⟨_, rfl, iff_of_true ?_ trivial⟩
    cases proc with
    | none => rwa [ProcOp.listed, add_none]
    | some proc =>
      rw [ProcOp.listed, single]
      exact tr.add (new proc rfl)
  | schedRemoveProcess proc =>
    cases proc with
    | none =>
      refine ⟨_, rfl, iff_of_true ?_ nofun⟩
      rwa [ProcOp.listed, remove_none]
    | some proc =>
      obtain ⟨s', run, iff⟩ := tr.remove proc
      refine ⟨(s', L \ {proc}), ?_, ?_⟩
      · rw [ProcOp.step, ProcOp.exec, run, ProcOp.listed, single]
        rfl
      · rw [iff]
        constructor
        · intro other p eq
          cases eq
          exact other
        · exact fun keeps => keeps proc rfl

/-- In a run from `sched_init` on that adds only processes not in the list, every call returns and the list and the
    current process are in order throughout, exactly when no call removes the current process from the head of the
    list. -/
theorem processes_tracked_iff (s : Processes) (ops : List ProcOp)
    (new : Each ProcOp.step (fun x op => op.New x) (s.schedInit, ∅) ops) :
    Always ProcOp.step Tracked (s.schedInit, ∅) ops ↔
      Each ProcOp.step (fun x op => op.KeepsCurrent x) (s.schedInit, ∅) ops :=
  always_iff_each (schedInit_tracked s) (fun _ _ tr new => tr.step new) new

/-- No process in the list yet. -/
def noProcesses : Processes := ⟨fun _ => none, none, none⟩

/-- Two processes added, and the current one removed from behind the other. -/
theorem processes_tracked_two : Always ProcOp.step Tracked (noProcesses.schedInit, ∅)
    [.schedAddProcess (some 0), .schedAddProcess (some 1), .schedRemoveProcess (some 0)] := by
  refine (processes_tracked_iff noProcesses _ ?_).mpr ?_
  · simp only [each_cons, each_nil]
    refine ⟨fun p _ => Set.notMem_empty p, fun _ first => ⟨fun p hp => ?_, fun _ _ => ⟨trivial, fun _ _ => trivial⟩⟩⟩
    cases first
    cases hp
    rintro (old | eq)
    · exact Set.notMem_empty 1 old
    · cases Option.some.inj eq
  · simp only [each_cons, each_nil]
    refine ⟨trivial, fun _ first => ⟨trivial, fun _ second => ⟨fun p hp => ?_, fun _ _ => trivial⟩⟩⟩
    cases first
    cases second
    cases hp
    rintro ⟨⟨⟩, -⟩

/-- The only process stays the current one when it is removed. -/
theorem removed_current : ∃ x, [.schedAddProcess (some 0), .schedRemoveProcess (some 0)].foldlM ProcOp.step
    (noProcesses.schedInit, ∅) = some x ∧ x.1.processList = none ∧ x.1.schedCurrentProcess = some 0 ∧ 0 ∉ x.2 ∧
      ¬ Tracked x := by
  refine ⟨_, rfl, rfl, rfl, fun h => h.2 rfl, fun tracked => ?_⟩
  exact (tracked.current 0 rfl).2 rfl

end RetaOS.Sched
