import RetaOS.Process.Running
import RetaOS.Lib.Word
import Mathlib.Data.List.Pairwise
import Mathlib.Logic.Relation

/-!
# The family of processes

Parents and children of `kernel/process.c`, with `process_find` and the system calls `fork`, `getpid` and `getppid` of
`kernel/syscalls.c`. A parent is named by its number. The processes form a tree that is rooted at init, the process 0
(`Family`): a process that ends leaves its children to init, and the current process has not ended, so that every child
has a parent that lives. The invariant `Kin` counts the processes without a bound; their numbers are the counts modulo
`2 ^ 32`, and name them as long as fewer have been created (`processes_family`).
-/

namespace RetaOS.Process
open Lib

/-! ## Functions. -/

/-- `process_find`. -/
def processFind (s : State) (pid : UInt32) : Option Nat := s.processList.find? fun p => (s.pcbs p).pid = pid

/-- `sys_fork`. -/
def sysFork (s : State) : Int32 × State :=
  match processCreate s with
  | (none, s) => (-1, s)
  | (some child, s) => ((s.pcbs child).pid.toInt32, s)

/-- `sys_getpid`. -/
def sysGetpid (s : State) : Int32 :=
  match processCurrent s with
  | none => -1
  | some current => (s.pcbs current).pid.toInt32

/-- `sys_getppid`. -/
def sysGetppid (s : State) : Int32 :=
  match processCurrent s with
  | none => -1
  | some current =>
    match processFind s (s.pcbs current).parentPid with
    | none => 0
    | some parent => (s.pcbs parent).pid.toInt32

/-! ## What holds. -/

/-- Init does not exit, and a process that has ended is not loaded anew. -/
def Lawful (s : State) : Op → Prop
  | .exec proc _ => (s.pcbs proc).state ≠ .terminated
  | op => Ok s op

/-- The parent of `p`, as `process_find` finds it, is `q`. -/
def Child (s : State) (p q : Nat) : Prop := processFind s (s.pcbs p).parentPid = some q

/-- The processes are a tree under init, in which whoever has children lives. -/
structure Family (s : State) : Prop where
  found : ∀ p ∈ s.processList, processFind s (s.pcbs p).pid = some p
  parent : ∀ p ∈ s.processList, p ≠ 0 → ∃ q ∈ s.processList, Child s p q ∧ (s.pcbs q).state ≠ .terminated
  rooted : ∀ p ∈ s.processList, Relation.ReflTransGen (Child s) p 0
  current : ∃ c ∈ s.processList, processCurrent s = some c ∧ (s.pcbs c).state ≠ .terminated

/-- The system calls of the current process: its number, that of its parent, and a child with a number of its own. -/
structure Answers (s : State) : Prop where
  getpid : ∀ c, processCurrent s = some c → sysGetpid s = (s.pcbs c).pid.toInt32
  getppid : ∀ c, processCurrent s = some c → c = 0 ∧ sysGetppid s = 0 ∨
    c ≠ 0 ∧ ∃ q ∈ s.processList, Child s c q ∧ sysGetppid s = (s.pcbs q).pid.toInt32
  fork : ∀ c, processCurrent s = some c → (sysFork s).1 = -1 ∧ (sysFork s).2.processList = s.processList ∨
    ∃ child, (sysFork s).2.processList = child :: s.processList ∧ Child (sysFork s).2 child c ∧
      processFind s ((sysFork s).2.pcbs child).pid = none ∧
      (sysFork s).1 = ((sysFork s).2.pcbs child).pid.toInt32

/-- The processes with their counts `num`, of which `k` have been given out. -/
structure Kin (s : State) (num : Nat → Nat) (k : Nat) : Prop where
  old : ∀ q ∈ s.processList, q < s.calls
  num_pos : ∀ q ∈ s.processList, 1 ≤ num q
  num_le : ∀ q ∈ s.processList, num q ≤ k
  num_inj : ∀ q ∈ s.processList, ∀ r ∈ s.processList, num q = num r → q = r
  pid : ∀ q ∈ s.processList, (s.pcbs q).pid = UInt32.ofNat (num q)
  next : s.nextPid = UInt32.ofNat (k + 1)
  made : k ≤ s.calls
  root : 0 ∈ s.processList
  num_root : num 0 = 1
  root_lives : (s.pcbs 0).state ≠ .terminated
  root_parent : k < 2 ^ 32 → (s.pcbs 0).parentPid = 0
  parent : ∀ q ∈ s.processList, q ≠ 0 → ∃ r ∈ s.processList, (s.pcbs q).parentPid = (s.pcbs r).pid ∧
    num r < num q ∧ (s.pcbs r).state ≠ .terminated
  current : ∃ c ∈ s.processList, processCurrent s = some c ∧ (s.pcbs c).state ≠ .terminated

variable {s s' : State} {num : Nat → Nat} {k n p q c : Nat} {pcb : Pcb} {regs : Registers}

/-! ## From the invariant to the family. -/

/-- Few enough numbers are different ones. -/
lemma Kin.pid_inj (kin : Kin s num k) (few : k < 2 ^ 32) (hp : p ∈ s.processList) (hq : q ∈ s.processList)
    (eq : (s.pcbs p).pid = (s.pcbs q).pid) : p = q := by
  have lp := kin.num_le p hp
  have lq := kin.num_le q hq
  refine kin.num_inj p hp q hq ?_
  rw [kin.pid p hp, kin.pid q hq] at eq
  have eq := congrArg UInt32.toNat eq
  rwa [toNat_ofNat_lt (by omega), toNat_ofNat_lt (by omega)] at eq

/-- `process_find` finds a process by its number. -/
lemma Kin.found (kin : Kin s num k) (few : k < 2 ^ 32) (mem : p ∈ s.processList) :
    processFind s (s.pcbs p).pid = some p := by
  rw [processFind]
  cases found : s.processList.find? fun q => (s.pcbs q).pid = (s.pcbs p).pid with
  | none =>
    have none := List.find?_eq_none.mp found p mem
    exact absurd (decide_eq_true rfl) none
  | some q =>
    have same := List.find?_some found
    rw [kin.pid_inj few (List.mem_of_find?_eq_some found) mem (of_decide_eq_true same)]

lemma Kin.family (kin : Kin s num k) (few : k < 2 ^ 32) : Family s := by
  have parent (p : Nat) (mem : p ∈ s.processList) (ne : p ≠ 0) :
      ∃ q ∈ s.processList, Child s p q ∧ num q < num p ∧ (s.pcbs q).state ≠ .terminated := by
    obtain ⟨q, memq, eq, lt, lives⟩ := kin.parent p mem ne
    refine ⟨q, memq, ?_, lt, lives⟩
    rw [Child, eq]
    exact kin.found few memq
  refine ⟨fun p mem => kin.found few mem, fun p mem ne => ?_, fun p mem => ?_, kin.current⟩
  · obtain ⟨q, memq, child, -, lives⟩ := parent p mem ne
    exact ⟨q, memq, child, lives⟩
  · -- parents are older than their children
    induction n : num p using Nat.strong_induction_on generalizing p with
    | _ n ih =>
      by_cases init : p = 0
      · rw [init]
      · obtain ⟨q, memq, child, lt, -⟩ := parent p mem init
        subst n
        exact .head child (ih (num q) lt q memq rfl)

/-! ## One step. -/

/-- The processes of the list are as before, but for who is current: none is new and none has ended. -/
structure Alike (s s' : State) : Prop where
  list : s'.processList = s.processList
  pid : ∀ q ∈ s.processList, (s'.pcbs q).pid = (s.pcbs q).pid
  parent : ∀ q ∈ s.processList, (s'.pcbs q).parentPid = (s.pcbs q).parentPid
  ended : ∀ q ∈ s.processList, (s'.pcbs q).state = .terminated ↔ (s.pcbs q).state = .terminated

/-- No number has been given out either, and the processes beside the list are as before. -/
structure Same (s s' : State) : Prop where
  list : s'.processList = s.processList
  calls : s'.calls = s.calls
  next : s'.nextPid = s.nextPid
  pid : ∀ q, (s'.pcbs q).pid = (s.pcbs q).pid
  parent : ∀ q, (s'.pcbs q).parentPid = (s.pcbs q).parentPid
  ended : ∀ q, (s'.pcbs q).state = .terminated ↔ (s.pcbs q).state = .terminated

protected lemma Same.refl : Same s s := ⟨rfl, rfl, rfl, fun _ => rfl, fun _ => rfl, fun _ => Iff.rfl⟩

/-- A process that is written and keeps its place in the family. -/
lemma same_set (pid : pcb.pid = (s.pcbs q).pid) (parent : pcb.parentPid = (s.pcbs q).parentPid)
    (ended : pcb.state = .terminated ↔ (s.pcbs q).state = .terminated) : Same s (s.set q pcb) := by
  have at_ (r : Nat) : (s.set q pcb).pcbs r = pcb ∧ r = q ∨ (s.set q pcb).pcbs r = s.pcbs r := by
    by_cases eq : r = q
    · subst eq
      exact .inl ⟨State.pcbs_set, rfl⟩
    · exact .inr (State.pcbs_set_ne eq)
  refine ⟨rfl, rfl, rfl, fun r => ?_, fun r => ?_, fun r => ?_⟩
  · obtain ⟨here, rfl⟩ | other := at_ r
    · rw [here, pid]
    · rw [other]
  · obtain ⟨here, rfl⟩ | other := at_ r
    · rw [here, parent]
    · rw [other]
  · obtain ⟨here, rfl⟩ | other := at_ r
    · rw [here, ended]
    · rw [other]

/-- The family does not depend on anything else; numbers may have been given out. -/
lemma Kin.alike (kin : Kin s num k) (same : Alike s s') (more : k ≤ n) (calls : s.calls ≤ s'.calls)
    (made : n ≤ s'.calls) (next : s'.nextPid = UInt32.ofNat (n + 1))
    (current : ∃ c ∈ s.processList, processCurrent s' = some c ∧ (s.pcbs c).state ≠ .terminated) : Kin s' num n := by
  have lives (q : Nat) (mem : q ∈ s.processList) (h : (s.pcbs q).state ≠ .terminated) :
      (s'.pcbs q).state ≠ .terminated := fun ended => h ((same.ended q mem).mp ended)
  refine ⟨?_, ?_, ?_, ?_, ?_, next, made, ?_, kin.num_root, lives 0 kin.root kin.root_lives, ?_, ?_, ?_⟩
  · intro q mem
    rw [same.list] at mem
    exact Nat.lt_of_lt_of_le (kin.old q mem) calls
  · rw [same.list]
    exact kin.num_pos
  · intro q mem
    rw [same.list] at mem
    exact (kin.num_le q mem).trans more
  · rw [same.list]
    exact kin.num_inj
  · intro q mem
    rw [same.list] at mem
    rw [same.pid q mem, kin.pid q mem]
  · rw [same.list]
    exact kin.root
  · intro few
    rw [same.parent 0 kin.root]
    exact kin.root_parent (by omega)
  · intro q mem ne
    rw [same.list] at mem ⊢
    obtain ⟨r, memr, eq, lt, alive⟩ := kin.parent q mem ne
    exact ⟨r, memr, by rw [same.parent q mem, same.pid r memr, eq], lt, lives r memr alive⟩
  · obtain ⟨c, mem, eq, alive⟩ := current
    rw [same.list]
    exact ⟨c, mem, eq, lives c mem alive⟩

lemma Kin.same (kin : Kin s num k) (same : Same s s')
    (current : ∃ c ∈ s.processList, processCurrent s' = some c ∧ (s.pcbs c).state ≠ .terminated) : Kin s' num k :=
  kin.alike ⟨same.list, fun q _ => same.pid q, fun q _ => same.parent q, fun q _ => same.ended q⟩ le_rfl
    same.calls.ge (kin.made.trans_eq same.calls.symm) (same.next.trans kin.next) current

/-- `process_schedule` gives the turn to a process that is ready. -/
lemma processSchedule_spec (next : processSchedule s regs = some s') :
    Same s s' ∧ ∃ n ∈ s.processList, processCurrent s' = some n ∧ (s.pcbs n).state = .ready := by
  rw [processSchedule] at next
  cases found : s.processList.find? fun p => (s.pcbs p).state = .ready with
  | none =>
    rw [found] at next
    cases next
  | some n =>
    rw [found] at next
    cases next
    have ready := List.find?_some found
    refine ⟨?_, n, List.mem_of_find?_eq_some found, rfl, of_decide_eq_true ready⟩
    rw [processSwitch]
    cases s.currentProcess with
    | none => exact { Same.refl with }
    | some c =>
      have saved : Same s (s.set c (saveContext regs (s.pcbs c))) := same_set rfl rfl Iff.rfl
      exact { saved with }

/-- The walk of `process_exit` makes the children of a process those of init. -/
lemma reparent_spec (pid : UInt32) (ps : List Nat) (s : State) :
    (ps.foldl (reparent pid) s).processList = s.processList ∧ (ps.foldl (reparent pid) s).calls = s.calls ∧
      (ps.foldl (reparent pid) s).nextPid = s.nextPid ∧
      ∀ q, (ps.foldl (reparent pid) s).pcbs q =
        if q ∈ ps ∧ (s.pcbs q).parentPid = pid then { s.pcbs q with parentPid := 1 } else s.pcbs q := by
  induction ps generalizing s with
  | nil => exact ⟨rfl, rfl, rfl, fun q => by simp⟩
  | cons p ps ih =>
    obtain ⟨list, calls, next, pcbs⟩ := ih (reparent pid s p)
    have one : (reparent pid s p).processList = s.processList ∧ (reparent pid s p).calls = s.calls ∧
        (reparent pid s p).nextPid = s.nextPid := by
      rw [reparent]
      split_ifs <;> exact ⟨rfl, rfl, rfl⟩
    refine ⟨list.trans one.1, calls.trans one.2.1, next.trans one.2.2, fun q => ?_⟩
    rw [List.foldl_cons, pcbs]
    by_cases eq : q = p
    · subst eq
      by_cases child : (s.pcbs q).parentPid = pid
      · have here : (reparent pid s q).pcbs q = { s.pcbs q with parentPid := 1 } := by
          rw [reparent, if_pos child, State.pcbs_set]
        rw [here]
        dsimp only
        rw [ite_self, if_pos ⟨List.mem_cons_self, child⟩]
      · have here : (reparent pid s q).pcbs q = s.pcbs q := by rw [reparent, if_neg child]
        rw [here, if_neg fun h => child h.2, if_neg fun h => child h.2]
    · have here : (reparent pid s p).pcbs q = s.pcbs q := by
        rw [reparent]
        split_ifs
        · exact State.pcbs_set_ne eq
        · rfl
      simp only [here, List.mem_cons, eq, false_or]

/-- What `process_exit` leaves, when it comes to another process: the children are those of init. -/
structure Exited (s : State) (proc : Nat) (s' : State) : Prop where
  list : s'.processList = s.processList
  calls : s'.calls = s.calls
  next : s'.nextPid = s.nextPid
  pid : ∀ q, (s'.pcbs q).pid = (s.pcbs q).pid
  parent : ∀ q ∈ s.processList, (s'.pcbs q).parentPid =
    if (s.pcbs q).parentPid = (s.pcbs proc).pid then 1 else (s.pcbs q).parentPid
  ended : ∀ q, (s'.pcbs q).state = .terminated ↔ q = proc ∨ (s.pcbs q).state = .terminated
  current : ∃ n ∈ s.processList, processCurrent s' = some n ∧ n ≠ proc ∧ (s.pcbs n).state ≠ .terminated

lemma processExit_spec {exitCode : UInt32} (current : processCurrent s = some p)
    (next : processExit s regs exitCode = some s') : (s.pcbs p).pid ≠ 1 ∧ Exited s p s' := by
  rw [processExit, current] at next
  dsimp only at next
  generalize marked : s.set p { s.pcbs p with exitCode, state := .terminated } = s₁ at next
  obtain ⟨list, calls, nextPid, pcbs⟩ := reparent_spec (s₁.pcbs p).pid s₁.processList s₁
  generalize walked : s₁.processList.foldl (reparent (s₁.pcbs p).pid) s₁ = s₂ at next list calls nextPid pcbs
  have here : s₁.pcbs p = { s.pcbs p with exitCode, state := .terminated } := by rw [← marked, State.pcbs_set]
  have other (q : Nat) (ne : q ≠ p) : s₁.pcbs q = s.pcbs q := by rw [← marked, State.pcbs_set_ne ne]
  have first : s₁.processList = s.processList ∧ s₁.calls = s.calls ∧ s₁.nextPid = s.nextPid := by
    rw [← marked]
    exact ⟨rfl, rfl, rfl⟩
  have same (q : Nat) : (s₁.pcbs q).pid = (s.pcbs q).pid ∧ (s₁.pcbs q).parentPid = (s.pcbs q).parentPid ∧
      ((s₁.pcbs q).state = .terminated ↔ q = p ∨ (s.pcbs q).state = .terminated) := by
    by_cases eq : q = p
    · rw [eq, here]
      exact ⟨rfl, rfl, iff_of_true rfl (.inl rfl)⟩
    · rw [other q eq]
      exact ⟨rfl, rfl, by simp [eq]⟩
  have walk (q : Nat) : (s₂.pcbs q).pid = (s.pcbs q).pid ∧
      ((s₂.pcbs q).state = .terminated ↔ q = p ∨ (s.pcbs q).state = .terminated) := by
    rw [pcbs q]
    split_ifs
    · exact ⟨(same q).1, (same q).2.2⟩
    · exact ⟨(same q).1, (same q).2.2⟩
  split_ifs at next with init
  rw [(walk p).1] at init
  obtain ⟨alike, n, mem, turn, ready⟩ := processSchedule_spec next
  rw [list, first.1] at mem
  have alive : ¬ (n = p ∨ (s.pcbs n).state = .terminated) := by
    rw [← (walk n).2, ready]
    exact ProcState.noConfusion
  refine ⟨init, alike.list.trans (list.trans first.1), alike.calls.trans (calls.trans first.2.1),
    alike.next.trans (nextPid.trans first.2.2), fun q => (alike.pid q).trans (walk q).1, fun q mem => ?_,
    fun q => (alike.ended q).trans (walk q).2, n, mem, turn, fun eq => alive (.inl eq), fun ended => alive (.inr ended)⟩
  rw [alike.parent, pcbs q, first.1, (same p).1, (same q).2.1]
  split_ifs with h child child
  · rfl
  · exact absurd h.2 child
  · exact absurd ⟨mem, child⟩ h
  · exact (same q).2.1

/-- A process that ends, other than init. -/
lemma Kin.exit (kin : Kin s num k) (exited : Exited s p s') (mem : p ∈ s.processList) (ne : (s.pcbs p).pid ≠ 1) :
    Kin s' num k := by
  have init : p ≠ 0 := by
    rintro rfl
    rw [kin.pid 0 mem, kin.num_root] at ne
    exact ne rfl
  have rest (q : Nat) (ne : q ≠ p) (h : (s.pcbs q).state ≠ .terminated) : (s'.pcbs q).state ≠ .terminated :=
    fun ended => ((exited.ended q).mp ended).elim ne h
  refine ⟨?_, ?_, ?_, ?_, ?_, ?_, ?_, ?_, kin.num_root, rest 0 init.symm kin.root_lives, ?_, ?_, ?_⟩
  · rw [exited.list, exited.calls]
    exact kin.old
  · rw [exited.list]
    exact kin.num_pos
  · rw [exited.list]
    exact kin.num_le
  · rw [exited.list]
    exact kin.num_inj
  · intro q memq
    rw [exited.list] at memq
    rw [exited.pid, kin.pid q memq]
  · rw [exited.next, kin.next]
  · rw [exited.calls]
    exact kin.made
  · rw [exited.list]
    exact kin.root
  · intro few
    have pos := kin.num_pos p mem
    have le := kin.num_le p mem
    rw [exited.parent 0 kin.root, kin.root_parent few, if_neg]
    intro zero
    rw [kin.pid p mem] at zero
    have zero := congrArg UInt32.toNat zero
    rw [toNat_ofNat_lt (by omega)] at zero
    change 0 = num p at zero
    omega
  · intro q memq root
    rw [exited.list] at memq ⊢
    rw [exited.parent q memq]
    split_ifs with child
    · -- an orphan, younger than init
      have pos := kin.num_pos q memq
      have other : num 0 ≠ num q := fun eq => root (kin.num_inj 0 kin.root q memq eq).symm
      refine ⟨0, kin.root, ?_, ?_, rest 0 init.symm kin.root_lives⟩
      · rw [exited.pid, kin.pid 0 kin.root, kin.num_root]
        rfl
      · rw [kin.num_root] at other ⊢
        omega
    · obtain ⟨r, memr, eq, lt, lives⟩ := kin.parent q memq root
      refine ⟨r, memr, by rw [exited.pid, eq], lt, rest r ?_ lives⟩
      rintro rfl
      exact child eq
  · obtain ⟨n, memn, turn, ne, lives⟩ := exited.current
    rw [exited.list]
    exact ⟨n, memn, turn, rest n ne lives⟩

/-- `process_create` fails, or puts a child of the current process in front of the list. -/
lemma processCreate_cases (current : processCurrent s = some c) :
    (processCreate s).1 = none ∧ (processCreate s).2.processList = s.processList ∧
        ((processCreate s).2.nextPid = s.nextPid ∨ (processCreate s).2.nextPid = s.nextPid + 1) ∨
      (processCreate s).1 = some s.calls ∧ (processCreate s).2.processList = s.calls :: s.processList ∧
        (processCreate s).2.nextPid = s.nextPid + 1 ∧ ((processCreate s).2.pcbs s.calls).pid = s.nextPid ∧
          ((processCreate s).2.pcbs s.calls).parentPid = (s.pcbs c).pid ∧
            ((processCreate s).2.pcbs s.calls).state = .new := by
  change s.currentProcess = some c at current
  cases full : s.oom s.calls with
  | true =>
    simp only [processCreate, State.kmalloc, full, if_true]
    exact .inl ⟨trivial, trivial, .inl trivial⟩
  | false =>
    simp only [processCreate, State.kmalloc, full, Bool.false_eq_true, if_false, cloneDirectory, current]
    split_ifs
    · exact .inl ⟨rfl, rfl, .inr rfl⟩
    · refine .inr ⟨rfl, rfl, rfl, ?_, ?_, ?_⟩
      · exact congrArg Pcb.pid State.pcbs_set
      · exact congrArg Pcb.parentPid State.pcbs_set
      · exact congrArg Pcb.state State.pcbs_set

lemma Kin.create (kin : Kin s num k) : ∃ num' n, n ≤ k + 1 ∧ Kin (processCreate s).2 num' n := by
  obtain ⟨c, memc, current, lives⟩ := kin.current
  obtain ⟨calls, turn, other, -⟩ := processCreate_spec s
  have cases_ := processCreate_cases current
  generalize (processCreate s).2 = s' at calls turn other cases_ ⊢
  have old (q : Nat) (mem : q ∈ s.processList) : s'.pcbs q = s.pcbs q := other q (Nat.ne_of_lt (kin.old q mem))
  have turn' : processCurrent s' = some c := turn.trans current
  have made := kin.made
  obtain ⟨-, list, next⟩ | ⟨-, list, next, pid, parent, state⟩ := cases_
  · have same : Alike s s' := ⟨list, fun q mem => by rw [old q mem], fun q mem => by rw [old q mem],
      fun q mem => by rw [old q mem]⟩
    -- a number may have been given out all the same
    obtain next | next := next
    · refine ⟨num, k, by omega, kin.alike same le_rfl (by omega) (by omega) ?_ ⟨c, memc, turn', lives⟩⟩
      rw [next, kin.next]
    · refine ⟨num, k + 1, le_rfl, kin.alike same (by omega) (by omega) (by omega) ?_ ⟨c, memc, turn', lives⟩⟩
      rw [next, kin.next, UInt32.ofNat_add (k + 1)]
      rfl
  · -- the new process, with the next count
    have ne (q : Nat) (mem : q ∈ s.processList) : q ≠ s.calls := Nat.ne_of_lt (kin.old q mem)
    have count (q : Nat) (mem : q ∈ s.processList) : Function.update num s.calls (k + 1) q = num q :=
      Function.update_of_ne (ne q mem) ..
    have self : Function.update num s.calls (k + 1) s.calls = k + 1 := Function.update_self ..
    refine ⟨Function.update num s.calls (k + 1), k + 1, le_rfl, ?_, ?_, ?_, ?_, ?_, ?_, ?_, ?_, ?_, ?_, ?_, ?_, ?_⟩
    · rw [list, calls]
      exact List.forall_mem_cons.mpr ⟨Nat.lt_succ_self _, fun q mem => Nat.lt_succ_of_lt (kin.old q mem)⟩
    · rw [list]
      refine List.forall_mem_cons.mpr ⟨by rw [self]; omega, fun q mem => ?_⟩
      rw [count q mem]
      exact kin.num_pos q mem
    · rw [list]
      refine List.forall_mem_cons.mpr ⟨by rw [self], fun q mem => ?_⟩
      rw [count q mem]
      exact Nat.le_succ_of_le (kin.num_le q mem)
    · rw [list]
      intro p hp q hq eq
      rw [List.mem_cons] at hp hq
      obtain rfl | hp := hp
      · obtain rfl | hq := hq
        · rfl
        · have le := kin.num_le q hq
          rw [self, count q hq] at eq
          omega
      · rw [count p hp] at eq
        obtain rfl | hq := hq
        · have le := kin.num_le p hp
          rw [self] at eq
          omega
        · rw [count q hq] at eq
          exact kin.num_inj p hp q hq eq
    · rw [list]
      refine List.forall_mem_cons.mpr ⟨by rw [pid, self, kin.next], fun q mem => ?_⟩
      rw [old q mem, count q mem, kin.pid q mem]
    · rw [next, kin.next, UInt32.ofNat_add (k + 1)]
      rfl
    · rw [calls]
      exact Nat.succ_le_succ kin.made
    · rw [list]
      exact List.mem_cons_of_mem _ kin.root
    · rw [count 0 kin.root, kin.num_root]
    · rw [old 0 kin.root]
      exact kin.root_lives
    · intro few
      rw [old 0 kin.root]
      exact kin.root_parent (by omega)
    · rw [list]
      refine List.forall_mem_cons.mpr ⟨fun _ => ?_, fun q mem root => ?_⟩
      · have le := kin.num_le c memc
        refine ⟨c, List.mem_cons_of_mem _ memc, by rw [parent, old c memc], ?_, by rwa [old c memc]⟩
        rw [self, count c memc]
        omega
      · obtain ⟨r, memr, eq, lt, alive⟩ := kin.parent q mem root
        rw [old q mem, count q mem]
        refine ⟨r, List.mem_cons_of_mem _ memr, by rw [old r memr, eq], by rwa [count r memr], ?_⟩
        rwa [old r memr]
    · rw [list]
      exact ⟨c, List.mem_cons_of_mem _ memc, turn', by rwa [old c memc]⟩

/-- Every operation keeps the family in order. -/
lemma Kin.step {op : Op} (kin : Kin s num k) (lawful : Lawful s op) (next : step s op = some s') :
    ∃ num' n, Kin s' num' n := by
  obtain ⟨c, memc, current, lives⟩ := id kin.current
  have stays {q : Nat} {pcb : Pcb} (same : Same s (s.set q pcb)) : ∃ num' n, Kin (s.set q pcb) num' n :=
    ⟨num, k, kin.same same ⟨c, memc, current, lives⟩⟩
  have state {q : Nat} {st : ProcState} (old : (s.pcbs q).state ≠ .terminated) (new : st ≠ .terminated) :
      Same s (s.setState q st) := same_set rfl rfl (iff_of_false new old)
  cases op with
  | create =>
    cases next
    obtain ⟨num', n, -, kin'⟩ := kin.create
    exact ⟨num', n, kin'⟩
  | exec proc entry =>
    cases next
    exact stays (same_set rfl rfl (iff_of_false ProcState.noConfusion lawful))
  | block proc =>
    cases next
    cases proc with
    | none => exact ⟨num, k, kin⟩
    | some q =>
      rw [processBlock]
      split_ifs with runs
      · refine stays (state ?_ ProcState.noConfusion)
        intro ended
        rw [ended] at runs
        obtain runs | runs := runs <;> cases runs
      · exact ⟨num, k, kin⟩
  | unblock proc =>
    cases next
    cases proc with
    | none => exact ⟨num, k, kin⟩
    | some q =>
      rw [processUnblock]
      split_ifs with blocked
      · refine stays (state ?_ ProcState.noConfusion)
        rw [blocked]
        exact ProcState.noConfusion
      · exact ⟨num, k, kin⟩
  | exit regs exitCode =>
    obtain ⟨ne, exited⟩ := processExit_spec current next
    exact ⟨num, k, kin.exit exited memc ne⟩
  | schedule regs =>
    obtain ⟨same, n, mem, turn, ready⟩ := processSchedule_spec next
    refine ⟨num, k, kin.same same ⟨n, mem, turn, ?_⟩⟩
    rw [ready]
    exact ProcState.noConfusion

/-! ## Runs. -/

lemma kin_init {pcbs : Nat → Pcb} {oom : Nat → Bool} (kernelDirectory : UInt32) (memory : oom 0 = false) :
    Kin (processInit (boot pcbs oom kernelDirectory)) (fun _ => 1) 1 := by
  have state : (processInit (boot pcbs oom kernelDirectory)).processList = [0] ∧
      (processInit (boot pcbs oom kernelDirectory)).calls = 1 ∧
      (processInit (boot pcbs oom kernelDirectory)).currentProcess = some 0 ∧
      (processInit (boot pcbs oom kernelDirectory)).nextPid = 2 ∧
      (processInit (boot pcbs oom kernelDirectory)).pcbs 0 =
        { Pcb.zero with pid := 1, state := .running, pageDir := kernelDirectory } := by
    simp only [processInit, State.kmalloc, boot, memory, Bool.false_eq_true, if_false]
    exact ⟨trivial, rfl, trivial, rfl, State.pcbs_set⟩
  obtain ⟨list, calls, current, next, pcb⟩ := state
  have only (q : Nat) (mem : q ∈ (processInit (boot pcbs oom kernelDirectory)).processList) : q = 0 := by
    rwa [list, List.mem_singleton] at mem
  have root : 0 ∈ (processInit (boot pcbs oom kernelDirectory)).processList := by
    rw [list]
    exact List.mem_singleton_self 0
  have lives : ((processInit (boot pcbs oom kernelDirectory)).pcbs 0).state ≠ .terminated := by
    rw [pcb]
    exact ProcState.noConfusion
  refine ⟨fun q mem => ?_, fun _ _ => le_rfl, fun _ _ => le_rfl, fun q hq r hr _ => ?_, fun q mem => ?_, next, ?_, root,
    rfl, lives, fun _ => ?_, fun q mem ne => absurd (only q mem) ne, 0, root, current, lives⟩
  · rw [only q mem, calls]
    exact Nat.one_pos
  · rw [only q hq, only r hr]
  · rw [only q mem, pcb]
    rfl
  · rw [calls]
  · rw [pcb]
    rfl

/-- The system calls of the current process, as long as there are numbers. -/
lemma Kin.answers (kin : Kin s num k) (few : k + 1 < 2 ^ 32) : Answers s := by
  obtain ⟨c, memc, current, -⟩ := id kin.current
  have unknown (pid : UInt32) (other : ∀ q ∈ s.processList, (s.pcbs q).pid ≠ pid) : processFind s pid = none := by
    rw [processFind, List.find?_eq_none]
    intro q mem same
    exact other q mem (of_decide_eq_true same)
  have number (q : Nat) (mem : q ∈ s.processList) : (s.pcbs q).pid.toNat = num q := by
    have le := kin.num_le q mem
    rw [kin.pid q mem, toNat_ofNat_lt (by omega)]
  refine ⟨fun c' turn => ?_, fun c' turn => ?_, fun c' turn => ?_⟩
  · rw [sysGetpid, turn]
  · cases turn.symm.trans current
    by_cases init : c = 0
    · subst init
      refine .inl ⟨rfl, ?_⟩
      have none : processFind s 0 = none := by
        refine unknown 0 fun q mem zero => ?_
        have pos := kin.num_pos q mem
        have eq := number q mem
        rw [zero] at eq
        change 0 = num q at eq
        omega
      rw [sysGetppid, current]
      dsimp only
      rw [kin.root_parent (by omega), none]
    · obtain ⟨q, memq, child, -⟩ := (kin.family (by omega)).parent c memc init
      refine .inr ⟨init, q, memq, child, ?_⟩
      rw [Child] at child
      rw [sysGetppid, current]
      dsimp only
      rw [child]
  · cases turn.symm.trans current
    obtain ⟨num', n, le, kin'⟩ := kin.create
    have cases_ := processCreate_cases current
    obtain ⟨-, -, other, -⟩ := processCreate_spec s
    rw [sysFork]
    generalize processCreate s = result at kin' cases_ other
    obtain ⟨r, s'⟩ := result
    obtain ⟨fails, list, -⟩ | ⟨made, list, next, pid, parent, -⟩ := cases_
    · cases fails
      exact .inl ⟨rfl, list⟩
    · cases made
      refine .inr ⟨s.calls, list, ?_, ?_, rfl⟩
      · have memc' : c ∈ s'.processList := by
          rw [list]
          exact List.mem_cons_of_mem _ memc
        have found := kin'.found (by omega) memc'
        rw [other c (Nat.ne_of_lt (kin.old c memc))] at found
        rw [Child, parent]
        exact found
      · refine unknown _ fun q mem same => ?_
        have le := kin.num_le q mem
        have eq := number q mem
        dsimp only at same
        rw [same, pid, kin.next, toNat_ofNat_lt few] at eq
        omega

/-- In every run from `process_init`, with memory for init and fewer than `2 ^ 32 - 1` processes asked for, the
    processes are a tree under init in which whoever has children lives, `process_find` finds each by its number, and
    `getpid`, `getppid` and `fork` answer accordingly. -/
theorem processes_family {pcbs : Nat → Pcb} {oom : Nat → Bool} {kernelDirectory : UInt32} (memory : oom 0 = false)
    (run : Runs step Lawful (processInit (boot pcbs oom kernelDirectory)) s) (few : s.calls < 2 ^ 32 - 1) :
    Family s ∧ Answers s := by
  obtain ⟨num, k, kin⟩ : ∃ num k, Kin s num k := by
    refine run.invariant (I := fun s => ∃ num k, Kin s num k) ⟨_, _, kin_init kernelDirectory memory⟩
      fun s op s' h lawful next => ?_
    obtain ⟨num, k, kin⟩ := h
    exact kin.step lawful next
  have made := kin.made
  exact ⟨kin.family (by omega), kin.answers (by omega)⟩

theorem processes_family_loaded : Family loaded ∧ Answers loaded := by
  have created : Runs step Lawful booted (processCreate booted).2 :=
    Runs.refl.step (show Lawful booted .create from trivial) rfl
  have lives : Lawful (processCreate booted).2 (.exec 1 0x400000) := by
    show ProcState.new ≠ .terminated
    decide
  exact processes_family rfl (created.step lives rfl) (show 2 < 2 ^ 32 - 1 by decide)

end RetaOS.Process
