import Mathlib.Logic.Function.Basic
import Mathlib.Tactic.Common

/-!
# Processes

`kernel/process.c`. Process control blocks are numbered by the call of `kmalloc` that returned them, and
`process_list` is the list of those linked from it: it only ever grows at its head. `process_switch` does not come
back to its caller; the state after it is the one the next process runs in. `none` is a call that halts the machine.
-/

namespace RetaOS.Process

/-- `process_state_t`. -/
inductive ProcState where
  | new
  | running
  | ready
  | blocked
  | terminated
  deriving DecidableEq

/-- `struct user_context`. -/
structure UserContext where
  eip : UInt32
  esp : UInt32
  eflags : UInt32
  cs : UInt32
  ss : UInt32
  ds : UInt32
  es : UInt32
  fs : UInt32
  gs : UInt32

/-- A user context after `memset`. -/
def UserContext.zero : UserContext := ⟨0, 0, 0, 0, 0, 0, 0, 0, 0⟩

/-- The fields of `process_t` that are used. -/
structure Pcb where
  pid : UInt32
  parentPid : UInt32
  state : ProcState
  pageDir : UInt32
  uc : UserContext
  exitCode : UInt32

/-- A process after `memset`. -/
def Pcb.zero : Pcb where
  pid := 0
  parentPid := 0
  state := .new
  pageDir := 0
  uc := .zero
  exitCode := 0

/-- The process control blocks and the static variables of `process.c`. The `k`th call of `kmalloc` returns the block
    `k`, or `NULL` when `oom k`. -/
structure State where
  pcbs : Nat → Pcb
  oom : Nat → Bool
  calls : Nat
  processList : List Nat
  currentProcess : Option Nat
  nextPid : UInt32
  kernelDirectory : UInt32

namespace State

/-- The process at `p` is overwritten. -/
def set (s : State) (p : Nat) (pcb : Pcb) : State := { s with pcbs := Function.update s.pcbs p pcb }

@[simp] lemma pcbs_set {s : State} {p : Nat} {pcb : Pcb} : (s.set p pcb).pcbs p = pcb := Function.update_self ..

lemma pcbs_set_ne {s : State} {p q : Nat} {pcb : Pcb} (ne : q ≠ p) : (s.set p pcb).pcbs q = s.pcbs q :=
  Function.update_of_ne ne ..

/-- `proc->state = st`. -/
def setState (s : State) (p : Nat) (st : ProcState) : State := s.set p { s.pcbs p with state := st }

/-- `kmalloc`. -/
def kmalloc (s : State) : Option Nat × State :=
  (if s.oom s.calls then none else some s.calls, { s with calls := s.calls + 1 })

end State

/-- `process_init`. -/
def processInit (s : State) : State :=
  match s.kmalloc with
  | (none, s) => s
  | (some init, s) =>
    { s.set init { Pcb.zero with pid := s.nextPid, state := .running, pageDir := s.kernelDirectory } with
      nextPid := s.nextPid + 1
      currentProcess := some init
      processList := [init] }

/-- `clone_directory`, a stub. -/
def cloneDirectory (s : State) (_src : UInt32) : UInt32 := s.kernelDirectory

/-- `process_create`. -/
def processCreate (s : State) : Option Nat × State :=
  let parent := s.currentProcess
  match s.kmalloc with
  | (none, s) => (none, s)
  | (some child, s) =>
    let parentPid := parent.elim 0 fun p => (s.pcbs p).pid
    let pageDir := cloneDirectory s (parent.elim s.kernelDirectory fun p => (s.pcbs p).pageDir)
    let s := { s.set child { Pcb.zero with pid := s.nextPid, parentPid, state := .new, pageDir } with
      nextPid := s.nextPid + 1 }
    if pageDir = 0 then (none, s) else (some child, { s with processList := child :: s.processList })

/-- The end of `process_exec`, once the file is loaded: the context that the process starts with. -/
def startContext (entry : UInt32) (proc : Pcb) : Pcb :=
  let userStackTop : UInt32 := 0x003FF000
  let userStackSize : UInt32 := 0x20000
  { proc with
    uc :=
      { eip := entry
        esp := userStackTop + userStackSize - 16
        eflags := 0x200
        cs := 0x23
        ss := 0x2B
        ds := 0x2B
        es := 0x2B
        fs := 0x2B
        gs := 0x2B }
    state := .ready }

/-- A `process_exec` that succeeds. -/
def processExec (s : State) (proc : Nat) (entry : UInt32) : State := s.set proc (startContext entry (s.pcbs proc))

/-- The registers that `process_switch` saves. -/
structure Registers where
  eflags : UInt32
  esp : UInt32
  ds : UInt16
  es : UInt16
  fs : UInt16
  gs : UInt16

/-- `current->uc` after it has been saved. -/
def saveContext (regs : Registers) (proc : Pcb) : Pcb :=
  { proc with
    uc :=
      { proc.uc with
        eflags := regs.eflags
        esp := regs.esp
        ds := regs.ds.toUInt32
        es := regs.es.toUInt32
        fs := regs.fs.toUInt32
        gs := regs.gs.toUInt32 } }

/-- `process_switch`. -/
def processSwitch (s : State) (regs : Registers) (next : Nat) : State :=
  let s := match s.currentProcess with
    | some current => s.set current (saveContext regs (s.pcbs current))
    | none => s
  { s with currentProcess := some next }

/-- `process_schedule`. -/
def processSchedule (s : State) (regs : Registers) : Option State :=
  match s.processList.find? fun p => (s.pcbs p).state = .ready with
  | none => none
  | some next => some (processSwitch s regs next)

/-- `process_current`. -/
def processCurrent (s : State) : Option Nat := s.currentProcess

/-- One step of the walk of `process_exit` over the children. -/
def reparent (pid : UInt32) (s : State) (p : Nat) : State :=
  if (s.pcbs p).parentPid = pid then s.set p { s.pcbs p with parentPid := 1 } else s

/-- `process_exit`. -/
def processExit (s : State) (regs : Registers) (exitCode : UInt32) : Option State :=
  match processCurrent s with
  | none => some s
  | some proc =>
    let s := s.set proc { s.pcbs proc with exitCode, state := .terminated }
    let s := s.processList.foldl (reparent (s.pcbs proc).pid) s
    if (s.pcbs proc).pid = 1 then none else processSchedule s regs

/-- `process_block`. -/
def processBlock (s : State) (proc : Option Nat) : State :=
  match proc with
  | none => s
  | some p => if (s.pcbs p).state = .running ∨ (s.pcbs p).state = .ready then s.setState p .blocked else s

/-- `process_unblock`. -/
def processUnblock (s : State) (proc : Option Nat) : State :=
  match proc with
  | none => s
  | some p => if (s.pcbs p).state = .blocked then s.setState p .ready else s

/-- The static variables before `process_init`. -/
def boot (pcbs : Nat → Pcb) (oom : Nat → Bool) (kernelDirectory : UInt32) : State :=
  { pcbs
    oom
    calls := 0
    processList := []
    currentProcess := none
    nextPid := 1
    kernelDirectory }

end RetaOS.Process
