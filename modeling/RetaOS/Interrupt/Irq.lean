import RetaOS.Lib.Interrupts
import RetaOS.Syscall.Stub
import Mathlib.Data.Fintype.Basic
import Mathlib.Tactic.FinCases

/-!
# Hardware interrupts

The path of a hardware interrupt: the stubs `irq0_stub` to `irq15_stub` of `isr.S` and `irq_handler` of `idt.c`, which
tells the interrupt controllers that the interrupt is over and calls the handler that was installed. The compiled
`irq_handler` is a parameter; what it writes to ports and which handler it calls are those of the C function, on the
argument that the stub leaves on the stack. A stub gives every register back, in user code and in the kernel alike
(`irqStub_same`), so a program runs through any interrupts as if there were none (`irq_transparent`).
-/

namespace RetaOS.Interrupt
open Lib Lib.X86

/-! ## `idt.c`. -/

/-- What the kernel does besides: a byte written to a port, or a call of a handler. -/
inductive Event (H : Type) where
  | outb (port : UInt16) (value : UInt8)
  | handler (h : H)

/-- `irq_handlers`. -/
abbrev Handlers (H : Type) := Vector (Option H) 16

variable {H : Type}

/-- `irq_install_handler`. -/
def irqInstallHandler (handlers : Handlers H) (irq : UInt8) (handler : Option H) : Handlers H :=
  if irq < 16 then handlers.setIfInBounds irq.toNat handler else handlers

/-- `irq_handler`. -/
def irqHandler (handlers : Handlers H) (irq : UInt8) : List (Event H) :=
  let eoi := (if irq ≥ 8 then [.outb 0xA0 0x20] else []) ++ [.outb 0x20 0x20]
  if irq < 16 then
    match handlers[irq.toNat]?.join with
    | some handler => eoi ++ [.handler handler]
    | none => eoi
  else eoi

/-! ## `isr.S`. -/

/-- The function that the stubs call. -/
inductive Callee where
  | irqHandler

/-- `irq0_stub` to `irq15_stub`, by the number that each pushes. -/
def irqStub (irq : UInt32) : List (Instr Callee) :=
  [ .pushal,
    .pushImm irq,
    .call .irqHandler,
    .add 4 .esp,
    .popal,
    .iret ]

/-- The stubs. -/
def irqStubs : Vector (List (Instr Callee)) 16 :=
  #v[irqStub 0, irqStub 1, irqStub 2, irqStub 3, irqStub 4, irqStub 5, irqStub 6, irqStub 7, irqStub 8, irqStub 9,
    irqStub 10, irqStub 11, irqStub 12, irqStub 13, irqStub 14, irqStub 15]

/-- An interrupt is serviced: the processor pushes its frame and runs the stub. -/
def service (code : Callee → Cpu → Cpu) (handlers : Handlers H) (esp0 : UInt32) (n : Fin 16) (u : Cpu) :
    Cpu × List (Event H) :=
  (exec code irqStubs[n] (u.exception esp0 none),
    (calls code irqStubs[n] (u.exception esp0 none)).flatMap fun (_, c) => irqHandler handlers (c.stack 0).toUInt8)

variable {code : Callee → Cpu → Cpu} {handlers : Handlers H} {esp0 : UInt32} {n : Fin 16} {u c : Cpu} {P : Program}

lemma irqStubs_get (n : Fin 16) : irqStubs[n] = irqStub (UInt32.ofNat n) := by
  fin_cases n <;> rfl

/-! ## The call of `irq_handler`. -/

/-- The state in which the stub calls `irq_handler`. -/
def irqCall (esp0 : UInt32) (n : Fin 16) (u : Cpu) : Cpu := (u.exception esp0 none).pushal.push (UInt32.ofNat n)

/-- The number lies below the saved registers, and they below the frame. Nothing else has been written. -/
lemma irqCall_spec (room : 56 ≤ (exceptionStack esp0 u).toNat) :
    ((irqCall esp0 n u).gpr .esp).toNat + 36 + 4 * (exceptionFrame none u).length = (exceptionStack esp0 u).toNat ∧
      (irqCall esp0 n u).stack 0 = UInt32.ofNat n ∧ (irqCall esp0 n u).ss = u.ss ∧
      (∀ x : UInt32, x.toNat + 56 < (exceptionStack esp0 u).toNat ∨ (exceptionStack esp0 u).toNat ≤ x.toNat →
        (irqCall esp0 n u).mem x = u.mem x) ∧
      ∃ sp, Holds (irqCall esp0 n u).mem ((irqCall esp0 n u).gpr .esp + 4) (u.gpr .edi :: u.gpr .esi :: u.gpr .ebp ::
        sp :: u.gpr .ebx :: u.gpr .edx :: u.gpr .ecx :: u.gpr .eax :: exceptionFrame none u) := by
  have len := exceptionFrame_length u
  have top := (exceptionStack esp0 u).toNat_lt
  obtain ⟨frame, esp, regs⟩ := exception_spec (u := u) esp0 none
  obtain ⟨ss, mem⟩ := exception_mem esp0 u (by omega)
  have low : ((u.exception esp0 none).gpr .esp).toNat =
      (exceptionStack esp0 u).toNat - 4 * (exceptionFrame none u).length := by
    rw [esp, sub_toNat_of_le (by rw [toNat_ofNat_lt (by omega)]; omega), toNat_ofNat_lt (by omega)]
  obtain ⟨saved, addr⟩ := pushal_spec frame (by omega) (by omega)
  rw [regs .edi (by decide), regs .esi (by decide), regs .ebp (by decide), regs .ebx (by decide),
    regs .edx (by decide), regs .ecx (by decide), regs .eax (by decide)] at saved
  have ss' : (u.exception esp0 none).pushal.ss = u.ss := ss
  have mem' : ∀ x : UInt32, x.toNat + 52 < (exceptionStack esp0 u).toNat ∨ (exceptionStack esp0 u).toNat ≤ x.toNat →
      (u.exception esp0 none).pushal.mem x = u.mem x := fun x out => by
    rw [pushal_mem (by omega) (by omega), mem x (by omega)]
  rw [irqCall]
  generalize (u.exception esp0 none).gpr .esp = sp at saved low addr
  generalize (u.exception esp0 none).pushal = d at saved addr ss' mem'
  have below : (d.push (UInt32.ofNat n)).gpr .esp + 4 = d.gpr .esp := by rw [gpr_push, UInt32.sub_add_cancel]
  have four : (4 : UInt32).toNat = 4 := rfl
  have number := saved.store (v := UInt32.ofNat n) (by simp only [List.length_cons]; omega)
  refine ⟨?_, ?_, ss', fun x out => ?_, sp, ?_⟩
  · rw [gpr_push, sub_toNat_of_le (by omega)]
    omega
  · rw [Cpu.stack, gpr_push, UInt32.add_zero]
    exact number.1
  · have pushed := pushes_frame (c := d) [UInt32.ofNat n] (x := x) (by simp only [List.length_singleton]; omega)
      (by simp only [List.length_singleton]; omega)
    exact pushed.trans (mem' x (by omega))
  · have rest := number.2
    rw [UInt32.sub_add_cancel] at rest
    rw [below]
    exact rest

/-- The stub makes one call, with its number. -/
lemma service_events (room : 56 ≤ (exceptionStack esp0 u).toNat) :
    (service code handlers esp0 n u).2 = irqHandler handlers (UInt8.ofNat n) := by
  obtain ⟨-, number, -⟩ := irqCall_spec (n := n) room
  have one : calls code (irqStub (UInt32.ofNat n)) (u.exception esp0 none) = [(.irqHandler, irqCall esp0 n u)] := rfl
  have low : (UInt32.ofNat n).toUInt8 = UInt8.ofNat n := by fin_cases n <;> rfl
  rw [service]
  dsimp only
  rw [irqStubs_get, one, List.flatMap_singleton]
  dsimp only
  rw [number, low]

/-! ## Returning. -/

/-- `irq_handler` behaves when it is called from an interrupted program: it keeps what the calling convention says, and
    leaves alone what counts for the program. There is room on the stack, and nothing that counts lies there. -/
structure Behaves (P : Program) (code : Callee → Cpu → Cpu) (esp0 : UInt32) (n : Fin 16) (u : Cpu) : Prop where
  room : 56 ≤ (exceptionStack esp0 u).toNat
  apart : ∀ x, P.live u.context x →
    x.toNat + 56 < (exceptionStack esp0 u).toNat ∨ (exceptionStack esp0 u).toNat ≤ x.toNat
  saved : ∀ r ∈ [Reg.ebx, .esp, .ebp, .esi, .edi],
    (code .irqHandler (irqCall esp0 n u)).gpr r = (irqCall esp0 n u).gpr r
  stack : (code .irqHandler (irqCall esp0 n u)).ss = (irqCall esp0 n u).ss
  frame : ∀ x : UInt32, ((irqCall esp0 n u).gpr .esp).toNat + 4 ≤ x.toNat → x.toNat < (exceptionStack esp0 u).toNat →
    (code .irqHandler (irqCall esp0 n u)).mem x = (irqCall esp0 n u).mem x
  live : ∀ x, P.live u.context x → (code .irqHandler (irqCall esp0 n u)).mem x = (irqCall esp0 n u).mem x

/-- A stub gives every register back, and leaves alone what counts for the program. -/
lemma irqStub_same (behaves : Behaves P code esp0 n u) : P.Same u (service code handlers esp0 n u).1 := by
  obtain ⟨room, apart, saved, stack, frame, live⟩ := behaves
  obtain ⟨addr, -, ss, mem, sp, holds⟩ := irqCall_spec (n := n) room
  have written : ∀ x, P.live u.context x → (irqCall esp0 n u).mem x = u.mem x := fun x counts => mem x (apart x counts)
  have len := exceptionFrame_length u
  have top := (exceptionStack esp0 u).toNat_lt
  have run : exec code (irqStub (UInt32.ofNat n)) (u.exception esp0 none) =
      (step code (code .irqHandler (irqCall esp0 n u)) (.add 4 .esp)).popal.iret := rfl
  rw [service, irqStubs_get, run]
  generalize irqCall esp0 n u = c at addr ss holds saved stack frame live written
  generalize code .irqHandler c = d at saved stack frame live
  have esp : d.gpr .esp = c.gpr .esp := saved .esp (by simp)
  have above : (c.gpr .esp + 4).toNat = (c.gpr .esp).toNat + 4 := toNat_add_ofNat (n := 4) (by omega)
  -- the callee has left the saved registers and the frame alone
  have kept : Holds d.mem (c.gpr .esp + 4) _ := holds.congr
    (by rw [above]; simp only [List.length_cons]; omega) fun x lo hi => frame x (by omega) (by
      simp only [List.length_cons] at hi
      omega)
  have esp' : (step code d (.add 4 .esp)).gpr .esp = c.gpr .esp + 4 := by
    rw [← esp]
    exact gpr_set
  have ss' : (step code d (.add 4 .esp)).ss = u.ss := stack.trans ss
  have mem' : (step code d (.add 4 .esp)).mem = d.mem := rfl
  generalize step code d (.add 4 .esp) = e at esp' ss' mem'
  rw [← mem', ← esp'] at kept
  obtain ⟨edi, esi, ebp, ebx, edx, ecx, eax, rest⟩ := popal_spec kept
  have stop : e.popal.gpr .esp + UInt32.ofNat (4 * (exceptionFrame none u).length) = exceptionStack esp0 u := by
    apply UInt32.toNat_inj.mp
    have past : (e.popal.gpr .esp).toNat = (c.gpr .esp).toNat + 36 := by
      rw [popal_esp, esp']
      exact (toNat_add_ofNat (n := 32) (by omega)).trans (by omega)
    rw [toNat_add_ofNat (by omega), past]
    omega
  obtain ⟨sp', ip, cs, flags, ss'', others⟩ := iret_frame rest ss' stop
  constructor
  · have gpr : e.popal.iret.gpr = u.gpr := by
      funext r
      cases r with
      | esp => exact sp'
      | edi => rw [others .edi (by decide), edi]
      | esi => rw [others .esi (by decide), esi]
      | ebp => rw [others .ebp (by decide), ebp]
      | ebx => rw [others .ebx (by decide), ebx]
      | edx => rw [others .edx (by decide), edx]
      | ecx => rw [others .ecx (by decide), ecx]
      | eax => rw [others .eax (by decide), eax]
    rw [Cpu.context, Cpu.context, gpr, ip, cs, flags, ss'']
  · intro x counts
    rw [iret_mem, popal_mem, mem', live x counts, written x counts]

/-- Whatever interrupts come between the steps of a program, it gets to where it gets without them, and each interrupt
    is acknowledged and handled once, in the order in which they came. -/
theorem irq_transparent (P : Program) (loc : P.Local) (code : Callee → Cpu → Cpu) (handlers : Handlers H)
    (esp0 : UInt32) (c : Cpu) (behaves : ∀ n k u, P.Same (P.step^[k] c) u → Behaves P code esp0 n u)
    (es : List (Option (Fin 16))) :
    P.Same (P.step^[Program.steps es] c) (P.run (service code handlers esp0) es (c, [])).1 ∧
      (P.run (service code handlers esp0) es (c, [])).2 =
        es.reduceOption.flatMap fun n : Fin 16 => irqHandler handlers (UInt8.ofNat n) := by
  refine Program.run_same loc c (fun n k u same => ?_) es
  have safe := behaves n k u same
  exact ⟨irqStub_same safe, service_events safe.room⟩

/-! ## A program that counts. -/

/-- It counts in EAX, and relies on its stack. -/
def counter : Program where
  step c := c.set .eax (c.gpr .eax + 1)
  live _ x := 0xBFFF0000 ≤ x.toNat

lemma counter_local : counter.Local := by
  intro c d same
  have gpr : d.gpr = c.gpr := congrArg Context.gpr same.context
  refine ⟨?_, fun x live => same.mem x live⟩
  show (Context.mk (Function.update d.gpr .eax (d.gpr .eax + 1)) d.eip d.eflags d.cs d.ss) =
    Context.mk (Function.update c.gpr .eax (c.gpr .eax + 1)) c.eip c.eflags c.cs c.ss
  rw [gpr, show d.eip = c.eip from congrArg Context.eip same.context,
    show d.eflags = c.eflags from congrArg Context.eflags same.context,
    show d.cs = c.cs from congrArg Context.cs same.context, show d.ss = c.ss from congrArg Context.ss same.context]

/-- An `irq_handler` compiled to use EAX only. -/
def compiledIrq : Callee → Cpu → Cpu := fun _ c => c.set .eax 0

/-- It behaves in user code. -/
lemma counter_behaves (user : u.cs &&& 3 ≠ 0) : Behaves counter compiledIrq 0x200000 n u := by
  have stack : exceptionStack 0x200000 u = 0x200000 := by rw [exceptionStack, if_neg user]
  have size : (0x200000 : UInt32).toNat = 0x200000 := rfl
  refine ⟨?_, fun x live => .inr ?_, fun r mem => gpr_set_ne ?_, rfl, fun _ _ _ => rfl, fun _ _ => rfl⟩
  · rw [stack]
    decide
  · have high : 0xBFFF0000 ≤ x.toNat := live
    rw [stack, size]
    omega
  · rintro rfl
    simp at mem

lemma counter_cs (k : Nat) (c : Cpu) : (counter.step^[k] c).cs = c.cs := by
  induction k generalizing c with
  | zero => rfl
  | succ k ih =>
    rw [Function.iterate_succ_apply, ih]
    rfl

/-- Two steps of a user program, with interrupts 0 and 14 behind them, of which 14 has a handler. -/
theorem irq_transparent_counter :
    let handlers : Handlers Nat := irqInstallHandler (Vector.replicate 16 none) 14 (some 7)
    let run := counter.run (service compiledIrq handlers 0x200000) [none, some 0, none, some 14]
      (Syscall.userCpu 1 2 3 4 5 6 7, [])
    run.1.gpr .eax = 3 ∧ run.2 = [.outb 0x20 0x20, .outb 0xA0 0x20, .outb 0x20 0x20, .handler 7] := by
  intro handlers run
  obtain ⟨same, log⟩ := irq_transparent counter counter_local compiledIrq handlers 0x200000
    (Syscall.userCpu 1 2 3 4 5 6 7) (fun n k u same => by
      refine counter_behaves ?_
      rw [show u.cs = _ from congrArg Context.cs same.context]
      show (counter.step^[k] _).cs &&& 3 ≠ 0
      rw [counter_cs]
      decide) [none, some 0, none, some 14]
  have gpr := congrArg (fun x : Context => x.gpr .eax) same.context
  exact ⟨gpr, log⟩

end RetaOS.Interrupt
