import RetaOS.Syscall.Stub
import Mathlib.Data.Fintype.Basic
import Mathlib.Tactic.FinCases

/-!
# The exception stubs

The path of a CPU exception to `exception_handler`: the frame the processor pushes, and the stubs of `isr.S`, which
pass a vector number, an error code and a pointer to the saved registers. `pushal` leaves EDI at the lowest address,
`struct isr_context` has `eax` first, and the pointer is taken eight bytes above the saved registers; the error code
is read back at an offset that has not moved with the stack. `handed_spec` says what `exception_handler` is given for
every register content, and `reported_iff` when that is what the processor had at the fault.
-/

namespace RetaOS.Exception
open Lib Lib.X86 Syscall

/-- The function the exception stubs call. -/
inductive Callee where
  | exceptionHandler

/-- `EX_NOERR`. -/
def exNoerr (vecnum : UInt32) : List (Instr Callee) :=
  [ .pushal,
    .lea 8 .esp .eax,
    .push .eax,
    .pushImm 0,
    .pushImm vecnum,
    .call .exceptionHandler,
    .add 12 .esp,
    .popal,
    .iret ]

/-- `EX_ERR`. -/
def exErr (vecnum : UInt32) : List (Instr Callee) :=
  [ .pushal,
    .load 32 .esp .eax,
    .lea 8 .esp .eax,
    .push .eax,
    .load 32 .esp .eax,
    .push .eax,
    .pushImm vecnum,
    .call .exceptionHandler,
    .add 12 .esp,
    .popal,
    .add 4 .esp,
    .iret ]

/-- `ex14_stub_pf`. -/
def ex14StubPf : List (Instr Callee) :=
  [ .pushal,
    .load 32 .esp .eax,
    .lea 8 .esp .eax,
    .push .eax,
    .load 32 .esp .eax,
    .push .eax,
    .pushImm 14,
    .call .exceptionHandler,
    .add 12 .esp,
    .popal,
    .add 4 .esp,
    .iret ]

/-- The stubs that `idt_init` installs for the exceptions. -/
def exceptionStubs : Vector (List (Instr Callee)) 20 :=
  #v[exNoerr 0, exNoerr 1, exNoerr 2, exNoerr 3, exNoerr 4, exNoerr 5, exNoerr 6, exNoerr 7, exErr 8, exNoerr 9,
    exErr 10, exErr 11, exErr 12, exErr 13, ex14StubPf, exNoerr 15, exNoerr 16, exErr 17, exNoerr 18, exNoerr 19]

/-- The exceptions for which the processor pushes an error code. -/
def pushesErrorCode (v : Fin 20) : Bool := v = 8 ∨ 10 ≤ v ∧ v ≤ 14 ∨ v = 17

/-- The error code the processor has for an exception. -/
def cpuError (v : Fin 20) (err : UInt32) : Option UInt32 := if pushesErrorCode v then some err else none

/-- What `exception_handler` writes to the serial line and hands to `kernel_bsod_exception`. -/
structure Report where
  vector : UInt32
  errorCode : UInt32
  cr2 : UInt32
  registers : Option IsrContext

/-- `exception_handler`. -/
def exceptionHandler (cr2 : UInt32) (m : Memory) (vector errorCode ctx : UInt32) : Report :=
  { vector
    errorCode
    cr2 := if vector = 14 then cr2 else 0
    registers := if ctx = 0 then none else some (isrContext m ctx) }

variable {code : Callee → Cpu → Cpu} {esp0 err vecnum : UInt32} {v : Fin 20} {u c : Cpu} {ws : List UInt32}
  {w0 w1 : UInt32}

/-! ## What the handler is called with. -/

/-- The arguments of a call of `exception_handler`, with the context that the last one points to. -/
structure Handed where
  vector : UInt32
  errorCode : UInt32
  ctx : IsrContext

/-- The arguments on the stack of a call. -/
def handed (c : Cpu) : Handed :=
  { vector := c.stack 0
    errorCode := c.stack 4
    ctx := isrContext c.mem (c.stack 8) }

/-- The calls of `exception_handler` that the stub of a vector makes. -/
def handedBy (code : Callee → Cpu → Cpu) (v : Fin 20) (entry : Cpu) : List Handed :=
  (calls code exceptionStubs[v] entry).map fun (_, c) => handed c

/-- The context that lies eight bytes above the registers saved by `pushal`. -/
def shifted (c : Cpu) (w0 w1 : UInt32) : IsrContext :=
  { eax := c.gpr .ebp
    ecx := c.gpr .esp
    edx := c.gpr .ebx
    ebx := c.gpr .edx
    esp := c.gpr .ecx
    ebp := c.gpr .eax
    esi := w0
    edi := w1 }

/-- `lea 8(%esp), %eax` and the pushes of the arguments. -/
def passArguments (vector errorCode : UInt32) (c : Cpu) : Cpu :=
  [c.gpr .esp + 8, errorCode, vector].foldl Cpu.push (c.set .eax (c.gpr .esp + 8))

/-- The call that follows `pushal` and the pushes of the arguments. -/
lemma handed_passArguments (holds : Holds c.mem (c.gpr .esp) (w0 :: w1 :: ws))
    (short : 4 * (8 + (w0 :: w1 :: ws).length + 3) ≤ 2 ^ 32) (vector errorCode : UInt32) :
    handed (passArguments vector errorCode c.pushal) = ⟨vector, errorCode, shifted c w0 w1⟩ := by
  obtain ⟨saved, -⟩ := pushal_holds holds (by omega)
  generalize c.pushal = d at saved ⊢
  have esp : (d.set .eax (d.gpr .esp + 8)).gpr .esp = d.gpr .esp := gpr_set_ne (by decide)
  obtain ⟨args, addr, -⟩ := pushes_holds (c := d.set .eax (d.gpr .esp + 8)) [d.gpr .esp + 8, errorCode, vector]
    (by rw [esp]; exact saved) (by simp only [List.length_cons, List.length_nil] at short ⊢; omega)
  change Holds (passArguments vector errorCode d).mem ((passArguments vector errorCode d).gpr .esp) _ at args
  change (passArguments vector errorCode d).gpr .esp + 12 = _ at addr
  rw [esp] at addr
  generalize passArguments vector errorCode d = e at args addr ⊢
  obtain ⟨arg0, arg1, arg2, -, -, rest⟩ := args
  have at0 : e.stack 0 = vector := by rw [Cpu.stack, UInt32.add_zero, arg0]
  have at4 : e.stack 4 = errorCode := arg1
  have at8 : e.stack 8 = d.gpr .esp + 8 := by
    rw [← arg2, Cpu.stack, UInt32.add_assoc]
    rfl
  -- EDI and ESI lie below the context
  have ctx : isrContext e.mem (e.stack 8) = shifted c w0 w1 := by
    rw [at8, ← addr]
    have above : e.gpr .esp + 12 + 8 = e.gpr .esp + 4 + 4 + 4 + 4 + 4 := by
      simp only [UInt32.add_assoc]
      rfl
    rw [above]
    exact isrContext_spec rest
  rw [handed, at0, at4, ctx]

/-- The words the processor leaves at the top of the stack. -/
lemma exceptionFrame_top (err : Option UInt32) (u : Cpu) :
    ∃ ws, ws.length ≤ 4 ∧ exceptionFrame err u =
      match err with
      | some e => e :: u.eip :: ws
      | none => u.eip :: u.cs :: ws := by
  cases err with
  | none =>
    refine ⟨u.eflags :: if u.cs &&& 3 = 0 then [] else [u.gpr .esp, u.ss], ?_, rfl⟩
    split <;> simp
  | some e =>
    refine ⟨u.cs :: u.eflags :: if u.cs &&& 3 = 0 then [] else [u.gpr .esp, u.ss], ?_, rfl⟩
    split <;> simp

/-- The state the stub of a vector starts in. -/
def entry (esp0 err : UInt32) (v : Fin 20) (u : Cpu) : Cpu := u.exception esp0 (cpuError v err)

/-- The stub of an exception without an error code. -/
lemma calls_exNoerr : calls code (exNoerr vecnum) c = [(.exceptionHandler, passArguments vecnum 0 c.pushal)] := rfl

/-- The part of `EX_ERR` between `pushal` and the call, given the word that is passed as the error code. -/
def passError (vector errorCode : UInt32) (c : Cpu) : Cpu :=
  let ctx := (c.set .eax (c.gpr .esp + 8)).push (c.gpr .esp + 8)
  ((ctx.set .eax errorCode).push errorCode).push vector

/-- The stub of an exception with one. -/
lemma calls_exErr : calls code (exErr vecnum) c = [(.exceptionHandler, passError vecnum
    (((c.pushal.set .eax (c.pushal.gpr .esp + 8)).push (c.pushal.gpr .esp + 8)).stack 32) c.pushal)] := by
  let reload (d : Cpu) : Cpu := d.set .eax (d.stack 32)
  let context (d : Cpu) : Cpu := d.set .eax (d.gpr .esp + 8)
  let pushEax (d : Cpu) : Cpu := d.push (d.gpr .eax)
  have steps : calls code (exErr vecnum) c =
      [(.exceptionHandler, (pushEax (reload (pushEax (context (reload c.pushal))))).push vecnum)] := rfl
  -- the first load of the error code is overwritten by the context pointer
  have twice : ∀ d : Cpu, context (reload d) = d.set .eax (d.gpr .esp + 8) := by
    intro d
    show (d.set .eax (d.stack 32)).set .eax ((d.set .eax (d.stack 32)).gpr .esp + 8) = _
    rw [gpr_set_ne (by decide), Cpu.set, Cpu.set, Function.update_idem]
    rfl
  have pushed : ∀ (d : Cpu) (x : UInt32), pushEax (d.set .eax x) = (d.set .eax x).push x := by
    intro d x
    show (d.set .eax x).push ((d.set .eax x).gpr .eax) = _
    rw [gpr_set]
  rw [steps, twice, pushed]
  show [(Callee.exceptionHandler, (pushEax (Cpu.set _ .eax _)).push vecnum)] = _
  rw [pushed]
  rfl

/-- The error code is read back at the offset that it had before the context pointer was pushed, where EAX lies by
    then. -/
lemma stack_errorCode (holds : Holds c.mem (c.gpr .esp) ws) (short : 4 * (8 + ws.length + 3) ≤ 2 ^ 32) :
    ((c.pushal.set .eax (c.pushal.gpr .esp + 8)).push (c.pushal.gpr .esp + 8)).stack 32 = c.gpr .eax := by
  obtain ⟨saved, -⟩ := pushal_holds holds (by omega)
  generalize c.pushal = d at saved ⊢
  have esp : (d.set .eax (d.gpr .esp + 8)).gpr .esp = d.gpr .esp := gpr_set_ne (by decide)
  have pushed := saved.store (v := d.gpr .esp + 8) (by simp only [List.length_cons]; omega)
  obtain ⟨-, -, -, -, -, -, -, -, eax, -⟩ := pushed
  rw [← eax, Cpu.stack, gpr_push, esp]
  simp only [UInt32.add_assoc]
  change (d.mem.store32 ((d.set .eax (d.gpr .esp + 8)).gpr .esp - 4) (d.gpr .esp + 8)).load32 _ = _
  rw [esp]
  rfl

/-- Only the stack counts for what a call is handed. -/
lemma handed_congr {d : Cpu} (mem : c.mem = d.mem) (esp : c.gpr .esp = d.gpr .esp) : handed c = handed d := by
  rw [handed, handed, Cpu.stack, Cpu.stack, Cpu.stack, Cpu.stack, Cpu.stack, Cpu.stack, mem, esp]

lemma push_congr {d : Cpu} (mem : c.mem = d.mem) (esp : c.gpr .esp = d.gpr .esp) (w : UInt32) :
    (c.push w).mem = (d.push w).mem ∧ (c.push w).gpr .esp = (d.push w).gpr .esp := by
  refine ⟨?_, ?_⟩
  · show c.mem.store32 (c.gpr .esp - 4) w = d.mem.store32 (d.gpr .esp - 4) w
    rw [mem, esp]
  · rw [gpr_push, gpr_push, esp]

lemma handed_passError (vector errorCode : UInt32) :
    handed (passError vector errorCode c) = handed (passArguments vector errorCode c) := by
  let ctx : Cpu := (c.set .eax (c.gpr .esp + 8)).push (c.gpr .esp + 8)
  have esp : (ctx.set .eax errorCode).gpr .esp = ctx.gpr .esp := gpr_set_ne (by decide)
  obtain ⟨mem1, esp1⟩ := push_congr (c := ctx.set .eax errorCode) (d := ctx) rfl esp errorCode
  obtain ⟨mem2, esp2⟩ := push_congr mem1 esp1 vector
  exact handed_congr mem2 esp2

/-- The stub of each vector is the macro of its kind. -/
lemma exceptionStubs_get (v : Fin 20) : exceptionStubs[v] =
    if pushesErrorCode v then exErr (UInt32.ofNat v) else exNoerr (UInt32.ofNat v) := by
  fin_cases v <;> rfl

/-- The two words above the registers that `pushal` saves. -/
def above (err : UInt32) (v : Fin 20) (u : Cpu) : UInt32 × UInt32 :=
  if pushesErrorCode v then (err, u.eip) else (u.eip, u.cs)

/-- What `exception_handler` is called with: the right vector, the EAX of the fault as its error code, and each
    register under the name of another. -/
theorem handed_spec : handedBy code v (entry esp0 err v u) =
    [{ vector := UInt32.ofNat v
       errorCode := if pushesErrorCode v then u.gpr .eax else 0
       ctx := shifted (entry esp0 err v u) (above err v u).1 (above err v u).2 }] := by
  obtain ⟨frame, -, regs⟩ := exception_spec (u := u) esp0 (cpuError v err)
  obtain ⟨ws, few, eq⟩ := exceptionFrame_top (cpuError v err) u
  rw [eq] at frame
  change Holds (entry esp0 err v u).mem ((entry esp0 err v u).gpr .esp) _ at frame
  have eax : (entry esp0 err v u).gpr .eax = u.gpr .eax := regs .eax (by decide)
  rw [handedBy, exceptionStubs_get]
  cases coded : pushesErrorCode v with
  | false =>
    simp only [cpuError, coded, Bool.false_eq_true, if_false] at frame
    simp only [above, coded, Bool.false_eq_true, if_false]
    rw [calls_exNoerr, List.map_singleton,
      handed_passArguments frame (by simp only [List.length_cons]; omega)]
  | true =>
    simp only [cpuError, coded, if_true] at frame
    simp only [above, coded, if_true]
    have short : 4 * (8 + (err :: u.eip :: ws).length + 3) ≤ 2 ^ 32 := by
      simp only [List.length_cons]
      omega
    rw [calls_exErr, List.map_singleton, handed_passError, stack_errorCode frame short,
      handed_passArguments frame short, eax]

/-- The report of an exception, unless the context pointer wraps to the null pointer. -/
theorem report_spec (cr2 : UInt32) {f : Callee} (made : (f, c) ∈ calls code exceptionStubs[v] (entry esp0 err v u))
    (ctx : c.stack 8 ≠ 0) : exceptionHandler cr2 c.mem (c.stack 0) (c.stack 4) (c.stack 8) =
      { vector := UInt32.ofNat v
        errorCode := if pushesErrorCode v then u.gpr .eax else 0
        cr2 := if UInt32.ofNat v = 14 then cr2 else 0
        registers := some (shifted (entry esp0 err v u) (above err v u).1 (above err v u).2) } := by
  have mem : handed c ∈ handedBy code v (entry esp0 err v u) := List.mem_map_of_mem made
  rw [handed_spec] at mem
  have eq := List.mem_singleton.mp mem
  have vector : c.stack 0 = UInt32.ofNat v := congrArg Handed.vector eq
  have errorCode : c.stack 4 = _ := congrArg Handed.errorCode eq
  have registers : isrContext c.mem (c.stack 8) = _ := congrArg Handed.ctx eq
  rw [exceptionHandler, if_neg ctx, registers, vector, errorCode]

/-! ## What the processor had at the fault. -/

/-- `exception_handler` is called once, with the vector, the error code of the processor, or 0, and the registers at the
    fault. -/
structure Reported (code : Callee → Cpu → Cpu) (esp0 err : UInt32) (v : Fin 20) (u : Cpu) (h : Handed) : Prop where
  called : handedBy code v (entry esp0 err v u) = [h]
  vector : h.vector = UInt32.ofNat v
  errorCode : h.errorCode = (cpuError v err).getD 0
  eax : h.ctx.eax = u.gpr .eax
  ecx : h.ctx.ecx = u.gpr .ecx
  edx : h.ctx.edx = u.gpr .edx
  ebx : h.ctx.ebx = u.gpr .ebx
  ebp : h.ctx.ebp = u.gpr .ebp
  esi : h.ctx.esi = u.gpr .esi
  edi : h.ctx.edi = u.gpr .edi

/-- The stack pointer that the processor leaves to the stub. -/
def entryEsp (esp0 err : UInt32) (v : Fin 20) (u : Cpu) : UInt32 :=
  exceptionStack esp0 u - UInt32.ofNat (4 * (exceptionFrame (cpuError v err) u).length)

/-- The registers at the fault hold the same values where the context exchanges them, the words of the processor's
    frame where it takes those for registers, and EAX the error code. -/
structure Coincide (esp0 err : UInt32) (v : Fin 20) (u : Cpu) : Prop where
  eax : u.gpr .eax = u.gpr .ebp
  ecx : u.gpr .ecx = entryEsp esp0 err v u
  ebx : u.gpr .ebx = u.gpr .edx
  esi : u.gpr .esi = (above err v u).1
  edi : u.gpr .edi = (above err v u).2
  errorCode : pushesErrorCode v → u.gpr .eax = err

/-- An exception is reported as it happened exactly when the registers coincide. -/
theorem reported_iff (code : Callee → Cpu → Cpu) (esp0 err : UInt32) (v : Fin 20) (u : Cpu) :
    (∃ h, Reported code esp0 err v u h) ↔ Coincide esp0 err v u := by
  obtain ⟨-, esp, regs⟩ := exception_spec (u := u) esp0 (cpuError v err)
  change (entry esp0 err v u).gpr .esp = entryEsp esp0 err v u at esp
  have reg : ∀ r, r ≠ .esp → (entry esp0 err v u).gpr r = u.gpr r := regs
  constructor
  · intro ⟨h, reported⟩
    have eq := reported.called
    rw [handed_spec] at eq
    have eq := (List.cons.inj eq).1
    subst eq
    refine ⟨?_, ?_, ?_, ?_, ?_, fun coded => ?_⟩
    · rw [← reported.eax]
      exact reg .ebp (by decide)
    · rw [← reported.ecx]
      exact esp
    · rw [← reported.ebx]
      exact reg .edx (by decide)
    · exact reported.esi.symm
    · exact reported.edi.symm
    · have code := reported.errorCode
      simp only [cpuError, coded, if_true] at code
      exact code
  · intro same
    refine ⟨_, handed_spec, rfl, ?_, ?_, ?_, ?_, ?_, ?_, same.esi.symm, same.edi.symm⟩
    · cases coded : pushesErrorCode v with
      | false => simp [cpuError, coded]
      | true => simp [cpuError, coded, same.errorCode coded]
    · exact (reg .ebp (by decide)).trans same.eax.symm
    · exact esp.trans same.ecx.symm
    · exact (reg .ebx (by decide)).trans same.ebx
    · exact (reg .edx (by decide)).trans same.ebx.symm
    · exact (reg .eax (by decide)).trans same.eax

/-- A division by zero in user code: EAX is 1 and EBP is 7. -/
theorem not_reported : ¬ ∃ h, Reported (fun _ c => c) 0x200000 0 0 (userCpu 1 2 3 4 5 6 7) h := by
  intro ⟨h, reported⟩
  have eq := reported.called
  rw [handed_spec] at eq
  obtain ⟨-, -, regs⟩ := exception_spec (u := userCpu 1 2 3 4 5 6 7) 0x200000 (cpuError 0 0)
  have ebp : (entry 0x200000 0 0 (userCpu 1 2 3 4 5 6 7)).gpr .ebp = 7 := regs .ebp (by decide)
  have eax := reported.eax
  rw [← (List.cons.inj eq).1] at eax
  exact absurd (ebp.symm.trans eax) (by decide)

end RetaOS.Exception
