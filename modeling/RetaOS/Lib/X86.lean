import RetaOS.Lib.Memory
import Mathlib.Logic.Function.Basic

/-!
# 32-bit x86 stubs

Straight-line interrupt stubs of a 32-bit x86 kernel: the general registers, a flat memory with a stack that
grows downward, the privilege-changing entry of an interrupt (`interrupt`), and the instructions stubs are made
of, among them `pushal`, `popal` and `iret`. A call leaves the stub for compiled code, which is a parameter of
the execution; `Cdecl` is what the calling convention promises of such code.

The stack is reasoned about with `Holds m p ws`: the words of `ws` lie in memory from `p` up.
-/

namespace Lib.X86

/-- The general registers. -/
inductive Reg where
  | eax | ecx | edx | ebx | esp | ebp | esi | edi
  deriving DecidableEq, Repr

/-- The processor state a stub sees. -/
structure Cpu where
  gpr : Reg → UInt32
  eip : UInt32
  eflags : UInt32
  cs : UInt32
  ss : UInt32
  mem : Memory

namespace Cpu

/-- Load a register. -/
def set (c : Cpu) (r : Reg) (v : UInt32) : Cpu := { c with gpr := Function.update c.gpr r v }

/-- Push a word. -/
def push (c : Cpu) (v : UInt32) : Cpu :=
  { c.set .esp (c.gpr .esp - 4) with mem := c.mem.store32 (c.gpr .esp - 4) v }

/-- The word `disp` bytes above the stack pointer. -/
def stack (c : Cpu) (disp : UInt32) : UInt32 := c.mem.load32 (c.gpr .esp + disp)

/-- Pop a word into a register. -/
def pop (c : Cpu) (r : Reg) : Cpu := (c.set .esp (c.gpr .esp + 4)).set r (c.stack 0)

/-- Take an interrupt from user code: the processor switches to the stack at `esp0` and saves the state that
    `iret` needs. -/
def interrupt (esp0 : UInt32) (c : Cpu) : Cpu :=
  [c.ss, c.gpr .esp, c.eflags, c.cs, c.eip].foldl push (c.set .esp esp0)

/-- Take an exception. Code at privilege level 0 stays on its stack and saves less than `interrupt` does; an error
    code, where the exception has one, goes below the rest. -/
def exception (esp0 : UInt32) (err : Option UInt32) (c : Cpu) : Cpu :=
  let c := if c.cs &&& 3 = 0 then [c.eflags, c.cs, c.eip].foldl push c else c.interrupt esp0
  err.toList.foldl push c

/-- `pushal`; the stack pointer pushed is the one before the instruction. -/
def pushal (c : Cpu) : Cpu := ([.eax, .ecx, .edx, .ebx, .esp, .ebp, .esi, .edi].map c.gpr).foldl push c

/-- `popal`; the saved stack pointer is skipped. -/
def popal (c : Cpu) : Cpu :=
  let c := [Reg.edi, .esi, .ebp].foldl pop c
  let c := c.set .esp (c.gpr .esp + 4)
  [Reg.ebx, .edx, .ecx, .eax].foldl pop c

/-- `ret`. -/
def ret (c : Cpu) : Cpu := { c.set .esp (c.gpr .esp + 4) with eip := c.stack 0 }

/-- `iret` at privilege level 0; a return to user code takes the stack from the frame too. -/
def iret (c : Cpu) : Cpu :=
  let ret := { c with eip := c.stack 0, cs := c.stack 4, eflags := c.stack 8 }
  if c.stack 4 &&& 3 = 0 then ret.set .esp (c.gpr .esp + 12)
  else { ret.set .esp (c.stack 12) with ss := c.stack 16 }

end Cpu

/-- The instructions of a stub, over the functions `F` that it calls. -/
inductive Instr (F : Type*) where
  | pushal
  | popal
  | push (r : Reg)
  | pushImm (imm : UInt32)
  | lea (disp : UInt32) (base dst : Reg)
  | load (disp : UInt32) (base dst : Reg)
  | store (src : Reg) (disp : UInt32) (base : Reg)
  | add (imm : UInt32) (dst : Reg)
  | call (f : F)
  | iret

variable {F : Type*}

/-- Execute one instruction; `code f` is a whole call of `f`, from the `call` to the instruction after it. -/
def step (code : F → Cpu → Cpu) (c : Cpu) : Instr F → Cpu
  | .pushal => c.pushal
  | .popal => c.popal
  | .push r => c.push (c.gpr r)
  | .pushImm imm => c.push imm
  | .lea disp base dst => c.set dst (c.gpr base + disp)
  | .load disp base dst => c.set dst (c.mem.load32 (c.gpr base + disp))
  | .store src disp base => { c with mem := c.mem.store32 (c.gpr base + disp) (c.gpr src) }
  | .add imm dst => c.set dst (c.gpr dst + imm)
  | .call f => code f c
  | .iret => c.iret

/-- Execute a stub. -/
def exec (code : F → Cpu → Cpu) (is : List (Instr F)) (c : Cpu) : Cpu := is.foldl (step code) c

/-- The calls a stub makes, each with the state it is made in. -/
def calls (code : F → Cpu → Cpu) : List (Instr F) → Cpu → List (F × Cpu)
  | [], _ => []
  | .call f :: is, c => (f, c) :: calls code is (code f c)
  | i :: is, c => calls code is (step code c i)

/-- What the cdecl convention promises of the code of a function that takes `n` words of arguments, on a stack
    that ends at `top`: the result is in `eax`, the other registers but `ecx` and `edx` are kept, and so is the
    stack above the arguments. -/
structure Cdecl (n top : Nat) (f : Cpu → UInt32) (code : Cpu → Cpu) : Prop where
  result : ∀ c, (code c).gpr .eax = f c
  saved : ∀ c, ∀ r ∈ [Reg.ebx, .esp, .ebp, .esi, .edi], (code c).gpr r = c.gpr r
  frame : ∀ (c : Cpu) (x : UInt32), (c.gpr .esp).toNat + 4 * n ≤ x.toNat → x.toNat < top →
    (code c).mem x = c.mem x

/-! ## The stack. -/

/-- The words of `ws` lie in memory from `p` up. -/
def Holds (m : Memory) : UInt32 → List UInt32 → Prop
  | _, [] => True
  | p, w :: ws => m.load32 p = w ∧ Holds m (p + 4) ws

variable {c : Cpu} {m m' : Memory} {p v w : UInt32} {ws ws' : List UInt32} {r r' : Reg}

@[simp] lemma gpr_set : (c.set r v).gpr r = v := Function.update_self ..

lemma gpr_set_ne (h : r' ≠ r) : (c.set r v).gpr r' = c.gpr r' := Function.update_of_ne h ..

@[simp] lemma gpr_push : (c.push v).gpr .esp = c.gpr .esp - 4 := by
  show (c.set .esp (c.gpr .esp - 4)).gpr .esp = _
  exact gpr_set

lemma gpr_push_ne (h : r ≠ .esp) : (c.push v).gpr r = c.gpr r := by
  show (c.set .esp (c.gpr .esp - 4)).gpr r = _
  exact gpr_set_ne h

@[simp] lemma mem_set : (c.set r v).mem = c.mem := rfl

/-- The stack holds the same words in memories that agree on them. -/
lemma Holds.congr (h : Holds m p ws) (fits : p.toNat + 4 * ws.length ≤ 2 ^ 32)
    (same : ∀ x : UInt32, p.toNat ≤ x.toNat → x.toNat < p.toNat + 4 * ws.length → m' x = m x) :
    Holds m' p ws := by
  induction ws generalizing p with
  | nil => trivial
  | cons w ws ih =>
    rw [List.length_cons] at fits same
    refine ⟨?_, ?_⟩
    · rw [← h.1]
      refine Memory.load32_congr fun i hi => ?_
      have addr := toNat_add_ofNat (a := p) (n := i) (by omega)
      exact same _ (by omega) (by omega)
    · cases ws with
      | nil => trivial
      | cons w' ws =>
        rw [List.length_cons] at fits same
        have addr : (p + 4).toNat = p.toNat + 4 := toNat_add_ofNat (n := 4) (by omega)
        refine ih h.2 ?_ fun x lo hi => same x (by omega) ?_
        · rw [List.length_cons]
          omega
        · rw [List.length_cons] at hi
          omega

/-- The same for a stack that may wrap around the end of memory. -/
lemma Holds.congr_bytes (h : Holds m p ws)
    (same : ∀ i < 4 * ws.length, m' (p + UInt32.ofNat i) = m (p + UInt32.ofNat i)) : Holds m' p ws := by
  induction ws generalizing p with
  | nil => trivial
  | cons w ws ih =>
    rw [List.length_cons] at same
    refine ⟨?_, ih h.2 fun i hi => ?_⟩
    · rw [← h.1]
      exact Memory.load32_congr fun i hi => same i (by omega)
    · have shift : p + 4 + UInt32.ofNat i = p + UInt32.ofNat (4 + i) := by
        rw [UInt32.ofNat_add, UInt32.add_assoc]
        rfl
      rw [shift]
      exact same _ (by omega)

/-- A word stored below a stack extends it, unless the stack fills the memory. -/
lemma Holds.store (h : Holds m p ws) (short : 4 * (ws.length + 1) ≤ 2 ^ 32) :
    Holds (m.store32 (p - 4) v) (p - 4) (v :: ws) := by
  refine ⟨Memory.load32_store32, ?_⟩
  rw [UInt32.sub_add_cancel]
  refine h.congr_bytes fun i hi => Memory.storeBytes_outside ?_
  have shift : p + UInt32.ofNat i = p - 4 + UInt32.ofNat (4 + i) := by
    rw [UInt32.ofNat_add, ← UInt32.add_assoc]
    congr 1
    exact (UInt32.sub_add_cancel p 4).symm
  rw [shift, add_sub_toNat (by omega), toBytes_length]
  omega

/-- Storing over the first word of a stack. -/
lemma Holds.replace (h : Holds m p (w :: ws)) (fits : p.toNat + 4 * (ws.length + 1) ≤ 2 ^ 32) :
    Holds (m.store32 p v) p (v :: ws) := by
  refine ⟨Memory.load32_store32, ?_⟩
  cases ws with
  | nil => trivial
  | cons w' ws =>
    rw [List.length_cons] at fits
    have addr : (p + 4).toNat = p.toNat + 4 := toNat_add_ofNat (n := 4) (by omega)
    refine h.2.congr ?_ fun x lo hi => ?_
    · rw [List.length_cons]
      omega
    · have lt := x.toNat_lt
      exact Memory.storeBytes_apart ⟨by rw [toBytes_length]; omega, by omega, by rw [toBytes_length]; omega⟩

/-- Pushing a list of words, the last one ending lowest. -/
lemma pushes_holds (vs : List UInt32) (h : Holds c.mem (c.gpr .esp) ws)
    (short : 4 * (vs.length + ws.length) ≤ 2 ^ 32) :
    Holds (vs.foldl Cpu.push c).mem ((vs.foldl Cpu.push c).gpr .esp) (vs.reverse ++ ws) ∧
      (vs.foldl Cpu.push c).gpr .esp + UInt32.ofNat (4 * vs.length) = c.gpr .esp ∧
      ∀ r, r ≠ .esp → (vs.foldl Cpu.push c).gpr r = c.gpr r := by
  induction vs generalizing c ws with
  | nil => exact ⟨h, UInt32.add_zero _, fun _ _ => rfl⟩
  | cons v vs ih =>
    rw [List.length_cons] at short
    have h' : Holds (c.push v).mem ((c.push v).gpr .esp) (v :: ws) := by
      rw [gpr_push]
      exact h.store (by omega)
    obtain ⟨holds, addr, others⟩ := ih h' (by rw [List.length_cons]; omega)
    refine ⟨?_, ?_, fun r ne => ?_⟩
    · rw [List.reverse_cons, List.append_assoc]
      exact holds
    · rw [List.foldl_cons, List.length_cons, Nat.mul_succ, UInt32.ofNat_add, ← UInt32.add_assoc, addr, gpr_push]
      exact UInt32.sub_add_cancel _ 4
    · rw [List.foldl_cons, others r ne, gpr_push_ne ne]

/-- The same where the stack does not wrap. -/
lemma pushes_spec (vs : List UInt32) (h : Holds c.mem (c.gpr .esp) ws)
    (room : 4 * vs.length ≤ (c.gpr .esp).toNat) (fits : (c.gpr .esp).toNat + 4 * ws.length ≤ 2 ^ 32) :
    Holds (vs.foldl Cpu.push c).mem ((vs.foldl Cpu.push c).gpr .esp) (vs.reverse ++ ws) ∧
      ((vs.foldl Cpu.push c).gpr .esp).toNat = (c.gpr .esp).toNat - 4 * vs.length ∧
      ∀ r, r ≠ .esp → (vs.foldl Cpu.push c).gpr r = c.gpr r := by
  obtain ⟨holds, addr, others⟩ := pushes_holds vs h (by omega)
  refine ⟨holds, ?_, others⟩
  have lt := (c.gpr .esp).toNat_lt
  have size : (UInt32.ofNat (4 * vs.length)).toNat = 4 * vs.length := toNat_ofNat_lt (by omega)
  have low : (vs.foldl Cpu.push c).gpr .esp = c.gpr .esp - UInt32.ofNat (4 * vs.length) :=
    (UInt32.sub_eq_iff_eq_add.mpr addr.symm).symm
  rw [low, sub_toNat_of_le (by omega), size]

/-- Pushes write below the stack pointer only. -/
lemma pushes_frame (vs : List UInt32) (room : 4 * vs.length ≤ (c.gpr .esp).toNat) {x : UInt32}
    (out : x.toNat + 4 * vs.length < (c.gpr .esp).toNat ∨ (c.gpr .esp).toNat ≤ x.toNat) :
    (vs.foldl Cpu.push c).mem x = c.mem x := by
  induction vs generalizing c with
  | nil => rfl
  | cons v vs ih =>
    rw [List.length_cons] at room out
    have low : (c.gpr .esp - 4).toNat = (c.gpr .esp).toNat - 4 := sub_toNat_of_le (by change 4 ≤ _; omega)
    have esp : ((c.push v).gpr .esp).toNat = (c.gpr .esp).toNat - 4 := by rw [gpr_push, low]
    have top := (c.gpr .esp).toNat_lt
    rw [List.foldl_cons, ih (by omega) (by omega)]
    have apart : Memory.Apart (c.gpr .esp - 4) (toBytes 4 v.toNat).length x 1 := by
      rw [toBytes_length]
      exact ⟨by omega, x.toNat_lt, by omega⟩
    exact Memory.storeBytes_apart apart

/-- `pushal` leaves EDI lowest and EAX highest. -/
lemma pushal_holds (h : Holds c.mem (c.gpr .esp) ws) (short : 4 * (8 + ws.length) ≤ 2 ^ 32) :
    Holds c.pushal.mem (c.pushal.gpr .esp)
      (c.gpr .edi :: c.gpr .esi :: c.gpr .ebp :: c.gpr .esp :: c.gpr .ebx :: c.gpr .edx :: c.gpr .ecx ::
        c.gpr .eax :: ws) ∧
      ∀ r, r ≠ .esp → c.pushal.gpr r = c.gpr r := by
  obtain ⟨holds, -, others⟩ := pushes_holds ([.eax, .ecx, .edx, .ebx, .esp, .ebp, .esi, .edi].map c.gpr) h short
  exact ⟨holds, others⟩

/-- The stack pointer after `pushal`, where the stack does not wrap. -/
lemma pushal_spec (h : Holds c.mem (c.gpr .esp) ws) (room : 32 ≤ (c.gpr .esp).toNat)
    (fits : (c.gpr .esp).toNat + 4 * ws.length ≤ 2 ^ 32) :
    Holds c.pushal.mem (c.pushal.gpr .esp)
      (c.gpr .edi :: c.gpr .esi :: c.gpr .ebp :: c.gpr .esp :: c.gpr .ebx :: c.gpr .edx :: c.gpr .ecx ::
        c.gpr .eax :: ws) ∧
      (c.pushal.gpr .esp).toNat = (c.gpr .esp).toNat - 32 := by
  obtain ⟨holds, addr, -⟩ := pushes_spec ([.eax, .ecx, .edx, .ebx, .esp, .ebp, .esi, .edi].map c.gpr) h room fits
  exact ⟨holds, addr⟩

/-- `popal` takes eight words off the stack, all but the fourth into registers. -/
lemma popal_spec {di si bp sp bx dx cx ax : UInt32}
    (h : Holds c.mem (c.gpr .esp) (di :: si :: bp :: sp :: bx :: dx :: cx :: ax :: ws)) :
    c.popal.gpr .edi = di ∧ c.popal.gpr .esi = si ∧ c.popal.gpr .ebp = bp ∧ c.popal.gpr .ebx = bx ∧
      c.popal.gpr .edx = dx ∧ c.popal.gpr .ecx = cx ∧ c.popal.gpr .eax = ax ∧
      Holds c.popal.mem (c.popal.gpr .esp) ws := by
  obtain ⟨h1, h2, h3, -, h4, h5, h6, h7, rest⟩ := h
  simp only [Cpu.popal, List.foldl_cons, List.foldl_nil, Cpu.pop, Cpu.stack, Cpu.set, ne_eq, reduceCtorEq,
    not_false_eq_true, Function.update_of_ne, Function.update_self, UInt32.add_zero]
  exact ⟨h1, h2, h3, h4, h5, h6, h7, rest⟩

/-- The words the processor pushes for an exception, from the lowest up. -/
def exceptionFrame (err : Option UInt32) (u : Cpu) : List UInt32 :=
  err.toList ++ u.eip :: u.cs :: u.eflags :: if u.cs &&& 3 = 0 then [] else [u.gpr .esp, u.ss]

/-- The end of the stack that they are pushed on. -/
def exceptionStack (esp0 : UInt32) (u : Cpu) : UInt32 := if u.cs &&& 3 = 0 then u.gpr .esp else esp0

/-- The state in which an exception is handled. -/
lemma exception_spec {u : Cpu} (esp0 : UInt32) (err : Option UInt32) :
    Holds (u.exception esp0 err).mem ((u.exception esp0 err).gpr .esp) (exceptionFrame err u) ∧
      (u.exception esp0 err).gpr .esp = exceptionStack esp0 u - UInt32.ofNat (4 * (exceptionFrame err u).length) ∧
      ∀ r, r ≠ .esp → (u.exception esp0 err).gpr r = u.gpr r := by
  -- the frame is pushed on one of two stacks
  have pushed : ∀ (c : Cpu), c.gpr .esp = exceptionStack esp0 u → (∀ r, r ≠ .esp → c.gpr r = u.gpr r) →
      u.exception esp0 err = (exceptionFrame err u).reverse.foldl Cpu.push c →
      Holds (u.exception esp0 err).mem ((u.exception esp0 err).gpr .esp) (exceptionFrame err u) ∧
        (u.exception esp0 err).gpr .esp = exceptionStack esp0 u - UInt32.ofNat (4 * (exceptionFrame err u).length) ∧
        ∀ r, r ≠ .esp → (u.exception esp0 err).gpr r = u.gpr r := by
    intro c esp regs eq
    have short : 4 * ((exceptionFrame err u).reverse.length + ([] : List UInt32).length) ≤ 2 ^ 32 := by
      rw [List.length_reverse, exceptionFrame]
      cases err <;> split <;> simp
    have empty : Holds c.mem (c.gpr .esp) [] := trivial
    obtain ⟨holds, addr, others⟩ := pushes_holds (exceptionFrame err u).reverse empty short
    rw [← eq, List.reverse_reverse, List.append_nil] at holds
    rw [← eq, List.length_reverse, esp] at addr
    refine ⟨holds, (UInt32.sub_eq_iff_eq_add.mpr addr.symm).symm, fun r ne => ?_⟩
    rw [eq, others r ne, regs r ne]
  by_cases kernel : u.cs &&& 3 = 0
  · refine pushed u ?_ (fun _ _ => rfl) ?_
    · rw [exceptionStack, if_pos kernel]
    · have code : err.toList.reverse = err.toList := by cases err <;> rfl
      rw [Cpu.exception, if_pos kernel, exceptionFrame, if_pos kernel, List.reverse_append, List.foldl_append, code]
      congr 1
  · refine pushed (u.set .esp esp0) ?_ (fun r ne => gpr_set_ne ne) ?_
    · rw [exceptionStack, if_neg kernel, gpr_set]
    · have code : err.toList.reverse = err.toList := by cases err <;> rfl
      rw [Cpu.exception, if_neg kernel, exceptionFrame, if_neg kernel, List.reverse_append, List.foldl_append, code]
      congr 1

/-- `iret` to user code takes five words off the stack. -/
lemma iret_spec {ip cs fl sp ss : UInt32} (h : Holds c.mem (c.gpr .esp) (ip :: cs :: fl :: sp :: ss :: ws))
    (user : cs &&& 3 ≠ 0) :
    c.iret.gpr .esp = sp ∧ c.iret.eip = ip ∧ c.iret.cs = cs ∧ c.iret.eflags = fl ∧ c.iret.ss = ss ∧
      ∀ r, r ≠ .esp → c.iret.gpr r = c.gpr r := by
  obtain ⟨h1, h2, h3, h4, h5, -⟩ := h
  have at0 : c.stack 0 = ip := by rw [Cpu.stack, UInt32.add_zero, h1]
  have at4 : c.stack 4 = cs := h2
  have at8 : c.stack 8 = fl := by rw [← h3, Cpu.stack, UInt32.add_assoc]; rfl
  have at12 : c.stack 12 = sp := by rw [← h4, Cpu.stack, UInt32.add_assoc, UInt32.add_assoc]; rfl
  have at16 : c.stack 16 = ss := by
    rw [← h5, Cpu.stack, UInt32.add_assoc, UInt32.add_assoc, UInt32.add_assoc]
    rfl
  have ret : c.iret = { ({ c with eip := ip, cs := cs, eflags := fl } : Cpu).set .esp sp with ss := ss } := by
    rw [Cpu.iret, at0, at4, at8, at12, at16, if_neg user]
  have gpr : c.iret.gpr = Function.update c.gpr .esp sp := by rw [ret]; rfl
  refine ⟨by rw [gpr, Function.update_self], ?_, ?_, ?_, ?_, fun r ne => by rw [gpr, Function.update_of_ne ne]⟩
  · rw [ret]; rfl
  · rw [ret]; rfl
  · rw [ret]; rfl
  · rw [ret]

end Lib.X86
