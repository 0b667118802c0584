import RetaOS.Lib.X86

/-!
# System calls

The path of an `int 0x80` from user code: `syscall80_stub` of `isr.S`, `syscall_handler`, which reads the saved
registers through `struct isr_context`, and `syscall_dispatch`, which calls a registered handler. A handler is
any function of its six arguments and the state `σ` of the rest of the kernel. The C functions also report the
handler they call and its arguments, which their results alone do not show.
-/

namespace RetaOS.Syscall
open Lib Lib.X86

variable {σ : Type*}

/-- `MAX_SYSCALLS`. -/
def MAX_SYSCALLS : UInt32 := 256

/-- `struct isr_context`. -/
structure IsrContext where
  eax : UInt32
  ecx : UInt32
  edx : UInt32
  ebx : UInt32
  esp : UInt32
  ebp : UInt32
  esi : UInt32
  edi : UInt32

/-- `*ctx`: the fields in the order of their declaration. -/
def isrContext (m : Memory) (ctx : UInt32) : IsrContext :=
  { eax := m.load32 ctx
    ecx := m.load32 (ctx + 4)
    edx := m.load32 (ctx + 8)
    ebx := m.load32 (ctx + 12)
    esp := m.load32 (ctx + 16)
    ebp := m.load32 (ctx + 20)
    esi := m.load32 (ctx + 24)
    edi := m.load32 (ctx + 28) }

/-- `syscall_handler_t`. -/
abbrev Handler (σ : Type*) := UInt32 → UInt32 → UInt32 → UInt32 → UInt32 → UInt32 → σ → UInt32 × σ

/-- `syscall_table`. -/
abbrev Table (σ : Type*) := Vector (Option (Handler σ)) 256

/-- What a C function on the path returns and does, and the handler call it makes: its number and arguments. -/
structure Outcome (σ : Type*) where
  result : UInt32
  state : σ
  called : Option (UInt32 × List UInt32)

/-- `syscall_register`. -/
def syscallRegister (table : Table σ) (num : UInt32) (handler : Handler σ) : Table σ :=
  if num < MAX_SYSCALLS then table.setIfInBounds num.toNat (some handler) else table

/-- The handler registered under a number. -/
def registered (table : Table σ) (num : UInt32) : Option (Handler σ) := table[num.toNat]?.join

/-- `syscall_dispatch`. -/
def syscallDispatch (table : Table σ) (num arg1 arg2 arg3 arg4 arg5 arg6 : UInt32) (k : σ) : Outcome σ :=
  if num ≥ MAX_SYSCALLS then { result := -1, state := k, called := none }
  else
    match registered table num with
    | none => { result := -1, state := k, called := none }
    | some handler =>
      let (result, state) := handler arg1 arg2 arg3 arg4 arg5 arg6 k
      { result, state, called := some (num, [arg1, arg2, arg3, arg4, arg5, arg6]) }

/-- `syscall_handler`. -/
def syscallHandler (table : Table σ) (m : Memory) (ctx : UInt32) (k : σ) : Outcome σ :=
  let ctx := isrContext m ctx
  syscallDispatch table ctx.eax ctx.ebx ctx.ecx ctx.edx ctx.esi ctx.edi ctx.ebp k

/-- The function `syscall80_stub` calls. -/
inductive Callee where
  | syscallHandler

/-- `syscall80_stub`. -/
def syscall80Stub : List (Instr Callee) :=
  [ .pushal,
    .lea 0 .esp .eax,
    .push .eax,
    .call .syscallHandler,
    .add 4 .esp,
    .store .eax 0 .esp,
    .popal,
    .iret ]

end RetaOS.Syscall
