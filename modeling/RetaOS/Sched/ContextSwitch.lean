import RetaOS.Lib.Runs
import RetaOS.Lib.X86
import Mathlib.Data.Set.Basic

/-!
# Context switches

`switch_threads` of `arch/x86/x86/switch.S`, `setup_thread_stack` of `kernel/thread.c` and `switch_to_thread` of
`kernel/sched.c`, on the processor and its memory. A thread that does not run keeps its registers and the address to
return to in a frame on its own stack, and the field `stack` of its control block points to that frame (`Suspends`).

The threads run in any order: `Switching` is a run of switches with anything the running threads do in between, as long
as they leave the frames of the others alone. `saved` is what each thread that does not run must find when it goes on.
-/

namespace RetaOS.Sched
open Lib X86

/-- The offset of `stack` in `struct thread`. -/
def STACK : UInt32 := 4

/-- `sizeof(thread_t)`. -/
def sizeofThread : Nat := 52

/-- `switch_threads`. -/
def switchThreads (c : Cpu) : Cpu :=
  let c := c.set .eax (c.stack 4)
  let c := c.set .ecx (c.stack 8)
  let c := ([Reg.ebp, .ebx, .esi, .edi].map c.gpr).foldl Cpu.push c
  let c := { c with mem := c.mem.store32 (c.gpr .eax + 4) (c.gpr .esp) }
  let c := c.set .esp (c.mem.load32 (c.gpr .ecx + 4))
  let c := [Reg.edi, .esi, .ebx, .ebp].foldl Cpu.pop c
  c.ret

/-- `*--stack_top = w`, over the memory and `stack_top`. -/
def pushWord (s : Memory × UInt32) (w : UInt32) : Memory × UInt32 := (s.1.store32 (s.2 - 4) w, s.2 - 4)

/-- `stack_top` before anything is pushed. -/
def stackTop (m : Memory) (thread : UInt32) : UInt32 := (m.load32 (thread + 8) + m.load32 (thread + 12)) &&& ~~~0xF

/-- `setup_thread_stack`. -/
def setupThreadStack (m : Memory) (threadEntry thread : UInt32) : Memory :=
  let (m, top) := [threadEntry, 0, 0, 0, 0].foldl pushWord (m, stackTop m thread)
  m.store32 (thread + STACK) top

/-- `switch_to_thread`, from the first instruction of its assembly on. -/
def switchToThread (c : Cpu) (thread : UInt32) : Cpu :=
  if thread = 0 then c
  else
    let c := c.set .esp (c.mem.load32 (thread + STACK))
    let c := c.pop .edi
    let c := c.pop .esi
    let c := c.pop .ebx
    let c := c.pop .ebp
    c.ret

/-! ## Threads and their stacks. -/

/-- The addresses of the control blocks, and the stack of each thread from `low` to below `high`; no two of them
    overlap. -/
structure Stacks where
  threads : Set UInt32
  low : UInt32 → Nat
  high : UInt32 → Nat
  nonnull : 0 ∉ threads
  high_lt : ∀ t ∈ threads, high t < 2 ^ 32
  block_le : ∀ t ∈ threads, t.toNat + sizeofThread ≤ 2 ^ 32
  disjoint : ∀ t ∈ threads, ∀ u ∈ threads, t ≠ u → high t ≤ low u ∨ high u ≤ low t
  blocks : ∀ t ∈ threads, ∀ u ∈ threads, t ≠ u → t.toNat + sizeofThread ≤ u.toNat ∨ u.toNat + sizeofThread ≤ t.toNat
  apart : ∀ t ∈ threads, ∀ u ∈ threads, t.toNat + sizeofThread ≤ low u ∨ high u ≤ t.toNat

/-- What a thread goes on with. -/
structure Context where
  ebp : UInt32
  ebx : UInt32
  esi : UInt32
  edi : UInt32
  esp : UInt32
  eip : UInt32

/-- The context that a processor runs in. -/
def contextOf (c : Cpu) : Context := ⟨c.gpr .ebp, c.gpr .ebx, c.gpr .esi, c.gpr .edi, c.gpr .esp, c.eip⟩

/-- The context behind a call, at the first instruction of the function called. -/
def callContext (c : Cpu) : Context := contextOf c.ret

/-- The context that a fresh thread starts in. -/
def freshContext (m : Memory) (threadEntry thread : UInt32) : Context :=
  ⟨0, 0, 0, 0, stackTop m thread, threadEntry⟩

/-- The thread `t` has its context in a frame on its stack. -/
structure Suspends (S : Stacks) (m : Memory) (t : UInt32) (ctx : Context) : Prop where
  thread : t ∈ S.threads
  frame : Holds m (m.load32 (t + STACK)) [ctx.edi, ctx.esi, ctx.ebx, ctx.ebp, ctx.eip]
  esp : ctx.esp = m.load32 (t + STACK) + 20
  low : S.low t ≤ (m.load32 (t + STACK)).toNat
  high : (m.load32 (t + STACK)).toNat + 20 ≤ S.high t

/-- The addresses of the frame of `t`, and of the field that points to it. -/
def Reserved (m : Memory) (t x : UInt32) : Prop :=
  ((t + STACK).toNat ≤ x.toNat ∧ x.toNat < (t + STACK).toNat + 4) ∨
    ((m.load32 (t + STACK)).toNat ≤ x.toNat ∧ x.toNat < (m.load32 (t + STACK)).toNat + 20)

/-! ## Switching. -/

/-- The processor, the thread that runs on it, and the contexts of the threads that do not run. -/
structure Switching where
  cpu : Cpu
  running : Option UInt32
  saved : UInt32 → Option Context

/-- What happens: the running thread changes the state of the processor to `cpu`, prepares a thread, calls
    `switch_threads`, or leaves for a thread through `switch_to_thread`. -/
inductive SwitchOp where
  | work (cpu : Cpu)
  | setupThreadStack (thread : UInt32)
  | switchThreads (src dst : UInt32)
  | switchToThread (thread : UInt32)

namespace SwitchOp

/-- One step. A thread that is left keeps the context that its call returns to. -/
def step (threadEntry : UInt32) (w : Switching) : SwitchOp → Switching
  | work cpu => { w with cpu }
  | setupThreadStack t =>
    { w with
      cpu := { w.cpu with mem := Sched.setupThreadStack w.cpu.mem threadEntry t }
      saved := Function.update w.saved t (some (freshContext w.cpu.mem threadEntry t)) }
  | switchThreads src dst =>
    { cpu := Sched.switchThreads w.cpu
      running := some dst
      saved := Function.update (Function.update w.saved src (some (callContext w.cpu))) dst none }
  | switchToThread t =>
    { cpu := Sched.switchToThread w.cpu t
      running := some t
      saved := Function.update w.saved t none }

/-- The running thread leaves the frames of the others alone, prepares threads on their own stacks, switches from itself
    to a thread that was prepared or switched out, with the arguments and the return address on its stack, or starts
    such a thread. -/
def Legal (S : Stacks) (w : Switching) : SwitchOp → Prop
  | work cpu => ∀ t ctx, w.saved t = some ctx → ∀ x, Reserved w.cpu.mem t x → cpu.mem x = w.cpu.mem x
  | setupThreadStack t =>
    t ∈ S.threads ∧ (w.cpu.mem.load32 (t + 8)).toNat = S.low t ∧
      S.low t + (w.cpu.mem.load32 (t + 12)).toNat = S.high t ∧ S.low t + 20 ≤ roundDown 16 (S.high t)
  | switchThreads src dst =>
    w.running = some src ∧ w.cpu.stack 4 = src ∧ w.cpu.stack 8 = dst ∧
      S.low src + 16 ≤ (w.cpu.gpr .esp).toNat ∧ (w.cpu.gpr .esp).toNat + 4 ≤ S.high src ∧
      (dst = src ∨ w.saved dst ≠ none)
  | switchToThread t => w.saved t ≠ none

end SwitchOp

/-- What holds between the steps. -/
structure Switching.Inv (S : Stacks) (w : Switching) : Prop where
  running : ∀ t, w.running = some t → t ∈ S.threads
  saved : ∀ t ctx, w.saved t = some ctx → Suspends S w.cpu.mem t ctx

variable {S : Stacks} {m m' : Memory} {c : Cpu} {t u p : UInt32} {ctx : Context} {w : Switching}

/-! ## Frames. -/

/-- A frame stays while its bytes and the pointer to it do. -/
lemma Suspends.congr (h : Suspends S m t ctx) (same : ∀ x, Reserved m t x → m' x = m x) : Suspends S m' t ctx := by
  have block := S.block_le t h.thread
  have top := S.high_lt t h.thread
  have high := h.high
  have field : (t + STACK).toNat = t.toNat + 4 := toNat_add_ofNat (n := 4) (by rw [sizeofThread] at block; omega)
  rw [sizeofThread] at block
  have pointer : m'.load32 (t + STACK) = m.load32 (t + STACK) := by
    refine Memory.load32_congr fun i hi => same _ (.inl ?_)
    rw [toNat_add_ofNat (by omega)]
    omega
  refine ⟨h.thread, ?_, by rw [pointer, h.esp], by rw [pointer]; exact h.low, by rw [pointer]; exact high⟩
  rw [pointer]
  refine h.frame.congr ?_ fun x lo hi => same x (.inr ⟨lo, hi⟩)
  change _ + 20 ≤ _
  omega

/-- The pops and the return of both switches. -/
lemma pops_spec {di si bx bp ip : UInt32} (h : Holds c.mem (c.gpr .esp) [di, si, bx, bp, ip]) :
    contextOf ([Reg.edi, .esi, .ebx, .ebp].foldl Cpu.pop c).ret = ⟨bp, bx, si, di, c.gpr .esp + 20, ip⟩ := by
  obtain ⟨h1, h2, h3, h4, h5, -⟩ := h
  have esp : c.gpr .esp + 4 + 4 + 4 + 4 + 4 = c.gpr .esp + 20 := by
    rw [UInt32.add_assoc, UInt32.add_assoc, UInt32.add_assoc, UInt32.add_assoc]
    rfl
  simp only [contextOf, Cpu.ret, List.foldl_cons, List.foldl_nil, Cpu.pop, Cpu.stack, Cpu.set, ne_eq, reduceCtorEq,
    not_false_eq_true, Function.update_of_ne, Function.update_self, UInt32.add_zero, h1, h2, h3, h4, h5, esp]

/-- A thread goes on from its frame. -/
lemma Suspends.resume (h : Suspends S c.mem t ctx) :
    contextOf ([Reg.edi, .esi, .ebx, .ebp].foldl Cpu.pop (c.set .esp (c.mem.load32 (t + STACK)))).ret = ctx := by
  have frame : Holds (c.set .esp (c.mem.load32 (t + STACK))).mem ((c.set .esp (c.mem.load32 (t + STACK))).gpr .esp)
      [ctx.edi, ctx.esi, ctx.ebx, ctx.ebp, ctx.eip] := by
    rw [gpr_set]
    exact h.frame
  rw [pops_spec frame, gpr_set, ← h.esp]

/-- `switch_to_thread` goes on with the context of the thread. -/
lemma switchToThread_context (h : Suspends S c.mem t ctx) : contextOf (switchToThread c t) = ctx := by
  have nonnull : t ≠ 0 := fun eq => S.nonnull (eq ▸ h.thread)
  rw [switchToThread, if_neg nonnull]
  exact h.resume

/-- The registers on the stack, as `switch_threads` pushes them. -/
def pushRegisters (c : Cpu) : Cpu := ([Reg.ebp, .ebx, .esi, .edi].map c.gpr).foldl Cpu.push c

/-- The frame that is pushed on top of a return address. -/
lemma pushRegisters_spec (room : 16 ≤ (c.gpr .esp).toNat) (fits : (c.gpr .esp).toNat + 4 ≤ 2 ^ 32) :
    Holds (pushRegisters c).mem ((pushRegisters c).gpr .esp)
      [c.gpr .edi, c.gpr .esi, c.gpr .ebx, c.gpr .ebp, c.stack 0] ∧
      ((pushRegisters c).gpr .esp).toNat = (c.gpr .esp).toNat - 16 ∧
      (∀ r, r ≠ .esp → (pushRegisters c).gpr r = c.gpr r) ∧
      ∀ x : UInt32, x.toNat + 16 < (c.gpr .esp).toNat ∨ (c.gpr .esp).toNat ≤ x.toNat →
        (pushRegisters c).mem x = c.mem x := by
  have ret : Holds c.mem (c.gpr .esp) [c.stack 0] := by
    refine ⟨?_, trivial⟩
    rw [Cpu.stack, UInt32.add_zero]
  obtain ⟨holds, low, others⟩ := pushes_spec ([Reg.ebp, .ebx, .esi, .edi].map c.gpr) ret room fits
  refine ⟨holds, low, others, fun x out => ?_⟩
  exact pushes_frame ([Reg.ebp, .ebx, .esi, .edi].map c.gpr) room out

/-- `switch_threads` with its two arguments in registers. -/
def loadArguments (c : Cpu) : Cpu := (c.set .eax (c.stack 4)).set .ecx (c.stack 8)

/-- The memory behind `switch_threads`. -/
def switchedMemory (c : Cpu) : Memory :=
  (pushRegisters (loadArguments c)).mem.store32 (c.stack 4 + STACK) ((pushRegisters (loadArguments c)).gpr .esp)

/-- `switch_threads` goes on from the frame of the thread it is to switch to. -/
lemma switchThreads_eq (room : 16 ≤ (c.gpr .esp).toNat) (fits : (c.gpr .esp).toNat + 4 ≤ 2 ^ 32) :
    ∃ c' : Cpu, c'.mem = switchedMemory c ∧ switchThreads c =
      ([Reg.edi, .esi, .ebx, .ebp].foldl Cpu.pop (c'.set .esp (c'.mem.load32 (c.stack 8 + STACK)))).ret := by
  obtain ⟨-, -, others, -⟩ := pushRegisters_spec (c := loadArguments c) room fits
  have src : (pushRegisters (loadArguments c)).gpr .eax = c.stack 4 := by
    rw [others .eax (by decide), loadArguments, gpr_set_ne (by decide), gpr_set]
  have dst : (pushRegisters (loadArguments c)).gpr .ecx = c.stack 8 := by
    rw [others .ecx (by decide), loadArguments, gpr_set]
  refine ⟨{ pushRegisters (loadArguments c) with mem := switchedMemory c }, rfl, ?_⟩
  rw [switchedMemory, ← src, ← dst]
  rfl

lemma switchThreads_mem (room : 16 ≤ (c.gpr .esp).toNat) (fits : (c.gpr .esp).toNat + 4 ≤ 2 ^ 32) :
    (switchThreads c).mem = switchedMemory c := by
  obtain ⟨c', mem, eq⟩ := switchThreads_eq room fits
  rw [eq, ← mem]
  rfl

/-- `switch_threads` writes the frame of the thread it switches from, and the pointer to it. -/
lemma switchedMemory_frame (room : 16 ≤ (c.gpr .esp).toNat) (fits : (c.gpr .esp).toNat + 4 ≤ 2 ^ 32)
    (block : (c.stack 4 + STACK).toNat + 4 ≤ 2 ^ 32) {x : UInt32}
    (stack : x.toNat + 16 < (c.gpr .esp).toNat ∨ (c.gpr .esp).toNat ≤ x.toNat)
    (field : x.toNat < (c.stack 4 + STACK).toNat ∨ (c.stack 4 + STACK).toNat + 4 ≤ x.toNat) :
    switchedMemory c x = c.mem x := by
  obtain ⟨-, -, -, same⟩ := pushRegisters_spec (c := loadArguments c) room fits
  rw [switchedMemory, Memory.store32, Memory.storeBytes_apart]
  · exact same x stack
  · rw [toBytes_length]
    exact ⟨block, x.toNat_lt, by omega⟩

/-- The thread that is switched from keeps the context behind its call. -/
lemma switchedMemory_suspends (thread : c.stack 4 ∈ S.threads) (room : S.low (c.stack 4) + 16 ≤ (c.gpr .esp).toNat)
    (top : (c.gpr .esp).toNat + 4 ≤ S.high (c.stack 4)) :
    Suspends S (switchedMemory c) (c.stack 4) (callContext c) := by
  have fits := S.high_lt _ thread
  have block := S.block_le _ thread
  have apart := S.apart _ thread _ thread
  rw [sizeofThread] at block apart
  have field : (c.stack 4 + STACK).toNat = (c.stack 4).toNat + 4 := toNat_add_ofNat (n := 4) (by omega)
  obtain ⟨holds, low, -, -⟩ := pushRegisters_spec (c := loadArguments c) (by change 16 ≤ (c.gpr .esp).toNat; omega)
    (by change (c.gpr .esp).toNat + 4 ≤ _; omega)
  change ((pushRegisters (loadArguments c)).gpr .esp).toNat = (c.gpr .esp).toNat - 16 at low
  have pointer : (switchedMemory c).load32 (c.stack 4 + STACK) = (pushRegisters (loadArguments c)).gpr .esp :=
    Memory.load32_store32
  refine ⟨thread, ?_, ?_, ?_, ?_⟩
  · rw [pointer]
    refine holds.congr ?_ fun x lo hi => ?_
    · change _ + 20 ≤ _
      omega
    · change x.toNat < _ + 20 at hi
      refine Memory.storeBytes_apart ?_
      rw [toBytes_length]
      exact ⟨by omega, x.toNat_lt, by omega⟩
  · rw [pointer, ← UInt32.toNat_inj, UInt32.toNat_add, low]
    change (c.gpr .esp + 4).toNat = _
    rw [UInt32.toNat_add]
    change (_ + 4) % _ = (_ + 20) % _
    omega
  · rw [pointer, low]
    omega
  · rw [pointer, low]
    omega

/-! ## Fresh threads. -/

/-- Words stored below `stack_top` are pushed as by a processor. -/
lemma pushWords_eq (ws : List UInt32) :
    ws.foldl pushWord (c.mem, c.gpr .esp) = ((ws.foldl Cpu.push c).mem, (ws.foldl Cpu.push c).gpr .esp) := by
  induction ws generalizing c with
  | nil => rfl
  | cons w ws ih =>
    have first : pushWord (c.mem, c.gpr .esp) w = ((c.push w).mem, (c.push w).gpr .esp) := by
      rw [gpr_push]
      rfl
    rw [List.foldl_cons, List.foldl_cons, first, ih]

/-- The frame that `setup_thread_stack` makes, where there is room. -/
lemma freshFrame_spec (m : Memory) (threadEntry : UInt32) (room : 20 ≤ p.toNat) :
    let s := [threadEntry, 0, 0, 0, 0].foldl pushWord (m, p)
    Holds s.1 s.2 [0, 0, 0, 0, threadEntry] ∧ s.2.toNat = p.toNat - 20 ∧
      ∀ x : UInt32, x.toNat + 20 < p.toNat ∨ p.toNat ≤ x.toNat → s.1 x = m x := by
  have spec := pushes_spec (c := ⟨fun _ => p, 0, 0, 0, 0, m⟩) [threadEntry, 0, 0, 0, 0]
    (show Holds m p [] from trivial) room (Nat.le_of_lt p.toNat_lt)
  obtain ⟨holds, low, -⟩ := spec
  have eq := pushWords_eq (c := ⟨fun _ => p, 0, 0, 0, 0, m⟩) [threadEntry, 0, 0, 0, 0]
  change [threadEntry, 0, 0, 0, 0].foldl pushWord (m, p) = _ at eq
  rw [eq]
  refine ⟨holds, low, fun x out => ?_⟩
  exact pushes_frame (c := ⟨fun _ => p, 0, 0, 0, 0, m⟩) [threadEntry, 0, 0, 0, 0] room out

/-- The stack is taken from its end, aligned to 16 bytes. -/
lemma stackTop_toNat (thread : t ∈ S.threads) (base : (m.load32 (t + 8)).toNat = S.low t)
    (size : S.low t + (m.load32 (t + 12)).toNat = S.high t) : (stackTop m t).toNat = roundDown 16 (S.high t) := by
  have top := S.high_lt t thread
  have sum : (m.load32 (t + 8) + m.load32 (t + 12)).toNat = S.high t := by
    rw [toNat_add_of_lt (by omega), base, size]
  have aligned := toNat_and_not_mask (m.load32 (t + 8) + m.load32 (t + 12)) (k := 4) (by decide)
  rw [sum] at aligned
  exact aligned

/-- A fresh thread has the registers 0 and is to start at `thread_entry`; nothing is written but its frame and the
    pointer to it. -/
lemma setupThreadStack_spec (threadEntry : UInt32) (thread : t ∈ S.threads)
    (base : (m.load32 (t + 8)).toNat = S.low t) (size : S.low t + (m.load32 (t + 12)).toNat = S.high t)
    (room : S.low t + 20 ≤ roundDown 16 (S.high t)) :
    Suspends S (setupThreadStack m threadEntry t) t (freshContext m threadEntry t) ∧
      ∀ x : UInt32, x.toNat < S.low t ∨ S.high t ≤ x.toNat →
        x.toNat < (t + STACK).toNat ∨ (t + STACK).toNat + 4 ≤ x.toNat → setupThreadStack m threadEntry t x = m x := by
  have fits := S.high_lt _ thread
  have block := S.block_le _ thread
  have apart := S.apart _ thread _ thread
  rw [sizeofThread] at block apart
  have field : (t + STACK).toNat = t.toNat + 4 := toNat_add_ofNat (n := 4) (by omega)
  have top := stackTop_toNat thread base size
  have aligned : roundDown 16 (S.high t) ≤ S.high t := Nat.div_mul_le_self _ _
  obtain ⟨holds, low, same⟩ := freshFrame_spec m threadEntry (p := stackTop m t) (by omega)
  rw [setupThreadStack]
  generalize [threadEntry, 0, 0, 0, 0].foldl pushWord (m, stackTop m t) = s at holds low same
  dsimp only
  have pointer : (s.1.store32 (t + STACK) s.2).load32 (t + STACK) = s.2 := Memory.load32_store32
  refine ⟨⟨thread, ?_, ?_, ?_, ?_⟩, fun x stack out => ?_⟩
  · rw [pointer]
    refine holds.congr ?_ fun x lo hi => ?_
    · change _ + 20 ≤ _
      omega
    · change x.toNat < _ + 20 at hi
      refine Memory.storeBytes_apart ?_
      rw [toBytes_length]
      exact ⟨by omega, x.toNat_lt, by omega⟩
  · rw [pointer, ← UInt32.toNat_inj, UInt32.toNat_add, low]
    change (stackTop m t).toNat = (_ + 20) % _
    omega
  · rw [pointer, low]
    omega
  · rw [pointer, low]
    omega
  · rw [Memory.store32, Memory.storeBytes_apart]
    · exact same x (by omega)
    · rw [toBytes_length]
      exact ⟨by omega, x.toNat_lt, by omega⟩

/-! ## Runs. -/

/-- Nothing in the stack or the control block of another thread is reserved for a thread. -/
lemma Suspends.reserved (h : Suspends S m t ctx) (other : u ∈ S.threads) (ne : u ≠ t) {x : UInt32}
    (res : Reserved m t x) : (x.toNat < S.low u ∨ S.high u ≤ x.toNat) ∧
      (x.toNat < (u + STACK).toNat ∨ (u + STACK).toNat + 4 ≤ x.toNat) := by
  have low := h.low
  have high := h.high
  have block := S.block_le _ h.thread
  have block' := S.block_le _ other
  have disjoint := S.disjoint _ h.thread _ other ne.symm
  have blocks := S.blocks _ h.thread _ other ne.symm
  have apart := S.apart _ h.thread _ other
  have apart' := S.apart _ other _ h.thread
  rw [sizeofThread] at block block' blocks apart apart'
  have field : (t + STACK).toNat = t.toNat + 4 := toNat_add_ofNat (n := 4) (by omega)
  have field' : (u + STACK).toNat = u.toNat + 4 := toNat_add_ofNat (n := 4) (by omega)
  rw [Reserved] at res
  omega

/-- The thread that is switched to is one of the threads. -/
lemma Switching.Inv.dst_mem (inv : w.Inv S) (thread : t ∈ S.threads) (prepared : u = t ∨ w.saved u ≠ none) :
    u ∈ S.threads := by
  obtain rfl | saved := prepared
  · exact thread
  · obtain ⟨ctx, saved⟩ := Option.ne_none_iff_exists'.mp saved
    exact (inv.saved u ctx saved).thread

/-- In the memory behind `switch_threads`, all threads but the running one have their frames, and so has that one for
    the context behind its call. -/
lemma Switching.Inv.switched {src dst : UInt32} (inv : w.Inv S) (legal : (SwitchOp.switchThreads src dst).Legal S w) :
    (switchThreads w.cpu).mem = switchedMemory w.cpu ∧
      ∀ u ctx, Function.update w.saved src (some (callContext w.cpu)) u = some ctx →
        Suspends S (switchedMemory w.cpu) u ctx := by
  obtain ⟨running, rfl, rfl, room, top, -⟩ := legal
  have thread := inv.running _ running
  have block := S.block_le _ thread
  have high := S.high_lt _ thread
  rw [sizeofThread] at block
  have field : (w.cpu.stack 4 + STACK).toNat = (w.cpu.stack 4).toNat + 4 := toNat_add_ofNat (n := 4) (by omega)
  refine ⟨switchThreads_mem (by omega) (by omega), fun u ctx saved => ?_⟩
  by_cases eq : u = w.cpu.stack 4
  · subst eq
    cases (Function.update_self ..).symm.trans saved
    exact switchedMemory_suspends thread room top
  · have kept : w.saved u = some ctx := (Function.update_of_ne eq ..).symm.trans saved
    refine (inv.saved u ctx kept).congr fun x res => ?_
    obtain ⟨stack, block'⟩ := (inv.saved u ctx kept).reserved thread (Ne.symm eq) res
    exact switchedMemory_frame (by omega) (by omega) (by omega) (by omega) block'

/-- Every step keeps the frames of the threads that do not run. -/
theorem Switching.Inv.step (inv : w.Inv S) (threadEntry : UInt32) (op : SwitchOp) (legal : op.Legal S w) :
    (op.step threadEntry w).Inv S := by
  cases op with
  | work cpu => exact ⟨inv.running, fun t ctx saved => (inv.saved t ctx saved).congr (legal t ctx saved)⟩
  | setupThreadStack t =>
    obtain ⟨thread, base, size, room⟩ := legal
    obtain ⟨fresh, same⟩ := setupThreadStack_spec threadEntry thread base size room
    refine ⟨inv.running, fun u ctx saved => ?_⟩
    by_cases eq : u = t
    · subst eq
      cases (Function.update_self ..).symm.trans saved
      exact fresh
    · have kept : w.saved u = some ctx := (Function.update_of_ne eq ..).symm.trans saved
      refine (inv.saved u ctx kept).congr fun x res => ?_
      obtain ⟨stack, field⟩ := (inv.saved u ctx kept).reserved thread (Ne.symm eq) res
      exact same x stack field
  | switchThreads src dst =>
    obtain ⟨mem, suspended⟩ := inv.switched legal
    refine ⟨fun u eq => ?_, fun u ctx saved => ?_⟩
    · cases eq
      exact inv.dst_mem (inv.running _ legal.1) legal.2.2.2.2.2
    · change Suspends S (switchThreads w.cpu).mem u ctx
      have ne : u ≠ dst := by
        rintro rfl
        cases (Function.update_self ..).symm.trans saved
      rw [mem]
      exact suspended u ctx ((Function.update_of_ne ne ..).symm.trans saved)
  | switchToThread t =>
    have same : (switchToThread w.cpu t).mem = w.cpu.mem := by
      rw [switchToThread]
      split
      · rfl
      · rfl
    refine ⟨fun u eq => ?_, fun u ctx saved => ?_⟩
    · cases eq
      obtain ⟨ctx, saved⟩ := Option.ne_none_iff_exists'.mp legal
      exact (inv.saved t ctx saved).thread
    · change Suspends S (switchToThread w.cpu t).mem u ctx
      rw [same]
      have ne : u ≠ t := by
        rintro rfl
        cases (Function.update_self ..).symm.trans saved
      exact inv.saved u ctx ((Function.update_of_ne ne ..).symm.trans saved)

/-- The invariant in every state of a run. -/
lemma Switching.Inv.run {w₀ : Switching} {threadEntry : UInt32} (inv : w₀.Inv S)
    (run : Runs (fun w op => some (SwitchOp.step threadEntry w op)) (fun w op => op.Legal S w) w₀ w) : w.Inv S := by
  refine run.invariant inv fun w op w' inv legal step => ?_
  cases step
  exact inv.step threadEntry op legal

/-- The stack pointer of a thread is above its frame, on its stack. -/
lemma Suspends.onStack (h : Suspends S m t ctx) : S.low t + 20 ≤ ctx.esp.toNat ∧ ctx.esp.toNat ≤ S.high t := by
  have top := S.high_lt t h.thread
  have high := h.high
  have low := h.low
  have esp : ctx.esp.toNat = (m.load32 (t + STACK)).toNat + 20 := by
    rw [h.esp]
    exact toNat_add_ofNat (n := 20) (by omega)
  omega

/-- In every run of the threads: a thread that is switched to goes on with the registers, the stack pointer and the
    return address of the call with which it was last switched out, or as a fresh thread at `thread_entry` on its own
    stack; and `switch_to_thread` goes on with the same context. -/
theorem context_switches (S : Stacks) (threadEntry : UInt32) (w₀ w : Switching) (none : ∀ t, w₀.saved t = none)
    (thread : ∀ t, w₀.running = some t → t ∈ S.threads)
    (run : Runs (fun w op => some (SwitchOp.step threadEntry w op)) (fun w op => op.Legal S w) w₀ w) :
    (∀ src dst, (SwitchOp.switchThreads src dst).Legal S w →
      ∃ ctx, Function.update w.saved src (some (callContext w.cpu)) dst = some ctx ∧
        contextOf (switchThreads w.cpu) = ctx ∧ S.low dst < ctx.esp.toNat ∧ ctx.esp.toNat ≤ S.high dst) ∧
    ∀ t, (SwitchOp.switchToThread t).Legal S w →
      ∃ ctx, w.saved t = some ctx ∧ contextOf (switchToThread w.cpu t) = ctx ∧ S.low t < ctx.esp.toNat ∧
        ctx.esp.toNat ≤ S.high t := by
  have inv : w.Inv S := Switching.Inv.run ⟨thread, fun t ctx saved => nomatch (none t).symm.trans saved⟩ run
  constructor
  · intro src dst legal
    obtain ⟨-, suspended⟩ := inv.switched legal
    obtain ⟨running, rfl, rfl, room, top, prepared⟩ := legal
    have some_ : Function.update w.saved (w.cpu.stack 4) (some (callContext w.cpu)) (w.cpu.stack 8) ≠ Option.none := by
      by_cases eq : w.cpu.stack 8 = w.cpu.stack 4
      · rw [eq, Function.update_self]
        exact Option.some_ne_none _
      · rw [Function.update_of_ne eq]
        exact prepared.resolve_left eq
    obtain ⟨ctx, saved⟩ := Option.ne_none_iff_exists'.mp some_
    have suspends := suspended _ ctx saved
    have high := S.high_lt _ (inv.running _ running)
    obtain ⟨c', mem, eq⟩ := switchThreads_eq (c := w.cpu) (by omega) (by omega)
    rw [← mem] at suspends
    obtain ⟨low, high⟩ := suspends.onStack
    refine ⟨ctx, saved, ?_, by omega, high⟩
    rw [eq]
    exact suspends.resume
  · intro t legal
    obtain ⟨ctx, saved⟩ := Option.ne_none_iff_exists'.mp legal
    have suspends := inv.saved t ctx saved
    obtain ⟨low, high⟩ := suspends.onStack
    exact ⟨ctx, saved, switchToThread_context suspends, by omega, high⟩

/-- Two threads with stacks of 16 KB. -/
def twoStacks : Stacks where
  threads := {0x1000, 0x2000}
  low t := if t = 0x1000 then 0x10000 else 0x20000
  high t := if t = 0x1000 then 0x14000 else 0x24000
  nonnull := by rintro (h | h) <;> cases h
  high_lt := by rintro _ (rfl | rfl) <;> decide
  block_le := by rintro _ (rfl | rfl) <;> decide
  disjoint := by rintro _ (rfl | rfl) _ (rfl | rfl) <;> decide
  blocks := by rintro _ (rfl | rfl) _ (rfl | rfl) <;> decide
  apart := by rintro _ (rfl | rfl) _ (rfl | rfl) <;> decide

/-- The first thread runs and is to call `switch_threads` for the second one, which is not prepared yet. -/
def firstRuns : Switching where
  cpu :=
    { gpr := fun r => if r = .esp then 0x13000 else 7
      eip := 0
      eflags := 0
      cs := 8
      ss := 16
      mem := [((0x13000 : UInt32), (0x500 : UInt32)), (0x13004, 0x1000), (0x13008, 0x2000), (0x2008, 0x20000),
        (0x200C, 0x4000)].foldl (fun (m : Memory) s => m.store32 s.1 s.2) fun _ => 0 }
  running := some 0x1000
  saved := fun _ => none

/-- A thread is prepared and switched to. -/
theorem context_switches_two :
    let w := SwitchOp.step 0x600 firstRuns (.setupThreadStack 0x2000)
    contextOf (switchThreads w.cpu) = ⟨0, 0, 0, 0, 0x24000, 0x600⟩ ∧
      contextOf (switchToThread w.cpu 0x2000) = ⟨0, 0, 0, 0, 0x24000, 0x600⟩ := by
  intro w
  have second : (0x2000 : UInt32) ∈ twoStacks.threads := .inr rfl
  have prepared : w.saved 0x2000 = some ⟨0, 0, 0, 0, 0x24000, 0x600⟩ := by
    have top : stackTop firstRuns.cpu.mem 0x2000 = 0x24000 := by decide
    change some (freshContext firstRuns.cpu.mem 0x600 0x2000) = _
    rw [freshContext, top]
  have running : ∀ t, firstRuns.running = some t → t ∈ twoStacks.threads := fun _ eq => .inl (Option.some.inj eq).symm
  have legal : (SwitchOp.setupThreadStack 0x2000).Legal twoStacks firstRuns := ⟨second, by decide, by decide, by decide⟩
  have run : Runs (fun w op => some (SwitchOp.step 0x600 w op)) (fun w op => op.Legal twoStacks w) firstRuns w :=
    Runs.refl.step legal rfl
  obtain ⟨switched, left⟩ := context_switches twoStacks 0x600 firstRuns w (fun _ => rfl) running run
  constructor
  · obtain ⟨ctx, saved, eq, -⟩ := switched 0x1000 0x2000
      ⟨rfl, by decide, by decide, by decide, by decide, .inr (by rw [prepared]; exact Option.some_ne_none _)⟩
    rw [eq]
    refine Option.some.inj (saved.symm.trans ?_)
    exact prepared
  · obtain ⟨ctx, saved, eq, -⟩ := left 0x2000 (by
      change w.saved 0x2000 ≠ none
      rw [prepared]
      exact Option.some_ne_none _)
    rw [eq]
    exact Option.some.inj (saved.symm.trans prepared)

end RetaOS.Sched
