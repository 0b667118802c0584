import RetaOS.Syscall.Defs

/-!
# The system call stub

What happens between `int 0x80` and the return to user code, for any compiled `syscall_handler` that follows
the calling convention. `pushal` leaves EDI at the lowest address and `struct isr_context` has `eax` first, so
the handler number is taken from EDI, the arguments from other registers than the ABI names, and the result
goes to the slot `popal` loads EDI from. `stub_spec` states this for every register content, and
`serviced_iff` when it coincides with the ABI.
-/

namespace RetaOS.Syscall
open Lib Lib.X86

variable {σ : Type*} {table : Table σ} {k : σ} {h : Handler σ} {m : Memory} {p esp0 : UInt32} {u : Cpu}
  {code : Callee → Cpu → Cpu} {ws : List UInt32}

/-- The handler calls behind the calls of a stub: the argument is the word the stub pushed last. -/
def handlerCalls (table : Table σ) (k : σ) (cs : List (Callee × Cpu)) : List (UInt32 × List UInt32) :=
  cs.filterMap fun (_, c) => (syscallHandler table c.mem (c.stack 0) k).called

lemma handlerCalls_singleton {c : Cpu} : handlerCalls table k [(.syscallHandler, c)] =
    (syscallHandler table c.mem (c.stack 0) k).called.toList := by
  cases called : (syscallHandler table c.mem (c.stack 0) k).called with
  | none => simp [handlerCalls, called]
  | some call => simp [handlerCalls, called]

/-- The context read from a stack. -/
lemma isrContext_spec {w0 w1 w2 w3 w4 w5 w6 w7 : UInt32}
    (holds : Holds m p (w0 :: w1 :: w2 :: w3 :: w4 :: w5 :: w6 :: w7 :: ws)) :
    isrContext m p = ⟨w0, w1, w2, w3, w4, w5, w6, w7⟩ := by
  obtain ⟨h0, h1, h2, h3, h4, h5, h6, h7, -⟩ := holds
  rw [isrContext, ← h0, ← h1, ← h2, ← h3, ← h4, ← h5, ← h6, ← h7]
  simp only [UInt32.add_assoc]
  rfl

/-- What `syscall_handler` does with the context it reads. -/
lemma syscallHandler_of_context (table : Table σ) (k : σ) {ctx : IsrContext} (eq : isrContext m p = ctx) :
    syscallHandler table m p k =
      syscallDispatch table ctx.eax ctx.ebx ctx.ecx ctx.edx ctx.esi ctx.edi ctx.ebp k := by
  rw [← eq, syscallHandler]

/-- `int 0x80` leaves the frame for `iret` on the kernel stack. -/
lemma interrupt_spec (room : 64 ≤ esp0.toNat) :
    Holds (u.interrupt esp0).mem ((u.interrupt esp0).gpr .esp) [u.eip, u.cs, u.eflags, u.gpr .esp, u.ss] ∧
      ((u.interrupt esp0).gpr .esp).toNat = esp0.toNat - 20 ∧
      ∀ r, r ≠ .esp → (u.interrupt esp0).gpr r = u.gpr r := by
  have lt := esp0.toNat_lt
  have esp : (u.set .esp esp0).gpr .esp = esp0 := gpr_set
  have empty : Holds (u.set .esp esp0).mem ((u.set .esp esp0).gpr .esp) [] := trivial
  obtain ⟨holds, addr, others⟩ := pushes_spec [u.ss, u.gpr .esp, u.eflags, u.cs, u.eip] empty
    (by rw [esp]; simp; omega) (by rw [esp]; simp; omega)
  rw [esp] at addr
  refine ⟨holds, addr, fun r ne => ?_⟩
  exact (others r ne).trans (gpr_set_ne ne)

/-- `lea 0(%esp), %eax` and `pushl %eax`. -/
def passContext (c : Cpu) : Cpu := (c.set .eax (c.gpr .esp + 0)).push (c.gpr .esp + 0)

/-- The state in which the stub calls `syscall_handler`. -/
def callState (esp0 : UInt32) (u : Cpu) : Cpu := passContext (u.interrupt esp0).pushal

/-- The context the stub passes on, field by field: the registers it holds are not those of its names. -/
def passedContext (esp0 : UInt32) (u : Cpu) : IsrContext :=
  { eax := u.gpr .edi
    ecx := u.gpr .esi
    edx := u.gpr .ebp
    ebx := esp0 - 20
    esp := u.gpr .ebx
    ebp := u.gpr .edx
    esi := u.gpr .ecx
    edi := u.gpr .eax }

/-- The saved registers above EDI, and the interrupt frame. -/
def savedRest (esp0 : UInt32) (u : Cpu) : List UInt32 :=
  [u.gpr .esi, u.gpr .ebp, esp0 - 20, u.gpr .ebx, u.gpr .edx, u.gpr .ecx, u.gpr .eax,
    u.eip, u.cs, u.eflags, u.gpr .esp, u.ss]

/-- At the call, the saved registers and the interrupt frame lie above the argument, which points to them. -/
lemma callState_spec (room : 64 ≤ esp0.toNat) :
    ((callState esp0 u).gpr .esp).toNat = esp0.toNat - 56 ∧
      isrContext (callState esp0 u).mem ((callState esp0 u).stack 0) = passedContext esp0 u ∧
      Holds (callState esp0 u).mem ((callState esp0 u).gpr .esp + 4) (u.gpr .edi :: savedRest esp0 u) := by
  have lt := esp0.toNat_lt
  obtain ⟨frame, addr0, regs0⟩ := interrupt_spec (u := u) room
  have esp0' : (u.interrupt esp0).gpr .esp = esp0 - 20 := by
    apply UInt32.toNat_inj.mp
    rw [addr0, sub_toNat_of_le (show 20 ≤ _ by omega)]
    rfl
  obtain ⟨saved, addr1⟩ := pushal_spec frame (by omega) (by simp; omega)
  rw [regs0 .edi (by decide), regs0 .esi (by decide), regs0 .ebp (by decide), regs0 .ebx (by decide),
    regs0 .edx (by decide), regs0 .ecx (by decide), regs0 .eax (by decide), esp0'] at saved
  rw [callState]
  generalize (u.interrupt esp0).pushal = c at saved addr1 ⊢
  -- the argument goes below the saved registers
  have esp : (c.set .eax (c.gpr .esp + 0)).gpr .esp = c.gpr .esp := gpr_set_ne (by decide)
  obtain ⟨holds, addr2, -⟩ := pushes_spec (c := c.set .eax (c.gpr .esp + 0)) [c.gpr .esp + 0]
    (by rw [esp]; exact saved) (by rw [esp]; simp; omega) (by rw [esp]; simp; omega)
  change Holds (passContext c).mem ((passContext c).gpr .esp) _ at holds
  change ((passContext c).gpr .esp).toNat = _ at addr2
  have below : (passContext c).gpr .esp + 4 = c.gpr .esp := by
    rw [passContext, gpr_push, esp, UInt32.sub_add_cancel]
  obtain ⟨arg, rest⟩ := holds
  refine ⟨?_, ?_, rest⟩
  · rw [addr2, esp, List.length_singleton]
    omega
  · rw [below] at rest
    rw [Cpu.stack, UInt32.add_zero, arg, UInt32.add_zero]
    exact isrContext_spec rest

/-- The stub makes one call, and returns to user code with every register as it was but EDI, which holds the
    result of `syscall_handler`. -/
lemma stub_spec (room : 64 ≤ esp0.toNat) (user : u.cs &&& 3 = 3) {f : Cpu → UInt32}
    (cc : Cdecl 1 esp0.toNat f (code .syscallHandler)) :
    calls code syscall80Stub (u.interrupt esp0) = [(.syscallHandler, callState esp0 u)] ∧
      (exec code syscall80Stub (u.interrupt esp0)).gpr .edi = f (callState esp0 u) ∧
      ∀ r, r ≠ .edi → (exec code syscall80Stub (u.interrupt esp0)).gpr r = u.gpr r := by
  have lt := esp0.toNat_lt
  obtain ⟨addr, -, holds⟩ := callState_spec (u := u) room
  refine ⟨rfl, ?_⟩
  have run : exec code syscall80Stub (u.interrupt esp0) =
      (step code (step code (code .syscallHandler (callState esp0 u)) (.add 4 .esp)) (.store .eax 0 .esp)).popal.iret :=
    rfl
  rw [run]
  generalize callState esp0 u = c at addr holds ⊢
  generalize hd : code .syscallHandler c = d
  have espd : d.gpr .esp = c.gpr .esp := by rw [← hd, cc.saved c .esp (by simp)]
  have eax : d.gpr .eax = f c := by rw [← hd, cc.result c]
  have addr4 : (c.gpr .esp + 4).toNat = esp0.toNat - 52 := by
    rw [show c.gpr .esp + 4 = c.gpr .esp + UInt32.ofNat 4 from rfl, toNat_add_ofNat (by omega), addr]
    omega
  -- the callee has left the saved registers and the interrupt frame alone
  have kept : Holds d.mem (c.gpr .esp + 4) (u.gpr .edi :: savedRest esp0 u) := by
    refine holds.congr (by rw [addr4]; simp [savedRest]; omega) fun x lo hi => ?_
    simp only [savedRest, List.length_cons, List.length_nil] at hi
    rw [← hd]
    exact cc.frame c x (by omega) (by omega)
  have esp1 : (step code d (.add 4 .esp)).gpr .esp = c.gpr .esp + 4 := by
    rw [← espd]
    exact gpr_set
  have eax1 : (step code d (.add 4 .esp)).gpr .eax = f c := by
    rw [← eax]
    exact gpr_set_ne (by decide)
  have mem1 : (step code d (.add 4 .esp)).mem = d.mem := rfl
  generalize step code d (.add 4 .esp) = e at esp1 eax1 mem1 ⊢
  have stored : Holds (step code e (.store .eax 0 .esp)).mem ((step code e (.store .eax 0 .esp)).gpr .esp)
      (f c :: savedRest esp0 u) := by
    change Holds (e.mem.store32 (e.gpr .esp + 0) (e.gpr .eax)) (e.gpr .esp) _
    rw [UInt32.add_zero, esp1, eax1, mem1]
    exact kept.replace (by rw [addr4]; simp [savedRest]; omega)
  generalize step code e (.store .eax 0 .esp) = g at stored ⊢
  obtain ⟨edi, esi, ebp, ebx, edx, ecx, eax, frame⟩ := popal_spec stored
  obtain ⟨esp, -, -, -, -, others⟩ := iret_spec frame (by rw [user]; decide)
  refine ⟨by rw [others .edi (by decide), edi], fun r ne => ?_⟩
  cases r with
  | eax => rw [others .eax (by decide), eax]
  | ecx => rw [others .ecx (by decide), ecx]
  | edx => rw [others .edx (by decide), edx]
  | ebx => rw [others .ebx (by decide), ebx]
  | esp => exact esp
  | ebp => rw [others .ebp (by decide), ebp]
  | esi => rw [others .esi (by decide), esi]
  | edi => exact absurd rfl ne

/-! ## The register ABI. -/

/-- The system call does what the ABI says: the handler numbered EAX is called with EBX, ECX, EDX, ESI, EDI and
    EBP, its result is in EAX afterwards, and the other registers are as they were. -/
structure Serviced (code : Callee → Cpu → Cpu) (table : Table σ) (k : σ) (esp0 : UInt32) (u : Cpu)
    (h : Handler σ) : Prop where
  called : handlerCalls table k (calls code syscall80Stub (u.interrupt esp0)) =
    [(u.gpr .eax, [u.gpr .ebx, u.gpr .ecx, u.gpr .edx, u.gpr .esi, u.gpr .edi, u.gpr .ebp])]
  result : (exec code syscall80Stub (u.interrupt esp0)).gpr .eax =
    (h (u.gpr .ebx) (u.gpr .ecx) (u.gpr .edx) (u.gpr .esi) (u.gpr .edi) (u.gpr .ebp) k).1
  kept : ∀ r, r ≠ .eax → (exec code syscall80Stub (u.interrupt esp0)).gpr r = u.gpr r

/-- The compiled `syscall_handler`, over a handler table and the state of the kernel. -/
def Compiled (code : Callee → Cpu → Cpu) (table : Table σ) (k : σ) (esp0 : UInt32) : Prop :=
  Cdecl 1 esp0.toNat (fun c => (syscallHandler table c.mem (c.stack 0) k).result) (code .syscallHandler)

/-- A registered number is below the size of the table. -/
lemma registered_lt {num : UInt32} (reg : registered table num = some h) : ¬ num ≥ MAX_SYSCALLS := by
  intro ge
  rw [ge_iff_le, UInt32.le_iff_toNat_le] at ge
  change 256 ≤ num.toNat at ge
  rw [registered, Vector.getElem?_eq_none (by omega)] at reg
  cases reg

/-- A system call with a registered number in EAX is serviced by the ABI exactly when the registers `pushal`
    exchanges hold the same values and the handler returns its own number. -/
theorem serviced_iff (room : 64 ≤ esp0.toNat) (user : u.cs &&& 3 = 3)
    (reg : registered table (u.gpr .eax) = some h) (cc : Compiled code table k esp0) :
    Serviced code table k esp0 u h ↔
      u.gpr .edi = u.gpr .eax ∧ u.gpr .esi = u.gpr .ecx ∧ u.gpr .ebp = u.gpr .edx ∧ u.gpr .ebx = esp0 - 20 ∧
        (h (u.gpr .ebx) (u.gpr .ecx) (u.gpr .edx) (u.gpr .esi) (u.gpr .edi) (u.gpr .ebp) k).1 = u.gpr .eax := by
  obtain ⟨-, ctx, -⟩ := callState_spec (u := u) room
  obtain ⟨one, edi, others⟩ := stub_spec room user cc
  have outcome := syscallHandler_of_context table k ctx
  have made : handlerCalls table k (calls code syscall80Stub (u.interrupt esp0)) =
      (syscallDispatch table (u.gpr .edi) (esp0 - 20) (u.gpr .esi) (u.gpr .ebp) (u.gpr .ecx) (u.gpr .eax)
        (u.gpr .edx) k).called.toList := by
    rw [one, handlerCalls_singleton, outcome]
    rfl
  constructor
  · rintro ⟨called, result, kept⟩
    -- the call made has the number and arguments of the context passed
    rw [made, syscallDispatch] at called
    split at called
    · cases called
    · split at called
      · cases called
      · obtain ⟨num, args⟩ := Prod.mk.inj (List.cons.inj called).1
        simp only [List.cons.injEq, and_true] at args
        obtain ⟨ebx, esi, ebp, -, -, -⟩ := args
        refine ⟨num, esi, ebp, ebx.symm, ?_⟩
        rw [← result, others .eax (by decide)]
  · rintro ⟨hedi, hesi, hebp, hebx, ret⟩
    have dispatch : syscallDispatch table (u.gpr .edi) (esp0 - 20) (u.gpr .esi) (u.gpr .ebp) (u.gpr .ecx)
        (u.gpr .eax) (u.gpr .edx) k =
        { result := (h (u.gpr .ebx) (u.gpr .ecx) (u.gpr .edx) (u.gpr .esi) (u.gpr .edi) (u.gpr .ebp) k).1
          state := (h (u.gpr .ebx) (u.gpr .ecx) (u.gpr .edx) (u.gpr .esi) (u.gpr .edi) (u.gpr .ebp) k).2
          called := some (u.gpr .eax,
            [u.gpr .ebx, u.gpr .ecx, u.gpr .edx, u.gpr .esi, u.gpr .edi, u.gpr .ebp]) } := by
      rw [hedi, hesi, hebp, ← hebx, syscallDispatch, if_neg (registered_lt reg), reg]
    refine ⟨?_, ?_, fun r ne => ?_⟩
    · rw [made, dispatch]
      rfl
    · rw [others .eax (by decide), ret]
    · by_cases eq : r = .edi
      · rw [eq, edi, outcome]
        change (syscallDispatch table (u.gpr .edi) (esp0 - 20) (u.gpr .esi) (u.gpr .ebp) (u.gpr .ecx) (u.gpr .eax)
          (u.gpr .edx) k).result = _
        rw [dispatch]
        exact ret.trans hedi.symm
      · exact others r eq

/-- A `syscall_handler` compiled to leave everything but EAX alone. -/
def compiled (table : Table σ) (k : σ) : Callee → Cpu → Cpu :=
  fun _ c => c.set .eax (syscallHandler table c.mem (c.stack 0) k).result

lemma compiled_cdecl : Compiled (compiled table k) table k esp0 := by
  refine ⟨fun c => gpr_set, fun c r mem => gpr_set_ne ?_, fun _ _ _ _ => rfl⟩
  rintro rfl
  simp at mem

/-- A user program at `int 0x80`, with its stack at `0xBFFFF000`. -/
def userCpu (eax ebx ecx edx esi edi ebp : UInt32) : Cpu :=
  { gpr := fun
      | .eax => eax
      | .ecx => ecx
      | .edx => edx
      | .ebx => ebx
      | .esp => 0xBFFFF000
      | .ebp => ebp
      | .esi => esi
      | .edi => edi
    eip := 0x400000
    eflags := 0x202
    cs := 0x1B
    ss := 0x23
    mem := fun _ => 0 }

/-- A table with one handler, number 1, that returns a constant. -/
def oneHandler (result : UInt32) : Table Unit :=
  syscallRegister (Vector.replicate 256 none) 1 fun _ _ _ _ _ _ k => (result, k)

lemma registered_oneHandler {v : UInt32} :
    registered (oneHandler v) 1 = some fun _ _ _ _ _ _ k => (v, k) := by
  rw [registered, oneHandler, syscallRegister, if_pos (by decide), Vector.getElem?_setIfInBounds_self,
    if_pos (by decide)]
  rfl

theorem serviced_exchanged :
    Serviced (compiled (oneHandler 1) ()) (oneHandler 1) () 0x200000
      (userCpu 1 (0x200000 - 20) 2 3 2 1 3) fun _ _ _ _ _ _ k => (1, k) := by
  have room : 64 ≤ (0x200000 : UInt32).toNat := by decide
  have user : (userCpu 1 (0x200000 - 20) 2 3 2 1 3).cs &&& 3 = 3 := by decide
  have code : Compiled (compiled (oneHandler 1) ()) (oneHandler 1) () 0x200000 := compiled_cdecl
  exact (serviced_iff room user registered_oneHandler code).mpr ⟨rfl, rfl, rfl, rfl, rfl⟩

/-- The call of handler 1 with arguments 2 to 7 is not serviced: EAX comes back as 1 and not as the result. -/
theorem not_serviced :
    ¬ Serviced (compiled (oneHandler 42) ()) (oneHandler 42) () 0x200000 (userCpu 1 2 3 4 5 6 7)
      fun _ _ _ _ _ _ k => (42, k) := by
  rintro ⟨-, result, -⟩
  have room : 64 ≤ (0x200000 : UInt32).toNat := by decide
  have user : (userCpu 1 2 3 4 5 6 7).cs &&& 3 = 3 := by decide
  have code : Compiled (compiled (oneHandler 42) ()) (oneHandler 42) () 0x200000 := compiled_cdecl
  obtain ⟨-, -, others⟩ := stub_spec room user code
  rw [others .eax (by decide)] at result
  exact absurd result (by decide)

end RetaOS.Syscall
