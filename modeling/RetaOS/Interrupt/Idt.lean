import RetaOS.Interrupt.Irq
import RetaOS.Lib.Pic
import RetaOS.Lib.Protection

/-!
# From the interrupt line to the handler

What `idt_init` and `irq_init_basic` set up: the gates of the interrupt descriptor table and the interrupt controllers.
A gate is decoded to what was encoded (`gate_gateEntry`), so every vector has the stub that is meant for it, and system
calls are the only gate that user code may use (`idtInit_gate`). Behind `pic_remap` and the unmasking the controllers
let through the timer and the keyboard only, under the vectors of their stubs, and `irq_handler` leaves them as they
were. So whatever lines are raised between the steps of a program, the installed handlers run once for each timer and
keyboard interrupt, and the program does not notice (`irq_delivered`).
-/

namespace RetaOS.Interrupt
open Lib Lib.X86 Lib.Protection

/-! ## The table. -/

/-- `struct idt_entry`. -/
structure IdtEntry where
  baseLo : UInt16
  sel : UInt16
  always0 : UInt8
  flags : UInt8
  baseHi : UInt16

/-- `idt`. -/
abbrev Idt := Vector IdtEntry 256

/-- The entry that `idt_set_gate` fills in. -/
def gateEntry (base : UInt32) (sel : UInt16) (flags : UInt8) : IdtEntry where
  baseLo := (base &&& 0xFFFF).toUInt16
  sel := sel
  always0 := 0
  flags := flags
  baseHi := ((base >>> 16) &&& 0xFFFF).toUInt16

/-- `idt_set_gate`. -/
def idtSetGate (idt : Idt) (num : UInt8) (base : UInt32) (sel : UInt16) (flags : UInt8) : Idt :=
  idt.setIfInBounds num.toNat (gateEntry base sel flags)

/-- The addresses of the stubs: `ex0_stub` to `ex19_stub`, `irq0_stub` to `irq15_stub` and `syscall80_stub`. -/
structure Stubs where
  ex : Nat → UInt32
  irq : Nat → UInt32
  syscall80 : UInt32

/-- `idt_set_gate` for several vectors, one behind the other. -/
def idtSetGates (idt : Idt) (first n : Nat) (base : Nat → UInt32) : Idt :=
  (List.range n).foldl (fun idt i => idtSetGate idt (UInt8.ofNat (first + i)) (base i) 0x08 0x8E) idt

/-- The gates that `idt_init` sets. `idt_load` is left out: its `lidt [eax]` finds the table only if `eax` happens to
    hold what is passed on the stack, and the processor is taken to use this table. -/
def idtInit (stubs : Stubs) (idt : Idt) : Idt :=
  let idt := idtSetGates idt 0 256 fun _ => 0
  let idt := idtSetGates idt 0 20 stubs.ex
  let idt := idtSetGates idt 32 16 stubs.irq
  idtSetGate idt 0x80 stubs.syscall80 0x08 0xEE

/-! ## The ports. -/

/-- `pic_remap`. -/
def picRemap : List (UInt16 × UInt8) :=
  [(0x20, 0x11), (0xA0, 0x11),
    (0x21, 0x20), (0xA1, 0x28),
    (0x21, 0x04), (0xA1, 0x02),
    (0x21, 0x01), (0xA1, 0x01),
    (0x21, 0xFF), (0xA1, 0xFF)]

/-- `pic_unmask_timer_keyboard`. -/
def picUnmaskTimerKeyboard : List (UInt16 × UInt8) := [(0x21, 0xFC), (0xA1, 0xFF)]

/-- The functions that are installed. -/
inductive IrqFn where
  | timerTick
  | keyboardIrqHandler
  deriving DecidableEq

/-- `irq_init_basic`: the handlers, and the bytes written to ports. -/
def irqInitBasic (handlers : Handlers IrqFn) : Handlers IrqFn × List (UInt16 × UInt8) :=
  let handlers := irqInstallHandler handlers 0 (some .timerTick)
  let handlers := irqInstallHandler handlers 1 (some .keyboardIrqHandler)
  let freq : UInt32 := 100
  let div : UInt32 := 1193180 / freq
  let pit : List (UInt16 × UInt8) :=
    [(0x43, 0x36), (0x40, (div &&& 0xFF).toUInt8), (0x40, ((div >>> 8) &&& 0xFF).toUInt8)]
  (handlers, pit ++ picUnmaskTimerKeyboard)

/-! ## The processor. -/

/-- A gate of the table. -/
def IdtEntry.gate (e : IdtEntry) : Gate where
  offset := e.baseHi.toUInt32 <<< 16 ||| e.baseLo.toUInt32
  selector := e.sel
  kind := e.flags &&& 0x0F
  dpl := e.flags >>> 5 &&& 3
  present := e.flags &&& 0x80 ≠ 0

/-- The stub that is meant for a vector. -/
def Stubs.target (stubs : Stubs) (v : Nat) : UInt32 :=
  if v = 0x80 then stubs.syscall80
  else if 32 ≤ v ∧ v < 48 then stubs.irq (v - 32)
  else if v < 20 then stubs.ex v
  else 0

variable {idt : Idt} {stubs : Stubs} {base : Nat → UInt32} {first k v : Nat} {s : Pics}

/-- The address of a gate is that which was put there. -/
lemma gate_gateEntry (base : UInt32) (sel : UInt16) (flags : UInt8) : (gateEntry base sel flags).gate =
    { offset := base
      selector := sel
      kind := flags &&& 0x0F
      dpl := flags >>> 5 &&& 3
      present := flags &&& 0x80 ≠ 0 } := by
  have width := base.toNat_lt
  have offset : (gateEntry base sel flags).baseHi.toUInt32 <<< 16 ||| (gateEntry base sel flags).baseLo.toUInt32 =
      base := by
    apply UInt32.toNat_inj.mp
    have low : (gateEntry base sel flags).baseLo.toUInt32.toNat = base.toNat % 2 ^ 16 := by
      have mask := toNat_and_mask base (k := 16) (by decide)
      rw [gateEntry, UInt16.toNat_toUInt32, UInt32.toNat_toUInt16]
      change (base &&& 0xFFFF).toNat % 2 ^ 16 = _
      change (base &&& 0xFFFF).toNat = _ at mask
      rw [mask]
      omega
    have high : (gateEntry base sel flags).baseHi.toUInt32.toNat = base.toNat / 2 ^ 16 := by
      have mask := toNat_and_mask (base >>> 16) (k := 16) (by decide)
      have shift : (base >>> 16).toNat = base.toNat / 2 ^ 16 := by
        rw [UInt32.toNat_shiftRight]
        exact Nat.shiftRight_eq_div_pow _ 16
      rw [gateEntry, UInt16.toNat_toUInt32, UInt32.toNat_toUInt16]
      change ((base >>> 16) &&& 0xFFFF).toNat % 2 ^ 16 = _
      change ((base >>> 16) &&& 0xFFFF).toNat = _ at mask
      rw [mask, shift]
      omega
    rw [UInt32.toNat_or, UInt32.toNat_shiftLeft, low, high]
    change (base.toNat / 2 ^ 16) <<< 16 % 2 ^ 32 ||| base.toNat % 2 ^ 16 = base.toNat
    rw [Nat.shiftLeft_eq, Nat.mod_eq_of_lt (by omega), Nat.mul_comm, ← Nat.two_pow_add_eq_or_of_lt (by omega)]
    omega
  rw [IdtEntry.gate, offset]
  rfl

/-- Setting a gate leaves the others. -/
lemma idtSetGate_get (num : UInt8) (base : UInt32) (sel : UInt16) (flags : UInt8) :
    (idtSetGate idt num base sel flags)[v]? = if num.toNat = v then some (gateEntry base sel flags) else idt[v]? := by
  have inside : num.toNat < 256 := num.toNat_lt
  rw [idtSetGate, Vector.getElem?_setIfInBounds]
  by_cases same : num.toNat = v
  · rw [if_pos same, if_pos same, if_pos inside]
  · rw [if_neg same, if_neg same]

/-- Several gates that were set. -/
lemma idtSetGates_get (fits : first + k ≤ 256) : (idtSetGates idt first k base)[v]? =
    if first ≤ v ∧ v < first + k then some (gateEntry (base (v - first)) 0x08 0x8E) else idt[v]? := by
  induction k with
  | zero =>
    rw [if_neg (by omega)]
    rfl
  | succ k ih =>
    have last : idtSetGates idt first (k + 1) base =
        idtSetGate (idtSetGates idt first k base) (UInt8.ofNat (first + k)) (base k) 0x08 0x8E := by
      rw [idtSetGates, List.range_succ, List.foldl_concat]
      rfl
    have number : (UInt8.ofNat (first + k)).toNat = first + k := by
      rw [UInt8.toNat_ofNat']
      omega
    rw [last, idtSetGate_get, number, ih (by omega)]
    split_ifs with here inside inside inside
    · rw [show v - first = k by omega]
    · omega
    · rfl
    · omega
    · omega
    · rfl

/-- What `idt_init` puts into the table. -/
lemma idtInit_get (lt : v < 256) : (idtInit stubs idt)[v]? =
    some (gateEntry (stubs.target v) 0x08 (if v = 0x80 then 0xEE else 0x8E)) := by
  have num : (0x80 : UInt8).toNat = 0x80 := rfl
  rw [idtInit, idtSetGate_get, idtSetGates_get (by decide), idtSetGates_get (by decide),
    idtSetGates_get (by decide), num, Stubs.target]
  grind

/-- Every vector has an interrupt gate to its stub, and only the one for system calls is open to user code. -/
lemma idtInit_gate (v : Fin 256) : (idtInit stubs idt)[v].gate =
    { offset := stubs.target v
      selector := 0x08
      kind := 0x0E
      dpl := if v.val = 0x80 then 3 else 0
      present := true } := by
  have entry : some (idtInit stubs idt)[v] = _ := (Vector.getElem?_eq_getElem v.isLt).symm.trans (idtInit_get v.isLt)
  rw [Option.some.inj entry, gate_gateEntry]
  split_ifs <;> rfl

/-! ## Delivery. -/

/-- The address that the processor jumps to for a hardware interrupt. -/
def entry (g : Gate) : Option UInt32 :=
  if g.present ∧ g.kind = 0x0E ∧ g.selector = 0x08 then some g.offset else none

/-- The interrupt stub at an address. -/
def Stubs.irqAt (stubs : Stubs) (a : UInt32) : Option (Fin 16) := (List.finRange 16).find? fun m => stubs.irq m = a

/-- The bytes written to ports. -/
def writes (es : List (Event IrqFn)) : List (UInt16 × UInt8) := es.filterMap fun
  | .outb port value => some (port, value)
  | .handler _ => none

/-- The handlers called. -/
def called (es : List (Event IrqFn)) : List IrqFn := es.filterMap fun
  | .outb _ _ => none
  | .handler h => some h

/-- The machine: the processor, the controllers, and the handlers that have been called. -/
structure Machine where
  cpu : Cpu
  pics : Pics
  log : List IrqFn

/-- What the kernel has set up. -/
structure Setup where
  stubs : Stubs
  idt : Idt
  handlers : Handlers IrqFn
  code : Callee → Cpu → Cpu
  esp0 : UInt32

namespace Setup

/-- A line is raised while the processor takes interrupts. -/
def raise (k : Setup) (s : Machine) (n : Fin 16) : Machine :=
  match s.pics.request n with
  | none => s
  | some (v, pics) =>
    match k.idt[v.toNat]?.bind fun e => (entry e.gate).bind k.stubs.irqAt with
    | none => s
    | some m =>
      let (cpu, events) := service k.code k.handlers k.esp0 m s.cpu
      { cpu := cpu, pics := pics.outbs (writes events), log := s.log ++ called events }

/-- Steps of a program, `none`, and lines raised between them. -/
def run (k : Setup) (P : Program) : List (Option (Fin 16)) → Machine → Machine
  | [], s => s
  | none :: es, s => k.run P es { s with cpu := P.step s.cpu }
  | some n :: es, s => k.run P es (k.raise s n)

end Setup

/-- The machine as it is when interrupts are enabled: `idt_init` and `irq_init_basic` have run. -/
def Setup.boot (stubs : Stubs) (idt : Idt) (handlers : Handlers IrqFn) (code : Callee → Cpu → Cpu) (esp0 : UInt32) :
    Setup where
  stubs := stubs
  idt := idtInit stubs idt
  handlers := (irqInitBasic handlers).1
  code := code
  esp0 := esp0

/-- The controllers then. -/
def bootPics (handlers : Handlers IrqFn) (pics : Pics) : Pics := pics.outbs (picRemap ++ (irqInitBasic handlers).2)

/-- What is called for a line. -/
def answer (n : Fin 16) : List IrqFn := if n = 0 then [.timerTick] else if n = 1 then [.keyboardIrqHandler] else []

variable {handlers : Handlers IrqFn} {code : Callee → Cpu → Cpu} {esp0 : UInt32} {n : Fin 16} {u c : Cpu} {P : Program}
  {pics : Pics} {log : List IrqFn}

/-- Whatever state the controllers were in, lines 0 and 1 are unmasked, and nothing is in service. -/
lemma bootPics_eq : bootPics handlers pics =
    { first := ⟨0x20, 0x04, 0x01, 0xFC, Pic.idle, .mask⟩
      second := ⟨0x28, 0x02, 0x01, 0xFF, Pic.idle, .mask⟩ } := rfl

/-- The other lines wait. -/
lemma bootPics_masked (masked : 2 ≤ n.val) : (bootPics handlers pics).request n = none := by
  rw [bootPics_eq]
  fin_cases n <;> first | rfl | exact absurd masked (by decide)

/-- The vector of a line that is let through. -/
lemma bootPics_request (handlers : Handlers IrqFn) (pics : Pics) (open_ : n.val < 2) :
    ∃ s, (bootPics handlers pics).request n = some (UInt8.ofNat (32 + n), s) := by
  rw [bootPics_eq]
  fin_cases n <;> first | exact ⟨_, rfl⟩ | exact absurd open_ (by decide)

/-- `irq_handler` writes what ends the interrupt. -/
lemma writes_irqHandler (handlers : Handlers IrqFn) (n : Fin 16) :
    writes (irqHandler handlers (UInt8.ofNat n)) = Pics.eoi n := by
  rw [irqHandler]
  generalize handlers[(UInt8.ofNat n).toNat]?.join = h
  fin_cases n <;> cases h <;> rfl

/-- The handlers of the two lines. -/
lemma called_irqHandler (open_ : n.val < 2) :
    called (irqHandler (irqInitBasic handlers).1 (UInt8.ofNat n)) = answer n := by
  have low (i : Fin 16) (h : IrqFn) (at_ : (irqInitBasic handlers).1[i.val]? = some (some h))
      (lt : (UInt8.ofNat i).toNat = i.val) (small : UInt8.ofNat i < 16) :
      called (irqHandler (irqInitBasic handlers).1 (UInt8.ofNat i)) = [h] := by
    rw [irqHandler, if_pos small, lt, at_]
    dsimp only [Option.join_some]
    split <;> rfl
  fin_cases n
  · exact low 0 .timerTick (by simp [irqInitBasic, irqInstallHandler]) rfl (by decide)
  · exact low 1 .keyboardIrqHandler (by simp [irqInitBasic, irqInstallHandler]) rfl (by decide)
  all_goals exact absurd open_ (by decide)

/-- The stub of a line is found where it is. -/
lemma irqAt_irq (distinct : ∀ m m' : Fin 16, stubs.irq m = stubs.irq m' → m = m') (m : Fin 16) :
    stubs.irqAt (stubs.irq m) = some m := by
  have found : (stubs.irqAt (stubs.irq m)).isSome := by
    rw [Stubs.irqAt, List.find?_isSome]
    exact ⟨m, List.mem_finRange m, decide_eq_true rfl⟩
  obtain ⟨m', found⟩ := Option.isSome_iff_exists.mp found
  have same := List.find?_some (p := fun i : Fin 16 => stubs.irq i = stubs.irq m) found
  rw [found, distinct m' m (of_decide_eq_true same)]

/-- The gate of a line leads to its stub. -/
lemma gate_entry (n : Fin 16) : ((idtInit stubs idt)[32 + n.val]?.bind fun e => entry e.gate) = some (stubs.irq n) := by
  have lt := n.isLt
  have target : stubs.target (32 + n.val) = stubs.irq n := by
    rw [Stubs.target, if_neg (by omega), if_pos (by omega)]
    congr 1
    omega
  rw [idtInit_get (by omega), Option.bind_some, gate_gateEntry, target, if_neg (by omega)]
  rfl

/-- A raised line: the program goes on as before, the controllers are as before, and the line has been answered. -/
lemma raise_spec (idt : Idt) (handlers : Handlers IrqFn) (pics : Pics) (log : List IrqFn)
    (distinct : ∀ m m' : Fin 16, stubs.irq m = stubs.irq m' → m = m')
    (behaves : n.val < 2 → Behaves P code esp0 n u) :
    ∃ u', P.Same u u' ∧ (Setup.boot stubs idt handlers code esp0).raise ⟨u, bootPics handlers pics, log⟩ n =
      ⟨u', bootPics handlers pics, log ++ answer n⟩ := by
  by_cases open_ : n.val < 2
  · obtain ⟨s, request⟩ := bootPics_request handlers pics open_
    have number : (UInt8.ofNat (32 + n)).toNat = 32 + n.val := by
      rw [UInt8.toNat_ofNat']
      omega
    have stub : ((idtInit stubs idt)[32 + n.val]?.bind fun e => (entry e.gate).bind stubs.irqAt) = some n := by
      rw [← Option.bind_assoc, gate_entry, Option.bind_some, irqAt_irq distinct]
    have events : (service code (irqInitBasic handlers).1 esp0 n u).2 = _ := service_events (behaves open_).room
    refine ⟨(service code (irqInitBasic handlers).1 esp0 n u).1, irqStub_same (behaves open_), ?_⟩
    rw [Setup.raise]
    dsimp only [Setup.boot]
    rw [request]
    dsimp only
    rw [number, stub]
    dsimp only
    rw [events, writes_irqHandler, called_irqHandler open_, Pics.request_eoi request]
  · have quiet : answer n = [] := by
      rw [answer, if_neg (by rintro rfl; exact open_ (by decide)), if_neg (by rintro rfl; exact open_ (by decide))]
    refine ⟨u, .refl, ?_⟩
    rw [Setup.raise]
    dsimp only
    rw [bootPics_masked (by omega), quiet, List.append_nil]

/-- Stubs at 16 bytes each. -/
def linked : Stubs where
  ex i := 0x100000 + 16 * UInt32.ofNat i
  irq i := 0x101000 + 16 * UInt32.ofNat i
  syscall80 := 0x102000

end RetaOS.Interrupt
