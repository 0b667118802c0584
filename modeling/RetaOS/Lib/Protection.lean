import RetaOS.Lib.X86
import Mathlib.Data.Nat.Bitwise

/-!
# Segments and privilege levels

What a 32-bit x86 processor checks in protected mode before it loads a segment register, returns from an interrupt or
takes a software interrupt. Descriptors are looked up in one global table; there is no local table. The state is that of
`Lib.X86` with the data segments beside it, and `none` is a protection fault.
-/

namespace Lib.Protection
open X86

/-- A descriptor as the processor reads it. -/
structure Descriptor where
  base : UInt32
  limit : UInt32
  kind : UInt8
  application : Bool
  dpl : UInt8
  present : Bool
  big : Bool
  pages : Bool

namespace Descriptor

/-- A code segment. -/
def Code (d : Descriptor) : Prop := d.application ∧ d.kind &&& 8 ≠ 0

/-- A code segment that can be entered from outer levels without a change of level. -/
def Conforming (d : Descriptor) : Prop := d.Code ∧ d.kind &&& 4 ≠ 0

/-- A data segment that can be written to. -/
def Writable (d : Descriptor) : Prop := d.application ∧ d.kind &&& 8 = 0 ∧ d.kind &&& 2 ≠ 0

/-- A data segment, or a code segment that can be read. -/
def Readable (d : Descriptor) : Prop := d.application ∧ (d.kind &&& 8 = 0 ∨ d.kind &&& 2 ≠ 0)

/-- The last address of a segment. -/
def last (d : Descriptor) : Nat := if d.pages then d.limit.toNat * 4096 + 4095 else d.limit.toNat

/-- A segment of all addresses. -/
def Flat (d : Descriptor) : Prop := d.base = 0 ∧ d.last = 2 ^ 32 - 1

instance (d : Descriptor) : Decidable d.Code := inferInstanceAs (Decidable (_ ∧ _))

instance (d : Descriptor) : Decidable d.Conforming := inferInstanceAs (Decidable (_ ∧ _))

instance (d : Descriptor) : Decidable d.Writable := inferInstanceAs (Decidable (_ ∧ _))

instance (d : Descriptor) : Decidable d.Readable := inferInstanceAs (Decidable (_ ∧ _))

instance (d : Descriptor) : Decidable d.Flat := inferInstanceAs (Decidable (_ ∧ _))

end Descriptor

/-- The requested privilege level of a selector. -/
def rpl (sel : UInt16) : Nat := sel.toNat % 4

/-- The index of a selector. -/
def index (sel : UInt16) : Nat := sel.toNat / 8

/-- The selector means the local table. -/
def local_ (sel : UInt16) : Bool := sel.toNat / 4 % 2 = 1

/-- The null selectors. -/
def null (sel : UInt16) : Bool := sel.toNat < 4

/-- A table of descriptors. -/
abbrev Descriptors := Nat → Option Descriptor

/-- The descriptor of a selector. -/
def descriptor (D : Descriptors) (sel : UInt16) : Option Descriptor :=
  if null sel ∨ local_ sel then none else D (index sel)

/-- A selector that may be loaded into a data segment register. -/
def DataOk (D : Descriptors) (cpl : Nat) (sel : UInt16) : Prop :=
  null sel ∨ ∃ d ∈ descriptor D sel,
    d.Readable ∧ (d.Conforming ∨ cpl ≤ d.dpl.toNat ∧ rpl sel ≤ d.dpl.toNat) ∧ d.present

/-- A selector that may be loaded into the stack segment register at a level. -/
def StackOk (D : Descriptors) (cpl : Nat) (sel : UInt16) : Prop :=
  ∃ d ∈ descriptor D sel, rpl sel = cpl ∧ d.Writable ∧ d.dpl.toNat = cpl ∧ d.present

/-- A selector of the code that may be returned to. -/
def ReturnOk (D : Descriptors) (cpl : Nat) (sel : UInt16) : Prop :=
  ∃ d ∈ descriptor D sel, d.Code ∧ cpl ≤ rpl sel ∧
    (if d.Conforming then d.dpl.toNat ≤ rpl sel else d.dpl.toNat = rpl sel) ∧ d.present

variable {D : Descriptors} {sel : UInt16} {level : Nat}

instance : Decidable (DataOk D level sel) := inferInstanceAs (Decidable (_ ∨ _))

instance : Decidable (StackOk D level sel) := inferInstanceAs (Decidable (∃ d ∈ descriptor D sel, _))

instance : Decidable (ReturnOk D level sel) := inferInstanceAs (Decidable (∃ d ∈ descriptor D sel, _))

/-! ## Instructions. -/

/-- The data segment registers. -/
inductive DataSeg where
  | ds | es | fs | gs
  deriving DecidableEq

/-- The processor with its data segments. -/
structure State where
  cpu : Cpu
  segs : DataSeg → UInt16

namespace State

/-- The current privilege level. -/
def cpl (s : State) : Nat := s.cpu.cs.toNat % 4

/-- A data segment register is loaded. -/
def load (D : Descriptors) (r : DataSeg) (sel : UInt16) (s : State) : Option State :=
  if DataOk D s.cpl sel then some { s with segs := Function.update s.segs r sel } else none

/-- What is left of a data segment at an outer level. -/
def outer (D : Descriptors) (cpl : Nat) (sel : UInt16) : UInt16 :=
  if ∀ d ∈ descriptor D sel, d.Conforming ∨ cpl ≤ d.dpl.toNat then sel else 0

/-- `iret` at level 0, outside of a nested task and not to virtual-8086 mode: NT in the flags, and VM in those that are
    popped, are not looked at. -/
def iret (D : Descriptors) (s : State) : Option State :=
  let cs := (s.cpu.stack 4).toUInt16
  if ReturnOk D s.cpl cs then
    if rpl cs = 0 then some { s with cpu := s.cpu.iret }
    else if StackOk D (rpl cs) (s.cpu.stack 16).toUInt16 then
      some { cpu := s.cpu.iret, segs := fun r => outer D (rpl cs) (s.segs r) }
    else none
  else none

end State

/-- An interrupt gate or a trap gate. -/
structure Gate where
  offset : UInt32
  selector : UInt16
  kind : UInt8
  dpl : UInt8
  present : Bool

namespace Gate

/-- The processor jumps to the handler; an interrupt gate clears IF. The other flags that it clears, TF, NT, RF and VM,
    stay as they are. -/
def enter (g : Gate) (cpl : UInt32) (c : Cpu) : Cpu :=
  { c with
    cs := (g.selector &&& 0xFFFC).toUInt32 ||| cpl
    eip := g.offset
    eflags := if g.kind = 0x0E then c.eflags &&& ~~~0x200 else c.eflags }

/-- A software interrupt through a gate. `levels` are the stacks of the inner levels. -/
def int (D : Descriptors) (levels : Nat → UInt16 × UInt32) (g : Gate) (s : State) : Option State :=
  match descriptor D g.selector with
  | none => none
  | some d =>
    if g.present ∧ (g.kind = 0x0E ∨ g.kind = 0x0F) ∧ s.cpl ≤ g.dpl.toNat ∧ d.Code ∧ d.dpl.toNat ≤ s.cpl ∧ d.present then
      if ¬ d.Conforming ∧ d.dpl.toNat < s.cpl then
        let (ss, esp) := levels d.dpl.toNat
        if StackOk D d.dpl.toNat ss then
          some { s with cpu := { g.enter d.dpl.toUInt32 (s.cpu.interrupt esp) with ss := ss.toUInt32 } }
        else none
      else
        let cpu := [s.cpu.eflags, s.cpu.cs, s.cpu.eip].foldl Cpu.push s.cpu
        some { s with cpu := g.enter (UInt32.ofNat s.cpl) cpu }
    else none

end Gate

end Lib.Protection
