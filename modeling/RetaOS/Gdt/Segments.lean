import RetaOS.Interrupt.Idt

/-!
# The way into the kernel and out of it

The segments that `gdt_init` sets up, with the task state segment that holds the kernel stack. A descriptor is decoded
to what was encoded (`descriptor_gdtEntry`). From user code the only software interrupt that is not a fault is that of
system calls, and it comes in at its stub on the kernel stack that was set last (`user_entry`). From the kernel the only
selectors that `iret` takes to user code are those of `switch_to_usermode`; with the selectors of `process_switch` it
faults (`user_exit`).
-/

namespace RetaOS.Gdt
open Lib Lib.X86 Lib.Protection Interrupt

/-! ## `gdt.c`. -/

/-- `struct gdt_entry`. -/
structure GdtEntry where
  limitLow : UInt16
  baseLow : UInt16
  baseMid : UInt8
  access : UInt8
  gran : UInt8
  baseHi : UInt8

/-- `gdt`. -/
abbrev GdtTable := Vector GdtEntry 6

/-- The fields of `struct tss_entry` that are set, or that the processor reads. -/
structure TssEntry where
  esp0 : UInt32
  ss0 : UInt32
  esp1 : UInt32
  ss1 : UInt32
  esp2 : UInt32
  ss2 : UInt32
  es : UInt32
  cs : UInt32
  ss : UInt32
  ds : UInt32
  fs : UInt32
  gs : UInt32
  iomapBase : UInt16

/-- `sizeof(tss)`. -/
def sizeofTss : UInt32 := 104

/-- The entry that `gdt_set` fills in. -/
def gdtEntry (base limit : UInt32) (access gran : UInt8) : GdtEntry where
  limitLow := (limit &&& 0xFFFF).toUInt16
  baseLow := (base &&& 0xFFFF).toUInt16
  baseMid := ((base >>> 16) &&& 0xFF).toUInt8
  access := access
  gran := ((limit >>> 16) &&& 0x0F).toUInt8 ||| (gran &&& 0xF0)
  baseHi := ((base >>> 24) &&& 0xFF).toUInt8

/-- `gdt_set`. -/
def gdtSet (gdt : GdtTable) (i : Nat) (base limit : UInt32) (access gran : UInt8) : GdtTable :=
  gdt.setIfInBounds i (gdtEntry base limit access gran)

/-- The static variables, with the address of `tss`. -/
structure Tables where
  gdt : GdtTable
  tss : TssEntry
  addr : UInt32

/-- `write_tss`. -/
def writeTss (t : Tables) (num : Nat) (ss0 : UInt16) (esp0 : UInt32) : Tables where
  gdt := gdtSet t.gdt num t.addr (sizeofTss - 1) 0x89 0x00
  tss :=
    { esp0 := esp0
      ss0 := ss0.toUInt32
      esp1 := 0
      ss1 := 0
      esp2 := 0
      ss2 := 0
      es := 0x10
      cs := 0x08
      ss := 0x10
      ds := 0x10
      fs := 0x10
      gs := 0x10
      iomapBase := sizeofTss.toUInt16 }
  addr := t.addr

/-- `tss_set_kernel_stack`. -/
def tssSetKernelStack (t : Tables) (esp0 : UInt32) : Tables := { t with tss := { t.tss with esp0 := esp0 } }

/-- A descriptor of the table. -/
def GdtEntry.descriptor (e : GdtEntry) : Descriptor where
  base := e.baseHi.toUInt32 <<< 24 ||| (e.baseMid.toUInt32 <<< 16 ||| e.baseLow.toUInt32)
  limit := (e.gran &&& 0x0F).toUInt32 <<< 16 ||| e.limitLow.toUInt32
  kind := e.access &&& 0x0F
  application := e.access &&& 0x10 ≠ 0
  dpl := e.access >>> 5 &&& 3
  present := e.access &&& 0x80 ≠ 0
  big := e.gran &&& 0x40 ≠ 0
  pages := e.gran &&& 0x80 ≠ 0

/-- The descriptors that the processor sees. -/
def Tables.descriptors (t : Tables) : Descriptors := fun i => t.gdt[i]?.map GdtEntry.descriptor

/-- The stacks of the inner levels. -/
def Tables.inner (t : Tables) : Nat → UInt16 × UInt32
  | 0 => (t.tss.ss0.toUInt16, t.tss.esp0)
  | 1 => (t.tss.ss1.toUInt16, t.tss.esp1)
  | _ => (t.tss.ss2.toUInt16, t.tss.esp2)

/-- `ltr`: the descriptor of an available task state segment is marked busy. -/
def ltr (t : Tables) (sel : UInt16) : Option Tables :=
  match t.gdt[index sel]? with
  | none => none
  | some e =>
    if ¬ null sel ∧ ¬ local_ sel ∧ ¬ e.descriptor.application ∧ e.descriptor.kind = 9 ∧ e.descriptor.present then
      some { t with gdt := t.gdt.setIfInBounds (index sel) { e with access := e.access ||| 2 } }
    else none

/-- `gdt_init`. `gdt_flush` is left out: its `lgdt [eax]` finds the table only if `eax` happens to hold what is passed
    on the stack, and the processor is taken to use this table from then on. -/
def gdtInit (t : Tables) : Option Tables :=
  let gdt := gdtSet t.gdt 0 0 0 0 0
  let gdt := gdtSet gdt 1 0 0xFFFFF 0x9A 0xCF
  let gdt := gdtSet gdt 2 0 0xFFFFF 0x92 0xCF
  let gdt := gdtSet gdt 4 0 0xFFFFF 0xFA 0xCF
  let gdt := gdtSet gdt 5 0 0xFFFFF 0xF2 0xCF
  ltr (writeTss { t with gdt := gdt } 3 0x10 0) 0x18

/-! ## Switching to user code. -/

/-- `mov sel, %ax` and the loading of all data segments. -/
def loadAll (D : Descriptors) (sel : UInt16) (s : State) : Option State := do
  let ax := s.cpu.gpr .eax &&& 0xFFFF0000 ||| sel.toUInt32
  let s : State := { s with cpu := s.cpu.set .eax ax }
  let s ← s.load D .ds sel
  let s ← s.load D .es sel
  let s ← s.load D .fs sel
  s.load D .gs sel

/-- The frame that `switch_to_usermode` pushes. -/
def usermodeFrame (entryPoint stackTop : UInt32) (c : Cpu) : Cpu :=
  let c := [0x2B, stackTop, c.eflags].foldl Cpu.push c
  let c := c.pop .eax
  let c := c.set .eax (c.gpr .eax ||| 0x200)
  [c.gpr .eax, 0x23, entryPoint].foldl Cpu.push c

/-- `switch_to_usermode` of `task.c`. -/
def switchToUsermode (D : Descriptors) (entryPoint stackTop : UInt32) (s : State) : Option State :=
  let s : State := { s with cpu := { s.cpu with eflags := s.cpu.eflags &&& ~~~0x200 } }
  (loadAll D 0x2B s).bind fun s => State.iret D { s with cpu := usermodeFrame entryPoint stackTop s.cpu }

/-- The end of `process_switch` of `process.c`. -/
def processSwitch (D : Descriptors) (newEsp newEip : UInt32) (s : State) : Option State :=
  let s : State := { s with cpu := s.cpu.set .esp newEsp }
  (loadAll D 0x23 s).bind fun s =>
    State.iret D { s with cpu := [0x23, newEsp, s.cpu.eflags, 0x1B, newEip].foldl Cpu.push s.cpu }

variable {t : Tables} {gdt : GdtTable} {base limit : UInt32} {access gran : UInt8} {i j : Nat}

/-! ## The table. -/

/-- The base, from its three parts. -/
lemma base_gdtEntry (limit base : UInt32) (access gran : UInt8) :
    (gdtEntry base limit access gran).descriptor.base = base := by
  have width := base.toNat_lt
  have low : (base &&& 0xFFFF).toUInt16.toUInt32.toNat = base.toNat % 2 ^ 16 := by
    rw [UInt16.toNat_toUInt32, UInt32.toNat_toUInt16,
      show (base &&& 0xFFFF).toNat = _ from toNat_and_mask (k := 16) base (by decide)]
    omega
  have part (i : UInt32) (lt : i.toNat < 32) : ((base >>> i) &&& 0xFF).toUInt8.toUInt32.toNat =
      base.toNat / 2 ^ i.toNat % 2 ^ 8 := by
    rw [UInt8.toNat_toUInt32, UInt32.toNat_toUInt8,
      show ((base >>> i) &&& 0xFF).toNat = _ from toNat_field (k := 8) base i lt (by decide), Nat.mod_mod]
  have mid := part 16 (by decide)
  have high := part 24 (by decide)
  have s16 : (16 : UInt32).toNat = 16 := rfl
  have s24 : (24 : UInt32).toNat = 24 := rfl
  rw [s16] at mid
  rw [s24] at high
  apply UInt32.toNat_inj.mp
  rw [GdtEntry.descriptor, gdtEntry]
  dsimp only
  have inner := toNat_shiftLeft_or (a := ((base >>> 16) &&& 0xFF).toUInt8.toUInt32)
    (b := (base &&& 0xFFFF).toUInt16.toUInt32) (i := 16) (by decide) (by rw [low, s16]; omega) (by rw [mid, s16]; omega)
  rw [low, mid, s16] at inner
  rw [toNat_shiftLeft_or (by decide) (by rw [inner, s24]; omega) (by rw [high, s24]; omega), inner, high, s24]
  omega

/-- The high bits of the limit share a byte with the flags. -/
lemma gran_gdtEntry (limit base : UInt32) (access gran : UInt8) : ∃ y : UInt8,
    y &&& (0x0F : UInt8) = ((limit >>> 16) &&& 0x0F).toUInt8 ∧
    ∀ m : UInt8, (gdtEntry base limit access gran).gran &&& m = y &&& (0x0F &&& m) ||| gran &&& (0xF0 &&& m) := by
  refine ⟨(limit >>> 16).toUInt8, ?_, fun m => ?_⟩
  · rw [UInt32.toUInt8_and]
    rfl
  · rw [gdtEntry]
    dsimp only
    rw [UInt32.toUInt8_and]
    apply UInt8.eq_of_toBitVec_eq
    simp only [UInt8.toBitVec_and, UInt8.toBitVec_or, BitVec.and_or_distrib_right, BitVec.and_assoc]
    rfl

/-- The limit, from its two parts. -/
lemma limit_gdtEntry (base : UInt32) (access gran : UInt8) (fits : limit.toNat < 2 ^ 20) :
    (gdtEntry base limit access gran).descriptor.limit = limit := by
  obtain ⟨y, field, masked⟩ := gran_gdtEntry limit base access gran
  have s16 : (16 : UInt32).toNat = 16 := rfl
  have low : (limit &&& 0xFFFF).toUInt16.toUInt32.toNat = limit.toNat % 2 ^ 16 := by
    rw [UInt16.toNat_toUInt32, UInt32.toNat_toUInt16,
      show (limit &&& 0xFFFF).toNat = _ from toNat_and_mask (k := 16) limit (by decide)]
    omega
  have high : ((gdtEntry base limit access gran).gran &&& 0x0F).toUInt32.toNat = limit.toNat / 2 ^ 16 := by
    rw [masked, show (0xF0 &&& 0x0F : UInt8) = 0 from rfl, UInt8.and_zero, UInt8.or_zero,
      show (0x0F &&& 0x0F : UInt8) = 0x0F from rfl, field, UInt8.toNat_toUInt32, UInt32.toNat_toUInt8,
      show ((limit >>> 16) &&& 0x0F).toNat = _ from toNat_field (k := 4) limit 16 (by decide) (by decide), s16]
    omega
  apply UInt32.toNat_inj.mp
  rw [GdtEntry.descriptor]
  dsimp only
  rw [show (gdtEntry base limit access gran).limitLow = (limit &&& 0xFFFF).toUInt16 from rfl,
    toNat_shiftLeft_or (by decide) (by rw [low, s16]; omega) (by rw [high, s16]; omega), low, high, s16]
  omega

/-- A segment has the base, the limit and the rights that were put there. -/
lemma descriptor_gdtEntry (limit base : UInt32) (access gran : UInt8) (fits : limit.toNat < 2 ^ 20) :
    (gdtEntry base limit access gran).descriptor =
    { base := base
      limit := limit
      kind := access &&& 0x0F
      application := access &&& 0x10 ≠ 0
      dpl := access >>> 5 &&& 3
      present := access &&& 0x80 ≠ 0
      big := gran &&& 0x40 ≠ 0
      pages := gran &&& 0x80 ≠ 0 } := by
  obtain ⟨y, -, masked⟩ := gran_gdtEntry limit base access gran
  have flag (m : UInt8) (out : (0x0F &&& m : UInt8) = 0) (in_ : (0xF0 &&& m : UInt8) = m) :
      (gdtEntry base limit access gran).gran &&& m = gran &&& m := by
    rw [masked, out, in_, UInt8.and_zero, UInt8.zero_or]
  have base_ := base_gdtEntry limit base access gran
  have limit_ := limit_gdtEntry base access gran fits
  rw [GdtEntry.descriptor] at base_ limit_ ⊢
  dsimp only at base_ limit_
  rw [base_, limit_, flag 0x40 rfl rfl, flag 0x80 rfl rfl]
  rfl

/-- Setting an entry leaves the others. -/
lemma gdtSet_get : (gdtSet gdt i base limit access gran)[j]? =
    if i = j ∧ j < 6 then some (gdtEntry base limit access gran) else gdt[j]? := by
  rw [gdtSet, Vector.getElem?_setIfInBounds]
  by_cases same : i = j
  · subst same
    by_cases lt : i < 6
    · rw [if_pos rfl, if_pos lt, if_pos ⟨rfl, lt⟩]
    · rw [if_pos rfl, if_neg lt, if_neg fun h => lt h.2, Vector.getElem?_eq_none (by omega)]
  · rw [if_neg same, if_neg fun h => same h.1]

/-- The descriptors that `gdt_init` leaves. -/
def segments (addr : UInt32) : Descriptors
  | 0 => some ⟨0, 0, 0, false, 0, false, false, false⟩
  | 1 => some ⟨0, 0xFFFFF, 0xA, true, 0, true, true, true⟩
  | 2 => some ⟨0, 0xFFFFF, 0x2, true, 0, true, true, true⟩
  | 3 => some ⟨addr, sizeofTss - 1, 0xB, false, 0, true, false, false⟩
  | 4 => some ⟨0, 0xFFFFF, 0xA, true, 3, true, true, true⟩
  | 5 => some ⟨0, 0xFFFFF, 0x2, true, 3, true, true, true⟩
  | _ => none

/-- The task register is loaded. -/
lemma ltr_writeTss (t : Tables) : ∃ t', ltr (writeTss t 3 0x10 0) 0x18 = some t' ∧ t'.inner 0 = (0x10, 0) ∧
    ∀ j : Nat, t'.gdt[j]? = if j = 3 then some (gdtEntry t.addr (sizeofTss - 1) 0x8B 0) else t.gdt[j]? := by
  have third : index 0x18 = 3 := rfl
  have task : (writeTss t 3 0x10 0).gdt[index 0x18]? = some (gdtEntry t.addr (sizeofTss - 1) 0x89 0) :=
    gdtSet_get.trans (if_pos ⟨rfl, by decide⟩)
  have rights := descriptor_gdtEntry (sizeofTss - 1) t.addr 0x89 0 (by decide)
  have busy : { gdtEntry t.addr (sizeofTss - 1) 0x89 0 with access := (0x89 : UInt8) ||| 2 } =
      gdtEntry t.addr (sizeofTss - 1) 0x8B 0 := rfl
  have run : ltr (writeTss t 3 0x10 0) 0x18 = some { writeTss t 3 0x10 0 with
      gdt := gdtSet (writeTss t 3 0x10 0).gdt 3 t.addr (sizeofTss - 1) 0x8B 0 } := by
    rw [ltr, task]
    dsimp only
    rw [rights, if_pos ⟨by decide, by decide, Bool.false_ne_true, rfl, rfl⟩, third, gdtSet, ← busy]
    rfl
  refine ⟨_, run, rfl, fun j => ?_⟩
  dsimp only
  rw [gdtSet_get, writeTss]
  dsimp only
  rw [gdtSet_get]
  by_cases same : j = 3
  · rw [if_pos ⟨same.symm, by omega⟩, if_pos same]
  · rw [if_neg fun h => same h.1.symm, if_neg fun h => same h.1.symm, if_neg same]

/-- `gdt_init` succeeds, and leaves these descriptors and the stack of the kernel. -/
lemma gdtInit_spec (t : Tables) : ∃ t', gdtInit t = some t' ∧ t'.descriptors = segments t.addr ∧
    t'.inner 0 = (0x10, 0) := by
  rw [gdtInit]
  obtain ⟨t', run, inner, entries⟩ := ltr_writeTss { t with
    gdt := gdtSet (gdtSet (gdtSet (gdtSet (gdtSet t.gdt 0 0 0 0 0) 1 0 0xFFFFF 0x9A 0xCF) 2 0 0xFFFFF 0x92 0xCF)
      4 0 0xFFFFF 0xFA 0xCF) 5 0 0xFFFFF 0xF2 0xCF }
  refine ⟨t', run, ?_, inner⟩
  have rights := descriptor_gdtEntry
  funext j
  rw [Tables.descriptors, entries]
  simp only [gdtSet_get]
  obtain _ | _ | _ | _ | _ | _ | j := j
  · exact congrArg some (rights 0 0 0 0 (by decide))
  · exact congrArg some (rights 0xFFFFF 0 0x9A 0xCF (by decide))
  · exact congrArg some (rights 0xFFFFF 0 0x92 0xCF (by decide))
  · exact congrArg some (rights (sizeofTss - 1) t.addr 0x8B 0 (by decide))
  · exact congrArg some (rights 0xFFFFF 0 0xFA 0xCF (by decide))
  · exact congrArg some (rights 0xFFFFF 0 0xF2 0xCF (by decide))
  · rw [if_neg (by omega), if_neg (by omega), if_neg (by omega), if_neg (by omega), if_neg (by omega),
      if_neg (by omega), Vector.getElem?_eq_none (by omega)]
    rfl

/-- The tables after `gdt_init` and any switches of threads, which set the kernel stack. -/
def boot (t : Tables) (tops : List UInt32) : Option Tables := (gdtInit t).map fun t => tops.foldl tssSetKernelStack t

lemma boot_spec (t : Tables) (tops : List UInt32) : ∃ t', boot t tops = some t' ∧ t'.descriptors = segments t.addr ∧
    t'.inner 0 = (0x10, tops.getLast?.getD 0) := by
  obtain ⟨t', run, descriptors, inner⟩ := gdtInit_spec t
  refine ⟨tops.foldl tssSetKernelStack t', by rw [boot, run, Option.map_some], ?_⟩
  induction tops using List.reverseRecOn with
  | nil => exact ⟨descriptors, inner⟩
  | append_singleton tops esp0 ih =>
    rw [List.foldl_concat, List.getLast?_concat, Option.getD_some]
    refine ⟨ih.1, ?_⟩
    have ss : (tops.foldl tssSetKernelStack t').tss.ss0.toUInt16 = 0x10 := congrArg Prod.fst ih.2
    exact congrArg (fun ss => (ss, esp0)) ss

/-! ## The selectors. -/

variable {addr : UInt32} {sel : UInt16} {d : Descriptor}

/-- The descriptor of a selector, by its index. -/
lemma descriptor_segments (found : d ∈ descriptor (segments addr) sel) : 4 ≤ sel.toNat ∧ sel.toNat / 4 % 2 = 0 ∧
    segments addr (sel.toNat / 8) = some d := by
  rw [descriptor] at found
  split at found
  · cases found
  · rename_i valid
    rw [null, local_, not_or, decide_eq_true_eq, decide_eq_true_eq] at valid
    exact ⟨by omega, by omega, found⟩

/-- A selector is its index, its table and its level. -/
lemma selector_parts (sel : UInt16) : sel.toNat = 8 * (sel.toNat / 8) + 4 * (sel.toNat / 4 % 2) + rpl sel := by
  rw [rpl]
  omega

/-- The code that `iret` takes from the kernel to an outer level. -/
lemma returnOk_user : ReturnOk (segments addr) 0 sel ∧ rpl sel ≠ 0 ↔ sel = 0x23 := by
  constructor
  · rintro ⟨⟨d, found, code, -, level, -⟩, outer⟩
    obtain ⟨-, table, found⟩ := descriptor_segments found
    have split := selector_parts sel
    generalize sel.toNat / 8 = i at found split
    obtain _ | _ | _ | _ | _ | _ | i := i <;> cases found
    · exact absurd code (by decide)
    · exact absurd level.symm outer
    · exact absurd code (by decide)
    · exact absurd code.1 Bool.false_ne_true
    · have user : rpl sel = 3 := level.symm
      apply UInt16.toNat_inj.mp
      rw [split, table, user]
      rfl
    · exact absurd code (by decide)
  · rintro rfl
    exact ⟨⟨_, rfl, by decide⟩, by decide⟩

/-- The stack of user code. -/
lemma stackOk_user : StackOk (segments addr) 3 sel ↔ sel = 0x2B := by
  constructor
  · rintro ⟨d, found, level, writable, dpl, -⟩
    obtain ⟨-, table, found⟩ := descriptor_segments found
    have split := selector_parts sel
    generalize sel.toNat / 8 = i at found split
    obtain _ | _ | _ | _ | _ | _ | i := i <;> cases found
    · exact absurd dpl (by decide)
    · exact absurd dpl (by decide)
    · exact absurd dpl (by decide)
    · exact absurd writable.1 Bool.false_ne_true
    · exact absurd writable (by decide)
    · apply UInt16.toNat_inj.mp
      rw [split, table, level]
      rfl
  · rintro rfl
    exact ⟨_, rfl, by decide⟩

/-- The data segments of user code: the null selectors, and its own two segments. -/
lemma dataOk_user : DataOk (segments addr) 3 sel ↔ sel.toNat < 4 ∨ sel.toNat / 4 = 8 ∨ sel.toNat / 4 = 10 := by
  constructor
  · rintro (null | ⟨d, found, readable, level, -⟩)
    · exact .inl (of_decide_eq_true null)
    · obtain ⟨-, table, found⟩ := descriptor_segments found
      have split := selector_parts sel
      have rpl_lt : rpl sel < 4 := Nat.mod_lt _ (by decide)
      generalize sel.toNat / 8 = i at found split
      obtain _ | _ | _ | _ | _ | _ | i := i <;> cases found
      · exact absurd readable (by decide)
      · exact absurd level (by rw [not_or, not_and_or]; exact ⟨by decide, .inl (by decide)⟩)
      · exact absurd level (by rw [not_or, not_and_or]; exact ⟨by decide, .inl (by decide)⟩)
      · exact absurd readable.1 Bool.false_ne_true
      · exact .inr (.inl (by omega))
      · exact .inr (.inr (by omega))
  · have level : rpl sel ≤ 3 := by
      rw [rpl]
      omega
    have user (i : Nat) (d : Descriptor) (at_ : segments addr i = some d) (here : sel.toNat / 4 = 2 * i) (pos : 0 < i)
        (readable : d.Readable) (dpl : d.dpl.toNat = 3) (present : d.present) : DataOk (segments addr) 3 sel := by
      have found : descriptor (segments addr) sel = some d := by
        rw [descriptor, if_neg, index, show sel.toNat / 8 = i by omega, at_]
        rw [null, local_, not_or, decide_eq_true_eq, decide_eq_true_eq]
        omega
      exact .inr ⟨d, found, readable, .inr ⟨by omega, by omega⟩, present⟩
    rintro (null | code | data)
    · exact .inl (decide_eq_true null)
    · exact user 4 _ rfl code (by decide) (by decide) rfl rfl
    · exact user 5 _ rfl data (by decide) (by decide) rfl rfl

/-! ## Into the kernel. -/

variable {stubs : Stubs} {idt : Idt} {s : State} {tops : List UInt32}

/-- A software interrupt of user code, in terms of the table. -/
lemma int_user (user : s.cpl = 3) {levels : Nat → UInt16 × UInt32} {esp0 : UInt32} (inner : levels 0 = (0x10, esp0))
    (v : Fin 256) :
    (idtInit stubs idt)[v].gate.int (segments addr) levels s = if v.val = 0x80 then
      some { s with
        cpu :=
          { s.cpu.interrupt esp0 with
            cs := 0x08
            ss := 0x10
            eip := stubs.syscall80
            eflags := s.cpu.eflags &&& ~~~0x200 } }
    else none := by
  have code : descriptor (segments addr) 0x08 = some ⟨0, 0xFFFFF, 0xA, true, 0, true, true, true⟩ := rfl
  have stack : StackOk (segments addr) 0 0x10 := ⟨_, rfl, by decide⟩
  rw [idtInit_gate, Gate.int]
  dsimp only
  rw [code]
  dsimp only
  by_cases system : v.val = 0x80
  · have target : stubs.target v = stubs.syscall80 := if_pos system
    rw [if_pos system, if_pos system, target, user, if_pos ⟨rfl, by decide, by decide, by decide, by decide, rfl⟩,
      if_pos ⟨by decide, by decide⟩]
    rw [show (0 : UInt8).toNat = 0 from rfl, inner]
    dsimp only
    rw [if_pos stack, Gate.enter, if_pos rfl]
    dsimp only
    rw [show ((0x08 : UInt16) &&& 0xFFFC).toUInt32 ||| (0 : UInt8).toUInt32 = 0x08 from rfl]
    rfl
  · rw [if_neg system, if_neg system, user, if_neg]
    rintro ⟨-, -, low, -⟩
    exact absurd low (by decide)

/-- From user code, whatever threads have run, the only software interrupt that does not fault is that of system calls.
    It comes in at its stub, on the kernel stack of the thread that was switched to last. And user code can load no
    segment of the kernel. -/
theorem user_entry (t : Tables) (tops : List UInt32) (stubs : Stubs) (idt : Idt) (s : State) (user : s.cpl = 3) :
    ∃ t', boot t tops = some t' ∧
      (∀ v : Fin 256, (idtInit stubs idt)[v].gate.int t'.descriptors t'.inner s = if v.val = 0x80 then
        some { s with
          cpu :=
            { s.cpu.interrupt (tops.getLast?.getD 0) with
              cs := 0x08
              ss := 0x10
              eip := stubs.syscall80
              eflags := s.cpu.eflags &&& ~~~0x200 } }
      else none) ∧
      ∀ r sel, (s.load t'.descriptors r sel).isSome ↔
        sel.toNat < 4 ∨ sel.toNat / 4 = 8 ∨ sel.toNat / 4 = 10 := by
  obtain ⟨t', run, descriptors, inner⟩ := boot_spec t tops
  refine ⟨t', run, fun v => ?_, fun r sel => ?_⟩
  · rw [descriptors, int_user user inner v]
  · rw [descriptors, State.load, user, ← dataOk_user]
    split
    · rename_i ok
      exact ⟨fun _ => ok, fun _ => rfl⟩
    · rename_i fault
      exact ⟨fun h => absurd h Bool.false_ne_true, fun ok => absurd ok fault⟩

/-- A user program that makes a system call. -/
def userState : State where
  cpu := { Syscall.userCpu 4 1 0 5 0 0 0 with cs := 0x23, ss := 0x2B }
  segs _ := 0x2B

/-- Tables that nothing has been written to. -/
def noTables : Tables where
  gdt := Vector.replicate 6 ⟨0, 0, 0, 0, 0, 0⟩
  tss := ⟨0, 0, 0, 0, 0, 0, 0, 0, 0, 0, 0, 0, 0⟩
  addr := 0x110000

/-- `int 0x80` and `int 3` when two threads have run. -/
theorem user_entry_read :
    let idt := idtInit linked (Vector.replicate 256 (gateEntry 0 0 0))
    ∃ t', boot noTables [0x201000, 0x205000] = some t' ∧
      (∃ s', idt[0x80].gate.int t'.descriptors t'.inner userState = some s' ∧ s'.cpu.eip = 0x102000 ∧
        s'.cpu.gpr .esp = 0x204FEC) ∧
      idt[3].gate.int t'.descriptors t'.inner userState = none := by
  intro idt
  obtain ⟨t', run, ints, -⟩ := user_entry noTables [0x201000, 0x205000] linked (Vector.replicate 256 (gateEntry 0 0 0))
    userState rfl
  exact ⟨t', run, ⟨_, ints 0x80, rfl, rfl⟩, ints 3⟩

/-! ## Out of the kernel. -/

/-- What `iret` of the kernel does with a frame for user code. -/
lemma iret_user (kernel : s.cpl = 0) : (∃ s', s.iret (segments addr) = some s' ∧ s'.cpl ≠ 0) ↔
    (s.cpu.stack 4).toUInt16 = 0x23 ∧ (s.cpu.stack 16).toUInt16 = 0x2B := by
  have level : rpl (s.cpu.stack 4).toUInt16 = (s.cpu.stack 4).toNat % 4 := by
    rw [rpl, UInt32.toNat_toUInt16]
    omega
  have cs : s.cpu.iret.cs = s.cpu.stack 4 := by
    rw [Cpu.iret]
    dsimp only
    split <;> rfl
  have user : rpl 0x23 = 3 := rfl
  rw [State.iret, kernel]
  constructor
  · rintro ⟨s', run, outer⟩
    split at run
    · rename_i code
      split at run
      · rename_i same
        cases run
        exact absurd (show s.cpu.iret.cs.toNat % 4 = 0 by rw [cs, ← level, same]) outer
      · rename_i other
        have eq := returnOk_user.mp ⟨code, other⟩
        rw [eq, user] at run
        split at run
        · rename_i stack
          exact ⟨eq, stackOk_user.mp stack⟩
        · cases run
    · cases run
  · rintro ⟨code, stack⟩
    have ok : ReturnOk (segments addr) 0 0x23 ∧ _ := returnOk_user.mpr rfl
    rw [code, stack, user, if_pos ok.1, if_neg (by decide), if_pos (stackOk_user.mpr rfl)]
    refine ⟨_, rfl, ?_⟩
    show s.cpu.iret.cs.toNat % 4 ≠ 0
    rw [cs, ← level, code]
    decide

/-- All data segments are loaded. -/
lemma loadAll_spec {D : Descriptors} (ok : DataOk D s.cpl sel) : loadAll D sel s = some
    { cpu := s.cpu.set .eax (s.cpu.gpr .eax &&& 0xFFFF0000 ||| sel.toUInt32)
      segs := fun _ => sel } := by
  have all : Function.update (Function.update (Function.update (Function.update s.segs .ds sel) .es sel) .fs sel)
      .gs sel = fun _ => sel := by
    funext r
    cases r <;> rfl
  have load (s' : State) (r : DataSeg) (level : s'.cpl = s.cpl) :
      s'.load D r sel = some { s' with segs := Function.update s'.segs r sel } := by
    rw [State.load, level, if_pos ok]
  rw [← all, loadAll, load _ .ds, Option.bind_eq_bind, Option.bind_some, load _ .es, Option.bind_some,
    load _ .fs, Option.bind_some, load _ .gs]
  all_goals rfl

/-- The flags are pushed, and popped into EAX. -/
lemma pushfl_popl {c : Cpu} {ws : List UInt32} {f : UInt32} (h : Holds c.mem (c.gpr .esp) ws)
    (short : 4 * (ws.length + 1) ≤ 2 ^ 32) :
    Holds ((c.push f).pop .eax).mem (((c.push f).pop .eax).gpr .esp) ws ∧ ((c.push f).pop .eax).gpr .eax = f ∧
      ∀ r, r ≠ .esp → r ≠ .eax → ((c.push f).pop .eax).gpr r = c.gpr r := by
  have flags : (c.push f).stack 0 = f := by
    rw [Cpu.stack, UInt32.add_zero, gpr_push]
    exact Memory.load32_store32
  rw [Cpu.pop, flags]
  refine ⟨?_, gpr_set, fun r esp eax => ?_⟩
  · rw [gpr_set_ne (by decide), gpr_set, gpr_push]
    exact (h.store short).2
  · rw [gpr_set_ne eax, gpr_set_ne esp, gpr_push_ne esp]

/-- The frame of `switch_to_usermode`, from the lowest word up. -/
lemma usermodeFrame_spec (entryPoint stackTop : UInt32) (c : Cpu) :
    Holds (usermodeFrame entryPoint stackTop c).mem ((usermodeFrame entryPoint stackTop c).gpr .esp)
        [entryPoint, 0x23, c.eflags ||| 0x200, stackTop, 0x2B] ∧
      ∀ r, r ≠ .esp → r ≠ .eax → (usermodeFrame entryPoint stackTop c).gpr r = c.gpr r := by
  have empty : Holds c.mem (c.gpr .esp) [] := trivial
  obtain ⟨top, -, regs⟩ := pushes_holds [0x2B, stackTop] empty (by simp)
  obtain ⟨kept, eax, others⟩ := pushfl_popl (f := c.eflags) top (by simp)
  rw [usermodeFrame, show [0x2B, stackTop, c.eflags].foldl Cpu.push c =
    ([0x2B, stackTop].foldl Cpu.push c).push c.eflags from rfl]
  generalize (([0x2B, stackTop].foldl Cpu.push c).push c.eflags).pop .eax = e at kept eax others
  rw [gpr_set, eax]
  have mid : Holds (e.set .eax (c.eflags ||| 0x200)).mem ((e.set .eax (c.eflags ||| 0x200)).gpr .esp)
      [stackTop, 0x2B] := by
    rw [gpr_set_ne (by decide)]
    exact kept
  obtain ⟨frame, -, same⟩ := pushes_holds [c.eflags ||| 0x200, 0x23, entryPoint] mid (by simp)
  exact ⟨frame, fun r esp eax' => by rw [same r esp, gpr_set_ne eax', others r esp eax', regs r esp]⟩

/-- `switch_to_usermode` gets to user code: at the entry point, on the stack it was given, with interrupts enabled. -/
lemma switchToUsermode_spec (kernel : s.cpl = 0) (entryPoint stackTop : UInt32) :
    ∃ s', switchToUsermode (segments addr) entryPoint stackTop s = some s' ∧ s'.cpl = 3 ∧ s'.cpu.eip = entryPoint ∧
      s'.cpu.gpr .esp = stackTop ∧ s'.cpu.eflags = s.cpu.eflags &&& ~~~0x200 ||| 0x200 ∧
      (∀ r, r ≠ .esp → r ≠ .eax → s'.cpu.gpr r = s.cpu.gpr r) ∧ ∀ r, s'.segs r = 0x2B := by
  have ok : DataOk (segments addr) 0 0x2B := .inr ⟨_, rfl, by decide⟩
  let u : State := { s with cpu := { s.cpu with eflags := s.cpu.eflags &&& ~~~0x200 } }
  have level : u.cpl = 0 := kernel
  have run : switchToUsermode (segments addr) entryPoint stackTop s = State.iret (segments addr)
      ⟨usermodeFrame entryPoint stackTop (u.cpu.set .eax (u.cpu.gpr .eax &&& 0xFFFF0000 ||| (0x2B : UInt16).toUInt32)),
        fun _ => 0x2B⟩ := by
    rw [switchToUsermode, loadAll_spec (s := u) (level ▸ ok), Option.bind_some]
  obtain ⟨holds, regs⟩ := usermodeFrame_spec entryPoint stackTop (u.cpu.set .eax
    (u.cpu.gpr .eax &&& 0xFFFF0000 ||| (0x2B : UInt16).toUInt32))
  have old (r : Reg) (eax : r ≠ .eax) : (u.cpu.set .eax (u.cpu.gpr .eax &&& 0xFFFF0000 |||
    (0x2B : UInt16).toUInt32)).gpr r = s.cpu.gpr r := gpr_set_ne eax
  have cs : (usermodeFrame entryPoint stackTop (u.cpu.set .eax (u.cpu.gpr .eax &&& 0xFFFF0000 |||
    (0x2B : UInt16).toUInt32))).cs = s.cpu.cs := rfl
  have flags : (u.cpu.set .eax (u.cpu.gpr .eax &&& 0xFFFF0000 ||| (0x2B : UInt16).toUInt32)).eflags =
    s.cpu.eflags &&& ~~~0x200 := rfl
  rw [run]
  generalize u.cpu.set .eax (u.cpu.gpr .eax &&& 0xFFFF0000 ||| (0x2B : UInt16).toUInt32) = c at holds regs old cs flags
  generalize usermodeFrame entryPoint stackTop c = d at holds regs cs
  have zero : State.cpl ⟨d, fun _ => 0x2B⟩ = 0 := by
    rw [State.cpl, cs]
    exact kernel
  have code : (d.stack 4).toUInt16 = 0x23 := congrArg UInt32.toUInt16 (holds.get (i := 1) (by simp))
  have stack : (d.stack 16).toUInt16 = 0x2B := congrArg UInt32.toUInt16 (holds.get (i := 4) (by simp))
  obtain ⟨esp, eip, cs', eflags, -, others⟩ := iret_spec holds (by decide)
  have user : ReturnOk (segments addr) 0 0x23 ∧ _ := returnOk_user.mpr rfl
  have outer : State.outer (segments addr) 3 0x2B = 0x2B := if_pos (by
    intro d found
    cases found
    exact .inr (by decide))
  refine ⟨⟨d.iret, fun _ => 0x2B⟩, ?_, ?_, eip, esp, ?_, fun r ne eax => ?_, fun r => rfl⟩
  · rw [State.iret, zero, code, stack, if_pos user.1, if_neg (by decide), show rpl 0x23 = 3 from rfl,
      if_pos (stackOk_user.mpr rfl)]
    exact congrArg (fun sel => some (State.mk d.iret fun _ => sel)) outer
  · rw [State.cpl, cs']
    rfl
  · rw [eflags, flags]
  · rw [others r ne, regs r ne eax, old r eax]

/-- `process_switch` faults. -/
lemma processSwitch_fault (kernel : s.cpl = 0) (newEsp newEip : UInt32) :
    processSwitch (segments addr) newEsp newEip s = none := by
  have ok : DataOk (segments addr) 0 0x23 := .inr ⟨_, rfl, by decide⟩
  have code : ¬ ReturnOk (segments addr) 0 0x1B := by
    rintro ⟨d, found, code, -⟩
    cases found
    exact absurd code.1 Bool.false_ne_true
  let u : State := { s with cpu := s.cpu.set .esp newEsp }
  have level : u.cpl = 0 := kernel
  rw [processSwitch, loadAll_spec (s := u) (level ▸ ok), Option.bind_some]
  dsimp only
  have cs : (u.cpu.set .eax (u.cpu.gpr .eax &&& 0xFFFF0000 ||| (0x23 : UInt16).toUInt32)).cs = s.cpu.cs := rfl
  generalize u.cpu.set .eax (u.cpu.gpr .eax &&& 0xFFFF0000 ||| (0x23 : UInt16).toUInt32) = c at cs
  have empty : Holds c.mem (c.gpr .esp) [] := trivial
  obtain ⟨holds, -⟩ := pushes_holds [0x23, newEsp, c.eflags, 0x1B, newEip] empty (by simp)
  have frame : ([0x23, newEsp, c.eflags, 0x1B, newEip].foldl Cpu.push c).stack 4 = 0x1B := holds.2.1
  have kept : ([0x23, newEsp, c.eflags, 0x1B, newEip].foldl Cpu.push c).cs = s.cpu.cs := cs
  generalize [0x23, newEsp, c.eflags, 0x1B, newEip].foldl Cpu.push c = d at frame kept
  have zero : State.cpl ⟨d, fun _ => 0x23⟩ = 0 := by
    rw [State.cpl, kept]
    exact kernel
  rw [State.iret, zero, frame]
  exact if_neg code

/-- Whatever threads have run, `iret` gets from the kernel to user code with one pair of selectors only.
    `switch_to_usermode` has these, and gets to its entry point with its stack. `process_switch` has others and faults,
    whatever process comes next. -/
theorem user_exit (t : Tables) (tops : List UInt32) (s : State) (kernel : s.cpl = 0) :
    ∃ t', boot t tops = some t' ∧
      ((∃ s', s.iret t'.descriptors = some s' ∧ s'.cpl ≠ 0) ↔
        (s.cpu.stack 4).toUInt16 = 0x23 ∧ (s.cpu.stack 16).toUInt16 = 0x2B) ∧
      (∀ entryPoint stackTop, ∃ s', switchToUsermode t'.descriptors entryPoint stackTop s = some s' ∧ s'.cpl = 3 ∧
        s'.cpu.eip = entryPoint ∧ s'.cpu.gpr .esp = stackTop ∧
        s'.cpu.eflags = s.cpu.eflags &&& ~~~0x200 ||| 0x200 ∧
        (∀ r, r ≠ .esp → r ≠ .eax → s'.cpu.gpr r = s.cpu.gpr r) ∧ ∀ r, s'.segs r = 0x2B) ∧
      ∀ newEsp newEip, processSwitch t'.descriptors newEsp newEip s = none := by
  obtain ⟨t', run, descriptors, -⟩ := boot_spec t tops
  refine ⟨t', run, ?_, fun entryPoint stackTop => ?_, fun newEsp newEip => ?_⟩
  · rw [descriptors]
    exact iret_user kernel
  · rw [descriptors]
    exact switchToUsermode_spec kernel entryPoint stackTop
  · rw [descriptors]
    exact processSwitch_fault kernel newEsp newEip

/-- The kernel, before it starts a program. -/
def kernelState : State where
  cpu := { Syscall.userCpu 0 0 0 0 0 0 0 with cs := 0x08, ss := 0x10 }
  segs _ := 0x10

/-- The kernel starts a program, but does not switch to a process. -/
theorem user_exit_start : ∃ t', boot noTables [0x201000] = some t' ∧
    (∃ s', switchToUsermode t'.descriptors 0x08048000 0xE0000000 kernelState = some s' ∧ s'.cpl = 3 ∧
      s'.cpu.eip = 0x08048000) ∧
    processSwitch t'.descriptors 0x0041EFF0 0x08048000 kernelState = none := by
  obtain ⟨t', run, -, start, fault⟩ := user_exit noTables [0x201000] kernelState rfl
  obtain ⟨s', entered, level, eip, -⟩ := start 0x08048000 0xE0000000
  exact ⟨t', run, ⟨s', entered, level, eip⟩, fault 0x0041EFF0 0x08048000⟩

end RetaOS.Gdt
