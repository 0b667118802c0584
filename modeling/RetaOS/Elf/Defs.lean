import RetaOS.Initrd.Defs

/-!
# The program loader

`elf_exec` of `kernel/elf.c`: it reads the header of an executable through a descriptor, then the whole file
through the same descriptor into a block of the kernel heap, copies the segments to their addresses and goes to
user mode. The header is a local variable, so its address is some address of the stack that is not null.
`map_page` is the function of `kernel/kutils.c`, which does nothing. `none` is a call that never returns.
-/

namespace RetaOS.Elf
open Lib Vfs Initrd

/-! ## File structures. -/

/-- The 16-bit field of a structure at an offset. -/
def half (bs : List UInt8) (off : Nat) : UInt16 := UInt16.ofNat (Lib.ofBytes ((bs.drop off).take 2))

/-- The 32-bit field of a structure at an offset. -/
def word (bs : List UInt8) (off : Nat) : UInt32 := UInt32.ofNat (Lib.ofBytes ((bs.drop off).take 4))

/-- The fields of `Elf32_Ehdr` that the loader reads. -/
structure Ehdr where
  eIdent : List UInt8
  eMachine : UInt16
  eEntry : UInt32
  ePhoff : UInt32
  ePhnum : UInt16

/-- An `Elf32_Ehdr` from its bytes. -/
def Ehdr.ofBytes (bs : List UInt8) : Ehdr where
  eIdent := bs.take 16
  eMachine := half bs 18
  eEntry := word bs 24
  ePhoff := word bs 28
  ePhnum := half bs 44

/-- `sizeof(Elf32_Ehdr)`. -/
def sizeofEhdr : Nat := 52

/-- The fields of `Elf32_Phdr` that the loader reads. -/
structure Phdr where
  pType : UInt32
  pOffset : UInt32
  pVaddr : UInt32
  pFilesz : UInt32
  pMemsz : UInt32

/-- An `Elf32_Phdr` from its bytes. -/
def Phdr.ofBytes (bs : List UInt8) : Phdr where
  pType := word bs 0
  pOffset := word bs 4
  pVaddr := word bs 8
  pFilesz := word bs 16
  pMemsz := word bs 20

/-- `sizeof(Elf32_Phdr)`. -/
def sizeofPhdr : Nat := 32

def PT_LOAD : UInt32 := 1

/-- `elf_validate`. -/
def elfValidate (hdr : Ehdr) : Bool :=
  if hdr.eIdent.take 4 ≠ [0x7F, 0x45, 0x4C, 0x46] then false
  else if hdr.eIdent[4]? ≠ some 1 then false
  else if hdr.eIdent[5]? ≠ some 1 then false
  else if hdr.eIdent[6]? ≠ some 1 then false
  else if hdr.eMachine ≠ 3 then false
  else true

/-! ## Segments. -/

/-- `map_page`, a stub. -/
def mapPage (heap : Kheap.Heap) (_virt _phys _flags : UInt32) : Kheap.Heap := heap

/-- One pass of the loop of `map_pages`, over `virt` and the heap. -/
def mapBody (end_ user : UInt32) : UInt32 × Kheap.Heap → Pass (UInt32 × Kheap.Heap) Kheap.Heap
  | (virt, heap) =>
    if virt < end_ then
      .inner (virt, heap) (Kheap.kmallocA heap 0x1000) fun
        | (phys, heap) =>
          .next (virt + 0x1000, if phys ≠ 0 then mapPage heap virt phys (if user ≠ 0 then 1 else 0) else heap)
    else .done heap

/-- `map_pages`. -/
def mapPages (heap : Kheap.Heap) (virtAddr size user : UInt32) : Option Kheap.Heap :=
  loop (mapBody (virtAddr + size) user) (virtAddr &&& ~~~0xFFF, heap)

/-- The address of `ph[i]`, with the file at `elfData`. -/
def phAddr (elfData : UInt32) (eh : Ehdr) (i : Nat) : UInt32 := elfData + eh.ePhoff + UInt32.ofNat (sizeofPhdr * i)

/-- `ph[i]` as it stands in memory. -/
def phAt (m : Memory) (elfData : UInt32) (eh : Ehdr) (i : Nat) : Phdr :=
  Phdr.ofBytes (m.loadBytes (phAddr elfData eh i) sizeofPhdr)

/-- One pass of the segment loop of `elf_exec`, for the program header `i`. -/
def loadSegment (elfData : UInt32) (eh : Ehdr) (heap : Kheap.Heap) (i : Nat) : Option Kheap.Heap :=
  let ph := phAt heap.mem elfData eh i
  if ph.pType ≠ PT_LOAD then some heap
  else
    match mapPages heap ph.pVaddr ph.pMemsz 1 with
    | none => none
    | some heap =>
      -- the loop reads `p_offset` and `p_filesz` after the pages are mapped
      let mapped := phAt heap.mem elfData eh i
      some { heap with mem := heap.mem.copy ph.pVaddr (elfData + mapped.pOffset) mapped.pFilesz.toNat }

/-! ## Execution. -/

/-- How `elf_exec` ends: it returns a value, or `switch_to_usermode` leaves the kernel. -/
inductive Exec where
  | ret (value : Int) (s : State)
  | usermode (entryPoint stackTop : UInt32) (s : State)

/-- The kernel heap after a call of the allocator or a store. -/
def setHeap (s : State) (heap : Kheap.Heap) : State := { s with drv := { s.drv with heap } }

/-- `elf_exec` from the second read on, with the header in `eh` and the block for the file at `elfData`. -/
def execLoaded (s : State) (fd : Int) (eh : Ehdr) (elfData stSize : UInt32) : Option Exec :=
  let (rd, bytes, s) := vfsRead tarDriver s fd elfData stSize
  let s := setHeap s { s.drv.heap with mem := s.drv.heap.mem.storeBytes elfData bytes }
  if rd < stSize.toInt32.toInt then
    match Kheap.kfree s.drv.heap elfData with
    | none => none
    | some heap => some (.ret (-1) (vfsClose tarDriver (setHeap s heap) fd).2)
  else
    let s := (vfsClose tarDriver s fd).2
    match (List.range eh.ePhnum.toNat).foldlM (loadSegment elfData eh) s.drv.heap with
    | none => none
    | some heap =>
      match Kheap.kfree heap elfData with
      | none => none
      | some heap => some (.usermode eh.eEntry 0x003FF000 (setHeap s heap))

/-- `elf_exec` from the first read on, with the header at `ehAddr`. -/
def execOpened (ehAddr : UInt32) (s : State) (fd : Int) (stSize : UInt32) : Option Exec :=
  let (rd, bytes, s) := vfsRead tarDriver s fd ehAddr (UInt32.ofNat sizeofEhdr)
  let eh := Ehdr.ofBytes bytes
  if rd < sizeofEhdr then some (.ret (-1) (vfsClose tarDriver s fd).2)
  else if elfValidate eh = false then some (.ret (-1) (vfsClose tarDriver s fd).2)
  else
    match Kheap.kmalloc s.drv.heap stSize with
    | none => none
    | some (elfData, heap) =>
      if elfData = 0 then some (.ret (-1) (vfsClose tarDriver (setHeap s heap) fd).2)
      else execLoaded (setHeap s heap) fd eh elfData stSize

/-- `elf_exec`. -/
def elfExec (ehAddr : UInt32) (s : State) (filename : List UInt8) : Option Exec :=
  match vfsStat tarDriver s filename with
  | none => none
  | some (ret, stSize, _, s) =>
    if ret < 0 then some (.ret (-1) s)
    else if stSize < UInt32.ofNat sizeofEhdr then some (.ret (-1) s)
    else
      match vfsOpen tarDriver s filename 0 with
      | none => none
      | some (fd, s) => if fd < 0 then some (.ret (-1) s) else execOpened ehAddr s fd stSize

end RetaOS.Elf
