import RetaOS.Kheap.Defs
import RetaOS.Lib.Table
import RetaOS.Lib.Virtual
import RetaOS.Pmm.HeapBacking

/-!
# Paging

`paging_init` and `paging_map_page` of `arch/x86/x86/memory/paging.c`, over physical memory. `walk` is the translation
by the processor: it reads the directory and the tables at physical addresses. `paging_init` runs before paging is on,
so its stores are stores to physical memory; `paging_map_page` runs behind the translation, so every word that it reads
or writes is translated first, and so is what `kmalloc` reads and writes for it. Every change of an entry is followed by
`invlpg` or a load of `CR3`, so the tables in memory decide the translation. Bit 7 of a directory entry says nothing, as
`CR4` is left as it is, and neither do the bits for writing and for users, as the kernel runs in ring 0 and leaves
`CR0.WP` clear.
-/

namespace RetaOS.Paging
open Lib Memory
open Kheap (Heap kmalloc)
open Pmm (PAGE_PRESENT PAGE_RW)

/-- `PAGE_USER`. -/
def PAGE_USER : UInt32 := 0x004

/-- The addresses of the static arrays. -/
structure Tables where
  pageDirectory : UInt32
  firstPageTable : UInt32
  heapPageTable : UInt32

/-- The arrays are aligned to pages, apart from each other and in the first 4 MB, as the image at 1 MB is. -/
structure Tables.Placed (t : Tables) : Prop where
  directory : 4096 ∣ t.pageDirectory.toNat ∧ t.pageDirectory.toNat + 4096 ≤ 0x400000
  first : 4096 ∣ t.firstPageTable.toNat ∧ t.firstPageTable.toNat + 4096 ≤ 0x400000
  heap : 4096 ∣ t.heapPageTable.toNat ∧ t.heapPageTable.toNat + 4096 ≤ 0x400000
  apart : t.pageDirectory ≠ t.firstPageTable ∧ t.pageDirectory ≠ t.heapPageTable ∧
    t.firstPageTable ≠ t.heapPageTable

/-- The first loop of `paging_init`, over a list of indices. -/
def clearBoth (t : Tables) (m : Memory) (is : List Nat) : Memory :=
  is.foldl (fun m i =>
    let m := m.store32 (slot t.pageDirectory (UInt32.ofNat i)) 0
    m.store32 (slot t.firstPageTable (UInt32.ofNat i)) 0) m

/-- The entry `i` of the table for the first 4 MB. -/
def identityEntry (i : Nat) : UInt32 := UInt32.ofNat i * 0x1000 ||| PAGE_PRESENT ||| PAGE_RW ||| PAGE_USER

/-- The entry `i` of the table for the kernel heap, for the pages it backs. -/
def heapEntry (i : Nat) : UInt32 := ((0x400000 + UInt32.ofNat i * 0x1000) &&& ~~~0xFFF) ||| PAGE_PRESENT ||| PAGE_RW

/-- `paging_init`. -/
def pagingInit (t : Tables) (m : Memory) : Memory :=
  let m := clearBoth t m (List.range 1024)
  let m := m.storeWords t.firstPageTable identityEntry (List.range 1024)
  let m := m.store32 (slot t.pageDirectory 0) (t.firstPageTable ||| PAGE_PRESENT ||| PAGE_RW ||| PAGE_USER)
  let m := m.storeWords t.heapPageTable heapEntry (List.range 256)
  let m := m.storeWords t.heapPageTable (fun _ => 0) (List.range' 256 768)
  m.store32 (slot t.pageDirectory 0x300) (t.heapPageTable ||| PAGE_PRESENT ||| PAGE_RW)

/-- The index of an address in the directory. -/
def pdIdx (virt : UInt32) : UInt32 := (virt >>> 22) &&& 0x3FF

/-- The index of an address in its page table. -/
def ptIdx (virt : UInt32) : UInt32 := (virt >>> 12) &&& 0x3FF

/-- The page-aligned address in an entry that is present. -/
def frameOf (entry : UInt32) : Option UInt32 := if entry &&& PAGE_PRESENT = 0 then none else some (entry &&& ~~~0xFFF)

/-- The frame that the processor translates the page of an address to, with `m` the physical memory. -/
def walk (t : Tables) (m : Memory) (virt : UInt32) : Option UInt32 :=
  match frameOf (m.load32 (slot t.pageDirectory (pdIdx virt))) with
  | none => none
  | some pt => frameOf (m.load32 (slot pt (ptIdx virt)))

/-- The physical address behind an address. -/
def translate (t : Tables) (m : Memory) (virt : UInt32) : Option UInt32 :=
  (walk t m virt).map fun frame => frame ||| (virt &&& 0xFFF)

/-- A store of the kernel; `none` is a page fault. -/
def store (t : Tables) (m : Memory) (virt w : UInt32) : Option Memory := store32At (translate t m) m virt w

/-- The pages that `kmalloc` works in. -/
def heapPages : List UInt32 := (List.range 256).map fun i => 0xC0000000 + UInt32.ofNat i * 0x1000

/-- `kmalloc(4096)`, on the memory that the kernel sees. -/
def kmallocTable (t : Tables) (s : Heap) : Option (UInt32 × Heap) :=
  (kmalloc { s with mem := view (translate t s.mem) s.mem } 4096).map fun r =>
    (r.1, { r.2 with mem := writeBack (walk t s.mem) heapPages r.2.mem s.mem })

/-- `pt[pt_idx] = (phys & ~0xFFFu) | PAGE_PRESENT | PAGE_RW`. -/
def setEntry (t : Tables) (m : Memory) (pt virt phys : UInt32) : Option Memory :=
  store t m (slot pt (ptIdx virt)) (phys &&& ~~~0xFFF ||| PAGE_PRESENT ||| PAGE_RW)

/-- `paging_map_page`. The memory of the heap is the physical one. -/
def pagingMapPage (t : Tables) (s : Heap) (virt phys : UInt32) : Option Heap := do
  let pde ← load32At (translate t s.mem) s.mem (slot t.pageDirectory (pdIdx virt))
  if pde &&& PAGE_PRESENT = 0 then
    let (pt, s) ← kmallocTable t s
    let m ← (List.range 1024).foldlM (fun m i => store t m (slot pt (UInt32.ofNat i)) 0) s.mem
    let m ← store t m (slot t.pageDirectory (pdIdx virt)) (pt ||| PAGE_PRESENT ||| PAGE_RW)
    let m ← setEntry t m pt virt phys
    return { s with mem := m }
  else
    let pt := pde &&& ~~~0xFFF
    let m ← setEntry t s.mem pt virt phys
    return { s with mem := m }

end RetaOS.Paging
