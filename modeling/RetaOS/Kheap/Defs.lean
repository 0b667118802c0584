import RetaOS.Lib.Loop
import RetaOS.Lib.Memory

/-!
# The kernel heap

The allocator of `kernel/kheap.c`: a singly linked list of blocks, each a 12-byte header
(`struct heap_block`: `next`, `size`, `used`) laid over the heap memory it describes, followed by its
payload. Every header access is a byte access of `Memory`, and pointer arithmetic is 32-bit arithmetic.
The walks along `next` are `while` loops over whatever the headers contain, so a call is partial:
`none` means that it never returns.

`kheap_init` also calls `pmm_init()`, which acts on the frame bitmap only and is no part of this state.
-/

namespace RetaOS.Kheap
open Lib

/-- `KHEAP_START`. -/
def KHEAP_START : UInt32 := 0xC0000000

/-- `KHEAP_INITIAL_SIZE`. -/
def KHEAP_INITIAL_SIZE : UInt32 := 0x100000

/-- `KHEAP_ALIGN`. -/
def KHEAP_ALIGN : UInt32 := 0x1000

/-- `sizeof(heap_block_t)`. -/
def sizeofBlock : UInt32 := 12

/-- The address space together with the static variables of `kheap.c`. -/
structure Heap where
  mem : Memory
  firstBlock : UInt32
  kheapStart : UInt32
  kheapEnd : UInt32
  kheapMax : UInt32
  kheapInited : Bool

/-! ## The fields of `struct heap_block`. -/

/-- `block->next`. -/
def next (m : Memory) (block : UInt32) : UInt32 := m.load32 block

/-- `block->size`. -/
def size (m : Memory) (block : UInt32) : UInt32 := m.load32 (block + 4)

/-- `block->used`. -/
def used (m : Memory) (block : UInt32) : UInt8 := m (block + 8)

/-- `block->next = p`. -/
def setNext (m : Memory) (block p : UInt32) : Memory := m.store32 block p

/-- `block->size = n`. -/
def setSize (m : Memory) (block n : UInt32) : Memory := m.store32 (block + 4) n

/-- `block->used = u`. -/
def setUsed (m : Memory) (block : UInt32) (u : UInt8) : Memory := m.store8 (block + 8) u

/-! ## The allocator. -/

/-- `align_up`. -/
def alignUp (addr align : UInt32) : UInt32 := (addr + align - 1) &&& ~~~(align - 1)

/-- `kheap_init`. -/
def kheapInit (s : Heap) : Heap :=
  if s.kheapInited then s
  else
    let kheapStart := KHEAP_START
    let kheapEnd := kheapStart + KHEAP_INITIAL_SIZE
    let firstBlock := kheapStart
    let mem := setSize s.mem firstBlock (kheapEnd - kheapStart - sizeofBlock)
    let mem := setUsed mem firstBlock 0
    let mem := setNext mem firstBlock 0
    { mem, firstBlock, kheapStart, kheapEnd, kheapMax := kheapStart + 0xFFFFF, kheapInited := true }

/-- How the first-fit walk of `kmalloc` ends: at a free block that is large enough, or past the last
    block `prev`. -/
inductive Search where
  | fit (block : UInt32)
  | exhausted (prev : UInt32)

/-- One pass of the walk of `kmalloc`, over the pair of `block` and `prev`. -/
def searchBody (m : Memory) (n : UInt32) : UInt32 × UInt32 → Pass (UInt32 × UInt32) Search
  | (block, prev) =>
    if block = 0 then .done (.exhausted prev)
    else if used m block = 0 ∧ size m block ≥ n then .done (.fit block)
    else .next (next m block, block)

/-- The block a `kmalloc` of `n` bytes takes, cut in two when the rest can hold a header and more than
    four bytes. -/
def splitBlock (m : Memory) (block n : UInt32) : Memory :=
  if size m block > n + sizeofBlock + 4 then
    let newBlock := block + sizeofBlock + n
    let m := setSize m newBlock (size m block - n - sizeofBlock)
    let m := setUsed m newBlock 0
    let m := setNext m newBlock (next m block)
    let m := setSize m block n
    setNext m block newBlock
  else m

/-- The part of `kmalloc` that puts a new block at `kheap_end`; a null result is `NULL`. -/
def growHeap (s : Heap) (prev n : UInt32) : UInt32 × Heap :=
  let newSize := alignUp (n + sizeofBlock) KHEAP_ALIGN
  if s.kheapEnd + newSize > s.kheapMax then (0, s)
  else
    let newBlock := s.kheapEnd
    let mem := setSize s.mem newBlock n
    let mem := setUsed mem newBlock 1
    let mem := setNext mem newBlock 0
    let s := if prev = 0 then { s with mem, firstBlock := newBlock }
      else { s with mem := setNext mem prev newBlock }
    (newBlock + sizeofBlock, { s with kheapEnd := s.kheapEnd + newSize })

/-- `kmalloc`. -/
def kmalloc (s : Heap) (n : UInt32) : Option (UInt32 × Heap) :=
  let s := kheapInit s
  let n := if n < 4 then 4 else n
  match loop (searchBody s.mem n) (s.firstBlock, 0) with
  | none => none
  | some (.fit block) =>
    some (block + sizeofBlock, { s with mem := setUsed (splitBlock s.mem block n) block 1 })
  | some (.exhausted prev) => some (growHeap s prev n)

/-- One pass of the merging walk of `kfree`, over the memory and `current`. -/
def mergeBody : Memory × UInt32 → Pass (Memory × UInt32) Memory
  | (m, current) =>
    if current ≠ 0 ∧ next m current ≠ 0 then
      if used m current = 0 ∧ used m (next m current) = 0 then
        let m' := setSize m current (size m current + (size m (next m current) + sizeofBlock))
        .next (setNext m' current (next m' (next m' current)), current)
      else .next (m, next m current)
    else .done m

/-- `kfree`. -/
def kfree (s : Heap) (ptr : UInt32) : Option Heap :=
  if ptr = 0 ∨ ptr < s.kheapStart ∨ ptr ≥ s.kheapEnd then some s
  else
    let block := ptr - sizeofBlock
    match loop mergeBody (setUsed s.mem block 0, s.firstBlock) with
    | none => none
    | some mem => some { s with mem }

/-- `krealloc`. -/
def krealloc (s : Heap) (ptr n : UInt32) : Option (UInt32 × Heap) :=
  if ptr = 0 then kmalloc s n
  else if n = 0 then
    match kfree s ptr with
    | none => none
    | some s => some (0, s)
  else
    let block := ptr - sizeofBlock
    if size s.mem block ≥ n then some (ptr, s)
    else
      match kmalloc s n with
      | none => none
      | some (newPtr, s) =>
        if newPtr = 0 then some (0, s)
        else
          match kfree { s with mem := s.mem.copy newPtr ptr (size s.mem block).toNat } ptr with
          | none => none
          | some s => some (newPtr, s)

/-- `kcalloc`. -/
def kcalloc (s : Heap) (num n : UInt32) : Option (UInt32 × Heap) :=
  let total := num * n
  match kmalloc s total with
  | none => none
  | some (ptr, s) =>
    if ptr = 0 then some (0, s)
    else some (ptr, { s with mem := s.mem.fill ptr 0 total.toNat })

/-- `kmalloc_a`. -/
def kmallocA (s : Heap) (n : UInt32) : Option (UInt32 × Heap) := kmalloc s (alignUp n KHEAP_ALIGN)

end RetaOS.Kheap
