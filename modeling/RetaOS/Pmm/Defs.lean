import RetaOS.Lib.Loop
import RetaOS.Lib.Memory

/-!
# The physical frame allocator

The frame bitmap of `memory/pmm.c` and the boot-information parsing that fills it: `pmm_init` and its
variants, and `memory_init` of `arch/x86/x86/kernel_init.c`, which picks one of them. Boot information is
read from `Memory`; the bitmap and its counters are an object of their own. An access with a frame index
past the bitmap sets `outside` and has no other effect here. The walks over boot-information tags follow
whatever sizes they find, so they are partial: `none` means no return, by an endless walk or by a division
by a zero `entry_size`. The texts written to the serial port are left out.
-/

namespace RetaOS.Pmm
open Lib

/-- `FRAME_SIZE`. -/
def FRAME_SIZE : UInt32 := 4096

/-- `MAX_PHYS_MEM_BYTES`. -/
def MAX_PHYS_MEM_BYTES : UInt32 := 128 * 1024 * 1024

/-- `MAX_FRAMES`. -/
def MAX_FRAMES : UInt32 := MAX_PHYS_MEM_BYTES / FRAME_SIZE

/-- The static variables of `pmm.c`, and whether an access has left the bitmap. -/
structure Frames where
  totalFrames : UInt32
  usedFrames : UInt32
  highestFrameIndex : UInt32
  bitmap : Vector UInt32 1024
  outside : Bool

/-- The static variables as the kernel starts. -/
def boot : Frames :=
  { totalFrames := MAX_FRAMES
    usedFrames := 0
    highestFrameIndex := 0
    bitmap := Vector.replicate 1024 0
    outside := false }

/-! ## The bitmap. -/

/-- `bitmap[frame_index >> 5]`. -/
def word (s : Frames) (f : UInt32) : UInt32 := s.bitmap[(f >>> 5).toNat]?.getD 0

/-- `bitmap[frame_index >> 5] = w`. -/
def setWord (s : Frames) (f w : UInt32) : Frames :=
  { s with
    bitmap := s.bitmap.setIfInBounds (f >>> 5).toNat w
    outside := s.outside || decide (1024 ≤ (f >>> 5).toNat) }

/-- `set_frame`. -/
def setFrame (s : Frames) (f : UInt32) : Frames := setWord s f (word s f ||| (1 <<< (f &&& 31)))

/-- `clear_frame`. -/
def clearFrame (s : Frames) (f : UInt32) : Frames := setWord s f (word s f &&& ~~~(1 <<< (f &&& 31)))

/-- `test_frame`. -/
def testFrame (s : Frames) (f : UInt32) : Bool := word s f &&& (1 <<< (f &&& 31)) != 0

/-- The bitmap with every frame in use. -/
def allUsed (s : Frames) : Frames := { s with bitmap := Vector.replicate 1024 0xFFFFFFFF }

/-- The loop `for (f = start; f < stop; ++f)`. -/
def forFrames (body : Frames → UInt32 → Frames) (start stop : UInt32) (s : Frames) : Frames :=
  (List.range' start.toNat (stop.toNat - start.toNat)).foldl (fun s f => body s (UInt32.ofNat f)) s

/-- The loop body of `reserve_range` and `pmm_mark_used_region`. -/
def useFrame (s : Frames) (f : UInt32) : Frames :=
  if testFrame s f then s else { setFrame s f with usedFrames := s.usedFrames + 1 }

/-- `reserve_range`. -/
def reserveRange (s : Frames) (startAddr endAddr : UInt32) : Frames :=
  if endAddr ≤ startAddr then s
  else forFrames useFrame (startAddr / FRAME_SIZE) ((endAddr + FRAME_SIZE - 1) / FRAME_SIZE) s

/-- `pmm_mark_used_region`. -/
def pmmMarkUsedRegion (s : Frames) (base size : UInt32) : Frames :=
  if size = 0 then s
  else forFrames useFrame (base / FRAME_SIZE) ((base + size + FRAME_SIZE - 1) / FRAME_SIZE) s

/-- `pmm_alloc_frame`. -/
def pmmAllocFrame (s : Frames) : UInt32 × Frames :=
  match (List.range s.totalFrames.toNat).find? fun f => !testFrame s (UInt32.ofNat f) with
  | some f =>
    (UInt32.ofNat f * FRAME_SIZE, { setFrame s (UInt32.ofNat f) with usedFrames := s.usedFrames + 1 })
  | none => (0, s)

/-- `pmm_free_frame`. -/
def pmmFreeFrame (s : Frames) (frameAddr : UInt32) : Frames :=
  let f := frameAddr / FRAME_SIZE
  if f < s.totalFrames ∧ testFrame s f then { clearFrame s f with usedFrames := s.usedFrames - 1 } else s

/-! ## Boot information. -/

/-- `tag->type`. -/
def tagType (m : Memory) (tag : UInt32) : UInt32 := m.load32 tag

/-- `tag->size`. -/
def tagSize (m : Memory) (tag : UInt32) : UInt32 := m.load32 (tag + 4)

/-- The tag after `tag`, aligned to 8 bytes. -/
def nextTag (m : Memory) (tag : UInt32) : UInt32 := tag + ((tagSize m tag + 7) &&& ~~~7)

/-- `MULTIBOOT_TAG_TYPE_END`. -/
def MULTIBOOT_TAG_TYPE_END : UInt32 := 0

/-- `MULTIBOOT_TAG_TYPE_BASIC_MEMINFO`. -/
def MULTIBOOT_TAG_TYPE_BASIC_MEMINFO : UInt32 := 4

/-- `MULTIBOOT_TAG_TYPE_MMAP`. -/
def MULTIBOOT_TAG_TYPE_MMAP : UInt32 := 6

/-- `MULTIBOOT_MEMORY_AVAILABLE`. -/
def MULTIBOOT_MEMORY_AVAILABLE : UInt32 := 1

/-- `MULTIBOOT2_BOOTLOADER_MAGIC`. -/
def MULTIBOOT2_BOOTLOADER_MAGIC : UInt32 := 0x2BADB002

/-- `meminfo->mem_upper`. -/
def memUpper (m : Memory) (tag : UInt32) : UInt32 := m.load32 (tag + 12)

/-- `mmap_tag->entry_size`. -/
def entrySize (m : Memory) (tag : UInt32) : UInt32 := m.load32 (tag + 8)

/-- `mmap_tag->entries`; the header of the tag is `sizeof(struct multiboot_tag_mmap)` bytes. -/
def entries (tag : UInt32) : UInt32 := tag + 16

/-- `(mmap_tag->size - sizeof(struct multiboot_tag_mmap)) / mmap_tag->entry_size`. -/
def entryCount (m : Memory) (tag : UInt32) : UInt32 := (tagSize m tag - 16) / entrySize m tag

/-- `entry->addr`. -/
def entryAddr (m : Memory) (e : UInt32) : UInt64 := m.load64 e

/-- `entry->len`. -/
def entryLen (m : Memory) (e : UInt32) : UInt64 := m.load64 (e + 8)

/-- `entry->type`. -/
def entryType (m : Memory) (e : UInt32) : UInt32 := m.load32 (e + 16)

/-- The clamp of an address to 32 bits. -/
def clamp32 (a : UInt64) : UInt32 := if a > 0xFFFFFFFF then 0xFFFFFFFF else a.toUInt32

/-! ## Initialisation. -/

/-- The loop body of `pmm_init` over the entries of a memory map. -/
def freeEntry (m : Memory) (s : Frames) (e : UInt32) : Frames :=
  if entryType m e = MULTIBOOT_MEMORY_AVAILABLE then
    let regionEnd32 := clamp32 (entryAddr m e + entryLen m e)
    let regionStart32 := clamp32 (entryAddr m e)
    if regionEnd32 > regionStart32 then
      let endFrame := regionEnd32 / FRAME_SIZE
      let s := if endFrame > s.highestFrameIndex then { s with highestFrameIndex := endFrame } else s
      forFrames clearFrame (regionStart32 / FRAME_SIZE) endFrame s
    else s
  else s

/-- The entries `entry[0]`, ..., `entry[count - 1]`, each `sizeof(struct multiboot_mmap_entry)` bytes. -/
def freeEntries (m : Memory) (s : Frames) (entry : UInt32) (count : UInt32) : Frames :=
  (List.range count.toNat).foldl (fun s i => freeEntry m s (entry + 24 * UInt32.ofNat i)) s

/-- One pass of the walk of `pmm_init` to the first memory-map tag. -/
def findMmap (m : Memory) (tag : UInt32) : Pass UInt32 (Option UInt32) :=
  if tagType m tag = MULTIBOOT_TAG_TYPE_END then .done none
  else if tagType m tag = MULTIBOOT_TAG_TYPE_MMAP then .done (some tag)
  else .next (nextTag m tag)

/-- The end of `pmm_init`: the limit, and the frames that stay in use. -/
def finishInit (s : Frames) (kernelStart kernelEnd : UInt32) : Frames :=
  let highest := if s.highestFrameIndex > MAX_FRAMES then MAX_FRAMES else s.highestFrameIndex
  let s := { s with highestFrameIndex := highest, totalFrames := highest }
  pmmMarkUsedRegion (reserveRange s 0 0x100000) kernelStart (kernelEnd - kernelStart)

/-- `pmm_init`; `mbi + 1` is `sizeof(struct multiboot_info)` bytes further. -/
def pmmInit (m : Memory) (s : Frames) (memUpperKb kernelStart kernelEnd mbi : UInt32) : Option Frames :=
  let s := { allUsed s with highestFrameIndex := 0 }
  if m.load32 mbi &&& ((1 : UInt32) <<< 6) ≠ 0 then
    match loop (findMmap m) (mbi + 88) with
    | none => none
    | some none => some (finishInit s kernelStart kernelEnd)
    | some (some tag) =>
      if entrySize m tag = 0 then none
      else some (finishInit (freeEntries m s (entries tag) (entryCount m tag)) kernelStart kernelEnd)
  else
    let totalKb := 1024 + memUpperKb
    let totalBytes := totalKb * 1024
    let s := { s with highestFrameIndex := totalBytes / FRAME_SIZE }
    -- the loop runs while `f < highest_frame_index && f < MAX_FRAMES`
    let stop := if s.highestFrameIndex > MAX_FRAMES then MAX_FRAMES else s.highestFrameIndex
    let s := forFrames clearFrame 0 stop s
    some (finishInit s kernelStart kernelEnd)

/-- `pmm_init_basic`; its `total_frames` is a local variable. -/
def pmmInitBasic (s : Frames) (memUpperKb kernelStart kernelEnd : UInt32) : Frames :=
  let s := allUsed s
  let totalMemKb := 1024 + memUpperKb
  let totalFrames := totalMemKb * 1024 / FRAME_SIZE
  let totalFrames := if totalFrames > MAX_FRAMES then MAX_FRAMES else totalFrames
  let s := forFrames clearFrame 0 totalFrames s
  pmmMarkUsedRegion (pmmMarkUsedRegion s 0 0x100000) kernelStart (kernelEnd - kernelStart)

/-- `pmm_init_default`. -/
def pmmInitDefault (s : Frames) (memUpperKb : UInt32) : Frames :=
  pmmInitBasic s (if memUpperKb = 0 then 63 * 1024 else memUpperKb) 0 0

/-- What the walk of `memory_init` collects: `mem_upper_kb`, `mmap_entries` and `mmap_entry_count`. -/
structure BootInfo where
  memUpperKb : UInt32
  mmapEntries : UInt32
  mmapEntryCount : UInt32

/-- One pass of the walk of `memory_init`; it ends with `none` at a division by zero. -/
def scanTag (m : Memory) : UInt32 × BootInfo → Pass (UInt32 × BootInfo) (Option BootInfo)
  | (tag, info) =>
    if tagType m tag = MULTIBOOT_TAG_TYPE_END then .done (some info)
    else if tagType m tag = MULTIBOOT_TAG_TYPE_BASIC_MEMINFO then
      .next (nextTag m tag, { info with memUpperKb := memUpper m tag })
    else if tagType m tag = MULTIBOOT_TAG_TYPE_MMAP then
      if entrySize m tag = 0 then .done none
      else .next (nextTag m tag,
        { info with mmapEntries := entries tag, mmapEntryCount := entryCount m tag })
    else .next (nextTag m tag, info)

/-- `memory_init`, for a kernel image from `_kernel_start` to `_kernel_end`. The address of the entries of
    the memory map is passed to `pmm_init` where that function takes its `mbi`. -/
def memoryInit (m : Memory) (s : Frames) (kernelStart kernelEnd mbMagic mbInfoAddr : UInt32) : Option Frames :=
  if mbMagic = MULTIBOOT2_BOOTLOADER_MAGIC ∨ mbMagic = 0x1BADB002 then
    match loop (scanTag m) (mbInfoAddr + 8, ⟨0, 0, 0⟩) with
    | none => none
    | some none => none
    | some (some info) =>
      let kernelSize := kernelEnd - kernelStart
      if info.mmapEntries ≠ 0 ∧ info.mmapEntryCount > 0 then
        match pmmInit m s info.memUpperKb kernelStart kernelEnd info.mmapEntries with
        | none => none
        | some s => some (pmmMarkUsedRegion s kernelStart kernelSize)
      else some (pmmMarkUsedRegion (pmmInitBasic s info.memUpperKb kernelStart kernelEnd) kernelStart kernelSize)
  else
    let memSizeMb := 64
    some (pmmInitDefault s (memSizeMb * 1024 - 1024))

end RetaOS.Pmm
