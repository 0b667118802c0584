import RetaOS.Pmm.Access
import RetaOS.Pmm.MemoryInit

/-!
# The memory behind the kernel heap

`paging_init` backs the kernel heap with the physical frames from 4 MB to 5 MB, and nothing in `pmm.c` or
`memory_init` reserves them. `LeftFree` is what an initialiser leaves for any boundaries of the kernel image,
`memoryInit_leftFree` what `memory_init` leaves for any information block, and `heap_kept_iff` says when none
of the frames of the heap can be returned by `pmm_alloc_frame`.
-/

namespace RetaOS.Pmm
open Lib

/-- `PAGE_PRESENT`. -/
def PAGE_PRESENT : UInt32 := 0x001

/-- `PAGE_RW`. -/
def PAGE_RW : UInt32 := 0x002

/-- `heap_page_table[i]` as `paging_init` fills it, for virtual addresses from `0xC0000000`. -/
def heapPageTable (i : Fin 1024) : UInt32 :=
  if i < 256 then
    ((0x400000 + UInt32.ofNat i * 0x1000) &&& ~~~(0xFFF : UInt32)) ||| PAGE_PRESENT ||| PAGE_RW
  else 0

/-- A physical frame address that a present entry of the table maps. -/
def BacksHeap (a : UInt32) : Prop :=
  ∃ i : Fin 1024, heapPageTable i &&& PAGE_PRESENT ≠ 0 ∧ heapPageTable i &&& ~~~(0xFFF : UInt32) = a

/-- What an initialiser leaves free, when it takes the frames of `avail` for available memory. -/
structure LeftFree (avail : Nat → Prop) (kernelStart kernelEnd : UInt32) (s : Frames) : Prop where
  free : ∀ g : UInt32, g.toNat < 32768 → (testFrame s g = false ↔
    avail g.toNat ∧ 256 ≤ g.toNat ∧ ¬ RegionFrames kernelStart (kernelEnd - kernelStart) g.toNat)
  below : ∀ f < 32768, avail f → f < s.totalFrames.toNat
  limit : s.totalFrames.toNat ≤ 32768

/-- The frames that `memory_init` takes for available memory, whatever its walk over the tags finds. -/
def TakenForMemory (m : Memory) (magic info : UInt32) (f : Nat) : Prop :=
  if Accepted magic then
    ∃ found, loop (scanTag m) (info + 8, ⟨0, 0, 0⟩) = some (some found) ∧
      if found.mmapEntries ≠ 0 ∧ found.mmapEntryCount > 0 then Marks m found.memUpperKb found.mmapEntries f
      else f < ramFrames found.memUpperKb
  else f < 0x4000

/-- The frames that `memory_init` marks for the kernel image. -/
def KernelFrames (magic kernelStart kernelEnd : UInt32) (f : Nat) : Prop :=
  Accepted magic ∧ RegionFrames kernelStart (kernelEnd - kernelStart) f

variable {m : Memory} {s s' t : Frames} {a f g ks ke upper mbi info magic : UInt32} {avail : Nat → Prop}

/-! ## What the initialisers leave free. -/

/-- Freeing the available frames of an unused bitmap, and putting low memory and a region back in use. -/
lemma LeftFree.of_freed {x y : UInt32} (free : Freed avail (allUsed s) t)
    (used : Taken (fun f => f < 256 ∨ RegionFrames ks (ke - ks) f)
      { t with totalFrames := x, highestFrameIndex := y } s')
    (below : ∀ f < 32768, avail f → f < x.toNat) (limit : x.toNat ≤ 32768) : LeftFree avail ks ke s' := by
  refine ⟨fun g lt => free.left used lt, ?_, ?_⟩
  · rw [used.total]
    exact below
  · rw [used.total]
    exact limit

/-- Frame 0 is left in use. -/
lemma LeftFree.low (left : LeftFree avail ks ke s) : testFrame s 0 = true :=
  testFrame_low (left.free 0 (by decide))

/-- Marking the same region once more changes nothing. -/
lemma LeftFree.mark (left : LeftFree avail ks ke s) :
    LeftFree avail ks ke (pmmMarkUsedRegion s ks (ke - ks)) := by
  have take := taken_region s ks (ke - ks)
  refine ⟨fun g lt => take.left lt (left.free g lt), ?_, ?_⟩
  · rw [take.total]
    exact left.below
  · rw [take.total]
    exact left.limit

lemma pmmInit_leftFree (run : pmmInit m s upper ks ke mbi = some s') :
    LeftFree (Marks m upper mbi) ks ke s' := by
  obtain ⟨t, freed, high, rfl⟩ := pmmInit_freed run
  refine .of_freed freed (taken_low.1.trans (taken_region ..)) (fun f lt mem => ?_) ?_
  · rw [cap_toNat]
    have := high f lt mem
    omega
  · rw [cap_toNat]
    omega

lemma pmmInitBasic_leftFree (total : s.totalFrames = MAX_FRAMES) :
    LeftFree (fun f => f < ramFrames upper) ks ke (pmmInitBasic s upper ks ke) := by
  obtain ⟨t, free, size, run⟩ := pmmInitBasic_freed upper ks ke total
  rw [run]
  exact .of_freed (x := t.totalFrames) (y := t.highestFrameIndex) free (taken_low.2.trans (taken_region ..))
    (fun f lt _ => size ▸ lt) size.le

/-- No frame is marked for an empty kernel image. -/
lemma not_regionFrames_zero {f : Nat} : ¬ RegionFrames 0 (0 - 0) f := fun mem => mem.1 rfl

/-- The state `memory_init` leaves. -/
lemma memoryInit_leftFree (run : memoryInit m boot ks ke magic info = some s) :
    ∃ x y, LeftFree (TakenForMemory m magic info) x y s ∧
      ∀ f, RegionFrames x (y - x) f ↔ KernelFrames magic ks ke f := by
  rw [memoryInit] at run
  change (if Accepted magic then _ else _) = _ at run
  by_cases ok : Accepted magic
  · have kernel : ∀ f, RegionFrames ks (ke - ks) f ↔ KernelFrames magic ks ke f :=
      fun f => (and_iff_right ok).symm
    refine ⟨ks, ke, ?_, kernel⟩
    rw [if_pos ok] at run
    split at run
    · cases run
    · cases run
    · rename_i found walk
      have taken : TakenForMemory m magic info = fun f =>
          if found.mmapEntries ≠ 0 ∧ found.mmapEntryCount > 0 then Marks m found.memUpperKb found.mmapEntries f
          else f < ramFrames found.memUpperKb := by
        funext f
        rw [TakenForMemory, if_pos ok, walk]
        simp only [Option.some.injEq, exists_eq_left']
      rw [taken]
      dsimp only at run
      by_cases map : found.mmapEntries ≠ 0 ∧ found.mmapEntryCount > 0
      · rw [if_pos map] at run
        simp only [if_pos map]
        split at run
        · cases run
        · rename_i init
          cases run
          exact (pmmInit_leftFree init).mark
      · rw [if_neg map] at run
        simp only [if_neg map]
        cases run
        exact (pmmInitBasic_leftFree rfl).mark
  · refine ⟨0, 0, ?_, fun f => iff_of_false not_regionFrames_zero fun mem => ok mem.1⟩
    rw [if_neg ok] at run
    have default : pmmInitDefault boot (64 * 1024 - 1024) = s := Option.some.inj run
    rw [pmmInitDefault, if_neg (by decide)] at default
    have ram : ramFrames (64 * 1024 - 1024) = 0x4000 := by decide
    have taken : TakenForMemory m magic info = fun f => f < ramFrames (64 * 1024 - 1024) := by
      funext f
      rw [TakenForMemory, if_neg ok, ram]
    rw [taken, ← default]
    exact pmmInitBasic_leftFree rfl

/-! ## The frames of the heap. -/

/-- The present entries of the table are the first 256, one for each frame from 4 MB on. -/
lemma heapPageTable_entry : ∀ i : Fin 1024, (heapPageTable i &&& PAGE_PRESENT ≠ 0 ↔ i.val < 256) ∧
    (i.val < 256 → heapPageTable i &&& ~~~(0xFFF : UInt32) = frameAddr (UInt32.ofNat (0x400 + i.val))) := by
  decide +kernel

/-- The frames behind the heap are those from 4 MB to 5 MB. -/
lemma backsHeap_frameAddr (h : f.toNat < 32768) : BacksHeap (frameAddr f) ↔ 0x400 ≤ f.toNat ∧ f.toNat < 0x500 := by
  constructor
  · rintro ⟨i, present, eq⟩
    have lt := (heapPageTable_entry i).1.mp present
    have num : (UInt32.ofNat (0x400 + i.val)).toNat = 0x400 + i.val := toNat_ofNat_lt (by omega)
    rw [(heapPageTable_entry i).2 lt, frameAddr_inj (by omega) h] at eq
    rw [← eq, num]
    omega
  · rintro ⟨lo, hi⟩
    let i : Fin 1024 := ⟨f.toNat - 0x400, by omega⟩
    have lt : i.val < 256 := by
      change f.toNat - 0x400 < 256
      omega
    refine ⟨i, (heapPageTable_entry i).1.mpr lt, ?_⟩
    rw [(heapPageTable_entry i).2 lt]
    change frameAddr (UInt32.ofNat (0x400 + (f.toNat - 0x400))) = _
    rw [show 0x400 + (f.toNat - 0x400) = f.toNat by omega, UInt32.ofNat_toNat]

/-- The frames that can be returned after `memory_init`. -/
lemma memoryInit_canReturn (run : memoryInit m boot ks ke magic info = some s) :
    CanReturn s a ↔ ∃ f : UInt32, f.toNat < 32768 ∧ TakenForMemory m magic info f.toNat ∧ 256 ≤ f.toNat ∧
      ¬ KernelFrames magic ks ke f.toNat ∧ a = frameAddr f := by
  obtain ⟨x, y, left, kernel⟩ := memoryInit_leftFree run
  rw [canReturn_iff left.limit left.low]
  constructor
  · rintro ⟨f, lt, free, rfl⟩
    have small : f.toNat < 32768 := lt_of_lt_of_le (UInt32.lt_iff_toNat_lt.mp lt) left.limit
    obtain ⟨taken, high, clear⟩ := (left.free f small).mp free
    exact ⟨f, small, taken, high, fun mem => clear ((kernel _).mpr mem), rfl⟩
  · rintro ⟨f, small, taken, high, clear, rfl⟩
    refine ⟨f, UInt32.lt_iff_toNat_lt.mpr (left.below _ small taken), ?_, rfl⟩
    exact (left.free f small).mpr ⟨taken, high, fun mem => clear ((kernel _).mp mem)⟩

/-- After `memory_init`, no frame behind the kernel heap can be returned by `pmm_alloc_frame` exactly when every
    frame from 4 MB to 5 MB is not taken for memory or is marked for the kernel image. -/
theorem heap_kept_iff (run : memoryInit m boot ks ke magic info = some s) :
    (∀ a, CanReturn s a → ¬ BacksHeap a) ↔
      ∀ f, 0x400 ≤ f → f < 0x500 → TakenForMemory m magic info f → KernelFrames magic ks ke f := by
  constructor
  · intro kept f lo hi taken
    by_contra clear
    have num : (UInt32.ofNat f).toNat = f := toNat_ofNat_lt (by omega)
    refine kept (frameAddr (UInt32.ofNat f)) ((memoryInit_canReturn run).mpr ?_) ?_
    · refine ⟨UInt32.ofNat f, ?_⟩
      rw [num]
      exact ⟨by omega, taken, by omega, clear, rfl⟩
    · rw [backsHeap_frameAddr (by omega), num]
      exact ⟨lo, hi⟩
  · intro cond a ret backs
    obtain ⟨f, small, taken, -, clear, rfl⟩ := (memoryInit_canReturn run).mp ret
    obtain ⟨lo, hi⟩ := (backsHeap_frameAddr small).mp backs
    exact clear (cond _ lo hi taken)

/-- `memory_init` takes 16 MB for memory on this block. -/
lemma holeInfo_taken {f : Nat} (lt : f < 0x1000) : TakenForMemory (holeInfo true) 0x2BADB002 0x9000 f := by
  have ram : ramFrames (memUpperOf (holeInfo true) [0x9008, 0x9018]) = 0x1000 := by decide +kernel
  have map : entries 0x9018 ≠ 0 ∧ entryCount (holeInfo true) 0x9018 > 0 := by
    rw [holeInfo_count]
    decide
  rw [TakenForMemory, if_pos (.inl rfl), holeInfo_block.scan]
  refine ⟨_, rfl, ?_⟩
  rw [if_pos map, Marks, if_neg holeInfo_flags, ram]
  exact lt

/-- With an image that reaches from 1 MB to 5 MB the heap's frames stay out of reach, and others do not. -/
theorem heap_kept_large :
    ∃ s, memoryInit (holeInfo true) boot 0x100000 0x500000 0x2BADB002 0x9000 = some s ∧
      (∀ a, CanReturn s a → ¬ BacksHeap a) ∧ CanReturn s (frameAddr 0x800) := by
  obtain ⟨s, run⟩ := holeInfo_returns (u := true) 0x500000
  refine ⟨s, run, (heap_kept_iff run).mpr fun f lo hi _ => ⟨.inl rfl, ?_⟩, (memoryInit_canReturn run).mpr ?_⟩
  · have sum : (0x100000 + (0x500000 - 0x100000) : UInt32).toNat = 0x500000 := rfl
    have base : (0x100000 : UInt32).toNat = 0x100000 := rfl
    rw [regionFrames_iff, sum, base]
    exact ⟨by decide, by omega, by omega⟩
  · refine ⟨0x800, by decide, holeInfo_taken (by decide), by decide, ?_, rfl⟩
    rintro ⟨-, mem⟩
    rw [regionFrames_iff] at mem
    exact absurd mem.2.2 (by decide)

/-- With 16 MB of memory `pmm_alloc_frame` can return the frame that backs the first page of the heap. -/
theorem heap_frame_returned :
    ∃ s, memoryInit (holeInfo true) boot 0x100000 0x200000 0x2BADB002 0x9000 = some s ∧
      ∃ a, CanReturn s a ∧ BacksHeap a := by
  obtain ⟨s, run⟩ := holeInfo_returns (u := true) 0x200000
  refine ⟨s, run, frameAddr 0x400, (memoryInit_canReturn run).mpr ?_, ?_⟩
  · refine ⟨0x400, by decide, holeInfo_taken (by decide), by decide, ?_, rfl⟩
    rintro ⟨-, mem⟩
    rw [regionFrames_iff] at mem
    exact absurd mem.2.2 (by decide)
  · exact (backsHeap_frameAddr (by decide)).mpr (by decide)

end RetaOS.Pmm
