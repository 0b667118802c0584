import RetaOS.Kheap.Integrity
import RetaOS.Pmm.HeapBacking

/-!
# The first allocation and the frame bitmap

`kheap_init` starts the physical memory manager once more: `pmm_init()`, called through a prototype without
parameters, runs the four-parameter function of `memory/pmm.c` on whatever words the stack holds. Here the
kernel heap and the frame bitmap are one state, and `keepsUsed_iff` says for which words the first `kmalloc`
leaves every used frame used.
-/

namespace RetaOS.Kheap
open Lib
open Pmm (Frames pmmInit testFrame Marks RegionFrames findMmap entrySize)

/-- The kernel heap and the frame bitmap. -/
structure Kernel where
  heap : Heap
  frames : Frames

/-- The words of the stack where `pmm_init` expects its arguments. -/
structure StackWords where
  memUpperKb : UInt32
  kernelStart : UInt32
  kernelEnd : UInt32
  mbi : UInt32

/-- `kheap_init` with its call of `pmm_init`. -/
def Kernel.kheapInit (k : Kernel) (w : StackWords) : Option Kernel :=
  if k.heap.kheapInited then some k
  else
    match pmmInit k.heap.mem k.frames w.memUpperKb w.kernelStart w.kernelEnd w.mbi with
    | none => none
    | some frames => some { heap := Kheap.kheapInit k.heap, frames }

/-- `kmalloc` with the first initialisation of the frames. -/
def Kernel.kmalloc (k : Kernel) (n : UInt32) (w : StackWords) : Option (UInt32 × Kernel) :=
  match k.kheapInit w with
  | none => none
  | some k =>
    match Kheap.kmalloc k.heap n with
    | none => none
    | some (r, heap) => some (r, { k with heap })

/-- A `kmalloc` that returns leaves no used frame free. -/
def KeepsUsed (k : Kernel) (n : UInt32) (w : StackWords) : Prop :=
  ∀ r k', k.kmalloc n w = some (r, k') →
    ∀ g : UInt32, g.toNat < 32768 → testFrame k.frames g = true → testFrame k'.frames g = true

/-- `pmm_init` returns: its walk ends, and at no map whose `entry_size` it divides by is 0. -/
def PmmReturns (m : Memory) (mbi : UInt32) : Prop :=
  m.load32 mbi &&& ((1 : UInt32) <<< 6) ≠ 0 →
    ∃ found, loop (findMmap m) (mbi + 88) = some found ∧ ∀ tag, found = some tag → entrySize m tag ≠ 0

variable {k : Kernel} {n : UInt32} {w : StackWords} {m : Memory} {s : Frames} {upper ks ke mbi : UInt32}

lemma pmmInit_returns : (∃ s', pmmInit m s upper ks ke mbi = some s') ↔ PmmReturns m mbi := by
  rw [pmmInit, PmmReturns]
  dsimp only
  by_cases flag : m.load32 mbi &&& ((1 : UInt32) <<< 6) ≠ 0
  · rw [if_pos flag]
    cases loop (findMmap m) (mbi + 88) with
    | none => simp [flag]
    | some found =>
      cases found with
      | none => simp [flag]
      | some tag =>
        by_cases zero : entrySize m tag = 0
        · simp [flag, zero]
        · simp [flag, zero]
  · rw [if_neg flag]
    simp [flag]

/-- The first `kmalloc` returns for every size. -/
lemma kmalloc_returns {h : Heap} (fresh : h.kheapInited = false) (n : UInt32) :
    ∃ r h', Kheap.kmalloc (Kheap.kheapInit h) n = some (r, h') := by
  have v := kheapInit_valid fresh
  by_cases wraps : Wraps n
  · obtain ⟨h', run⟩ := kmalloc_wraps v wraps
    exact ⟨_, h', run⟩
  · rcases kmalloc_spec v wraps with ⟨_, _, _, r, h', -, -, -, run, -⟩ | ⟨-, run⟩
    · exact ⟨r, h', run⟩
    · exact ⟨0, _, run⟩

/-- The frames after the first `kmalloc` are those `pmm_init` leaves. -/
lemma kmalloc_frames (first : k.heap.kheapInited = false) {s : Frames} :
    (∃ r k', k.kmalloc n w = some (r, k') ∧ k'.frames = s) ↔
      pmmInit k.heap.mem k.frames w.memUpperKb w.kernelStart w.kernelEnd w.mbi = some s := by
  obtain ⟨r, h', run⟩ := kmalloc_returns first n
  rw [Kernel.kmalloc, Kernel.kheapInit, if_neg (by rw [first]; exact Bool.false_ne_true)]
  cases pmmInit k.heap.mem k.frames w.memUpperKb w.kernelStart w.kernelEnd w.mbi with
  | none => simp
  | some t =>
    dsimp only
    rw [run]
    simp

/-- The first `kmalloc` keeps every used frame used exactly when each frame that `pmm_init` takes for available
    from these words, above low memory and outside the region they give for the kernel, was free before, or
    `pmm_init` does not return. -/
theorem keepsUsed_iff (first : k.heap.kheapInited = false) : KeepsUsed k n w ↔
    (PmmReturns k.heap.mem w.mbi → ∀ g : UInt32, g.toNat < 32768 → Marks k.heap.mem w.memUpperKb w.mbi g.toNat →
      256 ≤ g.toNat → ¬ RegionFrames w.kernelStart (w.kernelEnd - w.kernelStart) g.toNat →
      testFrame k.frames g = false) := by
  constructor
  · intro keeps returns g lt mark high clear
    obtain ⟨s, init⟩ := pmmInit_returns.mpr returns
    obtain ⟨r, k', run, frames⟩ := (kmalloc_frames (n := n) first).mpr init
    have free := ((Pmm.pmmInit_leftFree init).free g lt).mpr ⟨mark, high, clear⟩
    rw [← Bool.not_eq_true]
    intro used
    have used' := keeps r k' run g lt used
    rw [frames, free] at used'
    cases used'
  · intro cond r k' run g lt used
    have init := (kmalloc_frames first).mp ⟨r, k', run, rfl⟩
    by_contra free
    rw [Bool.not_eq_true] at free
    obtain ⟨mark, high, clear⟩ := ((Pmm.pmmInit_leftFree init).free g lt).mp free
    rw [cond (pmmInit_returns.mp ⟨_, init⟩) g lt mark high clear] at used
    cases used

/-- With the words that `memory_init` has called it with, `pmm_init` frees what is free already and keeps the frames of
    the kernel image used. -/
theorem keepsUsed_again :
    ∃ s, Pmm.memoryInit (Pmm.holeInfo true) Pmm.boot 0x100000 0x200000 0x2BADB002 0x9000 = some s ∧
      KeepsUsed ⟨{ bare with mem := Pmm.holeInfo true }, s⟩ 64 ⟨0x3C00, 0x100000, 0x200000, 0⟩ ∧
      testFrame s 0x100 = true ∧ testFrame s 0x200 = false := by
  obtain ⟨s, run⟩ := Pmm.holeInfo_returns (u := true) 0x200000
  obtain ⟨x, y, left, kernel⟩ := Pmm.memoryInit_leftFree run
  have flag : ¬ (Pmm.holeInfo true).load32 0 &&& ((1 : UInt32) <<< 6) ≠ 0 := by decide +kernel
  have ram : Pmm.ramFrames 0x3C00 = 0x1000 := by decide +kernel
  refine ⟨s, run, (keepsUsed_iff rfl).mpr fun _ g lt mark high clear => (left.free g lt).mpr ⟨?_, high, ?_⟩, ?_, ?_⟩
  · change Marks (Pmm.holeInfo true) 0x3C00 0 g.toNat at mark
    rw [Marks, if_neg flag, ram] at mark
    exact Pmm.holeInfo_taken mark
  · intro image
    exact clear ((kernel _).mp image).2
  · by_contra free
    rw [Bool.not_eq_true] at free
    refine ((left.free 0x100 (by decide)).mp free).2.2 ((kernel _).mpr ⟨.inl rfl, ?_⟩)
    rw [Pmm.regionFrames_iff]
    decide
  · refine (left.free 0x200 (by decide)).mpr ⟨Pmm.holeInfo_taken (by decide), by decide, fun image => ?_⟩
    have mem := ((kernel _).mp image).2
    rw [Pmm.regionFrames_iff] at mem
    exact absurd mem.2.2 (by decide)

/-- On a machine with 16 MB, `memory_init` marks the frame at 1 MB for the kernel image, and the first `kmalloc`
    frees it again when the stack holds the size of the memory and zeros. -/
theorem kernel_frame_freed :
    ∃ s, Pmm.memoryInit (Pmm.holeInfo true) Pmm.boot 0x100000 0x200000 0x2BADB002 0x9000 = some s ∧
      ¬ KeepsUsed ⟨{ bare with mem := Pmm.holeInfo true }, s⟩ 64 ⟨0x3C00, 0, 0, 0⟩ := by
  obtain ⟨s, run⟩ := Pmm.holeInfo_returns (u := true) 0x200000
  refine ⟨s, run, fun keeps => ?_⟩
  have used : testFrame s 0x100 = true := by
    by_contra free
    rw [Bool.not_eq_true] at free
    obtain ⟨x, y, left, kernel⟩ := Pmm.memoryInit_leftFree run
    refine ((left.free 0x100 (by decide)).mp free).2.2 ((kernel _).mpr ⟨.inl rfl, ?_⟩)
    rw [Pmm.regionFrames_iff]
    decide
  have flag : ¬ (Pmm.holeInfo true).load32 0 &&& ((1 : UInt32) <<< 6) ≠ 0 := by decide +kernel
  obtain ⟨t, init⟩ : ∃ t, pmmInit (Pmm.holeInfo true) s 0x3C00 0 0 0 = some t :=
    pmmInit_returns.mpr fun no => absurd no flag
  have free : testFrame t 0x100 = false := by
    refine ((Pmm.pmmInit_leftFree init).free 0x100 (by decide)).mpr ⟨?_, by decide, Pmm.not_regionFrames_zero⟩
    rw [Marks, if_neg flag]
    decide
  obtain ⟨r, k', alloc, frames⟩ := (kmalloc_frames (k := ⟨{ bare with mem := Pmm.holeInfo true }, s⟩)
    (n := 64) (w := ⟨0x3C00, 0, 0, 0⟩) rfl).mpr init
  have used' := keeps r k' alloc 0x100 (by decide) used
  rw [frames, free] at used'
  cases used'

end RetaOS.Kheap
