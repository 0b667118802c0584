import RetaOS.Pmm.Bitmap

/-!
# What the initialisers leave free

Each initialiser of `pmm.c` takes a set of frames for available, `Marks` or `ramFrames`, and frees it; it
then puts the first megabyte and the kernel image back in use. `Initialised avail ks ke s` is that result:
the free frames of `s` are those of `avail` that lie above the first megabyte and clear of the kernel image
from `ks` to `ke`, and all of them are below `total_frames`.
-/

namespace RetaOS.Pmm
open Lib

/-- A frame that holds a byte of the kernel image. -/
def Touches (kernelStart kernelEnd : UInt32) (f : Nat) : Prop :=
  kernelStart < kernelEnd ∧ f * 4096 < kernelEnd.toNat ∧ kernelStart.toNat < (f + 1) * 4096

/-- The frames `pmm_init` frees for one entry of a memory map. -/
def EntryFrames (m : Memory) (e : UInt32) (f : Nat) : Prop :=
  entryType m e = MULTIBOOT_MEMORY_AVAILABLE ∧ (clamp32 (entryAddr m e) / FRAME_SIZE).toNat ≤ f ∧
    f < (clamp32 (entryAddr m e + entryLen m e) / FRAME_SIZE).toNat

/-- The frames `pmm_init` frees for a memory map. -/
def MapFrames (m : Memory) (entry count : UInt32) (f : Nat) : Prop :=
  ∃ i < count.toNat, EntryFrames m (entry + 24 * UInt32.ofNat i) f

/-- The number of frames taken for available when only the memory above 1 MB is known. -/
def ramFrames (memUpperKb : UInt32) : Nat := min ((1024 + memUpperKb) * 1024 / FRAME_SIZE).toNat 32768

/-- The frames `pmm_init` takes for available. -/
def Marks (m : Memory) (memUpperKb mbi : UInt32) (f : Nat) : Prop :=
  if m.load32 mbi &&& ((1 : UInt32) <<< 6) ≠ 0 then
    ∃ tag, loop (findMmap m) (mbi + 88) = some (some tag) ∧ MapFrames m (entries tag) (entryCount m tag) f
  else f < ramFrames memUpperKb

/-- The state an initialiser leaves, when it takes the frames of `avail` for available. -/
structure Initialised (avail : Nat → Prop) (kernelStart kernelEnd : UInt32) (s : Frames) : Prop where
  free : ∀ g : UInt32, g.toNat < 32768 →
    (testFrame s g = false ↔ avail g.toNat ∧ 256 ≤ g.toNat ∧ ¬ Touches kernelStart kernelEnd g.toNat)
  outside : s.outside = true ↔ ∃ f, 32768 ≤ f ∧ avail f
  below : ∀ f < 32768, avail f → f < s.totalFrames.toNat
  limit : s.totalFrames.toNat ≤ 32768

variable {m : Memory} {s s' : Frames} {a b e ks ke mbi upper : UInt32} {avail R : Nat → Prop}

lemma testFrame_allUsed {g : UInt32} (h : g.toNat < 32768) : testFrame (allUsed s) g = true := by
  have lt : g.toNat % 32 < 32 := Nat.mod_lt _ (by decide)
  have full : word (allUsed s) g = 0xFFFFFFFF := by
    rw [word, word_index, allUsed]
    simp [show g.toNat / 32 < 1024 by omega]
  rw [testFrame_eq, full]
  change (2 ^ 32 - 1).testBit (g.toNat % 32) = true
  rw [Nat.testBit_two_pow_sub_one]
  exact decide_eq_true lt

lemma highest_forFrames : (forFrames clearFrame a b s).highestFrameIndex = s.highestFrameIndex :=
  forFrames_invariant clearFrame (fun _ t => t.highestFrameIndex = s.highestFrameIndex)
    (fun _ _ _ _ h => h) rfl

/-! ## The memory map. -/

/-- The clamp of an address, as a number. -/
lemma clamp32_toNat (a : UInt64) : (clamp32 a).toNat = min a.toNat 0xFFFFFFFF := by
  have max : (0xFFFFFFFF : UInt64).toNat = 0xFFFFFFFF := by decide
  rw [clamp32]
  split
  · rename_i above
    rw [gt_iff_lt, UInt64.lt_iff_toNat_lt, max] at above
    change 0xFFFFFFFF = _
    omega
  · rename_i below
    rw [gt_iff_lt, UInt64.lt_iff_toNat_lt, max] at below
    rw [UInt64.toNat_toUInt32]
    omega

/-- One entry frees its frames and raises the highest frame above them. -/
lemma freeEntry_spec : Freed (EntryFrames m e) s (freeEntry m s e) ∧
    s.highestFrameIndex.toNat ≤ (freeEntry m s e).highestFrameIndex.toNat ∧
    ∀ f, EntryFrames m e f → f < (freeEntry m s e).highestFrameIndex.toNat := by
  rw [freeEntry]
  split
  · rename_i type
    dsimp only
    generalize hb : clamp32 (entryAddr m e + entryLen m e) = stop
    generalize ha : clamp32 (entryAddr m e) = start
    have frames : ∀ f, EntryFrames m e f ↔ (start / FRAME_SIZE).toNat ≤ f ∧ f < (stop / FRAME_SIZE).toNat := by
      intro f
      rw [EntryFrames, ha, hb]
      exact and_iff_right type
    split
    · rw [highest_forFrames]
      refine ⟨Freed.congr ⟨fun g lt => ?_, ?_, ?_⟩ frames, ?_, ?_⟩
      · split
        · exact freed_forFrames.test g lt
        · exact freed_forFrames.test g lt
      · split
        · exact freed_forFrames.outside
        · exact freed_forFrames.outside
      · split
        · exact freed_forFrames.total
        · exact freed_forFrames.total
      · split
        · rename_i higher
          exact Nat.le_of_lt (UInt32.lt_iff_toNat_lt.mp higher)
        · exact le_rfl
      · intro f mem
        have lt := ((frames f).mp mem).2
        split
        · exact lt
        · rename_i lower
          rw [gt_iff_lt, UInt32.lt_iff_toNat_lt] at lower
          omega
    · rename_i empty
      have le : (stop / FRAME_SIZE).toNat ≤ (start / FRAME_SIZE).toNat := by
        rw [gt_iff_lt, UInt32.lt_iff_toNat_lt] at empty
        rw [UInt32.toNat_div, UInt32.toNat_div]
        exact Nat.div_le_div_right (by omega)
      have none : ∀ f, ¬ EntryFrames m e f := fun f mem => by
        have := (frames f).mp mem
        omega
      exact ⟨Freed.refl.congr fun f => iff_of_false (none f) id, le_rfl, fun f mem => absurd mem (none f)⟩
  · rename_i type
    have none : ∀ f, ¬ EntryFrames m e f := fun f mem => type mem.1
    exact ⟨Freed.refl.congr fun f => iff_of_false (none f) id, le_rfl, fun f mem => absurd mem (none f)⟩

/-- The first `k` entries of a map free their frames, all of them below the highest frame. -/
lemma foldEntries_spec (k : Nat) :
    Freed (fun f => ∃ i < k, EntryFrames m (e + 24 * UInt32.ofNat i) f) s
      ((List.range k).foldl (fun s i => freeEntry m s (e + 24 * UInt32.ofNat i)) s) ∧
    ∀ f, (∃ i < k, EntryFrames m (e + 24 * UInt32.ofNat i) f) →
      f < ((List.range k).foldl (fun s i => freeEntry m s (e + 24 * UInt32.ofNat i)) s).highestFrameIndex.toNat := by
  induction k with
  | zero => exact ⟨Freed.refl.congr fun f => by simp, by simp⟩
  | succ k ih =>
    rw [List.range_succ, List.foldl_append, List.foldl_cons, List.foldl_nil]
    obtain ⟨freed, high⟩ := ih
    obtain ⟨freed', le, high'⟩ := freeEntry_spec (m := m) (e := e + 24 * UInt32.ofNat k)
      (s := (List.range k).foldl (fun s i => freeEntry m s (e + 24 * UInt32.ofNat i)) s)
    have split : ∀ f, (∃ i < k + 1, EntryFrames m (e + 24 * UInt32.ofNat i) f) ↔
        (∃ i < k, EntryFrames m (e + 24 * UInt32.ofNat i) f) ∨
          EntryFrames m (e + 24 * UInt32.ofNat k) f := by
      intro f
      constructor
      · rintro ⟨i, lt, mem⟩
        rcases Nat.lt_succ_iff_lt_or_eq.mp lt with lt | rfl
        · exact .inl ⟨i, lt, mem⟩
        · exact .inr mem
      · rintro (⟨i, lt, mem⟩ | mem)
        · exact ⟨i, by omega, mem⟩
        · exact ⟨k, by omega, mem⟩
    refine ⟨(freed.trans freed').congr split, fun f mem => ?_⟩
    rcases (split f).mp mem with mem | mem
    · exact lt_of_lt_of_le (high f mem) le
    · exact high' f mem

/-- The entries of a map free its frames, all of them below the highest frame. -/
lemma freeEntries_spec (n : UInt32) : Freed (MapFrames m e n) s (freeEntries m s e n) ∧
    ∀ f, MapFrames m e n f → f < (freeEntries m s e n).highestFrameIndex.toNat :=
  foldEntries_spec n.toNat

/-! ## Low memory and the kernel image. -/

/-- The kernel image is put in use frame by frame. -/
lemma taken_kernel (le : ks ≤ ke) (hk : ke.toNat ≤ 0x8000000) :
    Taken (Touches ks ke) s (pmmMarkUsedRegion s ks (ke - ks)) := by
  rw [UInt32.le_iff_toNat_le] at le
  have len : (ke - ks).toNat = ke.toNat - ks.toNat := sub_toNat_of_le le
  rw [pmmMarkUsedRegion]
  split
  · rename_i zero
    rw [zero] at len
    change 0 = _ at len
    refine Taken.refl.congr fun f => iff_of_false (fun touch => ?_) id
    have lt := UInt32.lt_iff_toNat_lt.mp touch.1
    omega
  · rename_i ne
    have lt : ks.toNat < ke.toNat := by
      rw [← UInt32.toNat_inj, len] at ne
      change ¬ _ = 0 at ne
      omega
    have lo : (ks / FRAME_SIZE).toNat = ks.toNat / 4096 := UInt32.toNat_div ..
    have hi : ((ks + (ke - ks) + FRAME_SIZE - 1) / FRAME_SIZE).toNat = (ke.toNat + 4095) / 4096 := by
      rw [UInt32.add_comm ks, UInt32.sub_add_cancel, UInt32.toNat_div, UInt32.toNat_sub, UInt32.toNat_add]
      change (4294967296 - 1 + (ke.toNat + 4096) % 4294967296) % 4294967296 / 4096 = _
      omega
    refine taken_forFrames.congr fun f => ?_
    rw [Touches, lo, hi, UInt32.lt_iff_toNat_lt]
    omega

/-- Two ways to put the first megabyte in use. -/
lemma taken_low : Taken (fun f => f < 256) s (reserveRange s 0 0x100000) ∧
    Taken (fun f => f < 256) s (pmmMarkUsedRegion s 0 0x100000) := by
  have zero : ((0 : UInt32) / FRAME_SIZE).toNat = 0 := by decide
  have high : (((0x100000 : UInt32) + FRAME_SIZE - 1) / FRAME_SIZE).toNat = 256 := by decide
  have high' : (((0 : UInt32) + 0x100000 + FRAME_SIZE - 1) / FRAME_SIZE).toNat = 256 := by decide
  constructor
  · rw [reserveRange, if_neg (by decide)]
    refine taken_forFrames.congr fun f => ?_
    rw [zero, high]
    omega
  · rw [pmmMarkUsedRegion, if_neg (by decide)]
    refine taken_forFrames.congr fun f => ?_
    rw [zero, high']
    omega

section Left
variable {K : Nat → Prop} {g : UInt32}

/-- The frames left free when those of `avail` are freed, and low memory and those of `K` put back in use. -/
lemma Freed.left {t t' : Frames} {x y : UInt32} (free : Freed avail (allUsed s) t)
    (used : Taken (fun f => f < 256 ∨ K f) { t with totalFrames := x, highestFrameIndex := y } t')
    (lt : g.toNat < 32768) : testFrame t' g = false ↔ avail g.toNat ∧ 256 ≤ g.toNat ∧ ¬ K g.toNat := by
  have test := used.test g lt
  change _ ↔ testFrame t g = true ∨ _ at test
  rw [← Bool.not_eq_true, test, free.test g lt]
  simp only [testFrame_allUsed lt, true_and, not_or, not_not]
  rw [Nat.not_lt]

/-- Putting the frames of `K` back in use once more leaves the same frames free. -/
lemma Taken.left (take : Taken K s s') (lt : g.toNat < 32768)
    (left : testFrame s g = false ↔ avail g.toNat ∧ 256 ≤ g.toNat ∧ ¬ K g.toNat) :
    testFrame s' g = false ↔ avail g.toNat ∧ 256 ≤ g.toNat ∧ ¬ K g.toNat := by
  rw [← Bool.not_eq_true, take.test g lt, not_or, Bool.not_eq_true, left]
  tauto

/-- Frame 0 is low memory. -/
lemma testFrame_low (left : testFrame s 0 = false ↔ avail 0 ∧ 256 ≤ 0 ∧ ¬ K 0) : testFrame s 0 = true := by
  by_contra free
  rw [Bool.not_eq_true] at free
  exact absurd (left.mp free).2.1 (by decide)

end Left

/-- Freeing the available frames of an unused bitmap and putting low memory and the kernel back in use. -/
lemma Initialised.of_freed (quiet : s.outside = false) {t t' : Frames} {x y : UInt32}
    (free : Freed avail (allUsed s) t)
    (used : Taken (fun f => f < 256 ∨ Touches ks ke f) { t with totalFrames := x, highestFrameIndex := y } t')
    (hk : ke.toNat ≤ 0x8000000) (below : ∀ f < 32768, avail f → f < x.toNat) (limit : x.toNat ≤ 32768) :
    Initialised avail ks ke t' := by
  refine ⟨fun g lt => free.left used lt, ?_, ?_, ?_⟩
  · have out := used.outside
    change _ ↔ t.outside = true ∨ _ at out
    rw [out, free.outside, show (allUsed s).outside = s.outside from rfl, quiet]
    have none : ¬ ∃ f, 32768 ≤ f ∧ (f < 256 ∨ Touches ks ke f) := by
      rintro ⟨f, le, lt | touch⟩
      · omega
      · have := touch.2.1
        omega
    simp only [Bool.false_eq_true, false_or, none, or_false]
  · rw [used.total]
    exact below
  · rw [used.total]
    exact limit

/-- Frame 0 is left in use. -/
lemma Initialised.low (is : Initialised avail ks ke s) : testFrame s 0 = true :=
  testFrame_low (is.free 0 (by decide))

/-- The cap of a number of frames at `MAX_FRAMES`. -/
lemma cap_toNat : (if a > MAX_FRAMES then MAX_FRAMES else a).toNat = min a.toNat 32768 := by
  have max : MAX_FRAMES.toNat = 32768 := by decide
  split
  · rename_i above
    rw [gt_iff_lt, UInt32.lt_iff_toNat_lt, max] at above
    rw [max]
    omega
  · rename_i below
    rw [gt_iff_lt, UInt32.lt_iff_toNat_lt, max] at below
    omega

/-- The end of `pmm_init`, after the available frames have been freed. -/
lemma finishInit_spec (quiet : s.outside = false) {t : Frames} (free : Freed avail (allUsed s) t)
    (high : ∀ f < 32768, avail f → f < t.highestFrameIndex.toNat) (le : ks ≤ ke) (hk : ke.toNat ≤ 0x8000000) :
    Initialised avail ks ke (finishInit t ks ke) := by
  refine .of_freed quiet free (taken_low.1.trans (taken_kernel le hk)) hk (fun f lt mem => ?_) ?_
  · rw [cap_toNat]
    have := high f lt mem
    omega
  · rw [cap_toNat]
    omega

/-- The highest frame has no part in what is freed. -/
lemma Freed.of_highest {x : UInt32} (h : Freed R { s with highestFrameIndex := x } s') : Freed R s s' :=
  ⟨h.test, h.outside, h.total⟩

/-! ## The initialisers. -/

/-- The loop that frees the frames below a limit. -/
lemma freed_ram {n : UInt32} (cap : n.toNat = ramFrames upper) :
    Freed (fun f => f < ramFrames upper) s (forFrames clearFrame 0 n s) := by
  refine freed_forFrames.congr fun f => ?_
  rw [cap]
  exact (and_iff_right (Nat.zero_le f)).symm

/-- Marks of a map that the walk has found. -/
lemma marks_found {tag : UInt32} (upper : UInt32) (flag : m.load32 mbi &&& ((1 : UInt32) <<< 6) ≠ 0)
    (walk : loop (findMmap m) (mbi + 88) = some (some tag)) (f : Nat) :
    Marks m upper mbi f ↔ MapFrames m (entries tag) (entryCount m tag) f := by
  rw [Marks, if_pos flag, walk]
  constructor
  · rintro ⟨_, eq, mem⟩
    cases eq
    exact mem
  · exact fun mem => ⟨tag, rfl, mem⟩

/-- `pmm_init`, when it returns, frees the frames it takes for available and then reserves. -/
lemma pmmInit_freed (run : pmmInit m s upper ks ke mbi = some s') :
    ∃ t, Freed (Marks m upper mbi) (allUsed s) t ∧ (∀ f < 32768, Marks m upper mbi f → f < t.highestFrameIndex.toNat) ∧
      s' = finishInit t ks ke := by
  rw [pmmInit] at run
  dsimp only at run
  split at run
  · rename_i flag
    have marks : ∀ f, Marks m upper mbi f ↔ ∃ tag, loop (findMmap m) (mbi + 88) = some (some tag) ∧
        MapFrames m (entries tag) (entryCount m tag) f := fun f => by
      rw [Marks, if_pos flag]
    split at run
    · cases run
    · rename_i walk
      cases run
      have none : ∀ f, ¬ Marks m upper mbi f := by
        intro f mem
        obtain ⟨tag, walk', -⟩ := (marks f).mp mem
        cases walk.symm.trans walk'
      exact ⟨_, .of_highest (Freed.refl.congr fun f => iff_of_false (none f) id),
        fun f _ mem => absurd mem (none f), rfl⟩
    · rename_i tag walk
      split at run
      · cases run
      · cases run
        obtain ⟨freed, high⟩ := freeEntries_spec (m := m) (e := entries tag)
          (s := { allUsed s with highestFrameIndex := 0 }) (entryCount m tag)
        have marks' := marks_found upper flag walk
        exact ⟨_, .of_highest (freed.congr marks'), fun f _ mem => high f ((marks' f).mp mem), rfl⟩
  · rename_i flag
    cases run
    have marks : ∀ f, Marks m upper mbi f ↔ f < ramFrames upper := fun f => by
      rw [Marks, if_neg flag]
    refine ⟨_, .of_highest ((freed_ram cap_toNat).congr marks), fun f lt mem => ?_, rfl⟩
    rw [highest_forFrames]
    have below := (marks f).mp mem
    rw [ramFrames] at below
    dsimp only
    omega

theorem pmmInit_spec (quiet : s.outside = false) (le : ks ≤ ke) (hk : ke.toNat ≤ 0x8000000)
    (run : pmmInit m s upper ks ke mbi = some s') : Initialised (Marks m upper mbi) ks ke s' := by
  obtain ⟨t, freed, high, rfl⟩ := pmmInit_freed run
  exact finishInit_spec quiet freed high le hk

/-- `pmm_init_basic` frees the frames below the end of memory and then reserves. -/
lemma pmmInitBasic_freed (upper ks ke : UInt32) (total : s.totalFrames = MAX_FRAMES) :
    ∃ t, Freed (fun f => f < ramFrames upper) (allUsed s) t ∧ t.totalFrames.toNat = 32768 ∧
      pmmInitBasic s upper ks ke = pmmMarkUsedRegion (pmmMarkUsedRegion t 0 0x100000) ks (ke - ks) := by
  have free : Freed (fun f => f < ramFrames upper) (allUsed s) _ := freed_ram cap_toNat
  refine ⟨_, free, ?_, rfl⟩
  rw [free.total]
  change s.totalFrames.toNat = _
  rw [total]
  decide

theorem pmmInitBasic_spec (quiet : s.outside = false) (total : s.totalFrames = MAX_FRAMES) (le : ks ≤ ke)
    (hk : ke.toNat ≤ 0x8000000) :
    Initialised (fun f => f < ramFrames upper) ks ke (pmmInitBasic s upper ks ke) := by
  obtain ⟨t, free, size, run⟩ := pmmInitBasic_freed upper ks ke total
  rw [run]
  exact .of_freed (x := t.totalFrames) (y := t.highestFrameIndex) quiet free
    (taken_low.2.trans (taken_kernel le hk)) hk (fun f lt _ => size ▸ lt) size.le

end RetaOS.Pmm
