import RetaOS.Pmm.Init

/-!
# Accesses of the bitmap

Which arguments make the functions of `pmm.c` leave the bitmap. `Taken` and `Freed` count every frame, also those
without a bit, so the frames a call goes through decide: `RegionFrames` and `RangeFrames` are those of
`pmm_mark_used_region` and `reserve_range` for any arguments, and `pmmInit_outside` has those of `pmm_init`.
`staysInside_iff` states for each function, in terms of its arguments, when all of them are below `MAX_FRAMES`.
-/

namespace RetaOS.Pmm
open Lib

/-- A call of one of the functions that go through ranges of frames. -/
inductive BitmapCall where
  | pmmInit (memUpperKb kernelStart kernelEnd mbi : UInt32)
  | pmmInitBasic (memUpperKb kernelStart kernelEnd : UInt32)
  | reserveRange (startAddr endAddr : UInt32)
  | pmmMarkUsedRegion (base size : UInt32)

/-- The state a call leaves when it returns. -/
def BitmapCall.run (m : Memory) (s : Frames) : BitmapCall → Option Frames
  | .pmmInit upper ks ke mbi => Pmm.pmmInit m s upper ks ke mbi
  | .pmmInitBasic upper ks ke => some (Pmm.pmmInitBasic s upper ks ke)
  | .reserveRange a b => some (Pmm.reserveRange s a b)
  | .pmmMarkUsedRegion base size => some (Pmm.pmmMarkUsedRegion s base size)

/-- Every access of the call is inside the bitmap. A `pmm_init` that does not return makes none after the
    bitmap has been filled. -/
def StaysInside (m : Memory) (s : Frames) (c : BitmapCall) : Prop :=
  ∀ s', c.run m { s with outside := false } = some s' → s'.outside = false

/-- The arguments with which `reserve_range` stays in the bitmap: an end at most at 128 MB, or one whose
    rounding up to a frame wraps to 0. -/
def RangeInside (startAddr endAddr : UInt32) : Prop :=
  endAddr ≤ startAddr ∨ endAddr.toNat ≤ 0x8000000 ∨ 0xFFFFF001 ≤ endAddr.toNat

/-- The arguments with which `pmm_mark_used_region` stays in the bitmap; the end of the region may wrap. -/
def RegionInside (base size : UInt32) : Prop :=
  size = 0 ∨ (base + size).toNat ≤ 0x8000000 ∨ 0xFFFFF001 ≤ (base + size).toNat ∨
    (base + size).toNat ≤ base.toNat / 4096 * 4096

/-- The entries of a memory map that `pmm_init` frees inside the bitmap: those that end in or before the first
    frame past it, and those without a frame between their clamped ends. -/
def EntryInside (m : Memory) (e : UInt32) : Prop :=
  entryType m e ≠ MULTIBOOT_MEMORY_AVAILABLE ∨ (entryAddr m e + entryLen m e).toNat < 0x8001000 ∨
    min (entryAddr m e + entryLen m e).toNat 0xFFFFFFFF / 4096 ≤ min (entryAddr m e).toNat 0xFFFFFFFF / 4096

/-- The arguments with which a call stays in the bitmap. -/
def BitmapCall.Inside (m : Memory) : BitmapCall → Prop
  | .pmmInit _ ks ke mbi =>
    if m.load32 mbi &&& ((1 : UInt32) <<< 6) ≠ 0 then
      match loop (findMmap m) (mbi + 88) with
      | none => True
      | some none => RegionInside ks (ke - ks)
      | some (some tag) => entrySize m tag = 0 ∨
        (∀ i < (entryCount m tag).toNat, EntryInside m (entries tag + 24 * UInt32.ofNat i)) ∧
          RegionInside ks (ke - ks)
    else RegionInside ks (ke - ks)
  | .pmmInitBasic _ ks ke => RegionInside ks (ke - ks)
  | .reserveRange a b => RangeInside a b
  | .pmmMarkUsedRegion base size => RegionInside base size

variable {m : Memory} {s s' t : Frames} {a b e ks ke mbi upper base size : UInt32} {avail R : Nat → Prop}

/-! ## The frames of a region. -/

/-- The frames that `reserve_range` goes through. -/
def RangeFrames (a b : UInt32) (f : Nat) : Prop :=
  a < b ∧ (a / FRAME_SIZE).toNat ≤ f ∧ f < ((b + FRAME_SIZE - 1) / FRAME_SIZE).toNat

/-- The frames that `pmm_mark_used_region` goes through. -/
def RegionFrames (base size : UInt32) (f : Nat) : Prop :=
  size ≠ 0 ∧ (base / FRAME_SIZE).toNat ≤ f ∧ f < ((base + size + FRAME_SIZE - 1) / FRAME_SIZE).toNat

lemma taken_range : Taken (RangeFrames a b) s (reserveRange s a b) := by
  rw [reserveRange]
  split_ifs with le
  · have none : ∀ f, ¬ RangeFrames a b f := fun f h => absurd h.1 (UInt32.not_lt.mpr le)
    exact Taken.refl.congr fun f => iff_of_false (none f) id
  · exact taken_forFrames.congr fun f => and_iff_right (UInt32.not_le.mp le)

lemma taken_region (s : Frames) (base size : UInt32) :
    Taken (RegionFrames base size) s (pmmMarkUsedRegion s base size) := by
  rw [pmmMarkUsedRegion]
  split_ifs with zero
  · exact Taken.refl.congr fun f => iff_of_false (fun h => h.1 zero) id
  · exact taken_forFrames.congr fun f => and_iff_right zero

/-- The end of a region in frames: rounded up, and 0 when the rounding wraps. -/
lemma roundUp_toNat (b : UInt32) :
    ((b + FRAME_SIZE - 1) / FRAME_SIZE).toNat = (b.toNat + 4095) % 2 ^ 32 / 4096 := by
  rw [UInt32.toNat_div, UInt32.toNat_sub, UInt32.toNat_add]
  change (4294967296 - 1 + (b.toNat + 4096) % 4294967296) % 4294967296 / 4096 = _
  omega

lemma roundDown_toNat (a : UInt32) : (a / FRAME_SIZE).toNat = a.toNat / 4096 := UInt32.toNat_div ..

lemma rangeFrames_iff (f : Nat) : RangeFrames a b f ↔
    a.toNat < b.toNat ∧ a.toNat / 4096 ≤ f ∧ f < (b.toNat + 4095) % 2 ^ 32 / 4096 := by
  rw [RangeFrames, roundUp_toNat, roundDown_toNat, UInt32.lt_iff_toNat_lt]

lemma regionFrames_iff (f : Nat) : RegionFrames base size f ↔
    size ≠ 0 ∧ base.toNat / 4096 ≤ f ∧ f < ((base + size).toNat + 4095) % 2 ^ 32 / 4096 := by
  rw [RegionFrames, roundUp_toNat, roundDown_toNat]

lemma rangeFrames_inside : (∀ f, RangeFrames a b f → f < 32768) ↔ RangeInside a b := by
  have top := b.toNat_lt
  rw [RangeInside, UInt32.le_iff_toNat_le]
  simp only [rangeFrames_iff]
  constructor
  · intro below
    by_contra no
    -- the last frame of the range
    have last := below ((b.toNat + 4095) % 2 ^ 32 / 4096 - 1) (by omega)
    omega
  · intro inside f mem
    omega

lemma regionFrames_inside : (∀ f, RegionFrames base size f → f < 32768) ↔ RegionInside base size := by
  have top := (base + size).toNat_lt
  rw [RegionInside]
  simp only [regionFrames_iff]
  by_cases zero : size = 0
  · simp [zero]
  · simp only [zero, ne_eq, not_false_eq_true, true_and, false_or]
    constructor
    · intro below
      by_contra no
      have last := below (((base + size).toNat + 4095) % 2 ^ 32 / 4096 - 1) (by omega)
      omega
    · intro inside f mem
      omega

/-! ## The initialisers. -/

lemma entryFrames_inside : (∀ f, EntryFrames m e f → f < 32768) ↔ EntryInside m e := by
  have stop : (clamp32 (entryAddr m e + entryLen m e) / FRAME_SIZE).toNat =
      min (entryAddr m e + entryLen m e).toNat 0xFFFFFFFF / 4096 := by
    rw [roundDown_toNat, clamp32_toNat]
  have start : (clamp32 (entryAddr m e) / FRAME_SIZE).toNat = min (entryAddr m e).toNat 0xFFFFFFFF / 4096 := by
    rw [roundDown_toNat, clamp32_toNat]
  simp only [EntryFrames, EntryInside, stop, start]
  generalize (entryAddr m e + entryLen m e).toNat = x
  generalize (entryAddr m e).toNat = y
  by_cases type : entryType m e = MULTIBOOT_MEMORY_AVAILABLE
  · simp only [type, true_and, ne_eq, not_true_eq_false, false_or]
    constructor
    · intro below
      by_contra no
      have last := below (min x 0xFFFFFFFF / 4096 - 1) (by omega)
      omega
    · intro inside f mem
      omega
  · simp [type]

/-- No frame past the bitmap, as an access that is not made. -/
lemma outside_iff {o : Bool} (h : o = true ↔ ∃ f, 32768 ≤ f ∧ R f) : o = false ↔ ∀ f, R f → f < 32768 := by
  rw [← Bool.not_eq_true, h]
  constructor
  · intro none f mem
    by_contra ge
    exact none ⟨f, by omega, mem⟩
  · rintro below ⟨f, ge, mem⟩
    have := below f mem
    omega

/-- A `pmm_init` that returns leaves the bitmap when it frees frames past it, or marks them for the kernel. -/
lemma pmmInit_outside (run : pmmInit m { s with outside := false } upper ks ke mbi = some s') :
    s'.outside = false ↔ (∀ f, Marks m upper mbi f → f < 32768) ∧ RegionInside ks (ke - ks) := by
  obtain ⟨t, freed, -, rfl⟩ := pmmInit_freed run
  have used := taken_low.1.trans (taken_region (reserveRange _ 0 0x100000) ks (ke - ks))
    (s := { t with
      highestFrameIndex := if t.highestFrameIndex > MAX_FRAMES then MAX_FRAMES else t.highestFrameIndex
      totalFrames := if t.highestFrameIndex > MAX_FRAMES then MAX_FRAMES else t.highestFrameIndex })
  have out : (finishInit t ks ke).outside = true ↔
      ∃ f, 32768 ≤ f ∧ (Marks m upper mbi f ∨ f < 256 ∨ RegionFrames ks (ke - ks) f) := by
    refine used.outside.trans ?_
    change t.outside = true ∨ _ ↔ _
    rw [freed.outside]
    simp only [and_or_left, exists_or]
    simp [allUsed]
  rw [outside_iff out, ← regionFrames_inside]
  constructor
  · exact fun below => ⟨fun f mem => below f (.inl mem), fun f mem => below f (.inr (.inr mem))⟩
  · rintro ⟨marks, region⟩ f (mem | low | mem)
    · exact marks f mem
    · omega
    · exact region f mem

lemma pmmInitBasic_outside : (pmmInitBasic { s with outside := false } upper ks ke).outside = false ↔
    RegionInside ks (ke - ks) := by
  have free : Freed (fun f => f < ramFrames upper) (allUsed { s with outside := false }) _ := freed_ram cap_toNat
  rw [pmmInitBasic]
  generalize forFrames clearFrame 0 _ (allUsed { s with outside := false }) = t at free ⊢
  have used := (taken_low (s := t)).2.trans (taken_region _ ks (ke - ks))
  have ram : ramFrames upper ≤ 32768 := min_le_right ..
  rw [outside_iff (R := fun f => f < ramFrames upper ∨ f < 256 ∨ RegionFrames ks (ke - ks) f),
    ← regionFrames_inside]
  · constructor
    · exact fun below f mem => below f (.inr (.inr mem))
    · rintro region f (low | low | mem)
      · omega
      · omega
      · exact region f mem
  · rw [used.outside, free.outside]
    simp only [and_or_left, exists_or]
    simp [allUsed]

lemma pmmInit_stays : StaysInside m s (.pmmInit upper ks ke mbi) ↔
    (BitmapCall.pmmInit upper ks ke mbi).Inside m := by
  rw [BitmapCall.Inside]
  split
  · rename_i flag
    -- the three ends of the walk: endless, without a map, at a map
    split
    · rename_i endless
      refine iff_of_true (fun s' run => ?_) trivial
      rw [BitmapCall.run, pmmInit, if_pos flag, endless] at run
      cases run
    · rename_i walk
      obtain ⟨t, run⟩ : ∃ t, pmmInit m { s with outside := false } upper ks ke mbi = some t := by
        rw [pmmInit, if_pos flag, walk]
        exact ⟨_, rfl⟩
      have none : ∀ f, Marks m upper mbi f → f < 32768 := by
        intro f mem
        rw [Marks, if_pos flag, walk] at mem
        obtain ⟨_, eq, -⟩ := mem
        cases eq
      rw [StaysInside, BitmapCall.run, run]
      simp only [Option.some.injEq, forall_eq']
      rw [pmmInit_outside run]
      exact and_iff_right none
    · rename_i tag walk
      by_cases zero : entrySize m tag = 0
      · refine iff_of_true (fun s' run => ?_) (.inl zero)
        rw [BitmapCall.run, pmmInit, if_pos flag, walk] at run
        dsimp only at run
        rw [if_pos zero] at run
        cases run
      · obtain ⟨t, run⟩ : ∃ t, pmmInit m { s with outside := false } upper ks ke mbi = some t := by
          rw [pmmInit, if_pos flag, walk]
          dsimp only
          rw [if_neg zero]
          exact ⟨_, rfl⟩
        rw [StaysInside, BitmapCall.run, run]
        simp only [Option.some.injEq, forall_eq']
        rw [pmmInit_outside run, or_iff_right zero]
        refine and_congr_left fun _ => ?_
        simp only [marks_found _ flag walk, MapFrames, ← entryFrames_inside]
        constructor
        · intro below i lt f mem
          exact below f ⟨i, lt, mem⟩
        · rintro below f ⟨i, lt, mem⟩
          exact below i lt f mem
  · rename_i flag
    obtain ⟨t, run⟩ : ∃ t, pmmInit m { s with outside := false } upper ks ke mbi = some t := by
      rw [pmmInit, if_neg flag]
      exact ⟨_, rfl⟩
    have ram : ∀ f, Marks m upper mbi f → f < 32768 := by
      intro f mem
      rw [Marks, if_neg flag, ramFrames] at mem
      omega
    rw [StaysInside, BitmapCall.run, run]
    simp only [Option.some.injEq, forall_eq']
    rw [pmmInit_outside run]
    exact and_iff_right ram

/-- A call stays in the bitmap exactly with the arguments of `BitmapCall.Inside`. -/
theorem staysInside_iff (m : Memory) (s : Frames) (c : BitmapCall) : StaysInside m s c ↔ c.Inside m := by
  have quiet : ¬ ({ s with outside := false } : Frames).outside = true := Bool.false_ne_true
  cases c with
  | pmmInit upper ks ke mbi => exact pmmInit_stays
  | pmmInitBasic upper ks ke =>
    simp only [StaysInside, BitmapCall.run, Option.some.injEq, forall_eq']
    exact pmmInitBasic_outside
  | reserveRange a b =>
    simp only [StaysInside, BitmapCall.run, Option.some.injEq, forall_eq']
    rw [outside_iff (taken_range.outside.trans (or_iff_right quiet))]
    exact rangeFrames_inside
  | pmmMarkUsedRegion base size =>
    simp only [StaysInside, BitmapCall.run, Option.some.injEq, forall_eq']
    rw [outside_iff ((taken_region ..).outside.trans (or_iff_right quiet))]
    exact regionFrames_inside

/-! ## More memory than the bitmap covers. -/

/-- Multiboot information at `0x9000`, 88 bytes of it with bit 6 of `flags`, and a memory-map tag whose only
    entry makes the memory from 1 MB to 256 MB available. -/
def largeMap : Memory := fun a =>
  ([64].flatMap (toBytes 4) ++ List.replicate 84 0 ++
    [6, 40, 24, 0, 0x100000, 0, 0xFF00000, 0, 1, 0, 0, 8].flatMap (toBytes 4)).getD (a - 0x9000).toNat 0

/-- With 256 MB of available memory `pmm_init` clears frames past the bitmap. -/
theorem leaves_bitmap : ¬ StaysInside largeMap boot (.pmmInit 0x3FC00 0x100000 0x200000 0x9000) := by
  have flag : largeMap.load32 0x9000 &&& ((1 : UInt32) <<< 6) ≠ 0 := by decide +kernel
  have mmap : tagType largeMap 0x9058 = 6 := by decide +kernel
  have walk : loop (findMmap largeMap) (0x9000 + 88) = some (some 0x9058) := by
    refine loop_done ?_
    change findMmap largeMap 0x9058 = _
    rw [findMmap, mmap, if_neg (by decide), if_pos (by decide)]
  have size : entrySize largeMap 0x9058 = 24 := by decide +kernel
  have count : entryCount largeMap 0x9058 = 1 := by decide +kernel
  have type : entryType largeMap 0x9068 = 1 := by decide +kernel
  have stop : (clamp32 (entryAddr largeMap 0x9068 + entryLen largeMap 0x9068) / FRAME_SIZE).toNat = 0x10000 := by
    decide +kernel
  have start : (clamp32 (entryAddr largeMap 0x9068) / FRAME_SIZE).toNat = 0x100 := by decide +kernel
  obtain ⟨t, run⟩ : ∃ t, pmmInit largeMap { boot with outside := false } 0x3FC00 0x100000 0x200000 0x9000 =
      some t := by
    rw [pmmInit, if_pos flag, walk]
    dsimp only
    rw [size, if_neg (by decide)]
    exact ⟨_, rfl⟩
  intro stays
  have below := ((pmmInit_outside run).mp (stays _ run)).1 0x8000
  rw [marks_found _ flag walk, MapFrames, count] at below
  refine absurd (below ⟨0, by decide, ?_⟩) (by decide)
  change EntryFrames largeMap 0x9068 0x8000
  exact ⟨type, by rw [start]; decide, by rw [stop]; decide⟩

end RetaOS.Pmm
