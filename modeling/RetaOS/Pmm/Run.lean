import RetaOS.Pmm.Init
import Mathlib.Data.Set.Insert

/-!
# Runs of the frame allocator

A run takes any number of steps after an initialisation: `pmm_alloc_frame`, or `pmm_free_frame` of an address
that is handed out. The ghost set of a run holds the addresses handed out. In every state of a run a frame is
in use exactly when the initialiser left it in use or its address is handed out (`Tracks`); that
`pmm_alloc_frame` hands out no frame twice and fails only when nothing is left follows from this alone.
-/

namespace RetaOS.Pmm
open Lib

/-- The address of a frame. -/
def frameAddr (f : UInt32) : UInt32 := f * FRAME_SIZE

/-- One step of a run. -/
inductive Step : Frames × Set UInt32 → Frames × Set UInt32 → Prop where
  | allocated {s H a s'} :
    pmmAllocFrame s = (a, s') →
    a ≠ 0 →
    Step (s, H) (s', insert a H)
  | refused {s H s'} :
    pmmAllocFrame s = (0, s') →
    Step (s, H) (s', H)
  | freed {s a} {H : Set UInt32} :
    a ∈ H →
    Step (s, H) (pmmFreeFrame s a, H \ {a})

/-- The states of the runs from `s`, with nothing handed out at first. -/
def Reachable (s : Frames) : Frames × Set UInt32 → Prop := Relation.ReflTransGen Step (s, ∅)

variable {m : Memory} {s s' s0 : Frames} {f g a ks ke : UInt32} {avail : Nat → Prop} {H : Set UInt32}

lemma frameAddr_toNat (h : f.toNat < 32768) : (frameAddr f).toNat = f.toNat * 4096 := by
  rw [frameAddr, UInt32.toNat_mul]
  change f.toNat * 4096 % 2 ^ 32 = _
  omega

lemma frameAddr_inj (hf : f.toNat < 32768) (hg : g.toNat < 32768) : frameAddr f = frameAddr g ↔ f = g := by
  rw [← UInt32.toNat_inj, frameAddr_toNat hf, frameAddr_toNat hg, ← UInt32.toNat_inj]
  omega

lemma frameAddr_div (h : f.toNat < 32768) : frameAddr f / FRAME_SIZE = f := by
  rw [← UInt32.toNat_inj, UInt32.toNat_div, frameAddr_toNat h]
  exact Nat.mul_div_cancel _ (by decide)

/-! ## The two operations. -/

/-- `pmm_alloc_frame` takes the first free frame, or fails with every frame in use. -/
lemma alloc_spec (limit : s.totalFrames.toNat ≤ 32768) :
    (∃ f s', f < s.totalFrames ∧ testFrame s f = false ∧ (∀ g < f, testFrame s g = true) ∧
      pmmAllocFrame s = (frameAddr f, s') ∧ Taken (fun x => x = f.toNat) s s') ∨
    ((∀ f < s.totalFrames, testFrame s f = true) ∧ pmmAllocFrame s = (0, s)) := by
  cases find : (List.range s.totalFrames.toNat).find? fun f => !testFrame s (UInt32.ofNat f) with
  | some k =>
    obtain ⟨free, mem, before⟩ := List.find?_range_eq_some.mp find
    have lt := List.mem_range.mp mem
    have eq : (UInt32.ofNat k).toNat = k := toNat_ofNat_lt (by omega)
    refine .inl ⟨UInt32.ofNat k, { setFrame s (UInt32.ofNat k) with usedFrames := s.usedFrames + 1 }, ?_, ?_,
      fun g lt => ?_, by simp only [pmmAllocFrame, find, frameAddr], ?_⟩
    · rw [UInt32.lt_iff_toNat_lt, eq]
      exact lt
    · simpa using free
    · rw [UInt32.lt_iff_toNat_lt, eq] at lt
      simpa using before g.toNat lt
    · have test := fun g => testFrame_setFrame (s := s) (f := UInt32.ofNat k) (g := g) (by omega)
      refine ⟨fun g _ => ?_, ?_, rfl⟩
      · rw [UInt32.toNat_inj]
        exact test g
      · change (setFrame s (UInt32.ofNat k)).outside = true ↔ _
        rw [setFrame, outside_setWord, exists_eq_right]
  | none =>
    refine .inr ⟨fun f lt => ?_, by simp only [pmmAllocFrame, find]⟩
    have used := List.find?_eq_none.mp find f.toNat (List.mem_range.mpr (UInt32.lt_iff_toNat_lt.mp lt))
    simpa using used

/-- `pmm_free_frame` of a frame in use frees it. -/
lemma free_spec (limit : s.totalFrames.toNat ≤ 32768) (lt : f < s.totalFrames) (used : testFrame s f = true) :
    Freed (fun x => x = f.toNat) s (pmmFreeFrame s (frameAddr f)) := by
  have small : f.toNat < 32768 := lt_of_lt_of_le (UInt32.lt_iff_toNat_lt.mp lt) limit
  rw [pmmFreeFrame, frameAddr_div small]
  dsimp only
  rw [if_pos ⟨lt, used⟩]
  have free := freed_clearFrame (s := s) (f := f)
  exact ⟨free.test, free.outside, free.total⟩

/-! ## The invariant of a run. -/

/-- The state of a run from `s0`: frames are in use when the initialiser left them so or when their address is
    handed out, and only frames that the initialiser left free are handed out. -/
structure Tracks (s0 s : Frames) (H : Set UInt32) : Prop where
  total : s.totalFrames = s0.totalFrames
  outside : s.outside = s0.outside
  used : ∀ g : UInt32, g.toNat < 32768 → (testFrame s g = true ↔ testFrame s0 g = true ∨ frameAddr g ∈ H)
  handed : ∀ a ∈ H, ∃ g < s0.totalFrames, testFrame s0 g = false ∧ a = frameAddr g

/-- An allocated frame becomes handed out. -/
lemma Tracks.alloc (limit : s0.totalFrames.toNat ≤ 32768) (tr : Tracks s0 s H) (lt : f < s.totalFrames)
    (free : testFrame s f = false) (take : Taken (fun x => x = f.toNat) s s') :
    Tracks s0 s' (insert (frameAddr f) H) := by
  rw [tr.total] at lt
  have small : f.toNat < 32768 := lt_of_lt_of_le (UInt32.lt_iff_toNat_lt.mp lt) limit
  have free0 : testFrame s0 f = false := by
    rw [← Bool.not_eq_true] at free ⊢
    exact fun used => free ((tr.used f small).mpr (.inl used))
  refine ⟨take.total.trans tr.total, ?_, fun g hg => ?_, fun a mem => ?_⟩
  · rw [← tr.outside, Bool.eq_iff_iff, take.outside, exists_eq_right, or_iff_left (by omega)]
  · rw [take.test g hg, tr.used g hg, Set.mem_insert_iff, frameAddr_inj hg small, UInt32.toNat_inj]
    tauto
  · rcases Set.mem_insert_iff.mp mem with rfl | mem
    · exact ⟨f, lt, free0, rfl⟩
    · exact tr.handed a mem

/-- A frame that is handed out is in use, and freeing it makes it free again. -/
lemma Tracks.free (limit : s0.totalFrames.toNat ≤ 32768) (tr : Tracks s0 s H) (mem : a ∈ H) :
    Tracks s0 (pmmFreeFrame s a) (H \ {a}) := by
  obtain ⟨f, lt, free0, rfl⟩ := tr.handed a mem
  have small : f.toNat < 32768 := lt_of_lt_of_le (UInt32.lt_iff_toNat_lt.mp lt) limit
  have used : testFrame s f = true := (tr.used f small).mpr (.inr mem)
  have free := free_spec (s := s) (f := f) (by rw [tr.total]; exact limit) (by rw [tr.total]; exact lt) used
  refine ⟨free.total.trans tr.total, ?_, fun g hg => ?_, fun b memb => tr.handed b memb.1⟩
  · rw [← tr.outside, Bool.eq_iff_iff, free.outside, exists_eq_right, or_iff_left (by omega)]
  · rw [free.test g hg, tr.used g hg, Set.mem_sdiff, Set.mem_singleton_iff, frameAddr_inj hg small,
      UInt32.toNat_inj]
    constructor
    · rintro ⟨used0 | handed, ne⟩
      · exact .inl used0
      · exact .inr ⟨handed, ne⟩
    · rintro (used0 | ⟨handed, ne⟩)
      · refine ⟨.inl used0, ?_⟩
        rintro rfl
        rw [free0] at used0
        cases used0
      · exact ⟨.inr handed, ne⟩

/-- Frame 0 is not handed out as an address; the initialisers leave it in use. -/
lemma frameAddr_ne_zero (h : f.toNat < 32768) (pos : 0 < f.toNat) : frameAddr f ≠ 0 := by
  rw [ne_eq, ← UInt32.toNat_inj, frameAddr_toNat h]
  change ¬ _ = 0
  omega

/-- Every state of a run is tracked. -/
theorem Reachable.tracks (limit : s0.totalFrames.toNat ≤ 32768) (low : testFrame s0 0 = true) {x}
    (run : Reachable s0 x) : Tracks s0 x.1 x.2 := by
  induction run with
  | refl => exact ⟨rfl, rfl, fun g _ => by simp, fun a mem => absurd mem (Set.notMem_empty a)⟩
  | tail _ step tr =>
    cases step with
    | @allocated s H a s' alloc ne =>
      rcases alloc_spec (s := s) (by rw [tr.total]; exact limit) with
        ⟨f, s'', lt, free, -, eq, take⟩ | ⟨-, eq⟩
      · cases alloc.symm.trans eq
        exact tr.alloc limit lt free take
      · cases alloc.symm.trans eq
        exact absurd rfl ne
    | @refused s H s' alloc =>
      rcases alloc_spec (s := s) (by rw [tr.total]; exact limit) with
        ⟨f, s'', lt, free, -, eq, take⟩ | ⟨-, eq⟩
      · -- address 0 would be frame 0, which is in use throughout
        have small : f.toNat < 32768 := by
          have := UInt32.lt_iff_toNat_lt.mp lt
          rw [tr.total] at this
          omega
        have null : frameAddr f = 0 := (Prod.mk.inj (alloc.symm.trans eq)).1.symm
        have zero : f = 0 := by
          by_contra ne
          refine frameAddr_ne_zero small (Nat.pos_of_ne_zero fun z => ne ?_) null
          exact UInt32.toNat_inj.mp z
        rw [zero, ← Bool.not_eq_true, tr.used 0 (by decide)] at free
        exact absurd (.inl low) free
      · cases alloc.symm.trans eq
        exact tr
    | freed mem => exact tr.free limit mem

/-! ## Frames after the first initialisation. -/

/-- The available memory that `pmm_init` finds ends at or below 128 MB. -/
def AvailableBelow (m : Memory) (memUpperKb mbi : UInt32) : Prop :=
  if m.load32 mbi &&& ((1 : UInt32) <<< 6) ≠ 0 then
    ∀ tag, loop (findMmap m) (mbi + 88) = some (some tag) → ∀ i < (entryCount m tag).toNat,
      entryType m (entries tag + 24 * UInt32.ofNat i) = MULTIBOOT_MEMORY_AVAILABLE →
        (entryAddr m (entries tag + 24 * UInt32.ofNat i)).toNat +
          (entryLen m (entries tag + 24 * UInt32.ofNat i)).toNat ≤ 0x8000000
  else (1024 + memUpperKb.toNat) * 1024 ≤ 0x8000000

/-- A first initialisation, by `pmm_init` or `pmm_init_basic`, that takes the frames of `avail` for available
    memory below 128 MB. -/
inductive FirstInit (m : Memory) (ks ke : UInt32) : (Nat → Prop) → Frames → Prop where
  | init {upper mbi s} :
    AvailableBelow m upper mbi →
    pmmInit m boot upper ks ke mbi = some s →
    FirstInit m ks ke (Marks m upper mbi) s
  | basic {upper} :
    (1024 + upper.toNat) * 1024 ≤ 0x8000000 →
    FirstInit m ks ke (fun f => f < ramFrames upper) (pmmInitBasic boot upper ks ke)

/-- Available memory below 128 MB has its frames in the bitmap. -/
lemma AvailableBelow.marks {upper mbi} (below : AvailableBelow m upper mbi) {f : Nat}
    (mark : Marks m upper mbi f) : f < 32768 := by
  rw [AvailableBelow] at below
  rw [Marks] at mark
  split at mark
  · rename_i flag
    rw [if_pos flag] at below
    obtain ⟨tag, walk, i, lt, type, -, hi⟩ := mark
    have sum := below tag walk i lt type
    have total : (entryAddr m (entries tag + 24 * UInt32.ofNat i) +
        entryLen m (entries tag + 24 * UInt32.ofNat i)).toNat ≤ 0x8000000 := by
      rw [UInt64.toNat_add]
      omega
    rw [UInt32.toNat_div, clamp32_toNat] at hi
    change f < _ / 4096 at hi
    omega
  · rw [ramFrames] at mark
    omega

/-- The state after a first initialisation. -/
lemma FirstInit.initialised (init : FirstInit m ks ke avail s) (le : ks ≤ ke) (hk : ke.toNat ≤ 0x8000000) :
    Initialised avail ks ke s ∧ ∀ f, avail f → f < 32768 := by
  cases init with
  | init below run => exact ⟨pmmInit_spec rfl le hk run, fun f => below.marks⟩
  | basic below =>
    refine ⟨pmmInitBasic_spec rfl rfl le hk, fun f lt => ?_⟩
    rw [ramFrames] at lt
    omega

/-- Every address handed out after a first initialisation is an available, page-aligned frame that is not
    handed out, above 1 MB and clear of the kernel image; and `pmm_alloc_frame` fails exactly when every frame
    left free by the initialiser is handed out. -/
theorem frames_handed_out (init : FirstInit m ks ke avail s0) (le : ks ≤ ke) (hk : ke.toNat ≤ 0x8000000)
    (run : Reachable s0 (s, H)) :
    (∀ a s', pmmAllocFrame s = (a, s') → a ≠ 0 →
      a.toNat % 4096 = 0 ∧ a ∉ H ∧ 0x100000 ≤ a.toNat ∧ ¬ Touches ks ke (a.toNat / 4096) ∧
        avail (a.toNat / 4096)) ∧
    ((pmmAllocFrame s).1 = 0 ↔
      ∀ f : UInt32, f.toNat < 32768 → testFrame s0 f = false → frameAddr f ∈ H) ∧
    s.outside = false := by
  obtain ⟨is, inside⟩ := init.initialised le hk
  have tr := run.tracks is.limit is.low
  have limit : s.totalFrames.toNat ≤ 32768 := by
    rw [tr.total]
    exact is.limit
  -- a frame is free in the run when it was left free and is not handed out
  have free_iff : ∀ f : UInt32, f.toNat < 32768 →
      (testFrame s f = false ↔ testFrame s0 f = false ∧ frameAddr f ∉ H) := by
    intro f lt
    rw [← Bool.not_eq_true, tr.used f lt, not_or, Bool.not_eq_true]
  refine ⟨fun a s' alloc ne => ?_, ?_, ?_⟩
  · rcases alloc_spec limit with ⟨f, s'', lt, free, -, eq, -⟩ | ⟨-, eq⟩
    · cases alloc.symm.trans eq
      have small : f.toNat < 32768 := lt_of_lt_of_le (UInt32.lt_iff_toNat_lt.mp lt) limit
      obtain ⟨free0, fresh⟩ := (free_iff f small).mp free
      obtain ⟨mark, high, clear⟩ := (is.free f small).mp free0
      rw [frameAddr_toNat small, Nat.mul_div_cancel _ (by decide), Nat.mul_mod_left]
      exact ⟨rfl, fresh, by omega, clear, mark⟩
    · cases alloc.symm.trans eq
      exact absurd rfl ne
  · rcases alloc_spec limit with ⟨f, s'', lt, free, -, eq, -⟩ | ⟨all, eq⟩
    · have small : f.toNat < 32768 := lt_of_lt_of_le (UInt32.lt_iff_toNat_lt.mp lt) limit
      obtain ⟨free0, fresh⟩ := (free_iff f small).mp free
      have high := ((is.free f small).mp free0).2.1
      rw [eq]
      exact iff_of_false (frameAddr_ne_zero small (by omega)) fun handed => fresh (handed f small free0)
    · rw [eq]
      refine iff_of_true rfl fun f small free0 => ?_
      by_contra fresh
      have lt : f < s.totalFrames := by
        rw [UInt32.lt_iff_toNat_lt, tr.total]
        exact is.below _ small ((is.free f small).mp free0).1
      have free := (free_iff f small).mpr ⟨free0, fresh⟩
      rw [all f lt] at free
      cases free
  · rw [tr.outside, ← Bool.not_eq_true, is.outside]
    rintro ⟨f, ge, mark⟩
    have := inside f mark
    omega

theorem frames_handed_out_basic :
    ∃ a s, pmmAllocFrame (pmmInitBasic boot 0x3C00 0x100000 0x200000) = (a, s) ∧ a.toNat % 4096 = 0 ∧
      0x100000 ≤ a.toNat ∧ ¬ Touches 0x100000 0x200000 (a.toNat / 4096) ∧ a.toNat / 4096 < ramFrames 0x3C00 := by
  have init : FirstInit (fun _ => 0) 0x100000 0x200000 (fun f => f < ramFrames 0x3C00)
      (pmmInitBasic boot 0x3C00 0x100000 0x200000) := .basic (by decide)
  have start : Reachable (pmmInitBasic boot 0x3C00 0x100000 0x200000) (_, ∅) := .refl
  obtain ⟨sound, full, -⟩ := frames_handed_out init (by decide) (by decide) start
  -- the first frame behind the kernel image is free
  have free : testFrame (pmmInitBasic boot 0x3C00 0x100000 0x200000) 0x200 = false := by
    refine ((pmmInitBasic_spec rfl rfl (by decide) (by decide)).free 0x200 (by decide)).mpr ⟨?_, ?_, ?_⟩
    · decide
    · decide
    · exact fun touch => absurd touch.2.1 (by decide)
  obtain ⟨a, s, alloc⟩ : ∃ a s, pmmAllocFrame (pmmInitBasic boot 0x3C00 0x100000 0x200000) = (a, s) :=
    ⟨_, _, Prod.mk.eta.symm⟩
  have ne : a ≠ 0 := by
    rintro rfl
    have null := full.mp (by rw [alloc]) 0x200 (by decide) free
    exact Set.notMem_empty _ null
  obtain ⟨aligned, -, high, clear, ram⟩ := sound a s alloc ne
  exact ⟨a, s, alloc, aligned, high, clear, ram⟩

end RetaOS.Pmm
