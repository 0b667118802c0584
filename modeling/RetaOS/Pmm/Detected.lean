import RetaOS.Pmm.Run

/-!
# The detected memory

How the size that the boot loader reports bounds what `pmm.c` hands out. Both initialisers compute the number of frames
from it in 32 bits, and `ramFrames` is the exact number below 4 GB only (`available_exact_iff`). `pmm_init_basic` keeps
its number in a local variable, so `total_frames` stays at 128 MB, and a `pmm_free_frame` of any address below that
makes memory that is not there available (`alloc_detected_iff`).
-/

namespace RetaOS.Pmm
open Lib

variable {m : Memory} {s s' : Frames} {f ks ke mbi upper : UInt32} {avail : Nat → Prop} {k : Nat}

/-! ## The frames made available. -/

/-- A frame that `pmm_alloc_frame` may return: below `total_frames` and free. -/
def Available (s : Frames) (f : Nat) : Prop := f < s.totalFrames.toNat ∧ testFrame s (UInt32.ofNat f) = false

/-- The frames of the reported memory below 128 MB, without low memory and the kernel image. -/
def Reported (memUpperKb kernelStart kernelEnd : UInt32) (f : Nat) : Prop :=
  256 ≤ f ∧ f < min 32768 ((1024 + memUpperKb.toNat) / 4) ∧ ¬ Touches kernelStart kernelEnd f

/-- The frames available after an initialiser. -/
lemma Initialised.available (is : Initialised avail ks ke s) (inside : ∀ f, avail f → f < 32768) {f : Nat} :
    Available s f ↔ 256 ≤ f ∧ avail f ∧ ¬ Touches ks ke f := by
  have limit := is.limit
  by_cases small : f < 32768
  · have eq : (UInt32.ofNat f).toNat = f := toNat_ofNat_lt (by omega)
    have free := is.free (UInt32.ofNat f) (by omega)
    rw [eq] at free
    rw [Available, free]
    constructor
    · rintro ⟨-, mark, high, clear⟩
      exact ⟨high, mark, clear⟩
    · rintro ⟨high, mark, clear⟩
      exact ⟨is.below f small mark, mark, high, clear⟩
  · refine iff_of_false (fun ⟨lt, _⟩ => by omega) fun ⟨_, mark, _⟩ => small (inside f mark)

/-- The number of frames that the code computes: the sum is taken modulo `2 ^ 22` KB. -/
lemma ramFrames_eq : ramFrames upper = min (((1024 + upper.toNat) % 2 ^ 22) / 4) 32768 := by
  have frames : ((1024 + upper) * 1024 / FRAME_SIZE).toNat = (1024 + upper.toNat) % 2 ^ 32 * 1024 % 2 ^ 32 / 4096 := by
    rw [UInt32.toNat_div, UInt32.toNat_mul, UInt32.toNat_add]
    rfl
  rw [ramFrames, frames]
  omega

/-- Without a memory map, both initialisers make the same frames available. -/
lemma available_computed (upper : UInt32) (le : ks ≤ ke) (hk : ke.toNat ≤ 0x8000000)
    (flag : m.load32 mbi &&& ((1 : UInt32) <<< 6) = 0) :
    (∃ s, pmmInit m boot upper ks ke mbi = some s ∧
      ∀ f, Available s f ↔ 256 ≤ f ∧ f < ramFrames upper ∧ ¬ Touches ks ke f) ∧
    ∀ f, Available (pmmInitBasic boot upper ks ke) f ↔ 256 ≤ f ∧ f < ramFrames upper ∧ ¬ Touches ks ke f := by
  have inside : ∀ f, f < ramFrames upper → f < 32768 := by
    intro f lt
    rw [ramFrames] at lt
    omega
  constructor
  · obtain ⟨s, run⟩ : ∃ s, pmmInit m boot upper ks ke mbi = some s := by
      rw [pmmInit]
      dsimp only
      rw [if_neg (not_not.mpr flag)]
      exact ⟨_, rfl⟩
    have marks : Marks m upper mbi = fun f => f < ramFrames upper := by
      funext f
      rw [Marks, if_neg (not_not.mpr flag)]
    have is := pmmInit_spec rfl le hk run
    rw [marks] at is
    exact ⟨s, run, fun f => is.available inside⟩
  · exact fun f => (pmmInitBasic_spec rfl rfl le hk).available inside

/-- Without a memory map, `pmm_init` and `pmm_init_basic` make exactly the reported frames available. -/
def AvailableExact (m : Memory) (memUpperKb kernelStart kernelEnd mbi : UInt32) : Prop :=
  (∃ s, pmmInit m boot memUpperKb kernelStart kernelEnd mbi = some s ∧
    ∀ f, Available s f ↔ Reported memUpperKb kernelStart kernelEnd f) ∧
  ∀ f, Available (pmmInitBasic boot memUpperKb kernelStart kernelEnd) f ↔ Reported memUpperKb kernelStart kernelEnd f

/-- A frame that is reported, free of the kernel image and not counted is missing in both. -/
lemma not_availableExact {f : Nat} (le : ks ≤ ke) (hk : ke.toNat ≤ 0x8000000)
    (flag : m.load32 mbi &&& ((1 : UInt32) <<< 6) = 0) (high : 256 ≤ f)
    (reported : f < min 32768 ((1024 + upper.toNat) / 4)) (clear : ¬ Touches ks ke f) (missed : ramFrames upper ≤ f) :
    ¬ AvailableExact m upper ks ke mbi := by
  rintro ⟨-, basic⟩
  obtain ⟨-, lt, -⟩ := ((available_computed _ le hk flag).2 f).mp ((basic f).mpr ⟨high, reported, clear⟩)
  omega

/-- Both initialisers make exactly the reported frames available when, and only when, there are less than 4 GB, or as
    many frames as the bitmap holds are left of the size modulo 4 GB, or the kernel image lies on all that are
    missed. -/
theorem available_exact_iff (le : ks ≤ ke) (hk : ke.toNat ≤ 0x8000000)
    (flag : m.load32 mbi &&& ((1 : UInt32) <<< 6) = 0) :
    AvailableExact m upper ks ke mbi ↔ 1024 + upper.toNat < 2 ^ 22 ∨ 131072 ≤ (1024 + upper.toNat) % 2 ^ 22 ∨
      ∀ f, 256 ≤ f → (1024 + upper.toNat) % 2 ^ 22 / 4 ≤ f → f < 32768 → Touches ks ke f := by
  constructor
  · intro exact_
    by_contra wrapped
    obtain ⟨large, few, uncovered⟩ := by simpa only [not_or] using wrapped
    refine uncovered fun f high missed lt => ?_
    by_contra clear
    exact not_availableExact le hk flag high (by omega) clear (by rw [ramFrames_eq]; omega) exact_
  · intro condition
    have same : ∀ f, (256 ≤ f ∧ f < ramFrames upper ∧ ¬ Touches ks ke f) ↔ Reported upper ks ke f := by
      intro f
      rw [Reported, ramFrames_eq]
      refine and_congr_right fun high => and_congr_left fun clear => ?_
      rcases condition with small | enough | covered
      · omega
      · omega
      · -- a frame that the code counts is reported, and one that it misses is covered
        constructor
        · intro lt
          omega
        · intro lt
          by_contra missed
          exact clear (covered f high (by omega) (by omega))
    obtain ⟨⟨s, run, init⟩, basic⟩ := available_computed upper le hk flag
    exact ⟨⟨s, run, fun f => (init f).trans (same f)⟩, fun f => (basic f).trans (same f)⟩

theorem available_exact_64MB : AvailableExact (fun _ => 0) 0xFC00 0x100000 0x200000 0 :=
  (available_exact_iff (by decide) (by decide) (by decide)).mpr (.inl (by decide))

/-- With 4 GB no frame is counted. -/
theorem not_available_4GB : ¬ AvailableExact (fun _ => 0) 0x3FFC00 0x100000 0x200000 0 := by
  refine not_availableExact (f := 512) (by decide) (by decide) (by decide) (by decide) (by decide) ?_ (by decide)
  rintro ⟨-, lt, -⟩
  exact absurd lt (by decide)

/-! ## Runs that free any address. -/

/-- One step of a run: `pmm_alloc_frame`, or `pmm_free_frame` of any address. -/
inductive WildStep : Frames → Frames → Prop where
  | alloc {t a t'} :
    pmmAllocFrame t = (a, t') →
    WildStep t t'
  | free {t : Frames} (a : UInt32) :
    WildStep t (pmmFreeFrame t a)

/-- The states of these runs. -/
def WildRun : Frames → Frames → Prop := Relation.ReflTransGen WildStep

lemma pmmFreeFrame_total (a : UInt32) : (pmmFreeFrame s a).totalFrames = s.totalFrames := by
  rw [pmmFreeFrame]
  dsimp only
  split
  · rfl
  · rfl

lemma pmmMarkUsedRegion_total (base size : UInt32) : (pmmMarkUsedRegion s base size).totalFrames = s.totalFrames := by
  rw [pmmMarkUsedRegion]
  split
  · rfl
  · exact taken_forFrames.total

/-- `pmm_init_basic` leaves `total_frames` as it is when the kernel starts. -/
lemma pmmInitBasic_total : (pmmInitBasic boot upper ks ke).totalFrames.toNat = 32768 := by
  obtain ⟨t, -, size, run⟩ := pmmInitBasic_freed upper ks ke (s := boot) rfl
  rw [run, pmmMarkUsedRegion_total, pmmMarkUsedRegion_total, size]

/-- No step changes it. -/
lemma WildStep.total (step : WildStep s s') (full : s.totalFrames.toNat = 32768) : s'.totalFrames.toNat = 32768 := by
  cases step with
  | alloc run =>
    rcases alloc_spec (s := s) full.le with ⟨_, _, -, -, -, eq, take⟩ | ⟨-, eq⟩
    · cases run.symm.trans eq
      rw [take.total, full]
    · cases run.symm.trans eq
      exact full
  | free a => rw [pmmFreeFrame_total, full]

lemma WildRun.total (run : WildRun s s') (full : s.totalFrames.toNat = 32768) : s'.totalFrames.toNat = 32768 := by
  induction run with
  | refl => exact full
  | tail _ step ih => exact step.total ih

/-- Allocating takes the frames below a free one, as many as asked for. -/
lemma WildRun.fill (full : s.totalFrames.toNat = 32768) (lt : f.toNat < 32768) (free : testFrame s f = false)
    (le : k ≤ f.toNat) :
    ∃ s', WildRun s s' ∧ testFrame s' f = false ∧ ∀ g : UInt32, g.toNat < k → testFrame s' g = true := by
  induction k with
  | zero => exact ⟨s, .refl, free, fun g lt => absurd lt (Nat.not_lt_zero _)⟩
  | succ k ih =>
    obtain ⟨s1, run, free1, used⟩ := ih (by omega)
    have full1 := run.total full
    have eq : (UInt32.ofNat k).toNat = k := toNat_ofNat_lt (by omega)
    by_cases taken : testFrame s1 (UInt32.ofNat k) = true
    · refine ⟨s1, run, free1, fun g below => ?_⟩
      rcases Nat.lt_succ_iff_lt_or_eq.mp below with less | same
      · exact used g less
      · obtain rfl : g = UInt32.ofNat k := UInt32.toNat_inj.mp (same.trans eq.symm)
        exact taken
    · rw [Bool.not_eq_true] at taken
      -- the first free frame is the next one
      rcases alloc_spec full1.le with ⟨h, s2, inside, freeh, before, alloc, take⟩ | ⟨all, -⟩
      · have first : h.toNat = k := by
          rcases Nat.lt_trichotomy h.toNat k with less | same | more
          · rw [used h less] at freeh
            cases freeh
          · exact same
          · have usedk := before (UInt32.ofNat k) (UInt32.lt_iff_toNat_lt.mpr (by omega))
            rw [usedk] at taken
            cases taken
        refine ⟨s2, run.tail (.alloc alloc), ?_, fun g below => ?_⟩
        · rw [← Bool.not_eq_true, take.test f lt, not_or, Bool.not_eq_true]
          exact ⟨free1, by omega⟩
        · rw [take.test g (by omega)]
          rcases Nat.lt_succ_iff_lt_or_eq.mp below with less | same
          · exact .inl (used g less)
          · exact .inr (same.trans first.symm)
      · rw [all (UInt32.ofNat k) (UInt32.lt_iff_toNat_lt.mpr (by omega))] at taken
        cases taken

/-- Any frame of the bitmap can be freed and is then handed out. -/
lemma WildRun.reaches (full : s.totalFrames.toNat = 32768) (lt : f.toNat < 32768) :
    ∃ s1 s2, WildRun s s1 ∧ pmmAllocFrame s1 = (frameAddr f, s2) := by
  have free : testFrame (pmmFreeFrame s (frameAddr f)) f = false := by
    by_cases used : testFrame s f = true
    · have freed := free_spec full.le (UInt32.lt_iff_toNat_lt.mpr (by omega)) used
      rw [← Bool.not_eq_true, freed.test f lt]
      exact fun still => still.2 rfl
    · rw [pmmFreeFrame, frameAddr_div lt]
      dsimp only
      rw [if_neg fun h => used h.2]
      exact Bool.eq_false_iff.mpr used
  have full' : (pmmFreeFrame s (frameAddr f)).totalFrames.toNat = 32768 := by rw [pmmFreeFrame_total, full]
  obtain ⟨s1, run, free1, used⟩ := WildRun.fill full' lt free le_rfl
  have full1 := run.total full'
  rcases alloc_spec full1.le with ⟨h, s2, inside, freeh, before, alloc, -⟩ | ⟨all, -⟩
  · have first : h = f := by
      apply UInt32.toNat_inj.mp
      rcases Nat.lt_trichotomy h.toNat f.toNat with less | same | more
      · rw [used h less] at freeh
        cases freeh
      · exact same
      · rw [before f (UInt32.lt_iff_toNat_lt.mpr more)] at free1
        cases free1
    subst first
    exact ⟨s1, s2, .head (.free _) run, alloc⟩
  · rw [all f (UInt32.lt_iff_toNat_lt.mpr (by omega))] at free1
    cases free1

/-- In every run after `pmm_init_basic`, `pmm_alloc_frame` returns addresses below the end of the detected memory. -/
def AllocDetected (memUpperKb kernelStart kernelEnd : UInt32) : Prop :=
  ∀ s a s', WildRun (pmmInitBasic boot memUpperKb kernelStart kernelEnd) s → pmmAllocFrame s = (a, s') →
    a.toNat < (1024 + memUpperKb.toNat) * 1024

/-- The last frame of the bitmap is handed out in a run. -/
lemma not_allocDetected (small : 1024 + upper.toNat ≤ 131068) : ¬ AllocDetected upper ks ke := by
  intro detected
  have last : (0x7FFF : UInt32).toNat < 32768 := by decide
  obtain ⟨s1, s2, run, alloc⟩ := WildRun.reaches (s := pmmInitBasic boot upper ks ke) pmmInitBasic_total last
  have lt := detected s1 _ s2 run alloc
  rw [frameAddr_toNat last] at lt
  change 32767 * 4096 < _ at lt
  omega

/-- `pmm_alloc_frame` stays below the end of the detected memory in every run exactly when the last frame that the
    bitmap holds starts below it. -/
theorem alloc_detected_iff (upper ks ke : UInt32) : AllocDetected upper ks ke ↔ 131068 < 1024 + upper.toNat := by
  constructor
  · intro detected
    by_contra small
    exact not_allocDetected (Nat.le_of_not_lt small) detected
  · intro large s a s' run alloc
    have full := run.total pmmInitBasic_total
    rcases alloc_spec full.le with ⟨f, _, lt, -, -, eq, -⟩ | ⟨-, eq⟩
    · cases alloc.symm.trans eq
      have inside := UInt32.lt_iff_toNat_lt.mp lt
      rw [frameAddr_toNat (by omega)]
      omega
    · cases alloc.symm.trans eq
      exact Nat.mul_pos (by omega) (by decide)

/-- With 64 MB the last frame below 128 MB is handed out. -/
theorem not_allocDetected_64MB : ∃ s a s', WildRun (pmmInitBasic boot 0xFC00 0x100000 0x200000) s ∧
    pmmAllocFrame s = (a, s') ∧ a = 0x7FFF000 ∧ ¬ AllocDetected 0xFC00 0x100000 0x200000 := by
  obtain ⟨s1, s2, run, alloc⟩ := WildRun.reaches (s := pmmInitBasic boot 0xFC00 0x100000 0x200000) (f := 0x7FFF)
    pmmInitBasic_total (by decide)
  exact ⟨s1, _, s2, run, alloc, rfl, not_allocDetected (by decide)⟩

end RetaOS.Pmm
