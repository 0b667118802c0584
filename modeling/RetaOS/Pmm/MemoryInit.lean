import RetaOS.Pmm.Run

/-!
# Boot memory and the memory map

What `memory_init` makes of a Multiboot2 information block. The walk over the tags collects `mem_upper` and
the entries of the memory map, but the entries reach `pmm_init` as its `mbi`, so the frames it takes for
available (`Assumed`) come from `mem_upper` alone, or from a second tag walk through the entries, and a magic
number that is not accepted makes them the first 64 MB. `returned_available_iff` says when every frame that
`pmm_alloc_frame` can return afterwards lies in an available entry of the map.
-/

namespace RetaOS.Pmm
open Lib

/-- The tags of an information block, from `p` to the end tag. -/
inductive TagList (m : Memory) : UInt32 → List UInt32 → Prop where
  | nil {p} :
    tagType m p = MULTIBOOT_TAG_TYPE_END →
    TagList m p []
  | cons {p ps} :
    tagType m p ≠ MULTIBOOT_TAG_TYPE_END →
    TagList m (nextTag m p) ps →
    TagList m p (p :: ps)

/-- A Multiboot2 information block at `info` with the tags `ps`, whose memory-map tag is `tag`. -/
structure InfoBlock (m : Memory) (info : UInt32) (ps : List UInt32) (tag : UInt32) : Prop where
  tags : TagList m (info + 8) ps
  mem : tag ∈ ps
  type : tagType m tag = MULTIBOOT_TAG_TYPE_MMAP
  only : ∀ p ∈ ps, tagType m p = MULTIBOOT_TAG_TYPE_MMAP → p = tag
  header : 16 ≤ (tagSize m tag).toNat
  fits : tag.toNat + (tagSize m tag).toNat ≤ 2 ^ 32
  entry : 24 ≤ (entrySize m tag).toNat

/-- Entry `i` of a memory map, by the entry size of the map. -/
def mapEntry (m : Memory) (tag : UInt32) (i : Nat) : UInt32 := entries tag + UInt32.ofNat i * entrySize m tag

/-- A frame that lies wholly inside an available entry of the map. -/
def InsideAvailable (m : Memory) (tag : UInt32) (f : Nat) : Prop :=
  ∃ i < (entryCount m tag).toNat, entryType m (mapEntry m tag i) = MULTIBOOT_MEMORY_AVAILABLE ∧
    (entryAddr m (mapEntry m tag i)).toNat ≤ f * 4096 ∧
    (f + 1) * 4096 ≤ (entryAddr m (mapEntry m tag i)).toNat + (entryLen m (mapEntry m tag i)).toNat

/-- The `mem_upper` of the last basic memory information tag, or 0 without one. -/
def memUpperOf (m : Memory) (ps : List UInt32) : UInt32 :=
  ps.foldl (fun upper p => if tagType m p = MULTIBOOT_TAG_TYPE_BASIC_MEMINFO then memUpper m p else upper) 0

/-- The magic numbers `memory_init` accepts. -/
def Accepted (magic : UInt32) : Prop := magic = MULTIBOOT2_BOOTLOADER_MAGIC ∨ magic = 0x1BADB002

instance (magic : UInt32) : Decidable (Accepted magic) := inferInstanceAs (Decidable (_ ∨ _))

/-- The frames `memory_init` takes for available memory. -/
def Assumed (m : Memory) (ps : List UInt32) (tag magic : UInt32) (f : Nat) : Prop :=
  if ¬ Accepted magic then f < 0x4000
  else if entryCount m tag = 0 then f < ramFrames (memUpperOf m ps)
  else Marks m (memUpperOf m ps) (entries tag) f

variable {m : Memory} {s t : Frames} {a f p ks ke info tag magic : UInt32} {ps : List UInt32}
  {avail : Nat → Prop}

/-! ## The walk of `memory_init`. -/

/-- What one tag adds to the collected information. -/
def record (m : Memory) (info : BootInfo) (p : UInt32) : BootInfo :=
  if tagType m p = MULTIBOOT_TAG_TYPE_BASIC_MEMINFO then { info with memUpperKb := memUpper m p }
  else if tagType m p = MULTIBOOT_TAG_TYPE_MMAP then
    { info with mmapEntries := entries p, mmapEntryCount := entryCount m p }
  else info

/-- The walk visits every tag once and ends at the end tag. -/
lemma scan_spec (tags : TagList m p ps) (i : BootInfo)
    (sized : ∀ q ∈ ps, tagType m q = MULTIBOOT_TAG_TYPE_MMAP → entrySize m q ≠ 0) :
    loop (scanTag m) (p, i) = some (some (ps.foldl (record m) i)) := by
  induction tags generalizing i with
  | nil last => exact loop_done (by simp [scanTag, last])
  | @cons p ps more tags ih =>
    have pass : scanTag m (p, i) = .next (nextTag m p, record m i p) := by
      rw [scanTag, if_neg more, record]
      split
      · rfl
      · split
        · rename_i type
          rw [if_neg (sized p (by simp) type)]
        · rfl
    rw [loop_next pass, ih _ fun q mem => sized q (List.mem_cons_of_mem p mem)]
    rfl

/-- The memory size collected by the walk. -/
lemma fold_upper (i : BootInfo) : (ps.foldl (record m) i).memUpperKb =
    ps.foldl (fun upper p => if tagType m p = MULTIBOOT_TAG_TYPE_BASIC_MEMINFO then memUpper m p else upper)
      i.memUpperKb := by
  induction ps generalizing i with
  | nil => rfl
  | cons p ps ih =>
    rw [List.foldl_cons, List.foldl_cons, ih]
    congr 1
    rw [record]
    split
    · rfl
    · split
      · rfl
      · rfl

/-- The memory map collected by the walk: that of the only memory-map tag. -/
lemma fold_mmap (i : BootInfo) (only : ∀ p ∈ ps, tagType m p = MULTIBOOT_TAG_TYPE_MMAP → p = tag)
    (type : tagType m tag = MULTIBOOT_TAG_TYPE_MMAP)
    (h : tag ∈ ps ∨ i.mmapEntries = entries tag ∧ i.mmapEntryCount = entryCount m tag) :
    (ps.foldl (record m) i).mmapEntries = entries tag ∧
      (ps.foldl (record m) i).mmapEntryCount = entryCount m tag := by
  induction ps generalizing i with
  | nil =>
    rcases h with mem | h
    · cases mem
    · exact h
  | cons p ps ih =>
    rw [List.foldl_cons]
    refine ih _ (fun q mem => only q (List.mem_cons_of_mem p mem)) ?_
    have other : MULTIBOOT_TAG_TYPE_MMAP ≠ MULTIBOOT_TAG_TYPE_BASIC_MEMINFO := by decide
    by_cases mmap : tagType m p = MULTIBOOT_TAG_TYPE_MMAP
    · have eq := only p (by simp) mmap
      refine .inr ?_
      rw [record, if_neg (by rw [mmap]; exact other), if_pos mmap, eq]
      exact ⟨rfl, rfl⟩
    · rcases h with mem | h
      · rcases List.mem_cons.mp mem with rfl | mem
        · exact absurd type mmap
        · exact .inl mem
      · refine .inr ?_
        rw [record]
        by_cases meminfo : tagType m p = MULTIBOOT_TAG_TYPE_BASIC_MEMINFO
        · rw [if_pos meminfo]
          exact h
        · rw [if_neg meminfo, if_neg mmap]
          exact h

/-! ## The frames left free. -/

/-- Marking the kernel image once more changes nothing. -/
lemma Initialised.mark (is : Initialised avail ks ke s) (le : ks ≤ ke) (hk : ke.toNat ≤ 0x8000000) :
    Initialised avail ks ke (pmmMarkUsedRegion s ks (ke - ks)) := by
  have take := taken_kernel (s := s) le hk
  refine ⟨fun g lt => take.left lt (is.free g lt), ?_, ?_, ?_⟩
  · rw [take.outside, is.outside]
    refine or_iff_left ?_
    rintro ⟨f, le, touch⟩
    have := touch.2.1
    omega
  · rw [take.total]
    exact is.below
  · rw [take.total]
    exact is.limit

/-- The information `memory_init` has collected when it initialises the frame allocator. -/
lemma InfoBlock.scan (block : InfoBlock m info ps tag) :
    loop (scanTag m) (info + 8, ⟨0, 0, 0⟩) = some (some ⟨memUpperOf m ps, entries tag, entryCount m tag⟩) := by
  have sized : ∀ q ∈ ps, tagType m q = MULTIBOOT_TAG_TYPE_MMAP → entrySize m q ≠ 0 := by
    intro q mem type zero
    have large := block.entry
    rw [← block.only q mem type, zero] at large
    exact absurd large (by decide)
  rw [scan_spec block.tags _ sized]
  obtain ⟨hentries, hcount⟩ := fold_mmap ⟨0, 0, 0⟩ block.only block.type (.inl block.mem)
  have upper : (ps.foldl (record m) ⟨0, 0, 0⟩).memUpperKb = memUpperOf m ps := fold_upper ⟨0, 0, 0⟩
  cases h : ps.foldl (record m) ⟨0, 0, 0⟩ with
  | mk u e c =>
    rw [h] at hentries hcount upper
    change e = _ at hentries
    change c = _ at hcount
    change u = _ at upper
    rw [hentries, hcount, upper]

/-- A map with entries does not start at address 0. -/
lemma InfoBlock.entries_ne_null (block : InfoBlock m info ps tag) (some : entryCount m tag ≠ 0) :
    entries tag ≠ 0 := by
  intro null
  have header := block.header
  have fits := block.fits
  have entry := block.entry
  have addr : (tag.toNat + 16) % 2 ^ 32 = 0 := by
    have := congrArg UInt32.toNat null
    rw [entries, UInt32.toNat_add] at this
    exact this
  have size : (tagSize m tag - 16).toNat = (tagSize m tag).toNat - 16 := sub_toNat_of_le header
  refine some (UInt32.toNat_inj.mp ?_)
  rw [entryCount, UInt32.toNat_div, size]
  exact Nat.div_eq_of_lt (by omega)

/-- With an accepted magic number, `memory_init` is the initialiser and the marking of the kernel image. -/
lemma memoryInit_accepted (block : InfoBlock m info ps tag) (ok : Accepted magic) :
    memoryInit m s ks ke magic info =
      if entryCount m tag = 0 then
        some (pmmMarkUsedRegion (pmmInitBasic s (memUpperOf m ps) ks ke) ks (ke - ks))
      else
        (pmmInit m s (memUpperOf m ps) ks ke (entries tag)).map fun s => pmmMarkUsedRegion s ks (ke - ks) := by
  rw [Accepted] at ok
  rw [memoryInit, if_pos ok]
  simp only [block.scan]
  by_cases zero : entryCount m tag = 0
  · simp [zero]
  · have pos : entryCount m tag > 0 := by
      rw [gt_iff_lt, UInt32.lt_iff_toNat_lt]
      refine Nat.pos_of_ne_zero fun z => zero (UInt32.toNat_inj.mp z)
    rw [if_pos ⟨block.entries_ne_null zero, pos⟩, if_neg zero]
    cases pmmInit m s (memUpperOf m ps) ks ke (entries tag) with
    | none => rfl
    | some s => rfl

/-- The state `memory_init` leaves: the assumed frames are free, but for low memory and, with an accepted
    magic number, the kernel image. -/
theorem memoryInit_spec (block : InfoBlock m info ps tag) (le : ks ≤ ke) (hk : ke.toNat ≤ 0x8000000)
    (run : memoryInit m boot ks ke magic info = some s) :
    Initialised (Assumed m ps tag magic) (if Accepted magic then ks else 0) (if Accepted magic then ke else 0) s := by
  by_cases ok : Accepted magic
  · rw [memoryInit_accepted block ok] at run
    rw [if_pos ok, if_pos ok]
    by_cases zero : entryCount m tag = 0
    · rw [if_pos zero] at run
      cases run
      have eq : Assumed m ps tag magic = fun f => f < ramFrames (memUpperOf m ps) := by
        funext f
        rw [Assumed, if_neg (not_not.mpr ok), if_pos zero]
      rw [eq]
      exact (pmmInitBasic_spec rfl rfl le hk).mark le hk
    · rw [if_neg zero, Option.map_eq_some_iff] at run
      obtain ⟨t, run, rfl⟩ := run
      have eq : Assumed m ps tag magic = Marks m (memUpperOf m ps) (entries tag) := by
        funext f
        rw [Assumed, if_neg (not_not.mpr ok), if_neg zero]
      rw [eq]
      exact (pmmInit_spec rfl le hk run).mark le hk
  · have no : ¬ (magic = MULTIBOOT2_BOOTLOADER_MAGIC ∨ magic = 0x1BADB002) := ok
    rw [memoryInit, if_neg no] at run
    have default : pmmInitDefault boot (64 * 1024 - 1024) = s := Option.some.inj run
    rw [pmmInitDefault, if_neg (by decide)] at default
    have ram : ramFrames (64 * 1024 - 1024) = 0x4000 := by decide
    have eq : Assumed m ps tag magic = fun f => f < ramFrames (64 * 1024 - 1024) := by
      funext f
      rw [Assumed, if_pos ok, ram]
    rw [if_neg ok, if_neg ok, eq, ← default]
    exact pmmInitBasic_spec rfl rfl (by decide) (by decide)

/-! ## The frames that can be returned. -/

/-- An address that some run of the allocator returns. -/
def CanReturn (s : Frames) (a : UInt32) : Prop :=
  ∃ t H, Reachable s (t, H) ∧ a ≠ 0 ∧ (pmmAllocFrame t).1 = a

/-- Allocating again and again reaches a state where every frame below `k` is in use. -/
lemma reach_below (limit : s.totalFrames.toNat ≤ 32768) (low : testFrame s 0 = true) {k : Nat}
    (hk : k < s.totalFrames.toNat) : ∃ t H, Reachable s (t, H) ∧
      (∀ g : UInt32, g.toNat < k → testFrame t g = true) ∧
      ∀ g : UInt32, k ≤ g.toNat → g.toNat < 32768 → testFrame t g = testFrame s g := by
  induction k with
  | zero => exact ⟨s, ∅, .refl, fun g lt => absurd lt (by omega), fun _ _ _ => rfl⟩
  | succ k ih =>
    obtain ⟨t, H, run, below, above⟩ := ih (by omega)
    have total := (run.tracks limit low).total
    have eqk : (UInt32.ofNat k).toNat = k := toNat_ofNat_lt (by omega)
    -- frame `k` is taken already, or it is the first free one and gets allocated
    cases test : testFrame t (UInt32.ofNat k) with
    | true =>
      refine ⟨t, H, run, fun g lt => ?_, fun g ge => above g (by omega)⟩
      rcases Nat.lt_succ_iff_lt_or_eq.mp lt with lt | eq
      · exact below g lt
      · rw [show g = UInt32.ofNat k from UInt32.toNat_inj.mp (by omega)]
        exact test
    | false =>
      rcases alloc_spec (s := t) (by rw [total]; exact limit) with
        ⟨f, t', lt, free, first, eq, take⟩ | ⟨all, -⟩
      · -- the first free frame is frame `k`
        have ge : k ≤ f.toNat := by
          by_contra lt
          rw [below f (by omega)] at free
          cases free
        have le : f.toNat ≤ k := by
          by_contra lt
          rw [first _ (by rw [UInt32.lt_iff_toNat_lt]; omega)] at test
          cases test
        have pos : 0 < k := by
          refine Nat.pos_of_ne_zero ?_
          rintro rfl
          rw [above (UInt32.ofNat 0) (by omega) (by omega)] at test
          rw [show UInt32.ofNat 0 = 0 from rfl, low] at test
          cases test
        have ne := frameAddr_ne_zero (f := f) (by omega) (by omega)
        refine ⟨t', _, .tail run (.allocated eq ne), fun g lt => ?_, fun g ge small => ?_⟩
        · rw [take.test g (by omega)]
          rcases Nat.lt_succ_iff_lt_or_eq.mp lt with lt | eq
          · exact .inl (below g lt)
          · exact .inr (by omega)
        · rw [← above g (by omega) small, Bool.eq_iff_iff, take.test g small]
          exact or_iff_left (by omega)
      · rw [all (UInt32.ofNat k) (by rw [UInt32.lt_iff_toNat_lt, total]; omega)] at test
        cases test

/-- The addresses that can be returned are those of the frames left free. -/
lemma canReturn_iff (limit : s.totalFrames.toNat ≤ 32768) (low : testFrame s 0 = true) :
    CanReturn s a ↔ ∃ f < s.totalFrames, testFrame s f = false ∧ a = frameAddr f := by
  constructor
  · rintro ⟨t, H, run, ne, ret⟩
    have tr := run.tracks limit low
    rcases alloc_spec (s := t) (by rw [tr.total]; exact limit) with ⟨f, t', lt, free, -, eq, -⟩ | ⟨-, eq⟩
    · rw [eq] at ret
      rw [tr.total] at lt
      have small : f.toNat < 32768 := lt_of_lt_of_le (UInt32.lt_iff_toNat_lt.mp lt) limit
      refine ⟨f, lt, ?_, ret.symm⟩
      rw [← Bool.not_eq_true] at free ⊢
      exact fun used => free ((tr.used f small).mpr (.inl used))
    · rw [eq] at ret
      exact absurd ret.symm ne
  · rintro ⟨f, lt, free, rfl⟩
    rw [UInt32.lt_iff_toNat_lt] at lt
    obtain ⟨t, H, run, below, above⟩ := reach_below limit low lt
    have total := (run.tracks limit low).total
    have freet : testFrame t f = false := by rw [above f le_rfl (by omega), free]
    have pos : 0 < f.toNat := by
      refine Nat.pos_of_ne_zero fun z => ?_
      rw [show f = 0 from UInt32.toNat_inj.mp z, low] at free
      cases free
    refine ⟨t, H, run, frameAddr_ne_zero (by omega) pos, ?_⟩
    rcases alloc_spec (s := t) (by rw [total]; exact limit) with ⟨g, t', -, freeg, first, eq, -⟩ | ⟨all, -⟩
    · have ge : f.toNat ≤ g.toNat := by
        by_contra lt
        rw [below g (by omega)] at freeg
        cases freeg
      have le : g.toNat ≤ f.toNat := by
        by_contra lt
        rw [first f (by rw [UInt32.lt_iff_toNat_lt]; omega)] at freet
        cases freet
      rw [eq, show g = f from UInt32.toNat_inj.mp (by omega)]
    · rw [all f (by rw [UInt32.lt_iff_toNat_lt, total]; exact lt)] at freet
      cases freet

/-- After `memory_init` returns, the bitmap has not been left and every address that `pmm_alloc_frame` can
    return is a frame inside an available entry, exactly when the assumed frames above low memory and clear of
    the kernel image are frames of the bitmap inside available entries. -/
theorem returned_available_iff (block : InfoBlock m info ps tag) (le : ks ≤ ke)
    (hk : ke.toNat ≤ 0x8000000) (run : memoryInit m boot ks ke magic info = some s) :
    (s.outside = false ∧ ∀ a, CanReturn s a → InsideAvailable m tag (a.toNat / 4096)) ↔
      ∀ f, Assumed m ps tag magic f → f < 0x8000 ∧
        (256 ≤ f → ¬ (Accepted magic ∧ Touches ks ke f) → InsideAvailable m tag f) := by
  have is := memoryInit_spec block le hk run
  have touch : ∀ f, Touches (if Accepted magic then ks else 0) (if Accepted magic then ke else 0) f ↔
      Accepted magic ∧ Touches ks ke f := by
    intro f
    split
    · rename_i ok
      exact (and_iff_right ok).symm
    · rename_i no
      exact iff_of_false (fun t => absurd t.1 (by decide)) fun t => no t.1
  constructor
  · rintro ⟨quiet, safe⟩ f assumed
    have lt : f < 32768 := by
      by_contra ge
      rw [is.outside.mpr ⟨f, by omega, assumed⟩] at quiet
      cases quiet
    refine ⟨lt, fun high clear => ?_⟩
    have eqf : (UInt32.ofNat f).toNat = f := toNat_ofNat_lt (by omega)
    have free : testFrame s (UInt32.ofNat f) = false := by
      refine (is.free _ (by omega)).mpr ?_
      rw [eqf, touch]
      exact ⟨assumed, high, clear⟩
    have total := is.below f lt assumed
    have ret := (canReturn_iff is.limit is.low).mpr
      ⟨UInt32.ofNat f, by rw [UInt32.lt_iff_toNat_lt, eqf]; exact total, free, rfl⟩
    have inside := safe _ ret
    rwa [frameAddr_toNat (by omega), eqf, Nat.mul_div_cancel _ (by decide)] at inside
  · intro cond
    refine ⟨?_, fun a ret => ?_⟩
    · rw [← Bool.not_eq_true, is.outside]
      rintro ⟨f, ge, assumed⟩
      have := (cond f assumed).1
      omega
    · obtain ⟨f, lt, free, rfl⟩ := (canReturn_iff is.limit is.low).mp ret
      have small : f.toNat < 32768 := lt_of_lt_of_le (UInt32.lt_iff_toNat_lt.mp lt) is.limit
      obtain ⟨assumed, high, clear⟩ := (is.free f small).mp free
      rw [touch] at clear
      rw [frameAddr_toNat small, Nat.mul_div_cancel _ (by decide)]
      exact (cond f.toNat assumed).2 high clear

/-! ## A memory map with a hole. -/

/-- An information block at `0x9000` whose memory map makes the memory from 1 MB to 8 MB available and reserves
    that from 8 MB to 16 MB; `mem_upper` ends at the hole, or behind it. -/
def holeInfo (behind : Bool) : Memory := fun a =>
  ([96, 0, 4, 16, 639, if behind then 0x3C00 else 0x1C00, 6, 64, 24, 0, 0x100000, 0, 0x700000, 0, 1, 0,
    0x800000, 0, 0x800000, 0, 2, 0, 0, 8].flatMap (toBytes 4)).getD (a - 0x9000).toNat 0

variable {u : Bool}

/-- The tags of the block: the memory size and the memory map. -/
lemma holeInfo_block : InfoBlock (holeInfo u) 0x9000 [0x9008, 0x9018] 0x9018 := by
  have first : tagType (holeInfo u) 0x9008 = 4 := by cases u <;> decide +kernel
  have second : tagType (holeInfo u) 0x9018 = 6 := by cases u <;> decide +kernel
  have last : tagType (holeInfo u) 0x9058 = 0 := by cases u <;> decide +kernel
  have size1 : tagSize (holeInfo u) 0x9008 = 16 := by cases u <;> decide +kernel
  have size2 : tagSize (holeInfo u) 0x9018 = 64 := by cases u <;> decide +kernel
  have entry : entrySize (holeInfo u) 0x9018 = 24 := by cases u <;> decide +kernel
  have next1 : nextTag (holeInfo u) 0x9008 = 0x9018 := by
    rw [nextTag, size1]
    rfl
  have next2 : nextTag (holeInfo u) 0x9018 = 0x9058 := by
    rw [nextTag, size2]
    rfl
  refine ⟨.cons ?_ ?_, by simp, second, ?_, ?_, ?_, ?_⟩
  · show tagType (holeInfo u) 0x9008 ≠ 0
    rw [first]
    decide
  · show TagList (holeInfo u) (nextTag (holeInfo u) 0x9008) [0x9018]
    rw [next1]
    refine .cons ?_ ?_
    · rw [second]
      decide
    · rw [next2]
      exact .nil last
  · intro p mem type
    rcases List.mem_cons.mp mem with rfl | mem
    · rw [first] at type
      exact absurd type (by decide)
    · exact List.mem_singleton.mp mem
  · rw [size2]
    decide
  · rw [size2]
    decide
  · rw [entry]
    decide

lemma holeInfo_count : entryCount (holeInfo u) 0x9018 = 2 := by
  have size : tagSize (holeInfo u) 0x9018 = 64 := by cases u <;> decide +kernel
  have entry : entrySize (holeInfo u) 0x9018 = 24 := by cases u <;> decide +kernel
  rw [entryCount, size, entry]
  rfl

/-- Its only available entry covers the memory from 1 MB to 8 MB. -/
lemma holeInfo_available {f : Nat} : InsideAvailable (holeInfo u) 0x9018 f ↔ 0x100 ≤ f ∧ f < 0x800 := by
  have size : entrySize (holeInfo u) 0x9018 = 24 := by cases u <;> decide +kernel
  have at0 : mapEntry (holeInfo u) 0x9018 0 = 0x9028 := by
    rw [mapEntry, size]
    rfl
  have at1 : mapEntry (holeInfo u) 0x9018 1 = 0x9040 := by
    rw [mapEntry, size]
    rfl
  have type0 : entryType (holeInfo u) 0x9028 = 1 := by cases u <;> decide +kernel
  have type1 : entryType (holeInfo u) 0x9040 = 2 := by cases u <;> decide +kernel
  have addr0 : (entryAddr (holeInfo u) 0x9028).toNat = 0x100000 := by cases u <;> decide +kernel
  have len0 : (entryLen (holeInfo u) 0x9028).toNat = 0x700000 := by cases u <;> decide +kernel
  rw [InsideAvailable, holeInfo_count]
  constructor
  · rintro ⟨i, lt, type, lo, hi⟩
    change i < 2 at lt
    obtain rfl | rfl : i = 0 ∨ i = 1 := by omega
    · rw [at0, addr0] at lo hi
      rw [len0] at hi
      omega
    · rw [at1, type1] at type
      exact absurd type (by decide)
  · rintro ⟨lo, hi⟩
    refine ⟨0, by decide, ?_⟩
    rw [at0, type0, addr0, len0]
    exact ⟨rfl, by omega, by omega⟩

/-- The first entry starts at 1 MB, so `pmm_init` finds bit 6 of its `flags` clear. -/
lemma holeInfo_flags : ¬ (holeInfo u).load32 (entries 0x9018) &&& ((1 : UInt32) <<< 6) ≠ 0 := by
  have word : (holeInfo u).load32 (entries 0x9018) = 0x100000 := by cases u <;> decide +kernel
  rw [word]
  decide

/-- `pmm_init` reads no memory map and falls back on `mem_upper`. -/
lemma holeInfo_assumed {f : Nat} :
    Assumed (holeInfo u) [0x9008, 0x9018] 0x9018 0x2BADB002 f ↔
      f < ramFrames (memUpperOf (holeInfo u) [0x9008, 0x9018]) := by
  rw [Assumed, if_neg (by decide), holeInfo_count, if_neg (by decide), Marks, if_neg holeInfo_flags]

/-- `memory_init` returns on this block. -/
lemma holeInfo_returns (ke : UInt32) : ∃ s, memoryInit (holeInfo u) boot 0x100000 ke 0x2BADB002 0x9000 = some s := by
  have ok : Accepted 0x2BADB002 := .inl rfl
  rw [memoryInit_accepted holeInfo_block ok, holeInfo_count, if_neg (by decide), pmmInit,
    if_neg holeInfo_flags]
  exact ⟨_, rfl⟩

/-- With a `mem_upper` that ends at the hole, every frame returned is available. -/
theorem returned_available_small :
    ∃ s, memoryInit (holeInfo false) boot 0x100000 0x200000 0x2BADB002 0x9000 = some s ∧
      ∀ a, CanReturn s a → InsideAvailable (holeInfo false) 0x9018 (a.toNat / 4096) := by
  obtain ⟨s, run⟩ := holeInfo_returns (u := false) 0x200000
  refine ⟨s, run, ((returned_available_iff holeInfo_block (by decide) (by decide) run).mpr fun f assumed => ?_).2⟩
  have ram : ramFrames (memUpperOf (holeInfo false) [0x9008, 0x9018]) = 0x800 := by decide +kernel
  rw [holeInfo_assumed, ram] at assumed
  exact ⟨by omega, fun high _ => holeInfo_available.mpr ⟨high, assumed⟩⟩

/-- With a `mem_upper` of 15 MB, `pmm_alloc_frame` can return the reserved frame at 8 MB. -/
theorem returned_reserved :
    ∃ s, memoryInit (holeInfo true) boot 0x100000 0x200000 0x2BADB002 0x9000 = some s ∧
      ∃ a, CanReturn s a ∧ ¬ InsideAvailable (holeInfo true) 0x9018 (a.toNat / 4096) := by
  obtain ⟨s, run⟩ := holeInfo_returns (u := true) 0x200000
  refine ⟨s, run, frameAddr 0x800, ?_, ?_⟩
  · have is := memoryInit_spec holeInfo_block (by decide) (by decide) run
    have ram : ramFrames (memUpperOf (holeInfo true) [0x9008, 0x9018]) = 0x1000 := by decide +kernel
    have assumed : Assumed (holeInfo true) [0x9008, 0x9018] 0x9018 0x2BADB002 0x800 := by
      rw [holeInfo_assumed, ram]
      decide
    have free : testFrame s 0x800 = false := by
      refine (is.free 0x800 (by decide)).mpr ⟨assumed, by decide, fun touch => ?_⟩
      exact absurd touch.2.1 (by decide)
    refine (canReturn_iff is.limit is.low).mpr ⟨0x800, ?_, free, rfl⟩
    rw [UInt32.lt_iff_toNat_lt]
    exact is.below 0x800 (by decide) assumed
  · rw [holeInfo_available, frameAddr_toNat (by decide)]
    decide

end RetaOS.Pmm
