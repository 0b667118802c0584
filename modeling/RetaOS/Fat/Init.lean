import RetaOS.Fat.Directory
import RetaOS.Kheap.Calls

/-!
# The table on the heap

What a successful `fat32_init` leaves: the table is the payload of a block in use of the kernel heap (`Backed`). So no
allocation meets it, and what the blocks in use keep is kept of it.
-/

namespace RetaOS.Fat
open Lib Kheap

variable {v v' : Volume} {disk : Disk} {lba c : UInt32} {bps : UInt16} {n : Nat} {l : List Block} {m m' : Memory}
  {h : Heap}

/-- The volume is initialised, and its table lies in a block in use of a valid heap. -/
structure Backed (v : Volume) (l : List Block) : Prop where
  init : v.gInitialized = true
  heap : Valid v.heap l
  table : ∃ b ∈ l, b.used = true ∧ v.gFat.toNat = b.addr + 12 ∧ (fatSize v).toNat ≤ b.size

lemma Backed.loaded (b : Backed v l) : Loaded v := by
  obtain ⟨d, mem, -, addr, le⟩ := b.table
  obtain ⟨lo, hi⟩ := b.heap.bounds mem
  rw [Block.limit] at hi
  exact ⟨b.init, by omega, by omega⟩

/-- The heap may change as long as the blocks in use stay. -/
lemma Backed.withHeap {l' : List Block} (b : Backed v l) (valid : Valid h l')
    (stay : ∀ d ∈ l, d.used = true → d ∈ l') : Backed { v with heap := h } l' := by
  obtain ⟨d, mem, used, addr, le⟩ := b.table
  exact ⟨b.init, valid, d, stay d mem used, used, addr, le⟩

/-- An entry of the table depends on the blocks in use only. -/
lemma Backed.fatEntry_eq (b : Backed v l) (keeps : Keeps l m m') (inside : c.toNat < (fatSize v).toNat / 4) :
    fatEntry m' v.gFat c = fatEntry m v.gFat c := by
  obtain ⟨d, mem, used, addr, le⟩ := b.table
  obtain ⟨lo, hi⟩ := b.heap.bounds mem
  rw [Block.limit] at hi
  have scaled : (4 * c).toNat = 4 * c.toNat := by
    rw [UInt32.toNat_mul]
    change 4 * c.toNat % 2 ^ 32 = 4 * c.toNat
    omega
  have start : (v.gFat + 4 * c).toNat = d.addr + 12 + 4 * c.toNat := by
    rw [toNat_add_of_lt (by omega), scaled, addr]
  apply Memory.load32_congr
  intro i hi
  have byte := toNat_add_ofNat (a := v.gFat + 4 * c) (n := i) (by omega)
  exact keeps _ ⟨d, mem, used, by omega, by rw [Block.limit]; omega⟩

/-! ## Reading sectors. -/

/-- Sectors that can be read have 512 bytes each. -/
lemma ataRead28Lba_length : (ataRead28Lba disk lba n).1.length ≤ 512 * n ∧
    (Readable disk lba n → (ataRead28Lba disk lba n).1.length = 512 * n) := by
  unfold Readable
  induction n generalizing lba with
  | zero => simp [ataRead28Lba]
  | succ n ih =>
    cases hs : disk (lba &&& 0x0FFFFFFF) with
    | none => simp [ataRead28Lba, hs]
    | some s =>
      obtain ⟨le, eq⟩ := @ih (lba + 1)
      have len := s.length
      constructor
      · simp only [ataRead28Lba, hs, List.length_append]
        omega
      · intro ok
        simp only [ataRead28Lba, hs, List.length_append] at ok ⊢
        rw [eq ok]
        omega

/-- On a disk without read errors all sectors are read. -/
lemma ataRead28Lba_total (total : ∀ lba, disk lba ≠ none) : (ataRead28Lba disk lba n).2 = true := by
  induction n generalizing lba with
  | zero => rfl
  | succ n ih =>
    obtain ⟨s, hs⟩ := Option.ne_none_iff_exists'.mp (total (lba &&& 0x0FFFFFFF))
    simp only [ataRead28Lba, hs]
    exact ih

/-! ## `fat32_init`. -/

/-- `sectors_to_read`: as many of the remaining sectors as one request can name. -/
def chunk (s : LoadFat) : UInt8 := if s.sectorsRemaining > 255 then 255 else s.sectorsRemaining.toUInt8

lemma chunk_toNat (s : LoadFat) : (chunk s).toNat = min 255 s.sectorsRemaining.toNat := by
  rw [chunk]
  split_ifs with large
  · have gt : 255 < s.sectorsRemaining.toNat := UInt32.lt_iff_toNat_lt.mp large
    change 255 = _
    omega
  · have le : ¬ 255 < s.sectorsRemaining.toNat := fun gt => large (UInt32.lt_iff_toNat_lt.mpr gt)
    rw [UInt32.toNat_toUInt8]
    omega

/-- The variables behind a chunk that has been read. -/
def pastChunk (disk : Disk) (bps : UInt16) (s : LoadFat) : LoadFat where
  mem := s.mem.storeBytes s.fatPtr (readSectors disk s.currentLba (chunk s)).1
  sectorsRemaining := s.sectorsRemaining - (chunk s).toUInt32
  currentLba := s.currentLba + (chunk s).toUInt32
  fatPtr := s.fatPtr + (chunk s).toUInt32 * bps.toUInt32

/-- A pass reads a chunk of the remaining sectors. -/
lemma loadBody_pass {s : LoadFat} (more : 0 < s.sectorsRemaining.toNat) : loadBody disk bps s =
    if (readSectors disk s.currentLba (chunk s)).2 then .next (pastChunk disk bps s)
    else .done (s.mem.storeBytes s.fatPtr (readSectors disk s.currentLba (chunk s)).1, false) := by
  have pos : s.sectorsRemaining > 0 := UInt32.lt_iff_toNat_lt.mpr more
  rw [loadBody, if_pos pos]
  rfl

/-- Behind the last sector the loop is left. -/
lemma loadBody_end {s : LoadFat} (done : ¬ 0 < s.sectorsRemaining.toNat) :
    loadBody disk bps s = .done (s.mem, true) := by
  have none : ¬ s.sectorsRemaining > 0 := fun gt => done (UInt32.lt_iff_toNat_lt.mp gt)
  rw [loadBody, if_neg none]

/-- The sectors that remain behind a chunk. -/
lemma pastChunk_rest (disk : Disk) (bps : UInt16) (s : LoadFat) :
    (pastChunk disk bps s).sectorsRemaining.toNat = s.sectorsRemaining.toNat - (chunk s).toNat := by
  show (s.sectorsRemaining - (chunk s).toUInt32).toNat = _
  have wide : (chunk s).toUInt32.toNat = (chunk s).toNat := UInt8.toNat_toUInt32 _
  have count := chunk_toNat s
  rw [sub_toNat_of_le (by omega), wide]

/-- The place behind a chunk. -/
lemma pastChunk_fatPtr (disk : Disk) (bps : UInt16) (s : LoadFat)
    (fits : s.fatPtr.toNat + (chunk s).toNat * bps.toNat < 2 ^ 32) :
    (pastChunk disk bps s).fatPtr.toNat = s.fatPtr.toNat + (chunk s).toNat * bps.toNat := by
  have step : ((chunk s).toUInt32 * bps.toUInt32).toNat = (chunk s).toNat * bps.toNat := by
    rw [UInt32.toNat_mul, UInt8.toNat_toUInt32, UInt16.toNat_toUInt32, Nat.mod_eq_of_lt (by omega)]
  show (s.fatPtr + (chunk s).toUInt32 * bps.toUInt32).toNat = _
  rw [toNat_add_of_lt (by omega), step]

/-- The loop of `fat32_init` ends, and with sectors of 512 bytes or more it writes no further than the sectors it is
    asked for. -/
lemma load_spec (disk : Disk) (lba : UInt32) (m : Memory) {rem ptr : UInt32} (wide : 0 < rem.toNat → 512 ≤ bps.toNat)
    (fits : ptr.toNat + rem.toNat * bps.toNat < 2 ^ 32) :
    ∃ r, loop (loadBody disk bps) ⟨m, rem, lba, ptr⟩ = some r ∧
      ∀ x : UInt32, x.toNat < ptr.toNat ∨ ptr.toNat + rem.toNat * bps.toNat ≤ x.toNat → r.1 x = m x := by
  -- the end of what is left to write does not move
  let I (s : LoadFat) : Prop :=
    s.fatPtr.toNat + s.sectorsRemaining.toNat * bps.toNat = ptr.toNat + rem.toNat * bps.toNat ∧
      ptr.toNat ≤ s.fatPtr.toNat ∧ s.sectorsRemaining.toNat ≤ rem.toNat ∧
      ∀ x : UInt32, x.toNat < ptr.toNat ∨ ptr.toNat + rem.toNat * bps.toNat ≤ x.toNat → s.mem x = m x
  have room {s : LoadFat} (inv : I s) (more : 0 < s.sectorsRemaining.toNat) :
      512 * (chunk s).toNat ≤ (chunk s).toNat * bps.toNat ∧
        (chunk s).toNat * bps.toNat ≤ s.sectorsRemaining.toNat * bps.toNat := by
    have count := chunk_toNat s
    have least := wide (lt_of_lt_of_le more inv.2.2.1)
    refine ⟨?_, Nat.mul_le_mul_right _ (by omega)⟩
    rw [Nat.mul_comm]
    exact Nat.mul_le_mul_left _ least
  have stores {s : LoadFat} (inv : I s) (more : 0 < s.sectorsRemaining.toNat) (x : UInt32)
      (out : x.toNat < ptr.toNat ∨ ptr.toNat + rem.toNat * bps.toNat ≤ x.toNat) :
      s.mem.storeBytes s.fatPtr (readSectors disk s.currentLba (chunk s)).1 x = m x := by
    obtain ⟨least, most⟩ := room inv more
    obtain ⟨stop, start, -, frame⟩ := inv
    have len : (readSectors disk s.currentLba (chunk s)).1.length ≤ 512 * (chunk s).toNat := ataRead28Lba_length.1
    rw [storeBytes_within start (by omega) (by omega) out, frame x out]
  refine loop_variant (I := I) (fun s => s.sectorsRemaining.toNat) ?_ ?_ ⟨rfl, le_rfl, le_rfl, fun _ _ => rfl⟩
  · intro s s' inv pass
    by_cases more : 0 < s.sectorsRemaining.toNat
    · rw [loadBody_pass more] at pass
      split_ifs at pass
      cases pass
      obtain ⟨-, most⟩ := room inv more
      have keep := stores inv more
      obtain ⟨stop, start, less, -⟩ := inv
      have count := chunk_toNat s
      have rest := pastChunk_rest disk bps s
      have next := pastChunk_fatPtr disk bps s (by omega)
      refine ⟨⟨?_, by omega, by omega, keep⟩, by omega⟩
      rw [next, rest, Nat.sub_mul]
      omega
    · rw [loadBody_end more] at pass
      cases pass
  · intro s r inv pass
    by_cases more : 0 < s.sectorsRemaining.toNat
    · rw [loadBody_pass more] at pass
      split_ifs at pass
      cases pass
      exact stores inv more
    · rw [loadBody_end more] at pass
      cases pass
      exact inv.2.2.2

/-- Loading into a block of the heap that has room for the sectors keeps the heap. -/
lemma load_block {b : Block} (disk : Disk) (lba : UInt32) {rem ptr : UInt32} (valid : Valid h l) (mem : b ∈ l)
    (addr : ptr.toNat = b.addr + 12) (size : rem.toNat * bps.toNat ≤ b.size)
    (wide : 0 < rem.toNat → 512 ≤ bps.toNat) :
    ∃ m ok, loop (loadBody disk bps) ⟨h.mem, rem, lba, ptr⟩ = some (m, ok) ∧ Valid { h with mem := m } l := by
  obtain ⟨lo, hi⟩ := valid.bounds mem
  rw [Block.limit] at hi
  obtain ⟨⟨m, ok⟩, loaded, frame⟩ := load_spec disk lba h.mem wide
    (show ptr.toNat + rem.toNat * bps.toNat < 2 ^ 32 by omega)
  refine ⟨m, ok, loaded, valid.of_outside mem fun x out => frame x ?_⟩
  rw [Block.limit] at out
  omega

/-- On a disk without read errors the loop reads all sectors. -/
lemma load_total (total : ∀ lba, disk lba ≠ none) {s : LoadFat} {r : Memory × Bool}
    (run : loop (loadBody disk bps) s = some r) : r.2 = true := by
  refine loop_invariant (I := fun _ => True) (Q := fun r => r.2 = true) (fun _ _ _ _ => trivial)
    (fun s r _ pass => ?_) trivial run
  by_cases more : 0 < s.sectorsRemaining.toNat
  · have ok : (readSectors disk s.currentLba (chunk s)).2 = true := ataRead28Lba_total total
    rw [loadBody_pass more, if_pos ok] at pass
    cases pass
  · rw [loadBody_end more] at pass
    cases pass
    rfl

/-- What a successful load does. -/
lemma fat32Load_success (run : fat32Load v = some (0, v')) : ∃ r h m, kmalloc v.heap (fatSize v) = some (r, h) ∧ r ≠ 0 ∧
    loop (loadBody v.disk v.gBootSector.bytesPerSector) ⟨h.mem, v.gBootSector.fatSize32, v.gFatBeginLba, r⟩ =
      some (m, true) ∧
    v' = { v with gFat := r, heap := { h with mem := m }, gInitialized := true } := by
  rw [fat32Load] at run
  dsimp only at run
  cases alloc : kmalloc v.heap (v.gBootSector.fatSize32 * v.gBootSector.bytesPerSector.toUInt32) with
  | none => simp [alloc] at run
  | some result =>
    obtain ⟨r, h⟩ := result
    simp only [alloc] at run
    by_cases null : r = 0
    · simp [null] at run
    · rw [if_neg null] at run
      cases loaded : loop (loadBody v.disk v.gBootSector.bytesPerSector)
        ⟨h.mem, v.gBootSector.fatSize32, v.gFatBeginLba, r⟩ with
      | none => simp [loaded] at run
      | some result =>
        obtain ⟨m, ok⟩ := result
        cases ok with
        | true =>
          simp only [loaded, Option.some.injEq, Prod.mk.injEq, true_and] at run
          exact ⟨r, h, m, alloc, null, loaded, run.symm⟩
        | false =>
          cases free : kfree { h with mem := m } r with
          | none => simp [loaded, free] at run
          | some h => simp [loaded, free] at run

/-- A successful initialisation goes through all the checks of the boot sector. -/
lemma fat32Init_success (fresh : v.gInitialized = false) (run : fat32Init v = some (0, v')) :
    ∃ v₁, v₁.disk = v.disk ∧ v₁.heap = v.heap ∧ fat32Load v₁ = some (0, v') := by
  rw [fat32Init, if_neg (by simp [fresh])] at run
  generalize readSectors v.disk 0 1 = read at run
  obtain ⟨bytes, ok⟩ := read
  cases ok with
  | false => simp at run
  | true =>
    dsimp only at run
    by_cases sign : (bootSector bytes).fsType.take 5 = [0x46, 0x41, 0x54, 0x33, 0x32]
    · rw [if_neg (not_not.mpr sign)] at run
      by_cases zero : (bootSector bytes).sectorsPerCluster = 0
      · rw [if_pos zero] at run
        cases run
      · rw [if_neg zero] at run
        refine ⟨_, ?_, ?_, run⟩
        · rfl
        · rfl
    · simp [sign] at run

/-- After a successful `fat32_init` the table lies in a block in use. Its size in bytes does not wrap, and `kmalloc`
    does not take it for one that fits. -/
theorem fat32Init_backed (fresh : v.gInitialized = false) (valid : Valid v.heap l) (run : fat32Init v = some (0, v'))
    (sector : v'.gBootSector.bytesPerSector = 512) (small : 512 * v'.gBootSector.fatSize32.toNat < 2 ^ 32)
    (nw : ¬ Wraps (fatSize v')) : ∃ l', Backed v' l' := by
  obtain ⟨v₁, -, heap, load⟩ := fat32Init_success fresh run
  obtain ⟨r, h, m, alloc, ne, loaded, rfl⟩ := fat32Load_success load
  rw [← heap] at valid
  obtain ⟨r', h', l', alloc', valid', -, ⟨rfl, -⟩ | ⟨-, allocated, -⟩⟩ := kmalloc_effect (n := fatSize v₁) valid nw
  · cases alloc.symm.trans alloc'
    exact absurd rfl ne
  · cases alloc.symm.trans alloc'
    obtain ⟨d, used, addr, le, -, made⟩ := allocated
    have mem : d ∈ l' := (made d used).mpr (.inl rfl)
    have bps : v₁.gBootSector.bytesPerSector = 512 := sector
    have size : (fatSize v₁).toNat = 512 * v₁.gBootSector.fatSize32.toNat := by
      rw [fatSize, bps, UInt32.toNat_mul]
      change v₁.gBootSector.fatSize32.toNat * 512 % 2 ^ 32 = _
      change 512 * v₁.gBootSector.fatSize32.toNat < 2 ^ 32 at small
      omega
    have room : v₁.gBootSector.fatSize32.toNat * (512 : UInt16).toNat ≤ d.size := by
      change v₁.gBootSector.fatSize32.toNat * 512 ≤ d.size
      omega
    obtain ⟨m', ok, loaded', kept⟩ := load_block v₁.disk v₁.gFatBeginLba valid' mem addr room fun _ => le_rfl
    rw [bps, loaded'] at loaded
    cases loaded
    exact ⟨l', rfl, kept, d, mem, used, addr, le⟩

/-- On a disk without read errors and a heap with room for the table `fat32_init` succeeds. -/
lemma fat32Init_succeeds {b : Block} {boot : BootSector} (fresh : v.gInitialized = false)
    (total : ∀ lba, v.disk lba ≠ none) (read : bootSector (readSectors v.disk 0 1).1 = boot)
    (sign : boot.fsType.take 5 = [0x46, 0x41, 0x54, 0x33, 0x32]) (spc : boot.sectorsPerCluster ≠ 0)
    (sector : boot.bytesPerSector = 512) (pos : 0 < boot.fatSize32.toNat) (valid : Valid v.heap (l ++ [b]))
    (used : ∀ c ∈ l, c.used = true) (free : b.used = false) (room : 512 * boot.fatSize32.toNat + 16 < b.size) :
    ∃ v', fat32Init v = some (0, v') ∧ v'.disk = v.disk ∧ v'.gBootSector = boot ∧ v'.gInitialized = true ∧
      v'.gClusterBeginLba = boot.reservedSectorCount.toUInt32 + boot.numFats.toUInt32 * boot.fatSize32 ∧
      Valid v'.heap (l ++ [⟨b.addr, 512 * boot.fatSize32.toNat, true⟩] ++
        [⟨b.addr + 12 + 512 * boot.fatSize32.toNat, b.size - 512 * boot.fatSize32.toNat - 12, false⟩]) := by
  obtain ⟨lo, hi⟩ := valid.bounds (b := b) (by simp)
  rw [Block.limit] at hi
  have size : (boot.fatSize32 * boot.bytesPerSector.toUInt32).toNat = 512 * boot.fatSize32.toNat := by
    rw [sector, UInt32.toNat_mul]
    change boot.fatSize32.toNat * 512 % 2 ^ 32 = _
    omega
  obtain ⟨r, h, alloc, addr, valid'⟩ := kmalloc_bump (n := boot.fatSize32 * boot.bytesPerSector.toUInt32) valid used
    free (by omega) (by omega)
  rw [size] at valid'
  have room : boot.fatSize32.toNat * (512 : UInt16).toNat ≤ 512 * boot.fatSize32.toNat :=
    le_of_eq (Nat.mul_comm _ _)
  obtain ⟨m, ok, loaded, kept⟩ := load_block (b := ⟨b.addr, 512 * boot.fatSize32.toNat, true⟩) v.disk
    boot.reservedSectorCount.toUInt32 valid' (by simp) addr room fun _ => le_rfl
  obtain rfl : ok = true := load_total total loaded
  have ne : r ≠ 0 := by
    rintro rfl
    change 0 = _ at addr
    omega
  have ok : readSectors v.disk 0 1 = ((readSectors v.disk 0 1).1, true) := by
    rw [← show (readSectors v.disk 0 1).2 = true from ataRead28Lba_total total]
  rw [fat32Init, if_neg (by simp [fresh]), ok]
  dsimp only
  rw [read, if_neg (not_not.mpr sign), if_neg spc, fat32Load]
  dsimp only
  rw [alloc]
  dsimp only
  rw [if_neg ne, sector, loaded]
  exact ⟨_, rfl, rfl, rfl, rfl, rfl, kept⟩

end RetaOS.Fat
