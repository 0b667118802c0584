import RetaOS.Fat.Init
import RetaOS.Kheap.Integrity

/-!
# The table in chunks

The loop of `fat32_init` pass by pass. A run is a `Trail`, and the requests of its passes are the requests of one read
(`Trail.read`), so the chunks of at most 255 sectors are read and put behind one another as a single read of the whole
table would do. `fat32Init_loads` is the result.
-/

namespace RetaOS.Fat
open Lib Kheap

variable {v v' : Volume} {disk : Disk} {lba out r : UInt32} {bps : UInt16} {n k i : Nat} {l : List Block} {h : Heap}
  {s s' : LoadFat} {passes : List LoadFat}

/-! ## The requests of a read. -/

/-- The numbers that `ata_read28_lba` sends to the drive, one for each sector. -/
def requests (lba : UInt32) : Nat → List UInt32
  | 0 => []
  | count + 1 => (lba &&& 0x0FFFFFFF) :: requests (lba + 1) count

lemma requests_length : (requests lba n).length = n := by
  induction n generalizing lba with
  | zero => rfl
  | succ n ih => rw [requests, List.length_cons, ih]

/-- The addresses where it puts the sectors. -/
def targets (out : UInt32) : Nat → List UInt32
  | 0 => []
  | count + 1 => out :: targets (out + 512) count

lemma succ_word (a : UInt32) (n : Nat) : a + 1 + UInt32.ofNat n = a + UInt32.ofNat (n + 1) := by
  rw [UInt32.ofNat_add, UInt32.add_assoc, UInt32.add_comm (UInt32.ofNat n)]
  rfl

/-- The requests for the sectors behind one another. -/
lemma requests_add : requests lba (k + n) = requests lba k ++ requests (lba + UInt32.ofNat k) n := by
  induction k generalizing lba with
  | zero =>
    rw [Nat.zero_add, show lba + UInt32.ofNat 0 = lba from UInt32.add_zero lba]
    rfl
  | succ k ih => rw [Nat.succ_add, requests, ih, succ_word, requests, List.cons_append]

/-- Sector numbers of 28 bits go to the drive as they are. -/
lemma requests_toNat (small : lba.toNat + n ≤ 2 ^ 28) :
    (requests lba n).map UInt32.toNat = List.range' lba.toNat n := by
  induction n generalizing lba with
  | zero => rfl
  | succ n ih =>
    have low : (lba &&& 0x0FFFFFFF).toNat = lba.toNat := by
      have mask := toNat_and_mask lba (k := 28) (by decide)
      change (lba &&& 0x0FFFFFFF).toNat = _ at mask
      omega
    have next : (lba + 1).toNat = lba.toNat + 1 := toNat_add_ofNat (n := 1) (by omega)
    rw [requests, List.map_cons, ih (by omega), low, next, List.range'_succ]

/-- A sector that is put somewhere is put at a multiple of 512 bytes behind the first. -/
lemma mem_targets {a : UInt32} : a ∈ targets out n ↔ ∃ i < n, a = out + UInt32.ofNat (512 * i) := by
  induction n generalizing out with
  | zero => simp [targets]
  | succ n ih =>
    rw [targets, List.mem_cons, ih]
    have shift (i : Nat) : out + 512 + UInt32.ofNat (512 * i) = out + UInt32.ofNat (512 * (i + 1)) := by
      rw [Nat.mul_succ, UInt32.ofNat_add, UInt32.add_assoc, UInt32.add_comm (UInt32.ofNat (512 * i))]
      rfl
    constructor
    · rintro (rfl | ⟨i, lt, rfl⟩)
      · exact ⟨0, by omega, (UInt32.add_zero _).symm⟩
      · exact ⟨i + 1, by omega, shift i⟩
    · rintro ⟨i, lt, rfl⟩
      cases i with
      | zero => exact .inl (UInt32.add_zero _)
      | succ i => exact .inr ⟨i, by omega, (shift i).symm⟩

/-- More sectors can be read when the first ones and the rest can. -/
lemma readable_add : Readable disk lba (k + n) ↔ Readable disk lba k ∧ Readable disk (lba + UInt32.ofNat k) n := by
  unfold Readable
  induction k generalizing lba with
  | zero =>
    rw [Nat.zero_add, show lba + UInt32.ofNat 0 = lba from UInt32.add_zero lba]
    simp [ataRead28Lba]
  | succ k ih =>
    rw [Nat.succ_add]
    cases hs : disk (lba &&& 0x0FFFFFFF) with
    | none => simp [ataRead28Lba, hs]
    | some sector =>
      simp only [ataRead28Lba, hs]
      rw [ih, succ_word]

/-- Reading more sectors is reading the rest behind the first ones. -/
lemma ataRead28Lba_add (ok : Readable disk lba k) : (ataRead28Lba disk lba (k + n)).1 =
    (ataRead28Lba disk lba k).1 ++ (ataRead28Lba disk (lba + UInt32.ofNat k) n).1 := by
  unfold Readable at ok
  induction k generalizing lba with
  | zero =>
    rw [Nat.zero_add, show lba + UInt32.ofNat 0 = lba from UInt32.add_zero lba]
    rfl
  | succ k ih =>
    cases hs : disk (lba &&& 0x0FFFFFFF) with
    | none => simp [ataRead28Lba, hs] at ok
    | some sector =>
      simp only [ataRead28Lba, hs] at ok
      have rest := ih ok
      rw [succ_word] at rest
      rw [Nat.succ_add]
      simp only [ataRead28Lba, hs, rest, List.append_assoc]

/-- One of the sectors that are read. -/
lemma ataRead28Lba_sector (ok : Readable disk lba n) (lt : i < n) :
    ∃ sector, disk ((lba + UInt32.ofNat i) &&& 0x0FFFFFFF) = some sector ∧
      ((ataRead28Lba disk lba n).1.drop (512 * i)).take 512 = sector.bytes := by
  unfold Readable at ok
  induction n generalizing lba i with
  | zero => cases lt
  | succ n ih =>
    cases hs : disk (lba &&& 0x0FFFFFFF) with
    | none => simp [ataRead28Lba, hs] at ok
    | some sector =>
      simp only [ataRead28Lba, hs] at ok ⊢
      have len := sector.length
      cases i with
      | zero =>
        refine ⟨sector, ?_, ?_⟩
        · rw [show lba + UInt32.ofNat 0 = lba from UInt32.add_zero lba]
          exact hs
        · rw [Nat.mul_zero, List.drop_zero, List.take_append_of_le_length (by omega), List.take_of_length_le (by omega)]
      | succ i =>
        obtain ⟨found, at_, bytes⟩ := ih ok (Nat.lt_of_succ_lt_succ lt)
        refine ⟨found, ?_, ?_⟩
        · rw [← succ_word]
          exact at_
        · have drop : 512 * (i + 1) = sector.bytes.length + 512 * i := by omega
          rw [drop, List.drop_append, ← bytes]
          rw [List.drop_eq_nil_of_le (by omega), List.nil_append]
          simp

/-! ## The passes of the loop. -/

/-- A pass that goes round again has read its chunk. -/
lemma loadBody_next (pass : loadBody disk bps s = .next s') : 0 < s.sectorsRemaining.toNat ∧
    Readable disk s.currentLba (chunk s).toNat ∧ s' = pastChunk disk bps s := by
  by_cases more : 0 < s.sectorsRemaining.toNat
  · rw [loadBody_pass more] at pass
    split_ifs at pass with ok
    cases pass
    exact ⟨more, ok, rfl⟩
  · rw [loadBody_end more] at pass
    cases pass

lemma chunk_word (s : LoadFat) : (chunk s).toUInt32 = UInt32.ofNat (chunk s).toNat := by
  apply UInt32.toNat_inj.mp
  have lt := (chunk s).toNat_lt
  rw [toNat_ofNat_lt (by omega), UInt8.toNat_toUInt32]

/-- A pass requests between one and 255 sectors. -/
lemma trail_chunk (t : Trail (loadBody disk bps) s passes s') :
    ∀ p ∈ passes, 0 < (chunk p).toNat ∧ (chunk p).toNat ≤ 255 := by
  intro p mem
  obtain ⟨p', pass⟩ := t.next p mem
  obtain ⟨more, -, -⟩ := loadBody_next pass
  have count := chunk_toNat p
  omega

/-- When its sectors can be read, the loop gets to the end of the table. -/
lemma load_trail (disk : Disk) (bps : UInt16) (reads : Readable disk s.currentLba s.sectorsRemaining.toNat) :
    ∃ passes s', Trail (loadBody disk bps) s passes s' ∧ s'.sectorsRemaining.toNat = 0 := by
  induction more : s.sectorsRemaining.toNat using Nat.strong_induction_on generalizing s with
  | _ k ih =>
    by_cases end_ : k = 0
    · exact ⟨[], s, .nil, more.trans end_⟩
    · have count := chunk_toNat s
      have rest := pastChunk_rest disk bps s
      have split : s.sectorsRemaining.toNat = (chunk s).toNat + (pastChunk disk bps s).sectorsRemaining.toNat := by
        omega
      rw [split, readable_add, ← chunk_word] at reads
      obtain ⟨first, others⟩ := reads
      obtain ⟨passes, s', t, last⟩ := ih _ (by omega) (s := pastChunk disk bps s) others rfl
      refine ⟨s :: passes, s', .cons ?_ t, last⟩
      have ok : (readSectors disk s.currentLba (chunk s)).2 = true := first
      rw [loadBody_pass (by omega), if_pos ok]

/-- The requests of the passes are those of one read. -/
lemma trail_requests (t : Trail (loadBody disk bps) s passes s') :
    s'.sectorsRemaining.toNat ≤ s.sectorsRemaining.toNat ∧
      passes.flatMap (fun p => requests p.currentLba (chunk p).toNat) =
        requests s.currentLba (s.sectorsRemaining.toNat - s'.sectorsRemaining.toNat) := by
  induction t with
  | nil => simp [requests]
  | @cons s s₁ s' passes pass _ ih =>
    obtain ⟨more, -, rfl⟩ := loadBody_next pass
    obtain ⟨less, ih⟩ := ih
    have count := chunk_toNat s
    have rest := pastChunk_rest disk bps s
    have split : s.sectorsRemaining.toNat - s'.sectorsRemaining.toNat = (chunk s).toNat +
        ((pastChunk disk bps s).sectorsRemaining.toNat - s'.sectorsRemaining.toNat) := by omega
    refine ⟨by omega, ?_⟩
    rw [List.flatMap_cons, ih, split, requests_add, ← chunk_word]
    rfl

/-- With sectors of 512 bytes the passes store what one read gives. -/
lemma trail_read (t : Trail (loadBody disk 512) s passes s') (small : 512 * s.sectorsRemaining.toNat ≤ 2 ^ 32) :
    Readable disk s.currentLba (s.sectorsRemaining.toNat - s'.sectorsRemaining.toNat) ∧
      s'.mem = s.mem.storeBytes s.fatPtr
        (ataRead28Lba disk s.currentLba (s.sectorsRemaining.toNat - s'.sectorsRemaining.toNat)).1 := by
  induction t with
  | @nil s =>
    rw [Nat.sub_self]
    exact ⟨rfl, rfl⟩
  | @cons s s₁ s' passes pass t ih =>
    obtain ⟨less, -⟩ := trail_requests t
    obtain ⟨more, first, rfl⟩ := loadBody_next pass
    have count := chunk_toNat s
    have rest := pastChunk_rest disk 512 s
    obtain ⟨reads, stored⟩ := ih (by omega)
    generalize left : (pastChunk disk 512 s).sectorsRemaining.toNat - s'.sectorsRemaining.toNat = n at reads stored
    have split : s.sectorsRemaining.toNat - s'.sectorsRemaining.toNat = (chunk s).toNat + n := by omega
    have lba : (pastChunk disk 512 s).currentLba = s.currentLba + UInt32.ofNat (chunk s).toNat := by
      rw [← chunk_word]
      rfl
    rw [lba] at reads stored
    have len : (ataRead28Lba disk s.currentLba (chunk s).toNat).1.length = 512 * (chunk s).toNat :=
      ataRead28Lba_length.2 first
    have behind := ataRead28Lba_length.2 reads
    have next : (pastChunk disk 512 s).fatPtr =
        s.fatPtr + UInt32.ofNat (ataRead28Lba disk s.currentLba (chunk s).toNat).1.length := by
      rw [len, Nat.mul_comm, UInt32.ofNat_mul, ← chunk_word]
      rfl
    have short : (ataRead28Lba disk s.currentLba (chunk s).toNat).1.length +
        (ataRead28Lba disk (s.currentLba + UInt32.ofNat (chunk s).toNat) n).1.length ≤ 2 ^ 32 := by omega
    rw [split, readable_add, ataRead28Lba_add first]
    refine ⟨⟨first, reads⟩, ?_⟩
    rw [stored, next]
    exact Memory.storeBytes_append short

/-! ## The table that is loaded. -/

/-- `"FAT32"` at the start of `fs_type`. -/
def Signed (b : BootSector) : Prop := b.fsType.take 5 = [0x46, 0x41, 0x54, 0x33, 0x32]

instance (b : BootSector) : Decidable (Signed b) := inferInstanceAs (Decidable (_ = _))

/-- `fat_size` of a boot sector. -/
def tableSize (b : BootSector) : UInt32 := b.fatSize32 * b.bytesPerSector.toUInt32

/-- The volume with the locations that `fat32_init` calculates from a boot sector. -/
def located (v : Volume) (b : BootSector) : Volume :=
  { v with
    gBootSector := b
    gFatBeginLba := b.reservedSectorCount.toUInt32
    gClusterBeginLba := b.reservedSectorCount.toUInt32 + b.numFats.toUInt32 * b.fatSize32
    gTotalClusters := (b.totalSectors32 - (b.reservedSectorCount.toUInt32 + b.numFats.toUInt32 * b.fatSize32)) /
      b.sectorsPerCluster.toUInt32 }

/-- `fat32_init` on a disk whose boot sector can be read. -/
lemma fat32Init_signed {boot : Sector} (fresh : v.gInitialized = false) (read : v.disk 0 = some boot)
    (sign : Signed (bootSector boot.bytes)) : fat32Init v =
      if (bootSector boot.bytes).sectorsPerCluster = 0 then none
      else fat32Load (located v (bootSector boot.bytes)) := by
  have sector : readSectors v.disk 0 1 = (boot.bytes, true) := by
    have zero : v.disk (0 &&& 0x0FFFFFFF) = some boot := read
    simp only [readSectors, UInt8.reduceToNat, ataRead28Lba, zero, List.append_nil]
  have text : (bootSector boot.bytes).fsType.take 5 = [0x46, 0x41, 0x54, 0x33, 0x32] := sign
  rw [fat32Init, if_neg (by simp [fresh]), sector]
  dsimp only
  rw [if_neg (not_not.mpr text)]
  rfl

/-- The loading of a table whose sectors can all be read. -/
lemma fat32Load_trail {b : BootSector} (alloc : kmalloc v.heap (tableSize b) = some (r, h)) (ne : r ≠ 0)
    (reads : Readable v.disk b.reservedSectorCount.toUInt32 b.fatSize32.toNat) :
    ∃ passes last, Trail (loadBody v.disk b.bytesPerSector) ⟨h.mem, b.fatSize32, b.reservedSectorCount.toUInt32, r⟩
        passes last ∧ last.sectorsRemaining.toNat = 0 ∧
      fat32Load (located v b) =
        some (0, { located v b with gFat := r, heap := { h with mem := last.mem }, gInitialized := true }) := by
  obtain ⟨passes, last, t, zero⟩ := load_trail v.disk b.bytesPerSector
    (s := ⟨h.mem, b.fatSize32, b.reservedSectorCount.toUInt32, r⟩) reads
  have end_ : loop (loadBody v.disk b.bytesPerSector) ⟨h.mem, b.fatSize32, b.reservedSectorCount.toUInt32, r⟩ =
      some (last.mem, true) := by
    rw [t.loop_eq]
    exact loop_done (loadBody_end (by omega))
  have size : kmalloc (located v b).heap ((located v b).gBootSector.fatSize32 *
      (located v b).gBootSector.bytesPerSector.toUInt32) = some (r, h) := alloc
  refine ⟨passes, last, t, zero, ?_⟩
  rw [fat32Load]
  dsimp only
  rw [size]
  dsimp only
  rw [if_neg ne]
  have run : loop (loadBody (located v b).disk (located v b).gBootSector.bytesPerSector)
      ⟨h.mem, (located v b).gBootSector.fatSize32, (located v b).gFatBeginLba, r⟩ = some (last.mem, true) := end_
  rw [run]

/-- A boot sector: `total` sectors of 512 bytes, `spc` of them in a cluster, and one table of `fatSize` sectors behind
    the boot sector. -/
def plainBoot (spc : UInt8) (total fatSize : Nat) : Sector where
  bytes := List.replicate 11 0 ++ toBytes 2 512 ++ [spc] ++ toBytes 2 1 ++ [1] ++ List.replicate 15 0 ++
    toBytes 4 total ++ toBytes 4 fatSize ++ List.replicate 4 0 ++ toBytes 4 2 ++ List.replicate 34 0 ++
    [0x46, 0x41, 0x54, 0x33, 0x32, 0x20, 0x20, 0x20] ++ List.replicate 422 0
  length := by
    simp only [List.length_append, List.length_replicate, toBytes_length, List.length_cons, List.length_nil]

/-- A boot sector with a table of one sector. -/
def smallBoot (spc : UInt8) : Sector := plainBoot spc 100 1

lemma smallBoot_zero : bootSector (smallBoot 0).bytes =
    ⟨512, 0, 1, 1, 100, 1, 2, [0x46, 0x41, 0x54, 0x33, 0x32, 0x20, 0x20, 0x20]⟩ := by
  rfl

lemma smallBoot_one : bootSector (smallBoot 1).bytes =
    ⟨512, 1, 1, 1, 100, 1, 2, [0x46, 0x41, 0x54, 0x33, 0x32, 0x20, 0x20, 0x20]⟩ := by
  rfl

/-- A volume before `fat32_init`. -/
def unmounted (disk : Disk) : Volume := ⟨disk, kheapInit bare, bootSector [], 0, 0, 0, 0, false⟩

/-- The number that is sent for a sector of the table is its number on the disk. -/
lemma sector_number {first : UInt16} {i : Nat} (lt : i < 2 ^ 23) :
    (first.toUInt32 + UInt32.ofNat i) &&& 0x0FFFFFFF = UInt32.ofNat (first.toNat + i) := by
  have low : first.toUInt32.toNat = first.toNat := UInt16.toNat_toUInt32 _
  have small := first.toNat_lt
  apply UInt32.toNat_inj.mp
  have mask := toNat_and_mask (first.toUInt32 + UInt32.ofNat i) (k := 28) (by decide)
  change ((first.toUInt32 + UInt32.ofNat i) &&& 0x0FFFFFFF).toNat = _ at mask
  rw [mask, toNat_add_ofNat (by omega), toNat_ofNat_lt (by omega), low]
  omega

/-- With sectors of 512 bytes `fat32_init` leaves the sectors of the first table in `g_fat`, in order and each requested
    once. -/
theorem fat32Init_loads {boot : Sector} {b : BootSector} (fresh : v.gInitialized = false)
    (read : v.disk 0 = some boot) (decoded : bootSector boot.bytes = b) (sign : Signed b)
    (spc : 1 ≤ b.sectorsPerCluster.toNat) (sector : b.bytesPerSector = 512) (small : b.fatSize32.toNat * 512 < 2 ^ 32)
    (alloc : kmalloc v.heap (tableSize b) = some (r, h)) (ne : r ≠ 0)
    (reads : Readable v.disk b.reservedSectorCount.toUInt32 b.fatSize32.toNat) :
    ∃ v' passes last, fat32Init v = some (0, v') ∧ v'.gFat = r ∧
      -- the run of the loop, and what its passes request
      Trail (loadBody v.disk 512) ⟨h.mem, b.fatSize32, b.reservedSectorCount.toUInt32, r⟩ passes last ∧
      loadBody v.disk 512 last = .done (v'.heap.mem, true) ∧
      (∀ p ∈ passes, 0 < (chunk p).toNat ∧ (chunk p).toNat ≤ 255) ∧
      (passes.flatMap fun p => requests p.currentLba (chunk p).toNat).map UInt32.toNat =
        List.range' b.reservedSectorCount.toNat b.fatSize32.toNat ∧
      -- what it leaves in the table, and elsewhere
      (∀ i < b.fatSize32.toNat, ∃ found,
        v.disk (UInt32.ofNat (b.reservedSectorCount.toNat + i)) = some found ∧
        v'.heap.mem.loadBytes (r + UInt32.ofNat (512 * i)) 512 = found.bytes) ∧
      ∀ x : UInt32, 512 * b.fatSize32.toNat ≤ (x - r).toNat → v'.heap.mem x = h.mem x := by
  obtain ⟨passes, last, t, zero, run⟩ := fat32Load_trail alloc ne reads
  rw [sector] at t
  have nz : ¬ b.sectorsPerCluster = 0 := by
    intro eq
    rw [eq] at spc
    cases spc
  have init := fat32Init_signed fresh read (decoded ▸ sign)
  rw [decoded, if_neg nz, run] at init
  have low : b.reservedSectorCount.toUInt32.toNat = b.reservedSectorCount.toNat := UInt16.toNat_toUInt32 _
  have lt := b.reservedSectorCount.toNat_lt
  obtain ⟨-, asked⟩ := trail_requests t
  obtain ⟨-, stored⟩ := trail_read t (by dsimp only; omega)
  dsimp only at asked stored
  rw [zero, Nat.sub_zero] at asked stored
  have len := ataRead28Lba_length.2 reads
  have table : last.mem.loadBytes r (512 * b.fatSize32.toNat) =
      (ataRead28Lba v.disk b.reservedSectorCount.toUInt32 b.fatSize32.toNat).1 := by
    rw [stored, ← len]
    exact Memory.loadBytes_storeBytes (by omega)
  refine ⟨_, passes, last, init, rfl, t, loadBody_end (by omega), trail_chunk t, ?_, fun i hi => ?_, fun x out => ?_⟩
  · rw [asked, requests_toNat (by omega), low]
  · obtain ⟨found, at_, bytes⟩ := ataRead28Lba_sector reads hi
    refine ⟨found, ?_, ?_⟩
    · rw [← sector_number (by omega)]
      exact at_
    · rw [← table, Memory.loadBytes_slice] at bytes
      rw [← bytes, show min 512 (512 * b.fatSize32.toNat - 512 * i) = 512 by omega]
  · show last.mem x = h.mem x
    rw [stored]
    exact Memory.storeBytes_outside (by omega)

/-- A disk with a table of 300 sectors, in which each sector from the second on is filled with its number. -/
def numberedDisk : Disk := fun lba =>
  some (if lba = 0 then plainBoot 1 5000 300 else ⟨List.replicate 512 lba.toUInt8, List.length_replicate⟩)

lemma numberedDisk_boot : bootSector (plainBoot 1 5000 300).bytes =
    ⟨512, 1, 1, 1, 5000, 300, 2, [0x46, 0x41, 0x54, 0x33, 0x32, 0x20, 0x20, 0x20]⟩ := by
  rfl

/-- The 300 sectors are loaded in more than one chunk. -/
theorem fat32Init_loads_numbered : ∃ r h v' passes last, kmalloc (kheapInit bare) 153600 = some (r, h) ∧
    fat32Init (unmounted numberedDisk) = some (0, v') ∧
    Trail (loadBody numberedDisk 512) ⟨h.mem, 300, 1, r⟩ passes last ∧ 1 < passes.length ∧
    (passes.flatMap fun p => requests p.currentLba (chunk p).toNat).map UInt32.toNat = List.range' 1 300 ∧
    ∀ i < 300, v'.heap.mem.loadBytes (v'.gFat + UInt32.ofNat (512 * i)) 512 =
      List.replicate 512 (UInt32.ofNat (1 + i)).toUInt8 := by
  obtain ⟨h, alloc⟩ := kmalloc_first (s := bare) (n := 153600) rfl (by decide)
  obtain ⟨v', passes, last, run, table, t, -, counts, asked, loaded, -⟩ :=
    fat32Init_loads (v := unmounted numberedDisk) rfl rfl numberedDisk_boot (by decide) (by decide)
      rfl (by decide) alloc (by decide) (ataRead28Lba_total fun _ => Option.some_ne_none _)
  refine ⟨_, h, v', passes, last, alloc, run, t, ?_, asked, fun i lt => ?_⟩
  · have all := congrArg List.length asked
    rw [List.length_map, List.length_range', List.length_flatMap] at all
    cases passes with
    | nil => cases all
    | cons p passes =>
      cases passes with
      | nil =>
        have most := (counts p List.mem_cons_self).2
        rw [List.map_singleton, List.sum_singleton, requests_length] at all
        change (chunk p).toNat = 300 at all
        omega
      | cons p' passes => exact Nat.succ_lt_succ (Nat.succ_pos _)
  · obtain ⟨found, at_, bytes⟩ := loaded i lt
    have number : (UInt32.ofNat (1 + i)).toNat = 1 + i := toNat_ofNat_lt (by change i < 300 at lt; omega)
    have later : UInt32.ofNat (1 + i) ≠ 0 := by
      intro zero
      rw [zero] at number
      change 0 = 1 + i at number
      omega
    have content : numberedDisk (UInt32.ofNat (1 + i)) = some found := at_
    rw [numberedDisk, if_neg later] at content
    rw [table]
    rw [← Option.some.inj content] at bytes
    exact bytes

end RetaOS.Fat
