import RetaOS.Fat.Load

/-!
# Which volumes are safe to initialise

`fat32_init` takes six fields of the boot sector as they are. What a call may do on a disk is `InitSafe`: it returns,
every sector it stores lies inside of the block that it allocated for the table, whether it reports an error or not, and
when it reports none the volume is consistent. `fat32Init_safe_iff` is the exact condition, on a given disk and on every
disk with the boot sector. The sector `i` of the chunk `q` of the table goes to `255 * q * bytes_per_sector + 512 * i`,
so with small sectors the chunks overlap and the last one sticks out.
-/

namespace RetaOS.Fat
open Lib Kheap

variable {v v' : Volume} {disk : Disk} {lba r : UInt32} {bps : UInt16} {n k q i : Nat} {l : List Block} {h : Heap}
  {s s' : LoadFat} {passes : List LoadFat} {b : BootSector}

/-! ## Safety. -/

/-- The areas of the volume that a boot sector describes do not meet. -/
def AreaFits (b : BootSector) : Prop :=
  b.reservedSectorCount.toNat + b.numFats.toNat * b.fatSize32.toNat ≤ b.totalSectors32.toNat

instance (b : BootSector) : Decidable (AreaFits b) := inferInstanceAs (Decidable (_ ≤ _))

/-- What an initialisation on the heap `h` should leave: the boot sector makes sense, `g_fat` is a block of the exact
    size, and every sector is stored inside of it. -/
structure Consistent (h : Heap) (v : Volume) : Prop where
  area : AreaFits v.gBootSector
  product : (fatSize v).toNat = v.gBootSector.fatSize32.toNat * v.gBootSector.bytesPerSector.toNat
  buffer : ∃ h' l b, kmalloc h (fatSize v) = some (v.gFat, h') ∧ Valid h' l ∧ b ∈ l ∧ b.used = true ∧
    v.gFat.toNat = b.addr + 12 ∧ (fatSize v).toNat ≤ b.size
  stores : ∀ h' passes last, kmalloc h (fatSize v) = some (v.gFat, h') →
    Trail (loadBody v.disk v.gBootSector.bytesPerSector)
      ⟨h'.mem, v.gBootSector.fatSize32, v.gFatBeginLba, v.gFat⟩ passes last →
    ∀ p ∈ passes, ∀ a ∈ targets p.fatPtr (chunk p).toNat,
      v.gFat.toNat ≤ a.toNat ∧ a.toNat + 512 ≤ v.gFat.toNat + (fatSize v).toNat

/-- The variables of the loop at its start, with the table at `r`. -/
def loadStart (h : Heap) (b : BootSector) (r : UInt32) : LoadFat :=
  ⟨h.mem, b.fatSize32, b.reservedSectorCount.toUInt32, r⟩

/-- The space for the table at `r` is the front of a block in use. -/
def Buffer (h : Heap) (r size : UInt32) : Prop :=
  ∃ l, ∃ d ∈ l, Valid h l ∧ d.used = true ∧ r.toNat = d.addr + 12 ∧ size.toNat ≤ d.size

/-- Every sector that is read into the table at `r` is stored inside of its block. What a pass stores of its chunk are
    the sectors before the first that cannot be read. -/
def StoresInside (disk : Disk) (h : Heap) (b : BootSector) (r : UInt32) : Prop :=
  ∀ q s, Passes (loadBody disk b.bytesPerSector) (loadStart h b r) q s →
    ∀ i < (chunk s).toNat, Readable disk s.currentLba (i + 1) →
      Buffer h r (tableSize b) ∧ r.toNat ≤ (s.fatPtr + UInt32.ofNat (512 * i)).toNat ∧
        (s.fatPtr + UInt32.ofNat (512 * i)).toNat + 512 ≤ r.toNat + (tableSize b).toNat

/-- `fat32_init` returns, with every sector it stores inside of the buffer that it allocated, and with an error or
    consistent. A division by zero does not return. -/
structure InitSafe (v : Volume) : Prop where
  returns : ∃ ret v', fat32Init v = some (ret, v') ∧ (ret ≠ 0 ∨ Consistent v.heap v')
  stores : ∀ boot, v.disk 0 = some boot → ∀ r h, kmalloc v.heap (tableSize (bootSector boot.bytes)) = some (r, h) →
    r ≠ 0 → StoresInside v.disk h (bootSector boot.bytes) r

/-- The boot sectors of which a table that is loaded is sound. -/
structure Sound (b : BootSector) : Prop where
  area : AreaFits b
  product : b.fatSize32.toNat * b.bytesPerSector.toNat < 2 ^ 32
  backed : ¬ Wraps (tableSize b)
  wide : 0 < b.fatSize32.toNat → 512 ≤ b.bytesPerSector.toNat

/-- The boot sectors that are sound as far as a disk can be read: each sector of the table that is, the sector `i` of
    the chunk `q`, has its place in a table that is on the heap, and when all are the fields make sense. -/
structure SoundOn (disk : Disk) (b : BootSector) : Prop where
  places : ∀ q i, i < 255 → 255 * q + i < b.fatSize32.toNat →
    Readable disk b.reservedSectorCount.toUInt32 (255 * q + i + 1) →
      ¬ Wraps (tableSize b) ∧ 255 * q * b.bytesPerSector.toNat + 512 * i + 512 ≤ (tableSize b).toNat
  whole : Readable disk b.reservedSectorCount.toUInt32 b.fatSize32.toNat →
    AreaFits b ∧ b.fatSize32.toNat * b.bytesPerSector.toNat < 2 ^ 32

/-- No free block of the heap is large enough. -/
def NoRoom (l : List Block) (n : UInt32) : Prop := ¬ Wraps n ∧ ∀ c ∈ l, ¬ Fits (request n) c

/-! ## A sound boot sector. -/

lemma tableSize_toNat {b : BootSector} (small : b.fatSize32.toNat * b.bytesPerSector.toNat < 2 ^ 32) :
    (tableSize b).toNat = b.fatSize32.toNat * b.bytesPerSector.toNat := by
  rw [tableSize, UInt32.toNat_mul, UInt16.toNat_toUInt32, Nat.mod_eq_of_lt small]

/-- A chunk moves the pointer to the rest of the space. -/
lemma pastChunk_stop (disk : Disk) (bps : UInt16) (s : LoadFat)
    (fits : s.fatPtr.toNat + s.sectorsRemaining.toNat * bps.toNat < 2 ^ 32) :
    (pastChunk disk bps s).fatPtr.toNat = s.fatPtr.toNat + (chunk s).toNat * bps.toNat ∧
      (pastChunk disk bps s).fatPtr.toNat + (pastChunk disk bps s).sectorsRemaining.toNat * bps.toNat =
        s.fatPtr.toNat + s.sectorsRemaining.toNat * bps.toNat := by
  have count := chunk_toNat s
  have most : (chunk s).toNat * bps.toNat ≤ s.sectorsRemaining.toNat * bps.toNat :=
    Nat.mul_le_mul_right _ (by omega)
  have next := pastChunk_fatPtr disk bps s (by omega)
  refine ⟨next, ?_⟩
  rw [next, pastChunk_rest disk bps s, Nat.sub_mul]
  omega

/-- With sectors of 512 bytes or more every sector is stored inside of the space for all of them. -/
lemma trail_inside (t : Trail (loadBody disk bps) s passes s')
    (wide : 0 < s.sectorsRemaining.toNat → 512 ≤ bps.toNat)
    (fits : s.fatPtr.toNat + s.sectorsRemaining.toNat * bps.toNat < 2 ^ 32) :
    ∀ p ∈ passes, ∀ a ∈ targets p.fatPtr (chunk p).toNat,
      s.fatPtr.toNat ≤ a.toNat ∧ a.toNat + 512 ≤ s.fatPtr.toNat + s.sectorsRemaining.toNat * bps.toNat := by
  induction t with
  | nil => nofun
  | @cons s s₁ s' passes pass _ ih =>
    obtain ⟨more, -, rfl⟩ := loadBody_next pass
    have least : (chunk s).toNat * 512 ≤ (chunk s).toNat * bps.toNat := Nat.mul_le_mul_left _ (wide more)
    obtain ⟨next, stop⟩ := pastChunk_stop disk bps s (by omega)
    intro p mem a target
    cases mem with
    | head =>
      obtain ⟨i, lt, rfl⟩ := mem_targets.mp target
      rw [toNat_add_ofNat (by omega)]
      omega
    | tail _ mem =>
      have inside := ih (fun _ => wide more) (by omega) p mem a target
      omega

/-- Without a block for the table `fat32_init` returns an error. -/
lemma fat32Load_null {b : BootSector} (alloc : kmalloc v.heap (tableSize b) = some (0, h)) :
    ∃ v', fat32Load (located v b) = some (-1, v') := by
  have size : kmalloc (located v b).heap ((located v b).gBootSector.fatSize32 *
      (located v b).gBootSector.bytesPerSector.toUInt32) = some (0, h) := alloc
  rw [fat32Load]
  dsimp only
  rw [size]
  exact ⟨_, rfl⟩

/-- With a sound boot sector loading the table returns, with an error or consistent. -/
lemma Sound.load {b : BootSector} (sound : Sound b) (valid : Valid v.heap l) :
    ∃ ret v', fat32Load (located v b) = some (ret, v') ∧ (ret ≠ 0 ∨ Consistent v.heap v') := by
  have size := tableSize_toNat sound.product
  obtain ⟨r, h, l', alloc, valid', -, ⟨rfl, -⟩ | ⟨ne, allocated, -⟩⟩ := kmalloc_effect valid sound.backed
  · obtain ⟨v', run⟩ := fat32Load_null alloc
    exact ⟨-1, v', run, .inl (by decide)⟩
  · obtain ⟨d, used, addr, le, -, made⟩ := allocated
    have mem : d ∈ l' := (made d used).mpr (.inl rfl)
    obtain ⟨lo, hi⟩ := valid'.bounds mem
    rw [Block.limit] at hi
    obtain ⟨m, ok, loaded, kept⟩ := load_block v.disk b.reservedSectorCount.toUInt32 valid' mem addr (by omega)
      sound.wide
    rw [fat32Load]
    dsimp only
    rw [show kmalloc (located v b).heap ((located v b).gBootSector.fatSize32 *
      (located v b).gBootSector.bytesPerSector.toUInt32) = some (r, h) from alloc]
    dsimp only
    rw [if_neg ne, show loop (loadBody (located v b).disk (located v b).gBootSector.bytesPerSector)
      ⟨h.mem, (located v b).gBootSector.fatSize32, (located v b).gFatBeginLba, r⟩ = some (m, ok) from loaded]
    cases ok with
    | true =>
      refine ⟨0, _, rfl, .inr ⟨sound.area, size, ⟨h, l', d, alloc, valid', mem, used, addr, le⟩, ?_⟩⟩
      intro h' passes last again t p mem a target
      have fits : r.toNat + b.fatSize32.toNat * b.bytesPerSector.toNat < 2 ^ 32 := by omega
      show r.toNat ≤ a.toNat ∧ a.toNat + 512 ≤ r.toNat + (tableSize b).toNat
      rw [size]
      exact trail_inside t sound.wide fits p mem a target
    | false =>
      obtain ⟨h'', -, free, -⟩ := kfree_effect kept mem used addr
      dsimp only
      rw [free]
      exact ⟨-1, _, rfl, .inl (by decide)⟩

/-- On a disk that holds nothing but its boot sector the table can be read. -/
lemma readable_total (total : ∀ lba, disk lba ≠ none) : Readable disk lba n := ataRead28Lba_total total

/-! ## The chunks of a run. -/

lemma readable_le (reads : Readable disk lba n) (le : k ≤ n) : Readable disk lba k := by
  obtain ⟨d, rfl⟩ := Nat.exists_eq_add_of_le le
  exact (readable_add.mp reads).1

/-- What a read transfers are the sectors before the first that cannot be read. -/
lemma ataRead28Lba_prefix (disk : Disk) (lba : UInt32) (n : Nat) :
    ∃ k ≤ n, (ataRead28Lba disk lba n).1.length = 512 * k ∧ Readable disk lba k := by
  induction n generalizing lba with
  | zero => exact ⟨0, le_rfl, rfl, rfl⟩
  | succ n ih =>
    cases hs : disk (lba &&& 0x0FFFFFFF) with
    | none =>
      refine ⟨0, Nat.zero_le _, ?_, rfl⟩
      simp [ataRead28Lba, hs]
    | some sector =>
      obtain ⟨k, le, len, reads⟩ := ih (lba + 1)
      have size := sector.length
      refine ⟨k + 1, by omega, ?_, ?_⟩
      · simp only [ataRead28Lba, hs, List.length_append]
        omega
      · rw [Readable]
        simp only [ataRead28Lba, hs]
        exact reads

/-- A pass with sectors left begins a chunk behind full ones, which have all been read. -/
lemma passes_chunk (ps : Passes (loadBody disk bps) s q s') (more : 0 < s'.sectorsRemaining.toNat) :
    s.sectorsRemaining.toNat = 255 * q + s'.sectorsRemaining.toNat ∧ Readable disk s.currentLba (255 * q) ∧
      s'.currentLba = s.currentLba + UInt32.ofNat (255 * q) ∧
      s'.fatPtr = s.fatPtr + UInt32.ofNat (255 * q * bps.toNat) := by
  induction ps with
  | refl =>
    refine ⟨by omega, rfl, (UInt32.add_zero _).symm, ?_⟩
    rw [Nat.mul_zero, Nat.zero_mul]
    exact (UInt32.add_zero _).symm
  | @step q s₁ s' ps pass ih =>
    obtain ⟨left, reads, rfl⟩ := loadBody_next pass
    obtain ⟨count, before, lba, ptr⟩ := ih left
    have rest := pastChunk_rest disk bps s₁
    have size := chunk_toNat s₁
    have full : (chunk s₁).toNat = 255 := by omega
    have word := chunk_word s₁
    rw [full] at word reads
    refine ⟨by omega, ?_, ?_, ?_⟩
    · rw [Nat.mul_succ, readable_add, ← lba]
      exact ⟨before, reads⟩
    · show s₁.currentLba + (chunk s₁).toUInt32 = _
      rw [word, lba, Nat.mul_succ, UInt32.ofNat_add, UInt32.add_assoc]
    · show s₁.fatPtr + (chunk s₁).toUInt32 * bps.toUInt32 = _
      have factor : bps.toUInt32 = UInt32.ofNat bps.toNat := by
        apply UInt32.toNat_inj.mp
        have lt := bps.toNat_lt
        rw [UInt16.toNat_toUInt32, toNat_ofNat_lt (by omega)]
      rw [word, ptr, factor, ← UInt32.ofNat_mul, UInt32.add_assoc, ← UInt32.ofNat_add, Nat.mul_succ, Nat.add_mul]

/-- A chunk is reached when the sectors before it can be read. -/
lemma chunk_reached (reads : Readable disk s.currentLba (255 * q)) (more : 255 * q < s.sectorsRemaining.toNat) :
    ∃ s', Passes (loadBody disk bps) s q s' ∧ 0 < s'.sectorsRemaining.toNat := by
  induction q with
  | zero => exact ⟨s, .refl, by omega⟩
  | succ q ih =>
    rw [Nat.mul_succ, readable_add] at reads
    obtain ⟨s₁, ps, left⟩ := ih reads.1 (by omega)
    obtain ⟨count, -, lba, -⟩ := passes_chunk ps left
    have size := chunk_toNat s₁
    have full : (chunk s₁).toNat = 255 := by omega
    have ok : (readSectors disk s₁.currentLba (chunk s₁)).2 = true := by
      rw [readSectors, full, lba]
      exact reads.2
    have rest := pastChunk_rest disk bps s₁
    refine ⟨pastChunk disk bps s₁, .step ps ?_, by omega⟩
    rw [loadBody_pass left, if_pos ok]

/-- A sector of a chunk that can be read is one of the table that can be read, with those before it. -/
lemma passes_sector {start : LoadFat} (ps : Passes (loadBody disk bps) start q s) (lt : i < (chunk s).toNat)
    (reads : Readable disk s.currentLba (i + 1)) : i < 255 ∧ 255 * q + i < start.sectorsRemaining.toNat ∧
      Readable disk start.currentLba (255 * q + i + 1) ∧
      s.fatPtr + UInt32.ofNat (512 * i) = start.fatPtr + UInt32.ofNat (255 * q * bps.toNat + 512 * i) := by
  have size := chunk_toNat s
  obtain ⟨count, before, lba, ptr⟩ := passes_chunk ps (by omega)
  refine ⟨by omega, by omega, ?_, ?_⟩
  · rw [Nat.add_assoc, readable_add, ← lba]
    exact ⟨before, reads⟩
  · rw [ptr, UInt32.add_assoc, ← UInt32.ofNat_add]

/-- All sectors can be read when the loop gets to the end of the table. -/
lemma passes_readable (ps : Passes (loadBody disk bps) s q s') :
    s'.sectorsRemaining.toNat ≤ s.sectorsRemaining.toNat ∧
      Readable disk s.currentLba (s.sectorsRemaining.toNat - s'.sectorsRemaining.toNat) ∧
      s'.currentLba = s.currentLba + UInt32.ofNat (s.sectorsRemaining.toNat - s'.sectorsRemaining.toNat) := by
  induction ps with
  | refl =>
    rw [Nat.sub_self]
    exact ⟨le_rfl, rfl, (UInt32.add_zero _).symm⟩
  | @step q s₁ s' ps pass ih =>
    obtain ⟨left, reads, rfl⟩ := loadBody_next pass
    obtain ⟨le, before, lba⟩ := ih
    have rest := pastChunk_rest disk bps s₁
    have size := chunk_toNat s₁
    have split : s.sectorsRemaining.toNat - (pastChunk disk bps s₁).sectorsRemaining.toNat =
        s.sectorsRemaining.toNat - s₁.sectorsRemaining.toNat + (chunk s₁).toNat := by omega
    refine ⟨by omega, ?_, ?_⟩
    · rw [split, readable_add, ← lba]
      exact ⟨before, reads⟩
    · show s₁.currentLba + (chunk s₁).toUInt32 = _
      rw [split, UInt32.ofNat_add, ← UInt32.add_assoc, ← lba, chunk_word]

lemma load_readable {start : LoadFat} {m : Memory} (run : loop (loadBody disk bps) start = some (m, true)) :
    Readable disk start.currentLba start.sectorsRemaining.toNat := by
  obtain ⟨q, s, ps, exit⟩ := loop_exit run
  obtain ⟨-, reads, -⟩ := passes_readable ps
  by_cases more : 0 < s.sectorsRemaining.toNat
  · rw [loadBody_pass more] at exit
    split_ifs at exit
    cases exit
  · have none : s.sectorsRemaining.toNat = 0 := by omega
    rw [none] at reads
    exact reads

/-! ## Places and stores. -/

/-- On a disk on which the sectors that can be read have their places, they are stored inside of the table. -/
lemma SoundOn.storesInside (sound : SoundOn disk b) (buffer : Buffer h r (tableSize b)) :
    StoresInside disk h b r := by
  intro q s ps i lt reads
  obtain ⟨small, below, readable, place⟩ := passes_sector ps lt reads
  obtain ⟨-, room⟩ := sound.places q i small below readable
  obtain ⟨l, d, mem, valid, used, addr, le⟩ := id buffer
  obtain ⟨lo, hi⟩ := valid.bounds mem
  rw [Block.limit] at hi
  rw [place]
  have at_ : (r + UInt32.ofNat (255 * q * b.bytesPerSector.toNat + 512 * i)).toNat =
      r.toNat + (255 * q * b.bytesPerSector.toNat + 512 * i) := toNat_add_ofNat (by omega)
  refine ⟨buffer, ?_, ?_⟩
  · show r.toNat ≤ (r + _).toNat
    omega
  · show (r + _).toNat + 512 ≤ _
    omega

/-- The address of a request that wraps is not a block of the heap. -/
lemma Buffer.backed (valid : Valid v.heap l) (run : kmalloc v.heap (tableSize b) = some (r, h))
    (buffer : Buffer h r (tableSize b)) : ¬ Wraps (tableSize b) := by
  intro w
  obtain ⟨r', h', run', -, out⟩ := kmalloc_wild valid w
  cases run.symm.trans run'
  obtain ⟨l', d, mem, valid', -, addr, -⟩ := buffer
  obtain ⟨lo, hi⟩ := valid'.bounds mem
  rw [Block.limit] at hi
  refine out 0 ⟨?_, ?_⟩
  · change 0xC0000000 ≤ r.toNat
    omega
  · change r.toNat + 0 ≤ 0xC0000000 + 0x100000
    omega

/-- When every sector is stored inside of the table, those that can be read have their places: up to the first that
    does not, no address wraps. -/
lemma StoresInside.places (inside : StoresInside disk h b r) (backed : Buffer h r (tableSize b) → ¬ Wraps (tableSize b))
    (small : i < 255) (below : 255 * q + i < b.fatSize32.toNat)
    (reads : Readable disk b.reservedSectorCount.toUInt32 (255 * q + i + 1)) :
    ¬ Wraps (tableSize b) ∧ 255 * q * b.bytesPerSector.toNat + 512 * i + 512 ≤ (tableSize b).toNat := by
  generalize number : 255 * q + i = k at below reads
  induction k using Nat.strong_induction_on generalizing q i with
  | _ k ih =>
    subst number
    have whole := reads
    rw [Nat.add_assoc, readable_add] at reads
    have reached : ∃ s, Passes (loadBody disk b.bytesPerSector) (loadStart h b r) q s ∧ 0 < s.sectorsRemaining.toNat :=
      chunk_reached reads.1 (show 255 * q < b.fatSize32.toNat by omega)
    obtain ⟨s, ps, left⟩ := reached
    obtain ⟨count, -, lba, ptr⟩ := passes_chunk ps left
    have size := chunk_toNat s
    change b.fatSize32.toNat = _ at count
    obtain ⟨buffer, lo, hi⟩ := inside q s ps i (by omega) (by rw [lba]; exact reads.2)
    obtain ⟨l, d, mem, valid, used, addr, le⟩ := id buffer
    obtain ⟨bottom, top⟩ := valid.bounds mem
    rw [Block.limit] at top
    have jump := b.bytesPerSector.toNat_lt
    -- the sector before this one is in the table
    have near : 255 * q * b.bytesPerSector.toNat + 512 * i ≤ (tableSize b).toNat + 0x1000000 := by
      cases i with
      | succ i =>
        obtain ⟨-, before⟩ := ih (255 * q + i) (by omega) (q := q) (i := i) (by omega) rfl (by omega)
          (readable_le whole (by omega))
        rw [Nat.mul_succ, ← Nat.add_assoc]
        exact before.trans (Nat.le_add_right _ _)
      | zero =>
        cases q with
        | zero => omega
        | succ q =>
          obtain ⟨-, before⟩ := ih (255 * q + 254) (by omega) (q := q) (i := 254) (by omega) rfl (by omega)
            (readable_le whole (by omega))
          rw [Nat.mul_succ, Nat.add_mul]
          omega
    have at_ : (r + UInt32.ofNat (255 * q * b.bytesPerSector.toNat + 512 * i)).toNat =
        r.toNat + (255 * q * b.bytesPerSector.toNat + 512 * i) := toNat_add_ofNat (by omega)
    have same : s.fatPtr + UInt32.ofNat (512 * i) =
        r + UInt32.ofNat (255 * q * b.bytesPerSector.toNat + 512 * i) := by
      rw [ptr, UInt32.add_assoc, ← UInt32.ofNat_add]
      rfl
    rw [same, at_] at hi
    exact ⟨backed buffer, by omega⟩

/-! ## The load. -/

/-- A heap that grows ends where it did, or below the limit. -/
lemma growHeap_end {s : Heap} (valid : Valid s l) (prev size : UInt32) :
    (growHeap s prev size).2.kheapEnd ≤ s.kheapEnd := by
  have limit := valid.limit
  have max := valid.max
  by_cases full : s.kheapEnd + alignUp (size + sizeofBlock) KHEAP_ALIGN > s.kheapMax
  · rw [growHeap, if_pos full]
    exact UInt32.le_refl _
  · rw [growHeap, if_neg full]
    have below := UInt32.le_iff_toNat_le.mp (UInt32.not_lt.mp full)
    have less : s.kheapEnd + alignUp (size + sizeofBlock) KHEAP_ALIGN ≤ s.kheapEnd := by
      rw [UInt32.le_iff_toNat_le]
      omega
    by_cases first : prev = 0
    all_goals
      simp only [first, ↓reduceIte]
      exact less

/-- The end of the heap stays where it is, or moves back to the limit that it was checked against. -/
lemma kmalloc_end {s : Heap} (valid : Valid s l) {size : UInt32} (run : kmalloc s size = some (r, h)) :
    h.kheapEnd ≤ s.kheapEnd := by
  have init := kheapInit_of_inited valid.inited
  simp only [kmalloc, init] at run
  generalize loop (searchBody s.mem _) _ = found at run
  cases found with
  | none => cases run
  | some found =>
    cases found with
    | fit block =>
      obtain ⟨-, rfl⟩ := Prod.mk.inj (Option.some.inj run)
      exact UInt32.le_refl _
    | exhausted prev =>
      obtain rfl : (growHeap s prev _).2 = h := congrArg Prod.snd (Option.some.inj run)
      exact growHeap_end valid prev _

/-- `kfree` leaves what lies behind `kheap_end` alone, as the address of a request that wraps does. -/
lemma kfree_wild {s : Heap} {m : Memory} (valid : Valid s l) {size : UInt32} (w : Wraps size)
    (run : kmalloc s size = some (r, h)) : kfree { h with mem := m } r = some { h with mem := m } := by
  obtain ⟨h', run'⟩ := kmalloc_wraps valid w
  cases run.symm.trans run'
  have init := kheapInit_of_inited valid.inited
  have limit := valid.limit
  have addr : (s.kheapEnd + sizeofBlock).toNat = 0xC010000C := by
    rw [UInt32.toNat_add, limit]
    rfl
  have le := UInt32.le_iff_toNat_le.mp (kmalloc_end valid run)
  have behind : s.kheapEnd + sizeofBlock ≥ h.kheapEnd := by
    rw [ge_iff_le, UInt32.le_iff_toNat_le]
    omega
  exact if_pos (.inr (.inr behind))

/-- When every sector is stored inside of the table, a pass stores nothing outside of it. -/
lemma StoresInside.pass {d : Block} {q : Nat} {s : LoadFat} (inside : StoresInside disk h b r)
    (addr : r.toNat = d.addr + 12) (le : (tableSize b).toNat ≤ d.size) (hi : d.addr + 12 + d.size ≤ 0xC0100000)
    (ps : Passes (loadBody disk b.bytesPerSector) (loadStart h b r) q s) {x : UInt32}
    (out : x.toNat < d.addr + 12 ∨ d.addr + 12 + d.size ≤ x.toNat) :
    s.mem.storeBytes s.fatPtr (readSectors disk s.currentLba (chunk s)).1 x = s.mem x := by
  obtain ⟨k, most, len, reads⟩ := ataRead28Lba_prefix disk s.currentLba (chunk s).toNat
  cases k with
  | zero =>
    have nil : (readSectors disk s.currentLba (chunk s)).1 = [] := List.length_eq_zero_iff.mp len
    rw [nil]
    rfl
  | succ k =>
    have few := chunk_toNat s
    obtain ⟨-, first, top⟩ := inside q s ps 0 (by omega) (readable_le reads (by omega))
    obtain ⟨-, -, last⟩ := inside q s ps k (by omega) reads
    rw [show s.fatPtr + UInt32.ofNat (512 * 0) = s.fatPtr from UInt32.add_zero _] at first top
    rw [toNat_add_ofNat (by omega)] at last
    change (ataRead28Lba disk s.currentLba (chunk s).toNat).1.length = _ at len
    have end_ : s.fatPtr.toNat + (ataRead28Lba disk s.currentLba (chunk s).toNat).1.length ≤ d.addr + 12 + d.size := by
      omega
    exact storeBytes_within (m := s.mem) (show d.addr + 12 ≤ s.fatPtr.toNat by omega) end_ (by omega) out

/-- When every sector is stored inside of the table, the loop leaves the heap valid. -/
lemma StoresInside.load {d : Block} (inside : StoresInside disk h b r) (valid : Valid h l) (mem : d ∈ l)
    (addr : r.toNat = d.addr + 12) (le : (tableSize b).toNat ≤ d.size) :
    ∃ m ok, loop (loadBody disk b.bytesPerSector) (loadStart h b r) = some (m, ok) ∧ Valid { h with mem := m } l := by
  obtain ⟨lo, hi⟩ := valid.bounds mem
  rw [Block.limit] at hi
  let Outside (m : Memory) : Prop :=
    ∀ x : UInt32, x.toNat < d.addr + 12 ∨ d.addr + 12 + d.size ≤ x.toNat → m x = h.mem x
  have stores {q : Nat} {s : LoadFat} (ps : Passes (loadBody disk b.bytesPerSector) (loadStart h b r) q s)
      (frame : Outside s.mem) :
      Outside (s.mem.storeBytes s.fatPtr (readSectors disk s.currentLba (chunk s)).1) :=
    fun x out => (inside.pass addr le hi ps out).trans (frame x out)
  have ends : ∃ x, loop (loadBody disk b.bytesPerSector) (loadStart h b r) = some x ∧ Outside x.1 := by
    apply loop_variant
      (I := fun s => (∃ q, Passes (loadBody disk b.bytesPerSector) (loadStart h b r) q s) ∧ Outside s.mem)
      fun s => s.sectorsRemaining.toNat
    · intro s s' inv pass
      obtain ⟨⟨q, ps⟩, frame⟩ := inv
      obtain ⟨more, -, rfl⟩ := loadBody_next pass
      have rest := pastChunk_rest disk b.bytesPerSector s
      have size := chunk_toNat s
      exact ⟨⟨⟨q + 1, .step ps pass⟩, stores ps frame⟩, by omega⟩
    · intro s x inv exit
      obtain ⟨⟨q, ps⟩, frame⟩ := inv
      by_cases more : 0 < s.sectorsRemaining.toNat
      · rw [loadBody_pass more] at exit
        split_ifs at exit
        cases exit
        exact stores ps frame
      · rw [loadBody_end more] at exit
        cases exit
        exact frame
    · exact ⟨⟨0, .refl⟩, fun _ _ => rfl⟩
  obtain ⟨⟨m, ok⟩, run, frame⟩ := ends
  exact ⟨m, ok, run, valid.of_outside mem fun x out => frame x out⟩

/-! ## The condition. -/

/-- A sound boot sector is sound on every disk. -/
lemma Sound.on (sound : Sound b) (disk : Disk) : SoundOn disk b := by
  refine ⟨fun q i small below _ => ⟨sound.backed, ?_⟩, fun _ => ⟨sound.area, sound.product⟩⟩
  have wide := sound.wide (by omega)
  have sectors : 512 * (i + 1) ≤ (i + 1) * b.bytesPerSector.toNat := by
    rw [Nat.mul_comm]
    exact Nat.mul_le_mul_left _ wide
  have all : (255 * q + (i + 1)) * b.bytesPerSector.toNat ≤ b.fatSize32.toNat * b.bytesPerSector.toNat :=
    Nat.mul_le_mul_right _ (by omega)
  rw [Nat.add_mul] at all
  rw [tableSize_toNat sound.product]
  omega

/-- The last sector of a table that can be read says that the sectors are large enough. -/
lemma SoundOn.sound (on : SoundOn disk b) (reads : Readable disk b.reservedSectorCount.toUInt32 b.fatSize32.toNat) :
    Sound b := by
  obtain ⟨area, product⟩ := on.whole reads
  have size := tableSize_toNat product
  have last (more : 0 < b.fatSize32.toNat) := on.places ((b.fatSize32.toNat - 1) / 255) ((b.fatSize32.toNat - 1) % 255)
    (by omega) (by omega) (readable_le reads (by omega))
  refine ⟨area, product, fun w => ?_, fun more => ?_⟩
  · by_cases more : 0 < b.fatSize32.toNat
    · exact (last more).1 w
    · have zero : b.fatSize32.toNat = 0 := by omega
      rw [zero, Nat.zero_mul] at size
      have lo := w.1
      omega
  · obtain ⟨-, room⟩ := last more
    generalize hq : (b.fatSize32.toNat - 1) / 255 = q at room
    generalize hi : (b.fatSize32.toNat - 1) % 255 = i at room
    have split : b.fatSize32.toNat = 255 * q + (i + 1) := by omega
    rw [size, split, Nat.add_mul] at room
    have sectors : (i + 1) * 512 ≤ (i + 1) * b.bytesPerSector.toNat := by omega
    exact Nat.le_of_mul_le_mul_left sectors (Nat.succ_pos i)

/-- A load that is broken off returns when its table is freed. -/
lemma fat32Load_failed {m : Memory} {h' : Heap} (alloc : kmalloc v.heap (tableSize b) = some (r, h)) (ne : r ≠ 0)
    (run : loop (loadBody v.disk b.bytesPerSector) (loadStart h b r) = some (m, false))
    (free : kfree { h with mem := m } r = some h') : ∃ v', fat32Load (located v b) = some (-1, v') := by
  have size : kmalloc (located v b).heap ((located v b).gBootSector.fatSize32 *
      (located v b).gBootSector.bytesPerSector.toUInt32) = some (r, h) := alloc
  have broken : loop (loadBody (located v b).disk (located v b).gBootSector.bytesPerSector)
      ⟨h.mem, (located v b).gBootSector.fatSize32, (located v b).gFatBeginLba, r⟩ = some (m, false) := run
  rw [fat32Load]
  dsimp only
  rw [size]
  dsimp only
  rw [if_neg ne, broken]
  dsimp only
  rw [free]
  exact ⟨_, rfl⟩

/-- At the address of a request that wraps, a sound boot sector lets no sector be stored. -/
lemma SoundOn.wild (on : SoundOn v.disk b) (valid : Valid v.heap l) (w : Wraps (tableSize b))
    (alloc : kmalloc v.heap (tableSize b) = some (r, h)) (ne : r ≠ 0) :
    StoresInside v.disk h b r ∧ ∃ v', fat32Load (located v b) = some (-1, v') := by
  refine ⟨fun q s ps i lt reads => ?_, ?_⟩
  · obtain ⟨small, below, readable, -⟩ := passes_sector ps lt reads
    exact absurd w (on.places q i small below readable).1
  · have more : 0 < b.fatSize32.toNat := by
      by_contra none
      have zero : b.fatSize32 = 0 := UInt32.toNat_inj.mp (Nat.eq_zero_of_not_pos none)
      have size : tableSize b = 0 := by rw [tableSize, zero, UInt32.zero_mul]
      rw [size] at w
      exact absurd w (by decide)
    have count := chunk_toNat (loadStart h b r)
    change (chunk (loadStart h b r)).toNat = min 255 b.fatSize32.toNat at count
    have unread : ¬ (readSectors v.disk (loadStart h b r).currentLba (chunk (loadStart h b r))).2 = true := by
      intro reads
      have first : Readable v.disk b.reservedSectorCount.toUInt32 (255 * 0 + 0 + 1) :=
        readable_le (show Readable v.disk _ (chunk (loadStart h b r)).toNat from reads) (by omega)
      exact absurd w (on.places 0 0 (by decide) (by omega) first).1
    have pass : loadBody v.disk b.bytesPerSector (loadStart h b r) = _ :=
      loadBody_pass (show 0 < (loadStart h b r).sectorsRemaining.toNat from more)
    rw [if_neg unread] at pass
    exact fat32Load_failed alloc ne (loop_done pass) (kfree_wild valid w alloc)

/-- With a boot sector that is sound on the disk, loading the table returns with an error or consistent, and stores
    inside of it. -/
lemma SoundOn.load (on : SoundOn v.disk b) (valid : Valid v.heap l) :
    (∃ ret v', fat32Load (located v b) = some (ret, v') ∧ (ret ≠ 0 ∨ Consistent v.heap v')) ∧
      ∀ r h, kmalloc v.heap (tableSize b) = some (r, h) → r ≠ 0 → StoresInside v.disk h b r := by
  by_cases w : Wraps (tableSize b)
  · obtain ⟨r, h, alloc, ne, -⟩ := kmalloc_wild valid w
    obtain ⟨inside, v', run⟩ := on.wild valid w alloc ne
    refine ⟨⟨-1, v', run, .inl (by decide)⟩, fun r' h' alloc' _ => ?_⟩
    cases alloc.symm.trans alloc'
    exact inside
  · obtain ⟨r, h, l', alloc, valid', -, ⟨rfl, -⟩ | ⟨ne, allocated, -⟩⟩ := kmalloc_effect valid w
    · obtain ⟨v', run⟩ := fat32Load_null alloc
      refine ⟨⟨-1, v', run, .inl (by decide)⟩, fun r' h' alloc' ne => ?_⟩
      cases alloc.symm.trans alloc'
      exact absurd rfl ne
    · obtain ⟨d, used, addr, le, -, made⟩ := allocated
      have mem : d ∈ l' := (made d used).mpr (.inl rfl)
      have inside := on.storesInside ⟨l', d, mem, valid', used, addr, le⟩
      refine ⟨?_, fun r' h' alloc' _ => ?_⟩
      · obtain ⟨m, ok, loaded, kept⟩ := inside.load valid' mem addr le
        cases ok with
        | true => exact (on.sound (load_readable loaded)).load valid
        | false =>
          obtain ⟨h'', -, free, -⟩ := kfree_effect kept mem used addr
          obtain ⟨v', run⟩ := fat32Load_failed alloc ne loaded free
          exact ⟨-1, v', run, .inl (by decide)⟩
      · cases alloc.symm.trans alloc'
        exact inside

/-- When a safe initialisation gets a table, the boot sector is sound on the disk. -/
lemma soundOn_of_stores (valid : Valid v.heap l) (alloc : kmalloc v.heap (tableSize b) = some (r, h)) (ne : r ≠ 0)
    (inside : StoresInside v.disk h b r)
    (outcome : ∃ ret v', fat32Load (located v b) = some (ret, v') ∧ (ret ≠ 0 ∨ Consistent v.heap v')) :
    SoundOn v.disk b := by
  refine ⟨fun q i small below reads => inside.places (fun buffer => buffer.backed valid alloc) small below reads,
    fun reads => ?_⟩
  obtain ⟨passes, last, -, -, run⟩ := fat32Load_trail alloc ne reads
  obtain ⟨ret, v', run', outcome⟩ := outcome
  cases run.symm.trans run'
  have consistent := outcome.resolve_left (fun ne => ne rfl)
  have size : (tableSize b).toNat = b.fatSize32.toNat * b.bytesPerSector.toNat := consistent.product
  have lt := (tableSize b).toNat_lt
  exact ⟨consistent.area, by omega⟩

/-- Whether an initialisation on a disk is safe. -/
lemma initSafe_iff {boot : Sector} (fresh : v.gInitialized = false) (valid : Valid v.heap l)
    (read : v.disk 0 = some boot) (sign : Signed (bootSector boot.bytes)) :
    InitSafe v ↔ (bootSector boot.bytes).sectorsPerCluster ≠ 0 ∧
      (NoRoom l (tableSize (bootSector boot.bytes)) ∨ SoundOn v.disk (bootSector boot.bytes)) := by
  have init := fat32Init_signed fresh read sign
  constructor
  · intro safe
    obtain ⟨ret, v', run, outcome⟩ := safe.returns
    have stores := safe.stores boot read
    rw [init] at run
    by_cases zero : (bootSector boot.bytes).sectorsPerCluster = 0
    · rw [if_pos zero] at run
      cases run
    · rw [if_neg zero] at run
      refine ⟨zero, ?_⟩
      by_cases w : Wraps (tableSize (bootSector boot.bytes))
      · obtain ⟨r, h, alloc, ne, -⟩ := kmalloc_wild valid w
        exact .inr (soundOn_of_stores valid alloc ne (stores r h alloc ne) ⟨ret, v', run, outcome⟩)
      · obtain ⟨r, h, l', alloc, -, -, ⟨-, -, -, none⟩ | ⟨ne, -⟩⟩ := kmalloc_effect valid w
        · exact .inl ⟨w, none⟩
        · exact .inr (soundOn_of_stores valid alloc ne (stores r h alloc ne) ⟨ret, v', run, outcome⟩)
  · rintro ⟨spc, room⟩
    rw [if_neg spc] at init
    have boot_eq {boot' : Sector} (read' : v.disk 0 = some boot') : boot' = boot :=
      Option.some.inj (read'.symm.trans read)
    rcases room with ⟨w, none⟩ | on
    · obtain ⟨r, h, l', alloc, -, -, ⟨rfl, -⟩ | ⟨-, -, c, mem, fit⟩⟩ := kmalloc_effect valid w
      · obtain ⟨v', load⟩ := fat32Load_null alloc
        refine ⟨⟨-1, v', init.trans load, .inl (by decide)⟩, fun boot' read' r h alloc' ne => ?_⟩
        cases boot_eq read'
        cases alloc.symm.trans alloc'
        exact absurd rfl ne
      · exact absurd fit (none c mem)
    · obtain ⟨⟨ret, v', load, outcome⟩, stores⟩ := on.load valid
      refine ⟨⟨ret, v', init.trans load, outcome⟩, fun boot' read' => ?_⟩
      cases boot_eq read'
      exact stores

/-- `fat32_init` is safe on a disk exactly when there is a cluster size, and either no room for the table or a boot
    sector that is sound on the disk; and on every disk with the boot sector when it is sound. -/
theorem fat32Init_safe_iff {boot : Sector} {b : BootSector} (fresh : v.gInitialized = false) (valid : Valid v.heap l)
    (decoded : bootSector boot.bytes = b) (sign : Signed b) :
    (v.disk 0 = some boot →
      (InitSafe v ↔ b.sectorsPerCluster ≠ 0 ∧ (NoRoom l (tableSize b) ∨ SoundOn v.disk b))) ∧
    ((∀ disk : Disk, disk 0 = some boot → InitSafe { v with disk }) ↔
      b.sectorsPerCluster ≠ 0 ∧ (NoRoom l (tableSize b) ∨ Sound b)) := by
  subst decoded
  refine ⟨fun read => initSafe_iff fresh valid read sign, fun safe => ?_, fun sound disk read => ?_⟩
  · -- a disk on which every sector can be read
    obtain ⟨spc, room⟩ := (initSafe_iff (v := { v with disk := fun _ => some boot }) fresh valid rfl sign).mp
      (safe _ rfl)
    exact ⟨spc, room.imp_right fun on => on.sound (readable_total fun _ => by simp)⟩
  · exact (initSafe_iff (v := { v with disk }) fresh valid read sign).mpr
      ⟨sound.1, sound.2.imp_right fun sound => sound.on disk⟩

theorem fat32Init_safe_small : (bootSector (smallBoot 1).bytes).sectorsPerCluster ≠ 0 ∧
    ∀ disk : Disk, disk 0 = some (smallBoot 1) → InitSafe (unmounted disk) := by
  have valid : Valid (kheapInit bare) [initialBlock] := kheapInit_valid rfl
  constructor
  · rw [smallBoot_one]
    decide
  · refine (fat32Init_safe_iff (v := unmounted fun _ => none) rfl valid smallBoot_one (by decide)).2.mpr ?_
    exact ⟨by decide, .inr ⟨by decide, by decide, by decide, by decide⟩⟩

/-- A boot sector without a cluster size divides by zero. -/
theorem fat32Init_unsafe : ∃ disk boot, disk 0 = some boot ∧ Signed (bootSector boot.bytes) ∧
    fat32Init (unmounted disk) = none ∧ ¬ InitSafe (unmounted disk) := by
  have sign : Signed (bootSector (smallBoot 0).bytes) := by
    rw [smallBoot_zero]
    decide
  have run : fat32Init (unmounted fun _ => some (smallBoot 0)) = none := by
    rw [fat32Init_signed rfl rfl sign, smallBoot_zero]
    rfl
  refine ⟨_, smallBoot 0, rfl, sign, run, ?_⟩
  rintro ⟨⟨ret, v', returns, -⟩, -⟩
  cases run.symm.trans returns

end RetaOS.Fat
