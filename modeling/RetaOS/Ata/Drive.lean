import RetaOS.Initrd.FromBlock
import RetaOS.Fat.Defs

/-!
# The ATA driver

`drivers/ata/ata.c` on a drive that answers READ SECTORS with the sector whose 28-bit number is in its registers, behind
the block layer of `kernel/block.c`. What the drive reports while it is polled is arbitrary, so that any command may
fail.

The number of a sector goes into four registers, without the upper four of its 32 bits, and no function looks at the
number of sectors of the device. A request that ends behind the device, or behind the last 28-bit number, returns the
sectors that the drive takes it for (`blkReadByname_exact_iff`).
-/

namespace RetaOS.Ata
open Lib Initrd Fat

/-! ## The drive. -/

def ATA_SR_BSY : UInt8 := 0x80
def ATA_SR_DF : UInt8 := 0x20
def ATA_SR_DRQ : UInt8 := 0x08
def ATA_SR_ERR : UInt8 := 0x01

/-- The registers that take the number of a sector. -/
structure Registers where
  hddevsel : UInt8
  lba0 : UInt8
  lba1 : UInt8
  lba2 : UInt8

/-- The 28-bit number of a sector, as the drive takes it from its registers. -/
def Registers.lba28 (r : Registers) : Nat :=
  r.hddevsel.toNat % 16 * 2 ^ 24 + r.lba2.toNat * 2 ^ 16 + r.lba1.toNat * 2 ^ 8 + r.lba0.toNat

/-- A drive: its sectors, the words that IDENTIFY transfers, and what the reads of the status register give, behind
    IDENTIFY and behind the `n`-th READ SECTORS of a call. -/
structure Drive where
  sector : Nat → Sector
  identify : Nat → UInt16
  identifyStatus : Nat → UInt8
  status : Nat → Nat → UInt8

/-! ## The driver. -/

/-- `ata_poll` from its pass number `i` on: the result, and the number of the next read of the status register. -/
def pollFrom (checkDrq : Bool) (status : Nat → UInt8) : Nat → Nat → Int × Nat
  | 0, i => (-3, i)
  | k + 1, i =>
    let st := status i
    if st &&& ATA_SR_BSY = 0 then
      if checkDrq then
        if st &&& ATA_SR_ERR ≠ 0 then (-1, i + 1)
        else if st &&& ATA_SR_DF ≠ 0 then (-2, i + 1)
        else if st &&& ATA_SR_DRQ ≠ 0 then (0, i + 1)
        else pollFrom checkDrq status k (i + 1)
      else (0, i + 1)
    else pollFrom checkDrq status k (i + 1)

/-- `ata_poll`. -/
def ataPoll (checkDrq : Bool) (status : Nat → UInt8) : Int × Nat := pollFrom checkDrq status 100000 0

/-- One pass of the loop of `ata_identify_drive` that waits for the data. -/
def identifyPass (status : Nat → UInt8) (i : Nat) : Pass Nat Int :=
  let st := status i
  if st &&& ATA_SR_ERR ≠ 0 then .done (-3)
  else if st &&& ATA_SR_DF ≠ 0 then .done (-4)
  else if st &&& ATA_SR_DRQ ≠ 0 then .done 0
  else .next (i + 1)

/-- `ata_identify_drive`, from the command on; `none` when it waits for ever. -/
def ataIdentifyDrive (d : Drive) : Option Int :=
  let (rc, i) := ataPoll false d.identifyStatus
  if rc < 0 then some (-1)
  else if d.identifyStatus i = 0 then some (-2)
  else loop (identifyPass d.identifyStatus) (i + 1)

/-- What `ata_read28_lba` writes to the registers. -/
def selectSector (l : UInt32) : Registers where
  hddevsel := ((0xE0 : UInt32) ||| ((l >>> 24) &&& 0x0F)).toUInt8
  lba0 := (l &&& 0xFF).toUInt8
  lba1 := ((l >>> 8) &&& 0xFF).toUInt8
  lba2 := ((l >>> 16) &&& 0xFF).toUInt8

/-- The loop of `ata_read28_lba` with `k` sectors to go, from the sector number `n` of the request on: the bytes
    transferred, and the result. -/
def readFrom (d : Drive) (lba : UInt32) : Nat → Nat → List UInt8 × Int
  | 0, _ => ([], 0)
  | k + 1, n =>
    let l := lba + UInt32.ofNat n
    let rc := (ataPoll true (d.status n)).1
    if rc < 0 then ([], rc)
    else
      let (bytes, rc) := readFrom d lba k (n + 1)
      ((d.sector (selectSector l).lba28).bytes ++ bytes, rc)

/-- `ata_read28_lba`. -/
def ataRead28Lba (d : Drive) (lba count : UInt32) : List UInt8 × Int := readFrom d lba count.toNat 0

/-- No more is transferred than was asked for. -/
lemma readFrom_short (d : Drive) (lba : UInt32) (k n : Nat) : (readFrom d lba k n).1.length ≤ 512 * k := by
  induction k generalizing n with
  | zero => exact Nat.le_refl 0
  | succ k ih =>
    have rest := ih (n + 1)
    have sector := (d.sector (selectSector (lba + UInt32.ofNat n)).lba28).length
    rw [readFrom]
    dsimp only
    split_ifs
    · exact Nat.zero_le _
    · rw [List.length_append, sector]
      omega

/-- A `block_dev_t` with its field `sectors`. -/
structure Device extends BlockDev where
  sectors : UInt32

def MAX_BLK_DEVS : Nat := 8

/-- `blk_register`. -/
def blkRegister (gBlkDevs : List Device) (dev : Device) : List Device :=
  if gBlkDevs.length ≥ MAX_BLK_DEVS then gBlkDevs else gBlkDevs ++ [dev]

/-- `"hda"`. -/
def HDA : List UInt8 := [0x68, 0x64, 0x61]

/-- `g_hda`, as `ata_init` fills it in. -/
def gHda (d : Drive) : Device where
  name := HDA
  sectors := ((d.identify 61).toUInt32 <<< 16) ||| (d.identify 60).toUInt32
  read := ataRead28Lba d
  short := fun lba count => readFrom_short d lba count.toNat 0

/-- `ata_init`. -/
def ataInit (d : Drive) (gBlkDevs : List Device) : Option (List Device) :=
  match ataIdentifyDrive d with
  | none => none
  | some rc => if rc = 0 then some (blkRegister gBlkDevs (gHda d)) else some gBlkDevs

variable {d : Drive} {lba l count buf : UInt32} {st : Nat → UInt8} {k n i : Nat}

/-! ## One sector. -/

/-- A byte of a word, shifted down. -/
lemma toUInt8_mask (l : UInt32) : (l &&& 0xFF).toUInt8.toNat = l.toNat % 256 := by
  have mask := toNat_and_mask l (k := 8) (by decide)
  change (l &&& 0xFF).toNat = l.toNat % 256 at mask
  rw [UInt32.toNat_toUInt8, mask, Nat.mod_mod]

/-- The drive gets the low 28 bits. -/
lemma lba28_selectSector (l : UInt32) : (selectSector l).lba28 = l.toNat % 2 ^ 28 := by
  have top : ((0xE0 : UInt32) ||| ((l >>> 24) &&& 0x0F)).toUInt8.toNat % 16 = l.toNat / 2 ^ 24 % 16 := by
    have mask := toNat_and_mask (l >>> 24) (k := 4) (by decide)
    change ((l >>> 24) &&& 0x0F).toNat = (l >>> 24).toNat % 16 at mask
    have or := Nat.or_mod_two_pow (a := 0xE0) (b := (l >>> 24).toNat % 16) (n := 4)
    rw [UInt32.toNat_toUInt8, UInt32.toNat_or, mask]
    change (0xE0 ||| (l >>> 24).toNat % 16) % 2 ^ 8 % 2 ^ 4 = _
    rw [Nat.mod_mod_of_dvd _ (by decide), or]
    change 0 ||| _ = _
    rw [Nat.zero_or, UInt32.toNat_shiftRight, Nat.shiftRight_eq_div_pow]
    exact Nat.mod_mod _ _
  have high : ((l >>> 16) &&& 0xFF).toUInt8.toNat = l.toNat / 2 ^ 16 % 256 := by
    rw [toUInt8_mask, UInt32.toNat_shiftRight, Nat.shiftRight_eq_div_pow]
    rfl
  have mid : ((l >>> 8) &&& 0xFF).toUInt8.toNat = l.toNat / 2 ^ 8 % 256 := by
    rw [toUInt8_mask, UInt32.toNat_shiftRight, Nat.shiftRight_eq_div_pow]
    rfl
  have low := toUInt8_mask l
  rw [Registers.lba28, selectSector]
  dsimp only
  omega

/-! ## Polling. -/

/-- A status that `ata_poll` reads over. -/
def Waits (st : UInt8) : Prop :=
  st &&& ATA_SR_BSY ≠ 0 ∨ st &&& ATA_SR_ERR = 0 ∧ st &&& ATA_SR_DF = 0 ∧ st &&& ATA_SR_DRQ = 0

/-- The status of a drive with its data ready. -/
def HasData (st : UInt8) : Prop :=
  st &&& ATA_SR_BSY = 0 ∧ st &&& ATA_SR_ERR = 0 ∧ st &&& ATA_SR_DF = 0 ∧ st &&& ATA_SR_DRQ ≠ 0

/-- The drive has its data before the passes run out, and reports no error. -/
inductive Answers (status : Nat → UInt8) : Nat → Nat → Prop where
  | data {k i : Nat} :
    HasData (status i) →
    Answers status (k + 1) i
  | wait {k i : Nat} :
    Waits (status i) →
    Answers status k (i + 1) →
    Answers status (k + 1) i

/-- A pass of `ata_poll`. -/
lemma pollFrom_succ (status : Nat → UInt8) (k i : Nat) :
    Waits (status i) ∧ pollFrom true status (k + 1) i = pollFrom true status k (i + 1) ∨
      HasData (status i) ∧ (pollFrom true status (k + 1) i).1 = 0 ∨
      ¬ Waits (status i) ∧ ¬ HasData (status i) ∧ (pollFrom true status (k + 1) i).1 < 0 := by
  rw [pollFrom, Waits, HasData, if_pos rfl]
  by_cases busy : status i &&& ATA_SR_BSY = 0
  · rw [if_pos busy]
    split_ifs with err fault drq
    · exact .inr (.inr ⟨by tauto, by tauto, show (-1 : Int) < 0 by decide⟩)
    · exact .inr (.inr ⟨by tauto, by tauto, show (-2 : Int) < 0 by decide⟩)
    · exact .inr (.inl ⟨by tauto, rfl⟩)
    · exact .inl ⟨by tauto, rfl⟩
  · rw [if_neg busy]
    exact .inl ⟨.inl busy, rfl⟩

/-- `ata_poll` returns 0 for the drives that answer, and an error for the others. -/
lemma pollFrom_spec (status : Nat → UInt8) (k i : Nat) :
    Answers status k i ∧ (pollFrom true status k i).1 = 0 ∨
      ¬ Answers status k i ∧ (pollFrom true status k i).1 < 0 := by
  induction k generalizing i with
  | zero => exact .inr ⟨nofun, show (-3 : Int) < 0 by decide⟩
  | succ k ih =>
    obtain ⟨wait, eq⟩ | ⟨data, zero⟩ | ⟨wait, data, neg⟩ := pollFrom_succ status k i
    · rw [eq]
      obtain ⟨answers, zero⟩ | ⟨refused, neg⟩ := ih (i + 1)
      · exact .inl ⟨.wait wait answers, zero⟩
      · refine .inr ⟨fun answers => ?_, neg⟩
        cases answers with
        | data data => rw [Waits, HasData] at *; tauto
        | wait _ answers => exact refused answers
    · exact .inl ⟨.data data, zero⟩
    · refine .inr ⟨fun answers => ?_, neg⟩
      cases answers with
      | data answers => exact data answers
      | wait waits _ => exact wait waits

/-- The drive answers the `n`-th command of a call. -/
def Drive.Answers (d : Drive) (n : Nat) : Prop := Ata.Answers (d.status n) 100000 0

/-! ## A request. -/

/-- A request succeeds when the drive answers each of its commands. -/
lemma readFrom_zero_iff : (readFrom d lba k n).2 = 0 ↔ ∀ m < k, d.Answers (n + m) := by
  induction k generalizing n with
  | zero => exact iff_of_true rfl fun m lt => absurd lt (Nat.not_lt_zero m)
  | succ k ih =>
    rw [readFrom]
    dsimp only
    obtain ⟨answers, zero⟩ | ⟨refused, neg⟩ := pollFrom_spec (d.status n) 100000 0
    · rw [ataPoll, zero, if_neg (by decide), ih]
      refine ⟨fun rest m lt => ?_, fun all m lt => ?_⟩
      · cases m with
        | zero => exact answers
        | succ m =>
          have next := rest m (by omega)
          rwa [Nat.add_right_comm] at next
      · rw [Nat.add_right_comm]
        exact all (m + 1) (by omega)
    · rw [ataPoll, if_pos neg]
      refine ⟨fun zero => absurd zero (Int.ne_of_lt neg), fun all => ?_⟩
      exact absurd (all 0 (by omega)) refused

/-- What a request transfers: the sectors that the low 28 bits of their numbers stand for. -/
lemma readFrom_bytes (ok : (readFrom d lba k n).2 = 0) :
    (readFrom d lba k n).1 = (List.range k).flatMap fun m => (d.sector ((lba.toNat + (n + m)) % 2 ^ 28)).bytes := by
  induction k generalizing n with
  | zero => rfl
  | succ k ih =>
    have number : (selectSector (lba + UInt32.ofNat n)).lba28 = (lba.toNat + n) % 2 ^ 28 := by
      rw [lba28_selectSector, UInt32.toNat_add, UInt32.toNat_ofNat']
      omega
    rw [readFrom] at ok ⊢
    dsimp only at ok ⊢
    split_ifs at ok ⊢ with neg
    · exact absurd ok (Int.ne_of_lt neg)
    · rw [List.range_succ_eq_map, List.flatMap_cons, List.flatMap_map, ih ok, number]
      dsimp only
      congr 1
      refine List.flatMap_congr fun m _ => ?_
      rw [Nat.add_right_comm n, Nat.add_assoc n]

/-! ## Reading by name. -/

/-- The sectors of a request, in order. -/
def requested (d : Drive) (lba count : UInt32) : List UInt8 :=
  (List.range count.toNat).flatMap fun i => (d.sector (lba.toNat + i)).bytes

/-- When a call returns 0, its sectors are all sectors of the device that have 28-bit numbers, and their contents are
    what was transferred, so that they lie in a buffer that is large enough. -/
def Exact (d : Drive) (sectors lba count buf : UInt32) (r : List UInt8 × Int) : Prop :=
  r.2 = 0 → lba.toNat + count.toNat ≤ sectors.toNat ∧ lba.toNat + count.toNat ≤ 2 ^ 28 ∧ r.1 = requested d lba count ∧
    ∀ m : Memory, 512 * count.toNat ≤ 2 ^ 32 →
      (m.storeBytes buf r.1).loadBytes buf (512 * count.toNat) = requested d lba count

/-- Every sector has 512 bytes. -/
lemma requested_length (d : Drive) (lba count : UInt32) : (requested d lba count).length = 512 * count.toNat := by
  rw [requested, List.length_flatMap]
  have each : (fun i => (d.sector (lba.toNat + i)).bytes.length) = fun _ => 512 := funext fun i => (d.sector _).length
  rw [each, List.map_const', List.sum_replicate_nat, List.length_range, Nat.mul_comm]

/-- The device that `ata_init` registers is found under its name. -/
lemma blkFind_hda {devs : List Device} {dev : Device} (others : ∀ e ∈ devs, e.name ≠ HDA)
    (reg : ataInit d devs = some (devs ++ [dev])) :
    dev = gHda d ∧ blkFind ((devs ++ [dev]).map (·.toBlockDev)) HDA = some (gHda d).toBlockDev := by
  have eq : dev = gHda d := by
    rw [ataInit] at reg
    split at reg
    · cases reg
    · rw [blkRegister] at reg
      split_ifs at reg
      · cases List.self_eq_append_right.mp (Option.some.inj reg)
      · exact (List.cons.inj (List.append_cancel_left (Option.some.inj reg))).1.symm
      · cases List.self_eq_append_right.mp (Option.some.inj reg)
  have first : blkFind (devs.map (·.toBlockDev)) HDA = none := by
    rw [blkFind, List.find?_eq_none]
    intro e mem
    obtain ⟨e', mem', rfl⟩ := List.mem_map.mp mem
    rw [beq_iff_eq]
    exact others e' mem'
  refine ⟨eq, ?_⟩
  rw [eq, List.map_append, blkFind, List.find?_append, ← blkFind, first]
  rfl

/-- A call of `blk_read_byname` for the device that `ata_init` registered does what it is to do exactly when its sectors
    are all in range, or when it fails: without a buffer, without a sector, or because of the drive. -/
theorem blkReadByname_exact_iff (d : Drive) (devs : List Device) (dev : Device) (others : ∀ e ∈ devs, e.name ≠ HDA)
    (reg : ataInit d devs = some (devs ++ [dev])) (lba count buf : UInt32) :
    Exact d dev.sectors lba count buf (blkReadByname ((devs ++ [dev]).map (·.toBlockDev)) HDA lba count buf) ↔
      lba.toNat + count.toNat ≤ dev.sectors.toNat ∧ lba.toNat + count.toNat ≤ 2 ^ 28 ∨ buf = 0 ∨ count = 0 ∨
        ∃ n < count.toNat, ¬ d.Answers n := by
  obtain ⟨rfl, find⟩ := blkFind_hda others reg
  rw [blkReadByname, find]
  dsimp only
  rw [blkRead]
  by_cases args : buf = 0 ∨ count = 0
  · rw [if_pos args]
    refine iff_of_true (fun zero => ?_) (.inr ?_)
    · cases zero
    · tauto
  rw [if_neg args]
  change Exact d (gHda d).sectors lba count buf (readFrom d lba count.toNat 0) ↔ _
  by_cases all : ∀ n < count.toNat, d.Answers n
  · have ok : (readFrom d lba count.toNat 0).2 = 0 := readFrom_zero_iff.mpr fun m lt => by
      rw [Nat.zero_add]
      exact all m lt
    constructor
    · intro exact_
      obtain ⟨device, limit, -⟩ := exact_ ok
      exact .inl ⟨device, limit⟩
    · intro cond
      have range : lba.toNat + count.toNat ≤ (gHda d).sectors.toNat ∧ lba.toNat + count.toNat ≤ 2 ^ 28 := by
        obtain range | null | zero | ⟨n, lt, refused⟩ := cond
        · exact range
        · exact absurd (.inl null) args
        · exact absurd (.inr zero) args
        · exact absurd (all n lt) refused
      have bytes : (readFrom d lba count.toNat 0).1 = requested d lba count := by
        rw [readFrom_bytes ok, requested]
        refine List.flatMap_congr fun i mem => ?_
        rw [List.mem_range] at mem
        rw [Nat.zero_add, Nat.mod_eq_of_lt (by omega)]
      refine fun _ => ⟨range.1, range.2, bytes, fun m fits => ?_⟩
      rw [← requested_length d lba count] at fits ⊢
      rw [bytes]
      exact Memory.loadBytes_storeBytes fits
  · have refused : (readFrom d lba count.toNat 0).2 ≠ 0 := fun zero => all fun n lt => by
      have answers := readFrom_zero_iff.mp zero n lt
      rwa [Nat.zero_add] at answers
    refine iff_of_true (fun zero => absurd zero refused) (.inr (.inr (.inr ?_)))
    push Not at all
    exact all

/-- A drive with the most sectors that 28 bits can number, which is always ready. -/
def fullDrive : Drive where
  sector n := ⟨List.replicate 512 (if n = 0 then 0 else 1), List.length_replicate⟩
  identify i := if i = 60 then 0xFFFF else if i = 61 then 0x0FFF else 0
  identifyStatus _ := 0x48
  status _ _ := 0x48

/-- Two sectors are read from it. -/
theorem blkReadByname_exact_two : Exact fullDrive (gHda fullDrive).sectors 1 2 0x100000
    (blkReadByname ([gHda fullDrive].map (·.toBlockDev)) HDA 1 2 0x100000) := by
  have identified : ataIdentifyDrive fullDrive = some 0 := loop_done rfl
  have reg : ataInit fullDrive [] = some ([] ++ [gHda fullDrive]) := by
    rw [ataInit, identified]
    rfl
  exact (blkReadByname_exact_iff fullDrive [] (gHda fullDrive) (fun _ mem => nomatch mem) reg 1 2 0x100000).mpr
    (.inl ⟨by decide, by decide⟩)

/-- The sector behind the last one is the first one, and the call returns 0. -/
theorem reads_first_sector : ataInit fullDrive [] = some [gHda fullDrive] ∧
    blkReadByname ([gHda fullDrive].map (·.toBlockDev)) HDA 0x10000000 1 0x100000 = (List.replicate 512 0, 0) ∧
      ¬ Exact fullDrive (gHda fullDrive).sectors 0x10000000 1 0x100000
        (blkReadByname ([gHda fullDrive].map (·.toBlockDev)) HDA 0x10000000 1 0x100000) := by
  have identified : ataIdentifyDrive fullDrive = some 0 := loop_done rfl
  have read : blkReadByname ([gHda fullDrive].map (·.toBlockDev)) HDA 0x10000000 1 0x100000 =
      (List.replicate 512 0, 0) := by decide +kernel
  refine ⟨?_, read, fun exact_ => ?_⟩
  · rw [ataInit, identified]
    rfl
  · rw [read] at exact_
    obtain ⟨-, limit, -⟩ := exact_ rfl
    exact absurd limit (by decide)

end RetaOS.Ata
