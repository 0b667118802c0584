import RetaOS.Fat.Read
import RetaOS.Fat.Walk

/-!
# Termination

When the functions that follow a chain come back, for any content of the table and of the sectors. A directory walk on a
chain that never ends goes on until it has what it looks for, so it ends exactly when some cluster of the chain stops
it. The copying loop of `fat32_read_file_data` counts its bytes down and always ends; the skipping loop before it ends
at an end mark, or behind the offset when the sums up to there fit 32 bits (`Bounded`). The call returns what its loops
do, as the copying stays in the cluster buffer and the buffer can be given back (`fileData_eq_copyFile`).
-/

namespace RetaOS.Fat
open Lib Vfs
open Kheap hiding Linked

variable {v : Volume} {c c' k offset size buf : UInt32} {m m₀ : Memory} {l l₀ : List Block} {r r' : ReadData} {n : Nat}

/-! ## The skipping loop. -/

/-- The largest cluster that a boot sector can describe. -/
lemma cluster_le (v : Volume) :
    v.gBootSector.sectorsPerCluster.toNat * v.gBootSector.bytesPerSector.toNat ≤ 255 * 65535 := by
  have spc := v.gBootSector.sectorsPerCluster.toNat_lt
  have bps := v.gBootSector.bytesPerSector.toNat_lt
  exact Nat.mul_le_mul (by omega) (by omega)

/-- The bytes of a cluster do not wrap. -/
lemma bytesPerCluster_toNat (v : Volume) : (bytesPerCluster v).toNat =
    v.gBootSector.sectorsPerCluster.toNat * v.gBootSector.bytesPerSector.toNat := by
  have le := cluster_le v
  rw [bytesPerCluster, UInt32.toNat_mul, UInt8.toNat_toUInt32, UInt16.toNat_toUInt32]
  omega

/-- A cluster has some bytes. -/
lemma bytesPerCluster_pos (spc : v.gBootSector.sectorsPerCluster ≠ 0) (bps : v.gBootSector.bytesPerSector ≠ 0) :
    0 < (bytesPerCluster v).toNat := by
  rw [bytesPerCluster_toNat]
  exact Nat.mul_pos (Nat.pos_of_ne_zero fun zero => spc (UInt8.toNat_inj.mp zero))
    (Nat.pos_of_ne_zero fun zero => bps (UInt16.toNat_inj.mp zero))

lemma ne_zero_of_wide (wide : 512 ≤ v.gBootSector.bytesPerSector.toNat) : v.gBootSector.bytesPerSector ≠ 0 :=
  fun zero => by
  rw [zero] at wide
  exact absurd wide (by decide)

/-- A cluster has room for its sectors. -/
lemma sectors_le (wide : 512 ≤ v.gBootSector.bytesPerSector.toNat) :
    512 * v.gBootSector.sectorsPerCluster.toNat ≤ (bytesPerCluster v).toNat := by
  rw [bytesPerCluster_toNat, Nat.mul_comm]
  exact Nat.mul_le_mul_left _ wide

lemma clusterRead_le (wide : 512 ≤ v.gBootSector.bytesPerSector.toNat) (c : UInt32) :
    (clusterRead v c).length ≤ (bytesPerCluster v).toNat :=
  le_trans ataRead28Lba_length.1 (sectors_le wide)

/-- The chain reaches an end mark, or the cluster of the offset ends below `2 ^ 32`. -/
def Bounded (v : Volume) (c offset : UInt32) : Prop :=
  (∃ n, isEofCluster (chain v c n) = true) ∨
    (offset.toNat / (bytesPerCluster v).toNat + 1) * (bytesPerCluster v).toNat < 2 ^ 32

/-- How the skipping loop leaves: behind the clusters that are skipped. -/
lemma skip_some : loop (skipBody v offset) (c, 0) = some (c', k) ↔ ∃ n, (∀ i < n, Skipped v offset (chain v c) i) ∧
    ¬ Skipped v offset (chain v c) n ∧ c' = chain v c n ∧ k = UInt32.ofNat (n * (bytesPerCluster v).toNat) := by
  have start : (c, (0 : UInt32)) = (chain v c 0, UInt32.ofNat (0 * (bytesPerCluster v).toNat)) := by
    rw [Nat.zero_mul]
    rfl
  have leave (n : Nat) (stop : ¬ Skipped v offset (chain v c) n) (before : ∀ i < n, Skipped v offset (chain v c) i) :
      skipBody v offset (chain v c n, UInt32.ofNat (n * (bytesPerCluster v).toNat)) =
        .done (chain v c n, UInt32.ofNat (n * (bytesPerCluster v).toNat)) := by
    obtain ⟨a, pass⟩ := (skip_unrolls v offset c).done n before stop
    rw [pass]
    rw [skipBody] at pass
    split at pass
    · cases pass
    · exact pass.symm
  rw [start]
  constructor
  · intro run
    obtain ⟨n, before, stop, pass⟩ := (skip_unrolls v offset c).exit run
    obtain ⟨rfl, rfl⟩ := Prod.mk.inj (Pass.done.inj (pass.symm.trans (leave n stop before)))
    exact ⟨n, before, stop, rfl, rfl⟩
  · rintro ⟨n, before, stop, rfl, rfl⟩
    exact (skip_unrolls v offset c).loop_eq before (leave n stop before)

/-- On a bounded chain it ends. -/
lemma Bounded.skip_ends (b : Bounded v c offset) (pos : 0 < (bytesPerCluster v).toNat) :
    ∃ c' k, loop (skipBody v offset) (c, 0) = some (c', k) := by
  obtain ⟨n, stop, before⟩ : ∃ n, ¬ Skipped v offset (chain v c) n ∧ ∀ i < n, Skipped v offset (chain v c) i := by
    refine exists_first ?_
    rcases b with ⟨n, eof⟩ | below
    · refine ⟨n, fun skipped => ?_⟩
      rw [skipped.2] at eof
      cases eof
    · refine ⟨offset.toNat / (bytesPerCluster v).toNat, fun skipped => ?_⟩
      have sum := skipped.1
      rw [Nat.mod_eq_of_lt below] at sum
      have past := Nat.lt_mul_div_succ offset.toNat pos
      rw [Nat.mul_comm] at past
      omega
  exact ⟨_, _, skip_some.mpr ⟨n, before, stop, rfl, rfl⟩⟩

/-- The offset that the skipping loop has reached behind `n` clusters. -/
lemma skipped_offset (before : ∀ i < n, Skipped v offset (chain v c) i) :
    (UInt32.ofNat (n * (bytesPerCluster v).toNat)).toNat = n * (bytesPerCluster v).toNat % 2 ^ 32 ∧
      n * (bytesPerCluster v).toNat % 2 ^ 32 ≤ offset.toNat := by
  refine ⟨UInt32.toNat_ofNat' .., ?_⟩
  cases n with
  | zero => simp
  | succ n => exact (before n n.lt_succ_self).1

/-- Where the skipping loop leaves: at an end mark, or in the cluster of the offset. -/
lemma skip_exit (run : loop (skipBody v offset) (c, 0) = some (c', k)) :
    k.toNat ≤ offset.toNat ∧ (isEofCluster c' = true ∨ (offset - k).toNat < (bytesPerCluster v).toNat) := by
  obtain ⟨n, before, stop, rfl, rfl⟩ := skip_some.mp run
  obtain ⟨eq, le⟩ := skipped_offset before
  refine ⟨by omega, ?_⟩
  rw [Skipped, not_and_or, Nat.not_le, Bool.not_eq_false] at stop
  rcases stop with above | eof
  · -- a sum that wraps would lie below the offset that has been reached
    right
    rw [sub_toNat_of_le (by omega), eq]
    rw [Nat.succ_mul] at above
    omega
  · exact .inl eof

/-! ## The copying loop. -/

/-- A pass that does not go on leaves the loop, and the memory at most with a cluster in the buffer. -/
lemma readBody_done (buf : UInt32) (stop : ¬ Copies v r) :
    ∃ m, readBody v buf r = .done ({ r with mem := m }, decide (¬ Enters r)) ∧
      (m = r.mem ∨ m = r.mem.storeBytes buf (clusterRead v r.currentCluster)) := by
  rw [readBody]
  by_cases enters : Enters r
  · have bad : (readSectors v.disk (getFirstSectorOfCluster v r.currentCluster) v.gBootSector.sectorsPerCluster).2 ≠
        true := fun ok => stop ⟨enters, ok⟩
    rw [if_pos (show r.bytesRemaining > 0 ∧ isEofCluster r.currentCluster = false from enters),
      decide_eq_false (not_not.mpr enters)]
    dsimp only
    rw [if_neg bad]
    exact ⟨_, rfl, .inr rfl⟩
  · rw [if_neg (show ¬ (r.bytesRemaining > 0 ∧ isEofCluster r.currentCluster = false) from enters),
      decide_eq_true enters]
    exact ⟨_, rfl, .inl rfl⟩

/-- A pass that goes on is over the cluster at hand. -/
lemma readBody_goes (pass : readBody v buf r = .next r') : Copies v r ∧ r' = pastCluster v buf r := by
  by_cases copies : Copies v r
  · exact ⟨copies, Pass.next.inj (pass.symm.trans (readBody_next copies))⟩
  · obtain ⟨m, leave, -⟩ := readBody_done buf copies
    cases pass.symm.trans leave

/-- The variables of the copying loop as the skipping loop leaves them: at an end mark, or inside of a cluster. -/
def Inside (v : Volume) (r : ReadData) : Prop :=
  isEofCluster r.currentCluster = true ∨ r.clusterOffset.toNat < (bytesPerCluster v).toNat

/-- The copying loop ends, and stores into the cluster buffer only when a cluster fits it. -/
lemma read_ends (buf : UInt32) (r : ReadData) (pos : 0 < (bytesPerCluster v).toNat) (inside : Inside v r) :
    ∃ r' ok, loop (readBody v buf) r = some (r', ok) ∧
      (buf.toNat + 512 * v.gBootSector.sectorsPerCluster.toNat ≤ 2 ^ 32 →
        Memory.SameOutside buf (512 * v.gBootSector.sectorsPerCluster.toNat) r.mem r'.mem) := by
  have stores {m : Memory} (c : UInt32) (fits : buf.toNat + 512 * v.gBootSector.sectorsPerCluster.toNat ≤ 2 ^ 32)
      (same : Memory.SameOutside buf (512 * v.gBootSector.sectorsPerCluster.toNat) r.mem m) :
      Memory.SameOutside buf (512 * v.gBootSector.sectorsPerCluster.toNat) r.mem
        (m.storeBytes buf (clusterRead v c)) := by
    have len : (clusterRead v c).length ≤ 512 * v.gBootSector.sectorsPerCluster.toNat := ataRead28Lba_length.1
    intro x out
    rw [storeBytes_within le_rfl (by omega) fits out, same x out]
  let I (s : ReadData) : Prop := Inside v s ∧ (buf.toNat + 512 * v.gBootSector.sectorsPerCluster.toNat ≤ 2 ^ 32 →
    Memory.SameOutside buf (512 * v.gBootSector.sectorsPerCluster.toNat) r.mem s.mem)
  have step (s s' : ReadData) : I s → readBody v buf s = .next s' →
      I s' ∧ s'.bytesRemaining.toNat < s.bytesRemaining.toNat := by
    rintro ⟨inside, same⟩ pass
    obtain ⟨⟨enters, -⟩, rfl⟩ := readBody_goes pass
    refine ⟨⟨.inr pos, fun fits => stores _ fits (same fits)⟩, ?_⟩
    have room := inside.resolve_left (by rw [enters.2]; decide)
    have left := UInt32.lt_iff_toNat_lt.mp enters.1
    have count := toRead_toNat (v := v) (r := s) (by omega)
    show (s.bytesRemaining - toRead v s).toNat < _
    rw [sub_toNat_of_le toRead_le]
    omega
  have leave (s : ReadData) (res : ReadData × Bool) : I s → readBody v buf s = .done res →
      (buf.toNat + 512 * v.gBootSector.sectorsPerCluster.toNat ≤ 2 ^ 32 →
        Memory.SameOutside buf (512 * v.gBootSector.sectorsPerCluster.toNat) r.mem res.1.mem) := by
    rintro ⟨-, same⟩ pass fits
    by_cases copies : Copies v s
    · cases (readBody_next copies).symm.trans pass
    · obtain ⟨m, leave, stored⟩ := readBody_done buf copies
      obtain rfl := Pass.done.inj (leave.symm.trans pass)
      rcases stored with rfl | rfl
      · exact same fits
      · exact stores _ fits (same fits)
  obtain ⟨⟨r', ok⟩, run, same⟩ := loop_variant _ step leave ⟨inside, fun _ _ _ => rfl⟩
  exact ⟨r', ok, run, same⟩

/-- Both loops end on a bounded chain. -/
lemma Bounded.loops_end (b : Bounded v c offset) (pos : 0 < (bytesPerCluster v).toNat) :
    ∃ c' k, loop (skipBody v offset) (c, 0) = some (c', k) ∧
      ∀ (buf size : UInt32) (m : Memory), loop (readBody v buf) ⟨m, [], 0, size, c', offset - k⟩ ≠ none := by
  obtain ⟨c', k, skip⟩ := b.skip_ends pos
  refine ⟨c', k, skip, fun buf size m => ?_⟩
  obtain ⟨r', ok, run, -⟩ := read_ends buf ⟨m, [], 0, size, c', offset - k⟩ pos (skip_exit skip).2
  rw [run]
  exact Option.some_ne_none _

/-! ## The call. -/

/-- A cluster is not so large that `kmalloc` takes it for one that fits. -/
lemma cluster_not_wraps (v : Volume) : ¬ Wraps (bytesPerCluster v) := by
  have le := cluster_le v
  have eq := bytesPerCluster_toNat v
  rintro ⟨lo, -⟩
  omega

/-- What the call returns and has put in the buffer when the copying loop has left. -/
def outcome : ReadData × Bool → Int × List UInt8
  | (r, ok) => (if ok then r.bytesRead.toInt32.toInt else -EIO_, r.data)

/-- What both loops return and put in the buffer. -/
def copyFile (v : Volume) (buf c offset size : UInt32) : Option (Int × List UInt8) :=
  match loop (skipBody v offset) (c, 0) with
  | none => none
  | some (c', k) => (loop (readBody v buf) ⟨v.heap.mem, [], 0, size, c', offset - k⟩).map outcome

/-- The return value of `fat32_read_file_data` and the bytes in the buffer. -/
def fileData (v : Volume) (c offset size : UInt32) : Option (Int × List UInt8) :=
  (fat32ReadFileData v c offset size).map fun r => (r.1, r.2.1)

/-- With a cluster buffer the call returns what its loops do. -/
lemma fileData_eq_copyFile {h : Heap} (init : v.gInitialized = true) (valid : Valid h l)
    (alloc : Allocated l₀ l buf (bytesPerCluster v)) (run : kmalloc v.heap (bytesPerCluster v) = some (buf, h))
    (nonnull : buf ≠ 0) (ne : size ≠ 0) (pos : 0 < (bytesPerCluster v).toNat)
    (wide : 512 ≤ v.gBootSector.bytesPerSector.toNat) :
    fileData v c offset size = copyFile { v with heap := h } buf c offset size := by
  have cluster := sectors_le wide
  obtain ⟨d, used, addr, le, -, made⟩ := alloc
  have inl : d ∈ l := (made d used).mpr (.inl rfl)
  obtain ⟨lo, hi⟩ := valid.bounds inl
  rw [Block.limit] at hi
  rw [fileData, fat32ReadFileData, if_neg (by rw [init]; decide), if_neg ne, run]
  dsimp only
  rw [if_neg nonnull, readClusters, copyFile]
  rcases skip : loop (skipBody { v with heap := h } offset) (c, 0) with _ | ⟨c', k⟩
  · rfl
  · obtain ⟨r', ok, copy, same⟩ := read_ends (v := { v with heap := h }) buf ⟨h.mem, [], 0, size, c', offset - k⟩ pos
      (skip_exit skip).2
    -- what was copied to the buffer has not left its block
    have valid' : Valid { h with mem := r'.mem } l := by
      refine valid.of_outside inl fun x out => same (show _ ≤ _ by dsimp only; omega) x ?_
      rw [Block.limit] at out
      dsimp only
      omega
    obtain ⟨h', -, free, -⟩ := kfree_effect valid' inl used addr
    dsimp only
    rw [copy]
    dsimp only
    rw [free]
    rfl

/-- Both loops return on a bounded chain. -/
lemma Bounded.copyFile_ends (b : Bounded v c offset) (buf size : UInt32) (pos : 0 < (bytesPerCluster v).toNat) :
    copyFile v buf c offset size ≠ none := by
  obtain ⟨c', k, skip, ends⟩ := b.loops_end pos
  obtain ⟨res, run⟩ := Option.ne_none_iff_exists'.mp (ends buf size v.heap.mem)
  rw [copyFile, skip]
  dsimp only
  rw [run]
  exact Option.some_ne_none _

/-- On a valid heap the call returns when its loops end and a cluster fits the buffer. -/
lemma fat32ReadFileData_ends (valid : Valid v.heap l) (spc : v.gBootSector.sectorsPerCluster ≠ 0)
    (wide : 512 ≤ v.gBootSector.bytesPerSector.toNat)
    (bounded : ∀ p h, kmalloc v.heap (bytesPerCluster v) = some (p, h) → Bounded { v with heap := h } c offset) :
    fat32ReadFileData v c offset size ≠ none := by
  have pos := bytesPerCluster_pos spc (ne_zero_of_wide wide)
  by_cases fresh : v.gInitialized = false
  · rw [fat32ReadFileData, if_pos fresh]
    exact Option.some_ne_none _
  · by_cases empty : size = 0
    · rw [fat32ReadFileData, if_neg fresh, if_pos empty]
      exact Option.some_ne_none _
    · obtain ⟨p, h, l', alloc, valid', -, ⟨rfl, -⟩ | ⟨ne, allocated, -⟩⟩ := kmalloc_effect valid (cluster_not_wraps v)
      · rw [fat32ReadFileData, if_neg fresh, if_neg empty, alloc]
        exact Option.some_ne_none _
      · intro none
        have init := (Bool.not_eq_false _).mp fresh
        have ends := (bounded p h alloc).copyFile_ends p size pos
        rw [← fileData_eq_copyFile init valid' allocated alloc ne empty pos wide, fileData, none] at ends
        exact ends rfl

/-! ## A cyclic chain. -/

/-- The volume of one file, with a table in which cluster 2 is followed by itself. -/
def looped : Volume := { single with heap := { tableHeap with mem := tableHeap.mem.store32 0xC0000014 2 } }

lemma looped_entry : fatEntry looped.heap.mem looped.gFat 2 = 2 := Memory.load32_store32

lemma looped_backed : Backed looped tableBlocks :=
  ⟨rfl, tableHeap_store 2 (by decide) (by decide), ⟨0xC0000000, 512, true⟩, by simp [tableBlocks], rfl, rfl, by decide⟩

set_option maxRecDepth 8192 in
lemma looped_dirs : clusterDirs looped 2 = [⟨[0x61], 1, 3, 0x20⟩] := by
  rfl

lemma looped_chain (n : Nat) : chain looped 2 n = 2 := by
  induction n with
  | zero => rfl
  | succ n ih => rw [chain_succ, ih, looped_entry]

set_option maxRecDepth 8192 in
/-- On it a name that is not in the directory is looked for without end. -/
lemma looped_find : fat32FindEntry looped 2 [0x62] = none := by
  have searched : Searched looped [0x62] 2 := ⟨by decide, findInSectors_more.mp rfl⟩
  by_contra ends
  obtain ⟨n, stop⟩ := (find_unrolls looped [0x62] 2).ends_iff.mp ends
  rw [looped_chain] at stop
  exact stop searched

/-- The offset of the last byte is not got to: the sum with the size of a cluster is never above it. -/
lemma looped_skip {v : Volume} (entry : fatEntry v.heap.mem v.gFat 2 = 2) :
    loop (skipBody v 0xFFFFFFFF) (2, 0) = none := by
  refine loop_diverges (I := fun x => x.1 = 2) (fun x inv => ?_) rfl
  obtain ⟨c, k⟩ := x
  cases inv
  have le : k + bytesPerCluster v ≤ 0xFFFFFFFF := by
    rw [UInt32.le_iff_toNat_le]
    exact Nat.le_of_lt_succ (k + bytesPerCluster v).toNat_lt
  refine ⟨(2, k + bytesPerCluster v), ?_, rfl⟩
  rw [skipBody, if_pos ⟨le, by decide⟩]
  exact congrArg (fun c => Pass.next (c, k + bytesPerCluster v)) entry

/-- A byte at that offset is read without end. -/
lemma looped_read : fat32ReadFileData looped 2 0xFFFFFFFF 1 = none := by
  obtain ⟨p, h, l', alloc, -, keeps, ⟨rfl, -, -, full⟩ | ⟨ne, -⟩⟩ :=
    kmalloc_effect looped_backed.heap (cluster_not_wraps looped)
  · exact absurd ⟨rfl, by decide⟩ (full ⟨0xC000020C, 0xFFDE8, false⟩ (by simp [tableBlocks]))
  · have entry : fatEntry h.mem looped.gFat 2 = 2 := (looped_backed.fatEntry_eq keeps (by decide)).trans looped_entry
    rw [fat32ReadFileData, if_neg (by decide), if_neg (by decide), alloc]
    dsimp only
    rw [if_neg ne, readClusters, looped_skip (v := { looped with heap := h }) entry]

/-- The volume with nothing in its directory. -/
def hollow : Volume := { looped with disk := fun _ => some emptySector }

set_option maxRecDepth 8192 in
lemma hollow_dirs : clusterDirs hollow 2 = [] := by
  rfl

/-- The first entry of that directory is looked for without end. -/
lemma hollow_index : fat32ReaddirIndex hollow 2 0 = none := by
  have here (n : Nat) : chain hollow 2 n = 2 := looped_chain n
  have none (n : Nat) : listed hollow (chain hollow 2) n = 0 := by
    induction n with
    | zero => rfl
    | succ n ih =>
      rw [listed, ih, here, hollow_dirs]
      rfl
  by_contra ends
  obtain ⟨n, stop⟩ := (index_unrolls hollow 0 2).ends_iff.mp ends
  refine stop ⟨?_, ?_, ?_⟩
  · rw [here]
    decide
  · rw [here]
    rfl
  · rw [none]
    exact Nat.zero_le _

/-- `fat32_find_entry` and `fat32_readdir_index` return exactly when a cluster of the chain stops them. The loops of
    `fat32_read_file_data` end on every bounded chain, and the call then returns when a cluster fits its buffer. -/
theorem walks_end (v : Volume) (c : UInt32) :
    (∀ name, fat32FindEntry v c name ≠ none ↔ (v.gInitialized = true → ∃ n, ¬ Searched v name (chain v c n))) ∧
    (∀ index, fat32ReaddirIndex v c index ≠ none ↔ (v.gInitialized = true → ∃ n, ¬ Counted v index (chain v c) n)) ∧
    (∀ offset, v.gBootSector.sectorsPerCluster ≠ 0 → v.gBootSector.bytesPerSector ≠ 0 → Bounded v c offset →
      ∃ c' k, loop (skipBody v offset) (c, 0) = some (c', k) ∧
        ∀ (buf size : UInt32) (m : Memory), loop (readBody v buf) ⟨m, [], 0, size, c', offset - k⟩ ≠ none) ∧
    ∀ (l : List Block) (offset size : UInt32), Valid v.heap l → v.gBootSector.sectorsPerCluster ≠ 0 →
      512 ≤ v.gBootSector.bytesPerSector.toNat →
      (∀ p h, kmalloc v.heap (bytesPerCluster v) = some (p, h) → Bounded { v with heap := h } c offset) →
      fat32ReadFileData v c offset size ≠ none := by
  refine ⟨fun name => ?_, fun index => ?_, fun offset sectors bytes bounded => ?_,
    fun l offset size valid sectors wide bounded => ?_⟩
  · rw [fat32FindEntry]
    split_ifs with fresh
    · exact iff_of_true (Option.some_ne_none _) fun init => by simp [fresh] at init
    · rw [Bool.not_eq_false] at fresh
      exact (find_unrolls v name c).ends_iff.trans (imp_iff_right fresh).symm
  · rw [fat32ReaddirIndex]
    split_ifs with fresh
    · exact iff_of_true (Option.some_ne_none _) fun init => by simp [fresh] at init
    · rw [Bool.not_eq_false] at fresh
      exact (index_unrolls v index c).ends_iff.trans (imp_iff_right fresh).symm
  · exact bounded.loops_end (bytesPerCluster_pos sectors bytes)
  · exact fat32ReadFileData_ends valid sectors wide bounded

/-- On the cyclic chain an entry that is there is found by its name and by its index, and ten bytes behind the first
    cluster are read. -/
theorem walks_end_looped : fat32FindEntry looped 2 [0x61] ≠ none ∧ fat32ReaddirIndex looped 2 0 ≠ none ∧
    (∃ c' k, loop (skipBody looped 600) (2, 0) = some (c', k) ∧
      ∀ (buf size : UInt32) (m : Memory), loop (readBody looped buf) ⟨m, [], 0, size, c', 600 - k⟩ ≠ none) ∧
    fat32ReadFileData looped 2 600 10 ≠ none := by
  obtain ⟨find, index, loops, read⟩ := walks_end looped 2
  have reached : (UInt32.toNat 600 / (bytesPerCluster looped).toNat + 1) * (bytesPerCluster looped).toNat < 2 ^ 32 := by
    decide
  have bounded (h : Heap) : Bounded { looped with heap := h } 2 600 := .inr reached
  refine ⟨(find [0x61]).mpr fun _ => ⟨0, fun searched => ?_⟩, (index 0).mpr fun _ => ⟨0, fun counted => ?_⟩,
    loops 600 (by decide) (by decide) (bounded _),
    read tableBlocks 600 10 looped_backed.heap (by decide) (by decide) fun _ h _ => bounded h⟩
  · exact searched.2.2 ⟨[0x61], 1, 3, 0x20⟩ (looped_dirs ▸ List.mem_cons_self) (by decide)
  · have few : listed looped (chain looped 2) 1 ≤ 0 := counted.2.2
    rw [listed, looped_chain, looped_dirs] at few
    cases few

/-- A cyclic chain is followed without end by both directory walks and by a read. -/
theorem walks_not_end : ∃ v : Volume, v.gInitialized = true ∧ v.gBootSector.sectorsPerCluster ≠ 0 ∧
    v.gBootSector.bytesPerSector ≠ 0 ∧ fat32FindEntry v 2 [0x62] = none ∧ fat32ReadFileData v 2 0xFFFFFFFF 1 = none ∧
    fat32ReaddirIndex { v with disk := hollow.disk } 2 0 = none :=
  ⟨looped, rfl, by decide, by decide, looped_find, looped_read, hollow_index⟩

end RetaOS.Fat
