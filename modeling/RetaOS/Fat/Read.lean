import RetaOS.Fat.Init

/-!
# Reading files

`fat32_read_file_data` against the bytes of a file: the clusters of its chain, one behind the other (`content`). The
first loop skips the clusters before the offset (`skip_chain`), the second copies from the others through the cluster
buffer (`read_chain`), and the buffer that is allocated before and given back behind them leaves the heap with the
blocks it had, so that a read may follow a read.
-/

namespace RetaOS.Fat
open Lib
open Kheap hiding Linked

variable {v v' : Volume} {disk : Disk} {lba c buf offset size : UInt32} {n : Nat} {l : List Block} {cs : List UInt32}
  {r : ReadData}

/-- The number on the disk of a sector of a cluster. The clusters lie one behind the other from `g_cluster_begin_lba`
    on and the first of them is cluster 2; a drive has `2 ^ 28` sectors. -/
def clusterSector (v : Volume) (c : UInt32) (i : Nat) : Nat :=
  ((v.gClusterBeginLba.toNat + ((c.toNat : Int) - 2) * v.gBootSector.sectorsPerCluster.toNat + i) % 2 ^ 28).toNat

/-- The bytes of a sector. -/
def sectorAt (disk : Disk) (n : Nat) : List UInt8 := ((disk (UInt32.ofNat n)).map Sector.bytes).getD []

/-- The bytes of a cluster: those of its sectors. -/
def clusterBytes (v : Volume) (c : UInt32) : List UInt8 :=
  (List.range v.gBootSector.sectorsPerCluster.toNat).flatMap fun i => sectorAt v.disk (clusterSector v c i)

/-- The bytes of a chain of clusters. -/
def content (v : Volume) (cs : List UInt32) : List UInt8 := cs.flatMap (clusterBytes v)

/-- What `read_sectors` transfers of a cluster. -/
def clusterRead (v : Volume) (c : UInt32) : List UInt8 :=
  (readSectors v.disk (getFirstSectorOfCluster v c) v.gBootSector.sectorsPerCluster).1

/-- The cluster that a chain of a file goes on with. -/
def dataCluster (c : UInt32) : Option UInt32 := if isEofCluster c then none else some c

/-- The cluster behind one in the table. -/
def nextDataCluster (v : Volume) (c : UInt32) : Option UInt32 := dataCluster (fatEntry v.heap.mem v.gFat c)

/-- A chain of clusters of the loaded table that ends with a mark, and whose clusters can be read. -/
structure DataChain (v : Volume) (c : UInt32) (cs : List UInt32) : Prop where
  linked : Linked (nextDataCluster v) (dataCluster c) cs
  inside : ∀ d ∈ cs, d.toNat < (fatSize v).toNat / 4
  readable : ∀ d ∈ cs, ClusterReadable v d

/-- The sectors have 512 bytes, and a cluster has one at least. -/
structure Sectors (v : Volume) : Prop where
  bytes : v.gBootSector.bytesPerSector = 512
  pos : 0 < v.gBootSector.sectorsPerCluster.toNat

/-- The bytes of a cluster, as a number. -/
def clusterSize (v : Volume) : Nat := 512 * v.gBootSector.sectorsPerCluster.toNat

lemma Sectors.toNat_bytesPerCluster (s : Sectors v) : (bytesPerCluster v).toNat = clusterSize v := by
  have lt := v.gBootSector.sectorsPerCluster.toNat_lt
  rw [bytesPerCluster, s.bytes, UInt32.toNat_mul, UInt8.toNat_toUInt32, clusterSize]
  change v.gBootSector.sectorsPerCluster.toNat * 512 % 2 ^ 32 = _
  omega

lemma Sectors.clusterSize_pos (s : Sectors v) : 0 < clusterSize v := by
  have pos := s.pos
  rw [clusterSize]
  omega

lemma clusterSize_le : clusterSize v ≤ 512 * 255 := by
  have lt := v.gBootSector.sectorsPerCluster.toNat_lt
  rw [clusterSize]
  omega

/-- The number that is sent to the drive for a sector of a cluster. -/
lemma getFirstSectorOfCluster_number (v : Volume) (c : UInt32) (i : Nat) :
    (getFirstSectorOfCluster v c + UInt32.ofNat i) &&& 0x0FFFFFFF = UInt32.ofNat (clusterSector v c i) := by
  apply UInt32.toNat_inj.mp
  have mask := toNat_and_mask (getFirstSectorOfCluster v c + UInt32.ofNat i) (k := 28) (by decide)
  change ((getFirstSectorOfCluster v c + UInt32.ofNat i) &&& 0x0FFFFFFF).toNat = _ at mask
  have small : clusterSector v c i < 2 ^ 32 := by
    rw [clusterSector]
    omega
  have sum : (getFirstSectorOfCluster v c + UInt32.ofNat i).toNat = (v.gClusterBeginLba.toNat +
      (c - 2).toNat * v.gBootSector.sectorsPerCluster.toNat + i) % 2 ^ 32 := by
    rw [getFirstSectorOfCluster, UInt32.toNat_add, UInt32.toNat_add, UInt32.toNat_mul, UInt8.toNat_toUInt32,
      UInt32.toNat_ofNat']
    omega
  rw [mask, sum, toNat_ofNat_lt small, clusterSector]
  -- clusters below 2 are counted back from the first, modulo the size of a word
  have back : ((c - 2).toNat : Int) = (c.toNat : Int) - 2 ∨
      ((c - 2).toNat : Int) = (c.toNat : Int) - 2 + 0x100000000 := by
    have lt := c.toNat_lt
    rw [UInt32.toNat_sub]
    change (((2 ^ 32 - 2 + c.toNat) % 2 ^ 32 : Nat) : Int) = _ ∨ (((2 ^ 32 - 2 + c.toNat) % 2 ^ 32 : Nat) : Int) = _
    omega
  generalize v.gBootSector.sectorsPerCluster.toNat = k
  have product : (((c - 2).toNat * k : Nat) : Int) = ((c.toNat : Int) - 2) * k ∨
      (((c - 2).toNat * k : Nat) : Int) = ((c.toNat : Int) - 2) * k + 0x100000000 * k := by
    push_cast
    rcases back with same | wrapped
    · exact .inl (by rw [same])
    · exact .inr (by rw [wrapped, Int.add_mul])
  generalize ((c.toNat : Int) - 2) * k = x at *
  omega

/-- Sectors that can be read are transferred one behind the other. -/
lemma ataRead28Lba_bytes {at_ : Nat → Nat}
    (number : ∀ i < n, (lba + UInt32.ofNat i) &&& 0x0FFFFFFF = UInt32.ofNat (at_ i))
    (ok : Readable disk lba n) :
        (ataRead28Lba disk lba n).1 = (List.range n).flatMap fun i => sectorAt disk (at_ i) := by
  unfold Readable at ok
  induction n generalizing lba at_ with
  | zero => rfl
  | succ n ih =>
    have first := number 0 (Nat.succ_pos n)
    rw [show lba + UInt32.ofNat 0 = lba from UInt32.add_zero lba] at first
    cases hs : disk (lba &&& 0x0FFFFFFF) with
    | none => simp [ataRead28Lba, hs] at ok
    | some sector =>
      simp only [ataRead28Lba, hs] at ok ⊢
      have others : ∀ i < n, (lba + 1 + UInt32.ofNat i) &&& 0x0FFFFFFF = UInt32.ofNat (at_ (i + 1)) := by
        intro i lt
        rw [← number (i + 1) (by omega), UInt32.ofNat_add, UInt32.add_assoc, UInt32.add_comm (UInt32.ofNat i)]
        rfl
      rw [ih others ok, List.range_succ_eq_map, List.flatMap_cons, List.flatMap_map, sectorAt, ← first, hs]
      rfl

/-- What is transferred of a cluster that can be read are its bytes. -/
lemma clusterRead_eq (ok : ClusterReadable v c) : clusterRead v c = clusterBytes v c :=
  ataRead28Lba_bytes (fun i _ => getFirstSectorOfCluster_number v c i) ok

lemma clusterRead_length (h : ClusterReadable v c) : (clusterRead v c).length = clusterSize v :=
  ataRead28Lba_length.2 h

lemma content_length (h : ∀ d ∈ cs, ClusterReadable v d) : (content v cs).length = cs.length * clusterSize v := by
  induction cs with
  | nil => simp [content]
  | cons d cs ih =>
    have rest := ih fun e he => h e (List.mem_cons_of_mem d he)
    have first := clusterRead_length (h d List.mem_cons_self)
    have split : content v (d :: cs) = clusterBytes v d ++ content v cs := List.flatMap_cons
    rw [split, ← clusterRead_eq (h d List.mem_cons_self), List.length_append, first, rest, List.length_cons,
      Nat.succ_mul, Nat.add_comm]

lemma dataCluster_none : dataCluster c = none ↔ isEofCluster c = true := by
  simp [dataCluster]

lemma dataCluster_some {d : UInt32} : dataCluster c = some d ↔ isEofCluster c = false ∧ c = d := by
  simp [dataCluster]

/-! ## The clusters before the offset. -/

/-- The skipping loop leaves before the cluster of the offset, or behind the chain. -/
lemma skip_chain {k : UInt32} (offset : UInt32) (s : Sectors v) (chain : Linked (nextDataCluster v) (dataCluster c) cs)
    (le : k.toNat ≤ offset.toNat) (small : k.toNat + cs.length * clusterSize v < 2 ^ 31) :
    ∃ c' k' pre rest, loop (skipBody v offset) (c, k) = some (c', k') ∧ cs = pre ++ rest ∧
      Linked (nextDataCluster v) (dataCluster c') rest ∧ k'.toNat = k.toNat + pre.length * clusterSize v ∧
      k'.toNat ≤ offset.toNat ∧ (rest = [] ∨ offset.toNat < k'.toNat + clusterSize v) := by
  have size := s.toNat_bytesPerCluster
  -- along the chain; the offset reached so far is what the induction carries
  generalize e : dataCluster c = p at chain
  induction chain generalizing c k with
  | nil =>
    refine ⟨c, k, [], [], loop_done ?_, rfl, ?_, by simp, le, .inl rfl⟩
    · simp [skipBody, dataCluster_none.mp e]
    · rw [e]
      exact .nil
  | @cons q cs chain ih =>
    obtain ⟨more, rfl⟩ := dataCluster_some.mp e
    rw [List.length_cons, Nat.succ_mul] at small
    have sum : (k + bytesPerCluster v).toNat = k.toNat + clusterSize v := by
      rw [toNat_add_of_lt (by omega), size]
    -- the whole cluster lies before the offset, or the walk stops in it
    by_cases before : k.toNat + clusterSize v ≤ offset.toNat
    · have pass : skipBody v offset (c, k) = .next (fatEntry v.heap.mem v.gFat c, k + bytesPerCluster v) := by
        rw [skipBody, if_pos ⟨UInt32.le_iff_toNat_le.mpr (by omega), more⟩]
      obtain ⟨c', k', pre, rest, run, rfl, chain', at', le', last⟩ :=
        ih (k := k + bytesPerCluster v) (by omega) (by omega) rfl
      refine ⟨c', k', c :: pre, rest, by rw [loop_next pass, run], rfl, chain', ?_, le', last⟩
      rw [at', sum, List.length_cons, Nat.succ_mul]
      omega
    · refine ⟨c, k, [], c :: cs, loop_done ?_, rfl, ?_, by simp, le, .inr (by omega)⟩
      · rw [skipBody, if_neg]
        rintro ⟨le, -⟩
        rw [UInt32.le_iff_toNat_le] at le
        omega
      · rw [e]
        exact .cons chain

/-! ## The clusters that are copied. -/

/-- The variables behind a cluster that has been copied. -/
def pastCluster (v : Volume) (buf : UInt32) (r : ReadData) : ReadData :=
  let mem := r.mem.storeBytes buf (clusterRead v r.currentCluster)
  let room := bytesPerCluster v - r.clusterOffset
  let toRead := if room > r.bytesRemaining then r.bytesRemaining else room
  { mem
    data := r.data ++ mem.loadBytes (buf + r.clusterOffset) toRead.toNat
    bytesRead := r.bytesRead + toRead
    bytesRemaining := r.bytesRemaining - toRead
    currentCluster := fatEntry mem v.gFat r.currentCluster
    clusterOffset := 0 }

/-- The copying loop goes into its body. -/
def Enters (r : ReadData) : Prop := r.bytesRemaining > 0 ∧ isEofCluster r.currentCluster = false

instance : Decidable (Enters r) := inferInstanceAs (Decidable (_ ∧ _))

/-- A pass of the copying loop goes on. -/
def Copies (v : Volume) (r : ReadData) : Prop := Enters r ∧ ClusterReadable v r.currentCluster

/-- It goes on when it can read its cluster. -/
lemma readBody_next (copies : Copies v r) : readBody v buf r = .next (pastCluster v buf r) := by
  obtain ⟨enters, ok⟩ := copies
  have read : readSectors v.disk (getFirstSectorOfCluster v r.currentCluster) v.gBootSector.sectorsPerCluster =
      (clusterRead v r.currentCluster, true) := by
    rw [clusterRead, ← show _ = true from ok]
    rfl
  rw [readBody, if_pos (show r.bytesRemaining > 0 ∧ isEofCluster r.currentCluster = false from enters), read]
  rfl

/-- The bytes that a pass of the copying loop takes. -/
def toRead (v : Volume) (r : ReadData) : UInt32 :=
  if bytesPerCluster v - r.clusterOffset > r.bytesRemaining then r.bytesRemaining
  else bytesPerCluster v - r.clusterOffset

lemma toRead_le {r : ReadData} : (toRead v r).toNat ≤ r.bytesRemaining.toNat := by
  rw [toRead]
  split
  · exact le_rfl
  · rename_i small
    exact Nat.le_of_not_lt fun lt => small (UInt32.lt_iff_toNat_lt.mpr lt)

/-- They are what is asked for, or the rest of the cluster. -/
lemma toRead_toNat {r : ReadData} (inside : r.clusterOffset.toNat ≤ (bytesPerCluster v).toNat) :
    (toRead v r).toNat = min r.bytesRemaining.toNat ((bytesPerCluster v).toNat - r.clusterOffset.toNat) := by
  have room : (bytesPerCluster v - r.clusterOffset).toNat = (bytesPerCluster v).toNat - r.clusterOffset.toNat :=
    sub_toNat_of_le inside
  rw [toRead]
  split
  · rename_i large
    have lt := UInt32.lt_iff_toNat_lt.mp large
    omega
  · rename_i small
    have le := Nat.le_of_not_lt fun lt => small (UInt32.lt_iff_toNat_lt.mpr lt)
    omega

/-- A pass of the copying loop takes what is asked for from the cluster at hand. -/
lemma readBody_pass {buf : UInt32} {r : ReadData} (s : Sectors v) (fits : buf.toNat + clusterSize v < 2 ^ 32)
    (left : 0 < r.bytesRemaining.toNat) (more : isEofCluster r.currentCluster = false)
    (ok : ClusterReadable v r.currentCluster) (here : r.clusterOffset.toNat < clusterSize v) :
    ∃ k : UInt32, k.toNat = min r.bytesRemaining.toNat (clusterSize v - r.clusterOffset.toNat) ∧
      readBody v buf r = .next {
        mem := r.mem.storeBytes buf (clusterRead v r.currentCluster)
        data := r.data ++ ((clusterRead v r.currentCluster).drop r.clusterOffset.toNat).take r.bytesRemaining.toNat
        bytesRead := r.bytesRead + k
        bytesRemaining := r.bytesRemaining - k
        currentCluster := fatEntry (r.mem.storeBytes buf (clusterRead v r.currentCluster)) v.gFat r.currentCluster
        clusterOffset := 0 } := by
  have len := clusterRead_length ok
  have size := s.toNat_bytesPerCluster
  have count := toRead_toNat (v := v) (r := r) (by omega)
  rw [size] at count
  -- what is copied is a slice of the buffer that has just been filled
  have loaded : (r.mem.storeBytes buf (clusterRead v r.currentCluster)).loadBytes buf (clusterSize v) =
      clusterRead v r.currentCluster := by
    rw [← len]
    exact Memory.loadBytes_storeBytes (by omega)
  have part : (r.mem.storeBytes buf (clusterRead v r.currentCluster)).loadBytes (buf + r.clusterOffset)
      (toRead v r).toNat = ((clusterRead v r.currentCluster).drop r.clusterOffset.toNat).take
        r.bytesRemaining.toNat := by
    have slice := Memory.loadBytes_slice (m := r.mem.storeBytes buf (clusterRead v r.currentCluster)) (a := buf)
      (n := clusterSize v) r.clusterOffset.toNat r.bytesRemaining.toNat
    rw [loaded, UInt32.ofNat_toNat, ← count] at slice
    exact slice.symm
  refine ⟨toRead v r, count, ?_⟩
  rw [readBody_next ⟨⟨UInt32.lt_iff_toNat_lt.mpr left, more⟩, ok⟩, ← part]
  rfl

/-- The copying loop appends what the chain holds from the offset on, as far as it is asked for. -/
lemma read_chain {buf : UInt32} {r : ReadData} (m₀ : Memory) (s : Sectors v)
    (fits : buf.toNat + clusterSize v < 2 ^ 32)
    (chain : Linked (nextDataCluster v) (dataCluster r.currentCluster) cs) (readable : ∀ d ∈ cs, ClusterReadable v d)
    (table : ∀ d ∈ cs, ∀ m, Memory.SameOutside buf (clusterSize v) m₀ m →
        fatEntry m v.gFat d = fatEntry v.heap.mem v.gFat d)
    (same : Memory.SameOutside buf (clusterSize v) m₀ r.mem) (first : cs = [] ∨ r.clusterOffset.toNat < clusterSize v)
    (small : r.bytesRead.toNat + cs.length * clusterSize v < 2 ^ 32) :
    ∃ r', loop (readBody v buf) r = some (r', true) ∧ Memory.SameOutside buf (clusterSize v) m₀ r'.mem ∧
      r'.data = r.data ++ ((content v cs).drop r.clusterOffset.toNat).take r.bytesRemaining.toNat ∧
      r'.bytesRead.toNat = r.bytesRead.toNat +
        min r.bytesRemaining.toNat (cs.length * clusterSize v - r.clusterOffset.toNat) := by
  -- the table is read from memory that the buffer has been written to, so each step needs that it lies elsewhere
  generalize e : dataCluster r.currentCluster = p at chain
  induction chain generalizing r with
  | nil =>
    refine ⟨r, loop_done ?_, same, ?_, by simp⟩
    · simp [readBody, dataCluster_none.mp e]
    · simp [content]
  | @cons q cs chain ih =>
    obtain ⟨more, cur⟩ := dataCluster_some.mp e
    have here := first.resolve_left (by simp)
    have ok := readable q List.mem_cons_self
    have len := clusterRead_length ok
    have split : content v (q :: cs) = clusterRead v q ++ content v cs := by
      rw [clusterRead_eq ok]
      exact List.flatMap_cons
    by_cases left : 0 < r.bytesRemaining.toNat
    · obtain ⟨k, count, pass⟩ := readBody_pass s fits left more (by rw [cur]; exact ok) here
      rw [cur] at pass
      rw [List.length_cons, Nat.succ_mul] at small ⊢
      have same' : Memory.SameOutside buf (clusterSize v) m₀ (r.mem.storeBytes buf (clusterRead v q)) := fun x out => by
        rw [storeBytes_within (Nat.le_refl _) (by omega) (by omega) out, same x out]
      have taken : (r.bytesRead + k).toNat = r.bytesRead.toNat + k.toNat := toNat_add_of_lt (by omega)
      have rest : (r.bytesRemaining - k).toNat = r.bytesRemaining.toNat - k.toNat := sub_toNat_of_le (by omega)
      have next := table q List.mem_cons_self _ same'
      obtain ⟨r', run, end', data, total⟩ := ih
        (r := ⟨r.mem.storeBytes buf (clusterRead v q), _, r.bytesRead + k, r.bytesRemaining - k,
          fatEntry (r.mem.storeBytes buf (clusterRead v q)) v.gFat q, 0⟩)
        (fun d hd => readable d (List.mem_cons_of_mem q hd)) (fun d hd => table d (List.mem_cons_of_mem q hd)) same'
        (.inr s.clusterSize_pos) (by dsimp only; omega) (by rw [next]; rfl)
      refine ⟨r', (loop_next pass).trans run, end', ?_, ?_⟩
      · rw [data, split, List.drop_append_of_le_length (by omega), List.take_append, List.append_assoc]
        congr 2
        simp only [List.length_drop, len]
        rw [rest, count]
        congr 1
        omega
      · rw [total]
        dsimp only
        rw [taken, rest, count]
        have zero : (0 : UInt32).toNat = 0 := rfl
        omega
    -- nothing is left to copy, though the chain goes on
    · have none : r.bytesRemaining.toNat = 0 := by omega
      refine ⟨r, loop_done ?_, same, by simp [none], by simp [none]⟩
      rw [readBody, if_neg]
      rintro ⟨gt, -⟩
      exact left (UInt32.lt_iff_toNat_lt.mp gt)

/-! ## The call. -/

/-- The kernel heap has room for the cluster buffer. -/
def Allocates (v : Volume) : Prop := ∃ p h, kmalloc v.heap (bytesPerCluster v) = some (p, h) ∧ p ≠ 0

/-- What a call leaves of a volume: the heap has the same blocks, and those in use the same bytes. -/
structure Untouched (l : List Block) (v v' : Volume) : Prop where
  eq : v' = { v with heap := v'.heap }
  heap : Valid v'.heap l
  keeps : Keeps l v.heap.mem v'.heap.mem

lemma Sectors.not_wraps (s : Sectors v) : ¬ Wraps (bytesPerCluster v) := by
  have size := s.toNat_bytesPerCluster
  have bound : clusterSize v ≤ 512 * 255 := clusterSize_le
  rintro ⟨lo, -⟩
  omega

/-- A chain depends on the blocks in use only. -/
lemma DataChain.keeps {h : Heap} (ch : DataChain v c cs) (b : Backed v l) (keeps : Keeps l v.heap.mem h.mem) :
    DataChain { v with heap := h } c cs := by
  refine ⟨ch.linked.congr fun d hd => ?_, ch.inside, ch.readable⟩
  exact congrArg dataCluster (b.fatEntry_eq keeps (ch.inside d hd))

/-- With a cluster buffer the call copies from the chain, and gives the buffer back. -/
lemma readClusters_spec {buf : UInt32} {d : Block} (valid : Valid v.heap l) (mem : d ∈ l) (used : d.used = true)
    (addr : buf.toNat = d.addr + 12) (le : clusterSize v ≤ d.size) (s : Sectors v) (ch : DataChain v c cs)
    (table : ∀ d ∈ cs, ∀ m, Memory.SameOutside buf (clusterSize v) v.heap.mem m →
      fatEntry m v.gFat d = fatEntry v.heap.mem v.gFat d)
    (small : cs.length * clusterSize v < 2 ^ 31) (offset size : UInt32) :
    ∃ m h l', readClusters v buf c offset size =
      some (((min size.toNat (cs.length * clusterSize v - offset.toNat) : Nat) : Int),
        ((content v cs).drop offset.toNat).take size.toNat, { v with heap := h }) ∧
      Memory.SameOutside buf (clusterSize v) v.heap.mem m ∧ Valid h l' ∧ Released l l' buf ∧ Keeps l' m h.mem := by
  obtain ⟨lo, hi⟩ := valid.bounds mem
  rw [Block.limit] at hi
  obtain ⟨c', k, pre, rest, skip, rfl, linked, at', le', last⟩ :=
    skip_chain (k := 0) offset s ch.linked (Nat.zero_le _) (by simpa using small)
  have readable : ∀ d ∈ rest, ClusterReadable v d := fun d hd => ch.readable d (List.mem_append_right pre hd)
  rw [List.length_append, Nat.add_mul] at small ⊢
  rw [UInt32.toNat_zero, Nat.zero_add] at at'
  have distance : (offset - k).toNat = offset.toNat - k.toNat := sub_toNat_of_le le'
  obtain ⟨r, run, same, data, total⟩ := read_chain
    (r := ⟨v.heap.mem, [], 0, size, c', offset - k⟩) v.heap.mem s (by omega) linked readable
    (fun d hd => table d (List.mem_append_right pre hd)) (fun _ _ => rfl)
    (last.imp_right fun lt => by dsimp only; omega) (by simp only [UInt32.toNat_zero]; omega)
  -- the copying has written inside the payload of the buffer only
  have valid' : Valid { v.heap with mem := r.mem } l := by
    refine valid.of_outside mem fun x out => same x ?_
    rw [Block.limit] at out
    omega
  obtain ⟨h, l', free, valid'', rel, keeps⟩ := kfree_effect valid' mem used addr
  refine ⟨r.mem, h, l', ?_, same, valid'', rel, keeps⟩
  have before : (content v pre).length = k.toNat := by
    rw [content_length fun d hd => ch.readable d (List.mem_append_left rest hd), at']
  have split : content v (pre ++ rest) = content v pre ++ content v rest := List.flatMap_append
  have past : (content v (pre ++ rest)).drop offset.toNat = (content v rest).drop (offset.toNat - k.toNat) := by
    rw [split, List.drop_append, before, List.drop_eq_nil_of_le (by omega), List.nil_append]
  simp only [UInt32.toNat_zero, Nat.zero_add, distance] at total
  simp only [List.nil_append, distance] at data
  have count : r.bytesRead.toNat = min size.toNat (pre.length * clusterSize v + rest.length * clusterSize v -
      offset.toNat) := by omega
  have signed : r.bytesRead.toInt32.toInt = r.bytesRead.toNat := toInt_of_lt (by omega)
  rw [readClusters, skip]
  dsimp only
  rw [run]
  dsimp only
  rw [free]
  dsimp only
  rw [if_pos rfl, signed, count, data, past]

/-- One call returns the bytes of the chain from the offset on, as far as it is asked for, and leaves the volume. -/
lemma read_spec (b : Backed v l) (s : Sectors v) (ch : DataChain v c cs) (small : cs.length * clusterSize v < 2 ^ 31)
    (room : Allocates v) (offset size : UInt32) : ∃ v', Untouched l v v' ∧ fat32ReadFileData v c offset size =
      some (((min size.toNat (cs.length * clusterSize v - offset.toNat) : Nat) : Int),
        ((content v cs).drop offset.toNat).take size.toNat, v') := by
  rw [fat32ReadFileData, if_neg (by simp [b.init])]
  by_cases empty : size = 0
  · subst empty
    exact ⟨v, ⟨rfl, b.heap, .refl⟩, by simp⟩
  · obtain ⟨p, h, alloc, ne⟩ := room
    obtain ⟨p', h', l', alloc', valid, keeps, ⟨rfl, -⟩ | ⟨-, allocated, -⟩⟩ := kmalloc_effect b.heap s.not_wraps
    · cases alloc.symm.trans alloc'
      exact (ne rfl).elim
    · cases alloc.symm.trans alloc'
      obtain ⟨d, used, addr, le, -, made⟩ := id allocated
      have size' := s.toNat_bytesPerCluster
      have frame (m : Memory) (same : Memory.SameOutside p (clusterSize v) h.mem m) : Keeps l h.mem m :=
        allocated.keeps valid (by rw [size']; exact same)
      obtain ⟨m, h'', l'', run, same, valid', rel, keeps'⟩ := readClusters_spec (v := { v with heap := h }) valid
        ((made d used).mpr (.inl rfl)) used addr (size'.symm.trans_le le) ⟨s.bytes, s.pos⟩ (ch.keeps b keeps)
        (fun e he m same => b.fatEntry_eq (frame m same) (ch.inside e he)) small offset size
      obtain rfl := allocated.released rel b.heap valid valid'
      refine ⟨{ v with heap := h'' }, ⟨rfl, valid', keeps.trans ((frame m same).trans keeps')⟩, ?_⟩
      rw [if_neg empty, alloc]
      dsimp only
      rw [if_neg ne]
      exact run

/-! ## Consecutive calls. -/

lemma Untouched.trans {v'' : Volume} (u : Untouched l v v') (u' : Untouched l v' v'') : Untouched l v v'' := by
  refine ⟨?_, u'.heap, u.keeps.trans u'.keeps⟩
  rw [u'.eq, u.eq]

/-- The buffer is allocated when a free block is large enough for it. -/
lemma allocates_of_fit {b : Block} (valid : Valid v.heap l) (s : Sectors v) (mem : b ∈ l)
    (fit : Fits (request (bytesPerCluster v)) b) : Allocates v := by
  obtain ⟨p, h, _, alloc, -, -, ⟨-, -, -, none⟩ | ⟨ne, -⟩⟩ := kmalloc_effect valid s.not_wraps
  · exact (none b mem fit).elim
  · exact ⟨p, h, alloc, ne⟩

/-- A call finds a volume as the call before found it. -/
lemma Untouched.again (u : Untouched l v v') (b : Backed v l) (s : Sectors v) (ch : DataChain v c cs)
    (room : Allocates v) :
        Backed v' l ∧ Sectors v' ∧ DataChain v' c cs ∧ Allocates v' ∧ clusterSize v' = clusterSize v ∧
      content v' cs = content v cs := by
  obtain ⟨eq, valid, keeps⟩ := u
  generalize v'.heap = h at eq valid keeps
  subst eq
  have sectors : Sectors { v with heap := h } := ⟨s.bytes, s.pos⟩
  refine ⟨b.withHeap valid fun _ mem _ => mem, sectors, ch.keeps b keeps, ?_, rfl, rfl⟩
  obtain ⟨p, h₁, alloc, ne⟩ := room
  obtain ⟨_, _, _, alloc', -, -, ⟨rfl, -⟩ | ⟨-, -, block, mem, fit⟩⟩ := kmalloc_effect b.heap s.not_wraps
  · cases alloc.symm.trans alloc'
    exact (ne rfl).elim
  · -- the block that was free is free again
    exact allocates_of_fit valid sectors mem fit

/-- Reads of several sizes, each from where the one before ended: the bytes, one behind the other, and the volume. -/
def readPieces (c : UInt32) : Volume → UInt32 → List UInt32 → Option (List UInt8 × Volume)
  | v, _, [] => some ([], v)
  | v, offset, size :: sizes =>
    match fat32ReadFileData v c offset size with
    | none => none
    | some (_, data, v) =>
      match readPieces c v (offset + size) sizes with
      | none => none
      | some (rest, v) => some (data ++ rest, v)

lemma pieces_spec {o : Nat} (sizes : List UInt32) (b : Backed v l) (s : Sectors v) (ch : DataChain v c cs)
    (small : cs.length * clusterSize v < 2 ^ 31) (room : Allocates v)
    (fits : o + (sizes.map UInt32.toNat).sum ≤ 2 ^ 32) : ∃ v', Untouched l v v' ∧
      readPieces c v (UInt32.ofNat o) sizes = some (((content v cs).drop o).take (sizes.map UInt32.toNat).sum, v') := by
  induction sizes generalizing v o with
  | nil => exact ⟨v, ⟨rfl, b.heap, .refl⟩, by simp [readPieces]⟩
  | cons size sizes ih =>
    rw [List.map_cons, List.sum_cons] at fits ⊢
    obtain ⟨v₁, u, run⟩ := read_spec b s ch small room (UInt32.ofNat o) size
    obtain ⟨b₁, s₁, ch₁, room₁, same, bytes⟩ := u.again b s ch room
    obtain ⟨v₂, u', run'⟩ := ih (o := o + size.toNat) b₁ s₁ ch₁ (by rwa [same]) room₁ (by omega)
    refine ⟨v₂, u.trans u', ?_⟩
    -- the offset wraps behind the last piece only, and nothing is read there
    have here : ((content v cs).drop (UInt32.ofNat o).toNat).take size.toNat =
        ((content v cs).drop o).take size.toNat := by
      by_cases last : o < 2 ^ 32
      · rw [toNat_ofNat_lt last]
      · have zero : size.toNat = 0 := by omega
        rw [zero, List.take_zero, List.take_zero]
    have next : UInt32.ofNat o + size = UInt32.ofNat (o + size.toNat) := by
      rw [UInt32.ofNat_add, UInt32.ofNat_toNat]
    rw [readPieces, run]
    dsimp only
    rw [next, run', bytes]
    dsimp only
    rw [here, List.take_add, List.drop_drop]

/-- `fat32_read_file_data` returns the number of bytes from the offset to the end of the chain, or the size asked for if
    that is less, and puts these bytes of the chain in the buffer. A range read in consecutive pieces gives the bytes of
    one read. -/
theorem readFileData_reads (b : Backed v l) (s : Sectors v) (ch : DataChain v c cs)
    (small : cs.length * clusterSize v < 2 ^ 31) (room : Allocates v) :
    (∀ offset size : UInt32, ∃ n v', n = min size.toNat (cs.length * clusterSize v - offset.toNat) ∧
      fat32ReadFileData v c offset size = some ((n : Int), ((content v cs).drop offset.toNat).take n, v')) ∧
    ∀ (offset size : UInt32) (sizes : List UInt32), (sizes.map UInt32.toNat).sum = size.toNat →
      offset.toNat + size.toNat ≤ 2 ^ 32 → ∃ n data v₁ v₂, readPieces c v offset sizes = some (data, v₁) ∧
        fat32ReadFileData v c offset size = some (n, data, v₂) := by
  constructor
  · intro offset size
    obtain ⟨v', -, run⟩ := read_spec b s ch small room offset size
    refine ⟨_, v', rfl, ?_⟩
    have len : ((content v cs).drop offset.toNat).length = cs.length * clusterSize v - offset.toNat := by
      rw [List.length_drop, content_length ch.readable]
    rw [run, ← len, ← List.take_eq_take_min]
  · intro offset size sizes sum fits
    obtain ⟨v₁, -, run⟩ := pieces_spec (o := offset.toNat) sizes b s ch small room (by omega)
    obtain ⟨v₂, -, run'⟩ := read_spec b s ch small room offset size
    rw [UInt32.ofNat_toNat, sum] at run
    exact ⟨_, _, v₁, v₂, run, run'⟩

/-- The blocks of the heap of that volume. -/
def tableBlocks : List Block := [⟨0xC0000000, 512, true⟩, ⟨0xC000020C, 0xFFDE8, false⟩]

lemma tableHeap_valid : Valid tableHeap tableBlocks where
  inited := rfl
  start := rfl
  limit := rfl
  max := rfl
  linked := by
    have second : next tableHeap.mem 0xC0000000 = 0xC000020C := by decide
    have last : next tableHeap.mem 0xC000020C = 0 := by decide
    refine ⟨⟨by decide, rfl, by decide, by decide, by decide⟩, ?_⟩
    rw [show next tableHeap.mem tableHeap.firstBlock = 0xC000020C from second]
    exact ⟨⟨by decide, rfl, by decide, by decide, by decide⟩, last⟩
  tiled := ⟨rfl, rfl, rfl⟩
  coalesced := by simp [Coalesced, tableBlocks]
  sized := by simp [tableBlocks]

/-- Another entry in the table leaves that heap valid. -/
lemma tableHeap_store {a : UInt32} (entry : UInt32) (lo : 0xC000000C ≤ a.toNat) (hi : a.toNat + 4 ≤ 0xC000020C) :
    Valid { tableHeap with mem := tableHeap.mem.store32 a entry } tableBlocks := by
  refine tableHeap_valid.payload (b := ⟨0xC0000000, 512, true⟩) (by simp [tableBlocks]) lo ?_
  rw [toBytes_length]
  exact hi

lemma chained_backed : Backed chained tableBlocks :=
  ⟨rfl, tableHeap_store 3 (by decide) (by decide), ⟨0xC0000000, 512, true⟩, by simp [tableBlocks], rfl, rfl, by decide⟩

lemma chained_data : DataChain chained 2 [2, 3] := by
  have next : nextDataCluster chained 2 = some 3 := by decide
  have stop : nextDataCluster chained 3 = none := by decide
  refine ⟨.cons ?_, chained_chain.inside, chained_chain.readable⟩
  rw [next]
  refine .cons ?_
  rw [stop]
  exact .nil

/-- Where the second cluster begins, at the byte 512. -/
lemma chained_content : ((content chained [2, 3]).drop 510).take 4 = [0, 0, 0x42, 0x20] := by
  decide +kernel

/-- Over two clusters: a range on both sides of their border, and one that reaches behind the end of the chain. -/
theorem readFileData_reads_chained :
    (∃ v', fat32ReadFileData chained 2 510 4 = some (4, [0, 0, 0x42, 0x20], v')) ∧
    (∃ data v', fat32ReadFileData chained 2 1000 100 = some (24, data, v')) ∧
    ∃ v', readPieces 2 chained 510 [1, 2, 1] = some ([0, 0, 0x42, 0x20], v') := by
  have sectors : Sectors chained := ⟨rfl, by decide⟩
  have room : Allocates chained := allocates_of_fit (b := ⟨0xC000020C, 0xFFDE8, false⟩) chained_backed.heap sectors
    (by simp [tableBlocks]) ⟨rfl, by decide⟩
  obtain ⟨reads, pieces⟩ := readFileData_reads chained_backed sectors chained_data (by decide) room
  obtain ⟨n, v', count, run⟩ := reads 510 4
  obtain rfl : n = 4 := count
  have run' : fat32ReadFileData chained 2 510 4 = some (4, [0, 0, 0x42, 0x20], v') := by
    rw [run]
    rw [show (510 : UInt32).toNat = 510 from rfl, chained_content]
    rfl
  refine ⟨⟨v', run'⟩, ?_, ?_⟩
  · obtain ⟨n, v', count, run⟩ := reads 1000 100
    obtain rfl : n = 24 := count
    exact ⟨_, v', run⟩
  · obtain ⟨k, data, v₁, v₂, parts, whole⟩ := pieces 510 4 [1, 2, 1] rfl (by decide)
    cases run'.symm.trans whole
    exact ⟨v₁, parts⟩

end RetaOS.Fat
