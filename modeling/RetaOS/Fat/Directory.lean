import RetaOS.Fat.Defs
import Mathlib.Data.List.Find
import Mathlib.Data.List.Nodup
import Mathlib.Data.List.Perm.Subperm

/-!
# Directories

`fat32_find_entry` and `fat32_readdir_index` walk the same chain of clusters with loops of their own. Both are compared
with one list: the entries of a directory, in the order of the chain (`dirEntriesOf`). Finding is the first entry of
that list with the name, and reading by index is the entry at the index. The counter of `fat32_readdir_index` is a
32-bit word, and it does not wrap because a chain that ends visits each cluster once and the loaded table lies in the
heap, which bounds the clusters.
-/

namespace RetaOS.Fat
open Lib Vfs

variable {v : Volume} {disk : Disk} {name : List UInt8} {sector index k c : UInt32} {n : Nat} {es : List DirEntry}
  {cs : List UInt32} {a b : List UInt8}

/-! ## Names. -/

/-- Only `NUL` becomes `NUL` in lower case. -/
lemma tolower_ne_zero {x : UInt8} (h : x ≠ 0) : tolower x ≠ 0 := by
  unfold tolower
  split_ifs with upper
  · rw [UInt8.le_iff_toNat_le, UInt8.le_iff_toNat_le] at upper
    obtain ⟨lo, hi⟩ := upper
    change 0x41 ≤ x.toNat at lo
    change x.toNat ≤ 0x5A at hi
    intro zero
    have sum := congrArg UInt8.toNat zero
    rw [UInt8.toNat_add] at sum
    change (x.toNat + 0x20) % 256 = 0 at sum
    omega
  · exact h

/-- Strings without `NUL` compare as equal exactly when they are the same in lower case. -/
lemma strcasecmp_eq_zero (ha : 0 ∉ a) (hb : 0 ∉ b) : strcasecmp a b = 0 ↔ a.map tolower = b.map tolower := by
  have positive {x : UInt8} (h : x ≠ 0) : (tolower x).toNat ≠ 0 := fun zero =>
    tolower_ne_zero h (UInt8.toNat_inj.mp zero)
  induction a generalizing b with
  | nil =>
    cases b with
    | nil => simp [strcasecmp]
    | cons y t =>
      have ne := positive (List.ne_of_not_mem_cons hb).symm
      simp [strcasecmp, ne]
  | cons x s ih =>
    cases b with
    | nil =>
      have ne := positive (List.ne_of_not_mem_cons ha).symm
      simp [strcasecmp, ne]
    | cons y t =>
      have rest := ih (List.not_mem_of_not_mem_cons ha) (List.not_mem_of_not_mem_cons hb)
      by_cases same : tolower x = tolower y
      · simp [strcasecmp, same, rest]
      · have differ : ((tolower x).toNat : Int) - (tolower y).toNat ≠ 0 := fun zero =>
          same (UInt8.toNat_inj.mp (by omega))
        simp [strcasecmp, same, differ]

lemma entryName_nul (bytes : List UInt8) : 0 ∉ entryName bytes := by
  intro mem
  have := List.mem_takeWhile_imp mem
  simp at this

/-! ## The entries of a directory. -/

/-- The entries that are not skipped. -/
def shown (es : List DirEntry) : List Dir := (es.filter fun de => !skipped de).map fillDir

lemma shown_skip {de : DirEntry} (skip : skipped de = true) : shown (de :: es) = shown es := by
  rw [shown, shown, List.filter_cons_of_neg (by simp [skip])]

lemma shown_keep {de : DirEntry} (keep : skipped de = false) : shown (de :: es) = fillDir de :: shown es := by
  rw [shown, shown, List.filter_cons_of_pos (by simp [keep]), List.map_cons]

lemma shown_append (a b : List DirEntry) : shown (a ++ b) = shown a ++ shown b := by
  rw [shown, List.filter_append, List.map_append]
  rfl

/-- The entries in `n` sectors. -/
def sectorDirs (disk : Disk) (sector : UInt32) : Nat → List Dir
  | 0 => []
  | n + 1 => shown (dirEntries (readSectors disk sector 1).1) ++ sectorDirs disk (sector + 1) n

/-- The entries in a cluster. -/
def clusterDirs (v : Volume) (c : UInt32) : List Dir :=
  sectorDirs v.disk (getFirstSectorOfCluster v c) v.gBootSector.sectorsPerCluster.toNat

/-- The entries in the clusters of a chain. -/
def dirEntriesOf (v : Volume) (cs : List UInt32) : List Dir := cs.flatMap (clusterDirs v)

/-- Every one of `n` sectors can be read. -/
def Readable (disk : Disk) (sector : UInt32) (n : Nat) : Prop := (ataRead28Lba disk sector n).2 = true

/-- The cluster that a chain of a directory goes on with. -/
def dirCluster (c : UInt32) : Option UInt32 := if isEofCluster c = false ∧ c ≠ 0 then some c else none

/-- The cluster behind one in the table. -/
def nextDirCluster (v : Volume) (c : UInt32) : Option UInt32 := dirCluster (fatEntry v.heap.mem v.gFat c)

/-- What finding makes of a list of entries. -/
def Scan.ofFind (name : List UInt8) (l : List Dir) : Scan Unit :=
  match l.find? fun d => strcasecmp d.name name = 0 with
  | some d => .found d
  | none => .more ()

/-- What reading by index makes of a list of entries, behind `k` others. -/
def Scan.ofIndex (index k : UInt32) (l : List Dir) : Scan UInt32 :=
  match l[index.toNat - k.toNat]? with
  | some d => .found d
  | none => .more (k + UInt32.ofNat l.length)

lemma findInEntries_eq : findInEntries name es = .ofFind name (shown es) := by
  induction es with
  | nil => rfl
  | cons de rest ih =>
    rw [findInEntries]
    by_cases skip : skipped de = true
    · rw [if_pos skip, ih, shown_skip skip]
    · rw [if_neg skip, ih, shown_keep (by simpa using skip), Scan.ofFind, Scan.ofFind, List.find?_cons]
      have same : (fillDir de).name = entryName de.name := rfl
      by_cases eq : strcasecmp (entryName de.name) name = 0
      · simp [same, eq]
      · simp [same, eq]

/-- Finding in two lists, one behind the other. -/
lemma Scan.ofFind_append (l l' : List Dir) : Scan.ofFind name (l ++ l') =
    match Scan.ofFind name l with
    | .more () => Scan.ofFind name l'
    | r => r := by
  unfold Scan.ofFind
  rw [List.find?_append]
  cases l.find? fun d => strcasecmp d.name name = 0 with
  | none => rfl
  | some d => rfl

/-- Reading by index in two lists, one behind the other. -/
lemma Scan.ofIndex_append {l l' : List Dir} (small : k.toNat + l.length < 2 ^ 32) :
    Scan.ofIndex index k (l ++ l') =
    match Scan.ofIndex index k l with
    | .more k => Scan.ofIndex index k l'
    | r => r := by
  unfold Scan.ofIndex
  by_cases inside : index.toNat - k.toNat < l.length
  · rw [List.getElem?_append_left inside, List.getElem?_eq_getElem inside]
  · have sum := toNat_add_ofNat small
    have shift : index.toNat - k.toNat - l.length = index.toNat - (k + UInt32.ofNat l.length).toNat := by omega
    rw [List.getElem?_append_right (by omega), List.getElem?_eq_none (Nat.le_of_not_lt inside), shift]
    dsimp only
    rw [List.length_append, UInt32.ofNat_add, ← UInt32.add_assoc]

/-- Where the counter stands behind a list that does not hold the index. -/
lemma Scan.ofIndex_more {l : List Dir} {k' : UInt32} (le : k.toNat ≤ index.toNat) (small : k.toNat + l.length < 2 ^ 32)
    (h : Scan.ofIndex index k l = .more k') : k'.toNat = k.toNat + l.length ∧ k'.toNat ≤ index.toNat := by
  unfold Scan.ofIndex at h
  by_cases inside : index.toNat - k.toNat < l.length
  · rw [List.getElem?_eq_getElem inside] at h
    cases h
  · rw [List.getElem?_eq_none (Nat.le_of_not_lt inside)] at h
    cases h
    rw [toNat_add_ofNat small]
    omega

lemma indexInEntries_eq (le : k.toNat ≤ index.toNat) (small : k.toNat + (shown es).length < 2 ^ 32) :
    indexInEntries index k es = .ofIndex index k (shown es) := by
  induction es generalizing k with
  | nil => simp [indexInEntries, shown, Scan.ofIndex]
  | cons de rest ih =>
    rw [indexInEntries]
    by_cases skip : skipped de = true
    · rw [shown_skip skip] at small ⊢
      rw [if_pos skip, ih le small]
    · have first : shown (de :: rest) = [fillDir de] ++ shown rest := shown_keep (by simpa using skip)
      rw [first, List.length_append] at small
      rw [if_neg skip, first, Scan.ofIndex_append (by omega)]
      by_cases here : k = index
      · subst here
        simp [Scan.ofIndex]
      · have ne : k.toNat ≠ index.toNat := fun eq => here (UInt32.toNat_inj.mp eq)
        have sum : (k + 1).toNat = k.toNat + 1 := toNat_add_ofNat (n := 1) (by simp at small; omega)
        have later : index.toNat - k.toNat = (index.toNat - k.toNat - 1) + 1 := by omega
        have past : Scan.ofIndex index k [fillDir de] = .more (k + 1) := by
          rw [Scan.ofIndex, later]
          rfl
        rw [if_neg here, past, ih (by omega) (by simp at small; omega)]

/-! ## Sectors and clusters. -/

/-- The first of several readable sectors, and the others. -/
lemma Readable.cons (h : Readable disk sector (n + 1)) :
    (∃ bytes, readSectors disk sector 1 = (bytes, true)) ∧ Readable disk (sector + 1) n := by
  unfold Readable ataRead28Lba at h
  cases hs : disk (sector &&& 0x0FFFFFFF) with
  | none => simp [hs] at h
  | some s => exact ⟨⟨s.bytes ++ [], by simp [readSectors, ataRead28Lba, hs]⟩, by simpa [hs, Readable] using h⟩

lemma findInSectors_eq (name : List UInt8) (h : Readable disk sector n) :
    findInSectors disk name sector n = .ofFind name (sectorDirs disk sector n) := by
  induction n generalizing sector with
  | zero => rfl
  | succ n ih =>
    obtain ⟨⟨bytes, read⟩, rest⟩ := h.cons
    rw [findInSectors, sectorDirs, read, Scan.ofFind_append, ← ih rest]
    dsimp only
    cases part : Scan.ofFind name (shown (dirEntries bytes)) with
    | found d => simp only [findInEntries_eq, part]
    | failed => simp only [findInEntries_eq, part]
    | more => simp only [findInEntries_eq, part]

lemma indexInSectors_eq (h : Readable disk sector n) (le : k.toNat ≤ index.toNat)
    (small : k.toNat + (sectorDirs disk sector n).length < 2 ^ 32) :
    indexInSectors disk index sector k n = .ofIndex index k (sectorDirs disk sector n) := by
  induction n generalizing sector k with
  | zero => simp [indexInSectors, sectorDirs, Scan.ofIndex]
  | succ n ih =>
    obtain ⟨⟨bytes, read⟩, rest⟩ := h.cons
    rw [sectorDirs, List.length_append, read] at small
    dsimp only at small
    rw [indexInSectors, sectorDirs, read, Scan.ofIndex_append (by dsimp only; omega)]
    dsimp only
    rw [indexInEntries_eq le (by omega)]
    cases part : Scan.ofIndex index k (shown (dirEntries bytes)) with
    | found d => rfl
    | failed => rfl
    | more k' =>
      obtain ⟨count, le'⟩ := Scan.ofIndex_more le (by omega) part
      exact ih rest le' (by omega)

/-! ## Chains. -/

/-- What `fat32_find_entry` returns when the entries are those of a list. -/
def findResult (name : List UInt8) (l : List Dir) : Except Int Dir :=
  match l.find? fun d => strcasecmp d.name name = 0 with
  | some d => .ok d
  | none => .error (-ENOENT)

/-- What `fat32_readdir_index` returns when the entries are those of a list. -/
def indexResult (i : Nat) (l : List Dir) : Except Int Dir :=
  match l[i]? with
  | some d => .ok d
  | none => .error (-ENOENT)

/-- Every sector of a cluster can be read. -/
def ClusterReadable (v : Volume) (c : UInt32) : Prop :=
  Readable v.disk (getFirstSectorOfCluster v c) v.gBootSector.sectorsPerCluster.toNat

lemma dirCluster_none : dirCluster c = none ↔ ¬ (isEofCluster c = false ∧ c ≠ 0) := by
  simp [dirCluster]

lemma dirCluster_some {d : UInt32} (e : dirCluster c = some d) : (isEofCluster c = false ∧ c ≠ 0) ∧ c = d := by
  have here : isEofCluster c = false ∧ c ≠ 0 := by
    by_contra stop
    cases e.symm.trans (dirCluster_none.mpr stop)
  exact ⟨here, by simpa [dirCluster, here] using e⟩

/-- Finding along a chain that ends. -/
lemma find_chain (chain : Linked (nextDirCluster v) (dirCluster c) cs) (readable : ∀ c ∈ cs, ClusterReadable v c) :
    loop (findBody v name) c = some (findResult name (dirEntriesOf v cs)) := by
  generalize e : dirCluster c = p at chain
  induction chain generalizing c with
  | nil =>
    apply loop_done
    rw [findBody, if_neg (dirCluster_none.mp e)]
    rfl
  | @cons q cs chain ih =>
    obtain ⟨here, rfl⟩ := dirCluster_some e
    have scan := findInSectors_eq name (readable c List.mem_cons_self)
    have split : dirEntriesOf v (c :: cs) = clusterDirs v c ++ dirEntriesOf v cs := List.flatMap_cons
    rw [split, findResult, List.find?_append]
    rw [← clusterDirs, Scan.ofFind] at scan
    cases found : (clusterDirs v c).find? fun d => strcasecmp d.name name = 0 with
    | some d =>
      apply loop_done
      simp [findBody, here, scan, found]
    | none =>
      have pass : findBody v name c = .next (fatEntry v.heap.mem v.gFat c) := by simp [findBody, here, scan, found]
      rw [loop_next pass]
      exact ih (fun c hc => readable c (List.mem_cons_of_mem _ hc)) rfl

/-- Reading by index along a chain that ends. -/
lemma index_chain (chain : Linked (nextDirCluster v) (dirCluster c) cs) (readable : ∀ c ∈ cs, ClusterReadable v c)
    (le : k.toNat ≤ index.toNat) (small : k.toNat + (dirEntriesOf v cs).length < 2 ^ 32) :
    loop (indexBody v index) (c, k) = some (indexResult (index.toNat - k.toNat) (dirEntriesOf v cs)) := by
  generalize e : dirCluster c = p at chain
  induction chain generalizing c k with
  | nil =>
    apply loop_done
    rw [indexBody, if_neg (dirCluster_none.mp e)]
    rfl
  | @cons q cs chain ih =>
    obtain ⟨here, rfl⟩ := dirCluster_some e
    have split : dirEntriesOf v (c :: cs) = clusterDirs v c ++ dirEntriesOf v cs := List.flatMap_cons
    rw [split, List.length_append] at small
    have scan := indexInSectors_eq (readable c List.mem_cons_self) le (by rw [← clusterDirs]; omega)
    rw [← clusterDirs] at scan
    rw [split]
    by_cases inside : index.toNat - k.toNat < (clusterDirs v c).length
    · have part : Scan.ofIndex index k (clusterDirs v c) = .found (clusterDirs v c)[index.toNat - k.toNat] := by
        rw [Scan.ofIndex, List.getElem?_eq_getElem inside]
      apply loop_done
      rw [indexBody, if_pos here, scan, part, indexResult, List.getElem?_append_left inside,
        List.getElem?_eq_getElem inside]
    · have part : Scan.ofIndex index k (clusterDirs v c) = .more (k + UInt32.ofNat (clusterDirs v c).length) := by
        rw [Scan.ofIndex, List.getElem?_eq_none (Nat.le_of_not_lt inside)]
      obtain ⟨count, le'⟩ := Scan.ofIndex_more le (by omega) part
      have pass : indexBody v index (c, k) =
          .next (fatEntry v.heap.mem v.gFat c, k + UInt32.ofNat (clusterDirs v c).length) := by
        rw [indexBody, if_pos here, scan, part]
      have shift : index.toNat - k.toNat - (clusterDirs v c).length =
          index.toNat - (k + UInt32.ofNat (clusterDirs v c).length).toNat := by omega
      rw [loop_next pass, ih (fun c hc => readable c (List.mem_cons_of_mem _ hc)) le' (by omega) rfl, indexResult,
        indexResult, List.getElem?_append_right (Nat.le_of_not_lt inside), shift]

/-! ## Both functions. -/

/-- `fat_size`. -/
def fatSize (v : Volume) : UInt32 := v.gBootSector.fatSize32 * v.gBootSector.bytesPerSector.toUInt32

/-- The volume is initialised and its table lies in the region of the kernel heap. -/
structure Loaded (v : Volume) : Prop where
  init : v.gInitialized = true
  low : 0xC0000000 ≤ v.gFat.toNat
  high : v.gFat.toNat + (fatSize v).toNat ≤ 0xC0100000

/-- A chain of clusters of the loaded table that ends. -/
structure DirChain (v : Volume) (c : UInt32) (cs : List UInt32) : Prop where
  linked : Linked (nextDirCluster v) (dirCluster c) cs
  inside : ∀ d ∈ cs, d.toNat < (fatSize v).toNat / 4
  readable : ∀ d ∈ cs, ClusterReadable v d

lemma sectorDirs_length : (sectorDirs disk sector n).length ≤ 16 * n := by
  induction n generalizing sector with
  | zero => simp [sectorDirs]
  | succ n ih =>
    have rest : (sectorDirs disk (sector + 1) n).length ≤ 16 * n := ih
    have first : (shown (dirEntries (readSectors disk sector 1).1)).length ≤ 16 := by
      rw [shown, List.length_map]
      refine (List.length_filter_le _ _).trans ?_
      simp [dirEntries]
    rw [sectorDirs, List.length_append]
    omega

lemma dirEntriesOf_length : (dirEntriesOf v cs).length ≤ 4080 * cs.length := by
  induction cs with
  | nil => simp [dirEntriesOf]
  | cons c cs ih =>
    have split : dirEntriesOf v (c :: cs) = clusterDirs v c ++ dirEntriesOf v cs := List.flatMap_cons
    have first : (clusterDirs v c).length ≤ 16 * v.gBootSector.sectorsPerCluster.toNat := sectorDirs_length
    have byte := v.gBootSector.sectorsPerCluster.toNat_lt
    rw [split, List.length_append, List.length_cons]
    omega

/-- A chain that ends visits each cluster of the table once. -/
lemma DirChain.length_le (ch : DirChain v c cs) : cs.length ≤ (fatSize v).toNat / 4 := by
  have distinct : (cs.map UInt32.toNat).Nodup := ch.linked.nodup.map fun _ _ h => UInt32.toNat_inj.mp h
  have sub : cs.map UInt32.toNat ⊆ List.range ((fatSize v).toNat / 4) := by
    intro k hk
    obtain ⟨d, hd, rfl⟩ := List.mem_map.mp hk
    exact List.mem_range.mpr (ch.inside d hd)
  have le := (List.subperm_of_subset distinct sub).length_le
  simpa using le

/-- A directory of a loaded volume has fewer entries than a word can count. -/
lemma DirChain.small (ch : DirChain v c cs) (l : Loaded v) : (dirEntriesOf v cs).length < 2 ^ 32 := by
  have entries : (dirEntriesOf v cs).length ≤ 4080 * cs.length := dirEntriesOf_length
  have clusters := ch.length_le
  have low := l.low
  have high := l.high
  omega

/-- The names of entries are strings. -/
lemma sectorDirs_nul {d : Dir} (h : d ∈ sectorDirs disk sector n) : 0 ∉ d.name := by
  induction n generalizing sector with
  | zero => cases h
  | succ n ih =>
    rcases List.mem_append.mp h with h | h
    · obtain ⟨de, -, rfl⟩ := List.mem_map.mp h
      exact entryName_nul de.name
    · exact ih h

/-- The two functions that read directories agree: there is one list of entries that `fat32_readdir_index` returns by
    their index, with `-ENOENT` behind its end, and `fat32_find_entry` returns the first of them whose name is the one
    asked for but for the case. -/
theorem findEntry_readdirIndex (l : Loaded v) (ch : DirChain v c cs) : ∃ E : List Dir, E.length < 2 ^ 32 ∧
    (∀ i : UInt32, fat32ReaddirIndex v c i =
      some (match E[i.toNat]? with
        | some d => .ok d
        | none => .error (-ENOENT))) ∧
    ∀ name : List UInt8, 0 ∉ name → fat32FindEntry v c name =
      some (match E.find? fun d => d.name.map tolower = name.map tolower with
        | some d => .ok d
        | none => .error (-ENOENT)) := by
  refine ⟨dirEntriesOf v cs, ch.small l, fun i => ?_, fun name nul => ?_⟩
  · rw [fat32ReaddirIndex, if_neg (by simp [l.init])]
    exact index_chain ch.linked ch.readable (Nat.zero_le _) (by simpa using ch.small l)
  · rw [fat32FindEntry, if_neg (by simp [l.init]), find_chain ch.linked ch.readable, findResult]
    have same : ((dirEntriesOf v cs).find? fun d => strcasecmp d.name name = 0) =
        (dirEntriesOf v cs).find? fun d => d.name.map tolower = name.map tolower := by
      refine List.find?_congr fun d hd => decide_eq_decide.mpr (strcasecmp_eq_zero ?_ nul)
      obtain ⟨c, -, hd⟩ := List.mem_flatMap.mp hd
      exact sectorDirs_nul hd
    rw [same]

/-! ## Directories of one cluster and of two. -/

/-- An entry with an 8.3 name, in 32 bytes: a regular file of a length, whose data starts at a cluster. -/
def fileEntry (name : List UInt8) (cluster length : Nat) : List UInt8 :=
  name ++ [0x20] ++ List.replicate 14 0 ++ toBytes 2 cluster ++ toBytes 4 length

/-- A sector that starts with a list of bytes. -/
def sectorOf (bytes : List UInt8) (short : bytes.length ≤ 512) : Sector where
  bytes := bytes ++ List.replicate (512 - bytes.length) 0
  length := by simp [short]

/-- A sector of zeros. -/
def emptySector : Sector := sectorOf [] (by decide)

/-- The directory with the file `A`, of one byte in cluster 3. -/
def rootSector : Sector := sectorOf (fileEntry [0x41, 32, 32, 32, 32, 32, 32, 32, 32, 32, 32] 3 1) (by decide)

/-- A kernel heap with a block of 512 bytes in use and a free one, of bytes 0xFF but for the headers. -/
def tableHeap : Kheap.Heap :=
  let m := Kheap.setUsed (Kheap.setSize (fun _ => 0xFF) 0xC0000000 512) 0xC0000000 1
  let m := Kheap.setUsed (Kheap.setSize (Kheap.setNext m 0xC0000000 0xC000020C) 0xC000020C 0xFFDE8) 0xC000020C 0
  ⟨Kheap.setNext m 0xC000020C 0, 0xC0000000, 0xC0000000, 0xC0100000, 0xC00FFFFF, true⟩

/-- A loaded volume on which every chain ends, and every sector is that directory. -/
def single : Volume where
  disk := fun _ => some rootSector
  heap := tableHeap
  gBootSector := ⟨512, 1, 1, 1, 8, 1, 2, []⟩
  gFat := 0xC000000C
  gTotalClusters := 6
  gFatBeginLba := 1
  gClusterBeginLba := 2
  gInitialized := true

/-- The volume with a table that links cluster 2 to cluster 3, which has the file `B`, of two bytes in cluster 5. -/
def chained : Volume :=
  { single with
    disk := fun lba =>
      some (if lba = 3 then sectorOf (fileEntry [0x42, 32, 32, 32, 32, 32, 32, 32, 32, 32, 32] 5 2) (by decide)
        else rootSector)
    heap := { tableHeap with mem := tableHeap.mem.store32 0xC0000014 3 } }

/-- The entries of its directory. -/
def chainedDirs : List Dir := [⟨[0x61], 1, 3, 0x20⟩, ⟨[0x62], 2, 5, 0x20⟩]

lemma chained_chain : DirChain chained 2 [2, 3] := by
  have next : nextDirCluster chained 2 = some 3 := by decide
  have stop : nextDirCluster chained 3 = none := by decide
  refine ⟨.cons ?_, ?_, ?_⟩
  · rw [next]
    refine .cons ?_
    rw [stop]
    exact .nil
  · exact List.forall_mem_cons.mpr ⟨by decide, List.forall_mem_singleton.mpr (by decide)⟩
  · intro d mem
    rfl

set_option maxRecDepth 8000 in
lemma chained_dirs : dirEntriesOf chained [2, 3] = chainedDirs := by
  rfl

lemma chained_loaded : Loaded chained := ⟨rfl, by decide, by decide⟩

lemma chained_index (i : UInt32) : fat32ReaddirIndex chained 2 i = some (indexResult i.toNat chainedDirs) := by
  have small := chained_chain.small chained_loaded
  have run : loop (indexBody chained i) (2, 0) = _ :=
    index_chain chained_chain.linked chained_chain.readable (Nat.zero_le _) (by simpa using small)
  rw [chained_dirs] at run
  exact run

/-- Results of an index tell the entries apart. -/
lemma indexResult_inj {E E' : List Dir} {k : Nat} (same : indexResult k E = indexResult k E') : E[k]? = E'[k]? := by
  rw [indexResult, indexResult] at same
  cases here : E[k]? with
  | none =>
    cases there : E'[k]? with
    | none => rfl
    | some d =>
      rw [here, there] at same
      cases same
  | some d =>
    cases there : E'[k]? with
    | none =>
      rw [here, there] at same
      cases same
    | some d' =>
      rw [here, there] at same
      cases same
      rfl

/-- The directory of cluster 2 of that volume goes over two clusters. -/
theorem findEntry_readdirIndex_chained :
    (∀ i : UInt32, fat32ReaddirIndex chained 2 i =
      some (match chainedDirs[i.toNat]? with
        | some d => .ok d
        | none => .error (-ENOENT))) ∧
    fat32FindEntry chained 2 [0x42] = some (.ok ⟨[0x62], 2, 5, 0x20⟩) ∧
    fat32FindEntry chained 2 [0x63] = some (.error (-ENOENT)) := by
  obtain ⟨E, small, index, find⟩ := findEntry_readdirIndex chained_loaded chained_chain
  have same : E = chainedDirs := by
    refine List.ext_getElem? fun n => ?_
    by_cases lt : n < 2 ^ 32
    · have known := chained_index (UInt32.ofNat n)
      rw [index, toNat_ofNat_lt lt] at known
      exact indexResult_inj (Option.some.inj known)
    · rw [List.getElem?_eq_none (by omega), List.getElem?_eq_none (Nat.le_trans (show 2 ≤ 2 ^ 32 by decide) (by omega))]
  subst same
  exact ⟨index, find [0x42] (by decide), find [0x63] (by decide)⟩

end RetaOS.Fat
