import RetaOS.Fat.Image
import RetaOS.Fat.InitSafety
import RetaOS.Kheap.Objects

/-!
# A file system that is served

`fat32_init` on a disk that holds a file system, and what the other functions return from then on. The table that it
loads is an object of the kernel heap, which other clients go on using (`Serves`). So chains of the table are chains of
the reader (`Serves.chain`), and every directory and every file that the disk holds is found and read as it is there,
after any number of reads and any operations of the other clients (`image_served`).
-/

namespace RetaOS.Fat
open Lib Vfs
open Kheap hiding Linked

/-- A mounted volume whose table is an object of the heap. -/
structure Serves (disk : Disk) (b : BootSector) (v : Volume) (o : Store) : Prop where
  source : v.disk = disk
  boot : v.gBootSector = b
  init : v.gInitialized = true
  base : v.gClusterBeginLba.toNat = dataStart b
  table : o v.gFat = some ((tableOn disk b).map some)
  heap : ∃ L, Represents v.heap L o

/-! ## Calls. -/

/-- A read of `fat32.c`, or an operation of another client of the heap. -/
inductive FatCall where
  | read (firstCluster offset size : UInt32)
  | other (op : ClientOp)

/-- The volume and the objects on the heap behind a call. -/
def FatCall.step : Volume × Store → FatCall → Option (Volume × Store)
  | (v, o), read c offset size => (fat32ReadFileData v c offset size).map fun (_, _, v) => (v, o)
  | (v, o), other op => (op.exec v.heap).map fun ((r, _), heap) => ({ v with heap }, op.objects o r)

variable {ι : Type}

/-- Reads stay inside of files, and the other clients keep to their own objects. -/
def FatCall.Legal (fs : FileSystem ι) (at_ : ι → UInt32) (x : Volume × Store) : FatCall → Prop
  | read c offset size => ∃ i bytes, fs.content i = .file bytes ∧ at_ i = c ∧ offset.toNat + size.toNat ≤ bytes.length
  | other op => op.Legal x.2 ∧ op.target ≠ x.1.gFat

/-- An entry that was asked for, or none. -/
def Answer (fs : FileSystem ι) (at_ : ι → UInt32) (e? : Option (List UInt8 × ι)) : Except Int Dir → Prop
  | .ok d => ∃ e, e? = some e ∧ Names fs at_ d e
  | .error ret => e? = none ∧ ret = -ENOENT

/-- The functions of `fat32.c` return what the file system holds. -/
structure Answers (fs : FileSystem ι) (at_ : ι → UInt32) (v : Volume) : Prop where
  find : ∀ i es, fs.content i = .directory es → ∀ name : List UInt8, 0 ∉ name →
    ∃ r, fat32FindEntry v (at_ i) name = some r ∧ Answer fs at_ (es.find? fun e => e.1 = name.map tolower) r
  index : ∀ i es, fs.content i = .directory es → ∀ k : UInt32,
    ∃ r, fat32ReaddirIndex v (at_ i) k = some r ∧ Answer fs at_ es[k.toNat]? r
  read : ∀ i bytes, fs.content i = .file bytes → ∀ offset size : UInt32, offset.toNat + size.toNat ≤ bytes.length →
    ∃ ret data v', fat32ReadFileData v (at_ i) offset size = some (ret, data, v') ∧
      (ret = size.toNat ∧ data = (bytes.drop offset.toNat).take size.toNat ∨
        ret = -ENOMEM ∧ data = [] ∧ ∃ heap, kmalloc v.heap (bytesPerCluster v) = some (0, heap))

/-- The entry that a client gets to when it looks up the components of a path one behind the other. -/
inductive Leads (v : Volume) : Dir → List (List UInt8) → Dir → Prop where
  | nil {d} : Leads v d [] d
  | cons {d d' d'' name path} :
    d.attributes &&& ATTR_DIRECTORY ≠ 0 →
    fat32FindEntry v d.cluster name = some (.ok d') →
    Leads v d' path d'' →
    Leads v d (name :: path) d''

/-- The root directory as an entry. -/
def rootDir (v : Volume) : Dir := ⟨[], 0, v.gBootSector.rootCluster, ATTR_DIRECTORY⟩

variable {disk : Disk} {b : BootSector} {v v' : Volume} {o : Store} {c : UInt32} {cs : List UInt32} {fs : FileSystem ι}
  {at_ : ι → UInt32} {es : List (List UInt8 × ι)} {ds : List Dir} {i j : ι} {L : Live} {l : List Block} {s s' : Heap}
  {name bytes : List UInt8}

/-! ## The table. -/

lemma Formatted.table_length (f : Formatted disk b) : (tableOn disk b).length = 512 * b.fatSize32.toNat :=
  f.table.sectors_length

lemma Formatted.tableSize_toNat (f : Formatted disk b) : (tableSize b).toNat = 512 * b.fatSize32.toNat := by
  have small := f.small
  have product : b.fatSize32.toNat * b.bytesPerSector.toNat < 2 ^ 32 := by
    rw [f.sector]
    change b.fatSize32.toNat * 512 < 2 ^ 32
    omega
  rw [Fat.tableSize_toNat product, f.sector]
  exact Nat.mul_comm _ _

lemma Serves.fatSize_toNat (s : Serves disk b v o) (f : Formatted disk b) :
    (fatSize v).toNat = 512 * b.fatSize32.toNat := by
  rw [fatSize, s.boot]
  exact f.tableSize_toNat

/-- The table lies in a block of the heap. -/
lemma Serves.backed (s : Serves disk b v o) (f : Formatted disk b) (rep : Represents v.heap L o)
    (valid : Valid v.heap l) (own : Owns l L) : Backed v l := by
  obtain ⟨d, mem, used, addr, le⟩ := own.block _ (rep.sizes.live s.table)
  have length := f.table_length
  have size := s.fatSize_toNat f
  rw [List.length_map] at le
  exact ⟨s.init, valid, d, mem, used, addr, by omega⟩

/-- The entries of the table in memory are those on the disk. -/
lemma Serves.fatEntry (s : Serves disk b v o) (f : Formatted disk b) (lt : c.toNat < 128 * b.fatSize32.toNat) :
    fatEntry v.heap.mem v.gFat c = linkOn disk b c := by
  obtain ⟨L, rep⟩ := s.heap
  have small := f.small
  have length := f.table_length
  have holds := rep.holds _ _ s.table
  have four : (((tableOn disk b).drop (4 * c.toNat)).take 4).length = 4 := by
    rw [List.length_take, List.length_drop]
    omega
  have known : (((tableOn disk b).map some).drop (4 * c.toNat)).take
      (((tableOn disk b).drop (4 * c.toNat)).take 4).length =
        (((tableOn disk b).drop (4 * c.toNat)).take 4).map some := by
    rw [four, List.map_take, List.map_drop]
  have bytes := holds.loadBytes known
  have place : v.gFat + 4 * c = v.gFat + UInt32.ofNat (4 * c.toNat) := by
    rw [UInt32.ofNat_mul, UInt32.ofNat_toNat]
    rfl
  rw [four] at bytes
  rw [Fat.fatEntry, Memory.load32, place, bytes]
  rfl

/-! ## Chains. -/

lemma Whole.continues (w : Whole disk b c) (f : Formatted disk b) : isEofCluster c = false ∧ c ≠ 0 := by
  have small := f.small
  have listed := w.listed
  have two := w.two_le
  constructor
  · rw [isEofCluster, decide_eq_false_iff_not, ge_iff_le, UInt32.le_iff_toNat_le]
    change ¬ 0x0FFFFFF8 ≤ c.toNat
    omega
  · rintro rfl
    exact absurd two (by decide)

lemma ChainOn.whole (ch : ChainOn disk b c cs) : ∀ d ∈ cs, Whole disk b d := by
  induction ch with
  | last w _ =>
    intro d mem
    rw [List.mem_singleton.mp mem]
    exact w
  | cons w _ ih =>
    intro d mem
    obtain rfl | mem := List.mem_cons.mp mem
    · exact w
    · exact ih d mem

/-- The first sector of a cluster. -/
lemma Serves.firstSector (s : Serves disk b v o) (w : Whole disk b c) :
    (getFirstSectorOfCluster v c).toNat = clusterStart b c := by
  have small := w.intact.small
  have two := w.two_le
  have base := s.base
  have before : (c - 2).toNat = c.toNat - 2 := sub_toNat_of_le two
  have scaled : ((c - 2) * b.sectorsPerCluster.toUInt32).toNat = (c.toNat - 2) * b.sectorsPerCluster.toNat := by
    rw [clusterStart] at small
    rw [UInt32.toNat_mul, before, UInt8.toNat_toUInt32, Nat.mod_eq_of_lt (by omega)]
  rw [clusterStart] at small ⊢
  rw [getFirstSectorOfCluster, s.boot, toNat_add_of_lt (by omega), scaled, base]

lemma Serves.clusterReadable (s : Serves disk b v o) (w : Whole disk b c) : ClusterReadable v c := by
  have read := ataRead28Lba_sectors w.intact (s.firstSector w)
  rw [ClusterReadable, Readable, s.source, s.boot, read]

/-- A chain of the table is linked for a reader that goes on while `goesOn`. -/
lemma Serves.linked {next : UInt32 → Option UInt32} (s : Serves disk b v o) (f : Formatted disk b)
    (ch : ChainOn disk b c cs) (more : ∀ d, Whole disk b d → next d = some d)
    (stop : ∀ d, isEofCluster d = true → next d = none) :
    Lib.Linked (fun d => next (Fat.fatEntry v.heap.mem v.gFat d)) (next c) cs := by
  induction ch with
  | last w eof =>
    rw [more _ w]
    apply Linked.cons
    rw [s.fatEntry f w.listed, stop _ eof]
    exact .nil
  | cons w _ ih =>
    rw [more _ w]
    apply Linked.cons
    rw [s.fatEntry f w.listed]
    exact ih

/-- A chain of the table is a chain of a directory, and of a file. -/
lemma Serves.chain (s : Serves disk b v o) (f : Formatted disk b) (ch : ChainOn disk b c cs) :
    DirChain v c cs ∧ DataChain v c cs := by
  have inside : ∀ d ∈ cs, d.toNat < (fatSize v).toNat / 4 := fun d mem => by
    have listed := (ch.whole d mem).listed
    have size := s.fatSize_toNat f
    omega
  have readable : ∀ d ∈ cs, ClusterReadable v d := fun d mem => s.clusterReadable (ch.whole d mem)
  refine ⟨⟨s.linked f ch (fun d w => ?_) fun d eof => ?_, inside, readable⟩,
    ⟨s.linked f ch (fun d w => ?_) fun d eof => ?_, inside, readable⟩⟩
  · rw [dirCluster, if_pos (w.continues f)]
  · rw [dirCluster, if_neg (by simp [eof])]
  · simp [dataCluster, (w.continues f).1]
  · simp [dataCluster, eof]

/-! ## What lies in chains. -/

lemma Serves.content (s : Serves disk b v o) (whole : ∀ d ∈ cs, Whole disk b d) : content v cs = dataOn disk b cs := by
  refine List.flatMap_congr fun d mem => ?_
  have w := whole d mem
  rw [← clusterRead_eq (s.clusterReadable w), clusterRead, readSectors, s.source, s.boot,
    ataRead28Lba_sectors w.intact (s.firstSector w)]

lemma Serves.entries (s : Serves disk b v o) (whole : ∀ d ∈ cs, Whole disk b d) :
    dirEntriesOf v cs = shown (recordsIn (dataOn disk b cs)) := by
  induction cs with
  | nil => simp [dirEntriesOf, dataOn, recordsIn, shown]
  | cons d cs ih =>
    have w := whole d List.mem_cons_self
    have split : dirEntriesOf v (d :: cs) = clusterDirs v d ++ dirEntriesOf v cs := List.flatMap_cons
    have split' : dataOn disk b (d :: cs) =
        sectorsAt disk (clusterStart b d) b.sectorsPerCluster.toNat ++ dataOn disk b cs := List.flatMap_cons
    have length := w.intact.sectors_length
    rw [split, split', recordsIn_append (k := 16 * b.sectorsPerCluster.toNat) (by omega), shown_append,
      ih fun e mem => whole e (List.mem_cons_of_mem _ mem), clusterDirs, s.source, s.boot,
      sectorDirs_sectors w.intact (s.firstSector w)]

/-! ## Directories. -/

/-- The entries of a directory on the disk. -/
lemma Serves.directory (s : Serves disk b v o) (image : Image disk b fs at_) (at_dir : fs.content i = .directory es) :
    ∃ cs, DirChain v (at_ i) cs ∧ List.Forall₂ (Names fs at_) (dirEntriesOf v cs) es := by
  obtain ⟨cs, slots, chain, data, names⟩ := image.directory i es at_dir
  refine ⟨cs, (s.chain image.formatted chain).1, ?_⟩
  rw [s.entries chain.whole, data, Slot.shown_flatMap]
  exact names

/-- The first entry with a name. -/
lemma answer_find (names : List.Forall₂ (Names fs at_) ds es) (lower : ∀ d ∈ ds, d.name.map tolower = d.name)
    (strings : ∀ d ∈ ds, 0 ∉ d.name) (nul : 0 ∉ name) :
    Answer fs at_ (es.find? fun e => e.1 = name.map tolower) (findResult name ds) := by
  induction names with
  | nil => exact ⟨rfl, rfl⟩
  | @cons d e ds es named _ ih =>
    have same : strcasecmp d.name name = 0 ↔ e.1 = name.map tolower := by
      rw [strcasecmp_eq_zero (strings d List.mem_cons_self) nul, lower d List.mem_cons_self, named.name]
    rw [findResult, List.find?_cons, List.find?_cons]
    by_cases here : e.1 = name.map tolower
    · simp only [here, same.mpr here, decide_true]
      exact ⟨e, rfl, named⟩
    · simp only [here, mt same.mp here, decide_false]
      exact ih (fun d mem => lower d (List.mem_cons_of_mem _ mem)) fun d mem => strings d (List.mem_cons_of_mem _ mem)

/-- The entry at an index. -/
lemma answer_index (names : List.Forall₂ (Names fs at_) ds es) (k : Nat) : Answer fs at_ es[k]? (indexResult k ds) := by
  rw [indexResult]
  by_cases lt : k < ds.length
  · have lt' : k < es.length := names.length_eq ▸ lt
    rw [List.getElem?_eq_getElem lt, List.getElem?_eq_getElem lt']
    exact ⟨_, rfl, names.get lt lt'⟩
  · have ge : es.length ≤ k := names.length_eq ▸ Nat.le_of_not_lt lt
    rw [List.getElem?_eq_none (Nat.le_of_not_lt lt), List.getElem?_eq_none ge]
    exact ⟨rfl, rfl⟩

/-- The names that the reader shows are decoded from fields. -/
lemma mem_sectorDirs {first : UInt32} {n : Nat} {d : Dir} (mem : d ∈ sectorDirs disk first n) :
    ∃ de : DirEntry, d.name = entryName de.name := by
  induction n generalizing first with
  | zero => cases mem
  | succ n ih =>
    obtain mem | mem := List.mem_append.mp mem
    · obtain ⟨de, -, rfl⟩ := List.mem_map.mp mem
      exact ⟨de, rfl⟩
    · exact ih mem

lemma Serves.find (s : Serves disk b v o) (image : Image disk b fs at_) (at_dir : fs.content i = .directory es)
    (nul : 0 ∉ name) : ∃ r, fat32FindEntry v (at_ i) name = some r ∧
      Answer fs at_ (es.find? fun e => e.1 = name.map tolower) r := by
  obtain ⟨cs, chain, names⟩ := s.directory image at_dir
  have decoded : ∀ d ∈ dirEntriesOf v cs, ∃ de : DirEntry, d.name = entryName de.name := fun d mem => by
    obtain ⟨c, -, mem⟩ := List.mem_flatMap.mp mem
    exact mem_sectorDirs mem
  refine ⟨findResult name (dirEntriesOf v cs), ?_, answer_find names (fun d mem => ?_) (fun d mem => ?_) nul⟩
  · rw [fat32FindEntry, if_neg (by simp [s.init])]
    exact find_chain chain.linked chain.readable
  · obtain ⟨de, name⟩ := decoded d mem
    rw [name, entryName_lower]
  · obtain ⟨de, name⟩ := decoded d mem
    rw [name]
    exact entryName_nul _

lemma Serves.loaded (s : Serves disk b v o) (f : Formatted disk b) : Loaded v := by
  obtain ⟨L, rep⟩ := s.heap
  obtain ⟨l, valid, own⟩ := id rep.inv
  exact (s.backed f rep valid own).loaded

lemma Serves.index (s : Serves disk b v o) (image : Image disk b fs at_) (at_dir : fs.content i = .directory es)
    (k : UInt32) : ∃ r, fat32ReaddirIndex v (at_ i) k = some r ∧ Answer fs at_ es[k.toNat]? r := by
  obtain ⟨cs, chain, names⟩ := s.directory image at_dir
  refine ⟨indexResult k.toNat (dirEntriesOf v cs), ?_, answer_index names k.toNat⟩
  rw [fat32ReaddirIndex, if_neg (by simp [s.init])]
  exact index_chain chain.linked chain.readable (Nat.zero_le _)
    (by simpa using chain.small (s.loaded image.formatted))

/-! ## Files. -/

lemma Serves.sectors (s : Serves disk b v o) (f : Formatted disk b) : Sectors v := by
  refine ⟨s.boot ▸ f.sector, Nat.pos_of_ne_zero fun zero => f.cluster ?_⟩
  rw [s.boot] at zero
  exact UInt8.toNat_inj.mp zero

/-- Blocks in use that are kept are the objects of the store. -/
lemma Serves.untouched (s : Serves disk b v o) (rep : Represents v.heap L o) (valid : Valid v.heap l) (own : Owns l L)
    (u : Untouched l v v') : Serves disk b v' o := by
  obtain ⟨eq, valid', keeps⟩ := u
  have rep' : Represents v'.heap L o :=
    ⟨⟨l, valid', own⟩, rep.sizes, fun p c at_ => rep.keeps valid own keeps at_⟩
  generalize v'.heap = h at eq rep'
  subst eq
  exact ⟨s.source, s.boot, s.init, s.base, s.table, L, rep'⟩

/-- A read inside of a file returns its bytes, but for want of memory. -/
lemma Serves.read (s : Serves disk b v o) (image : Image disk b fs at_) (at_file : fs.content i = .file bytes)
    {offset size : UInt32} (inside : offset.toNat + size.toNat ≤ bytes.length) :
    ∃ ret data v', fat32ReadFileData v (at_ i) offset size = some (ret, data, v') ∧ Serves disk b v' o ∧
      v'.gFat = v.gFat ∧
      (ret = size.toNat ∧ data = (bytes.drop offset.toNat).take size.toNat ∨
        ret = -ENOMEM ∧ data = [] ∧ ∃ heap, kmalloc v.heap (bytesPerCluster v) = some (0, heap)) := by
  by_cases empty : size = 0
  · subst empty
    refine ⟨0, [], v, ?_, s, rfl, .inl ⟨rfl, by simp⟩⟩
    rw [fat32ReadFileData, if_neg (by simp [s.init]), if_pos rfl]
  · have pos : 0 < size.toNat := Nat.pos_of_ne_zero fun zero => empty (UInt32.toNat_inj.mp zero)
    have some_ : bytes ≠ [] := by
      rintro rfl
      change offset.toNat + size.toNat ≤ 0 at inside
      omega
    obtain ⟨cs, chain, front, small⟩ := image.file i bytes at_file some_
    obtain ⟨rest, whole⟩ := front
    obtain ⟨L, rep⟩ := s.heap
    obtain ⟨l, valid, own⟩ := id rep.inv
    have sectors := s.sectors image.formatted
    have data := s.content chain.whole
    have ch := (s.chain image.formatted chain).2
    have length : (dataOn disk b cs).length = cs.length * clusterSize v := by
      rw [← data]
      exact content_length ch.readable
    obtain ⟨p, h, l', alloc, -, -, ⟨rfl, same, -⟩ | ⟨ne, -⟩⟩ := kmalloc_effect valid sectors.not_wraps
    · refine ⟨-ENOMEM, [], { v with heap := h }, ?_, ?_, rfl, .inr ⟨rfl, rfl, h, alloc⟩⟩
      · rw [fat32ReadFileData, if_neg (by simp [s.init]), if_neg empty, alloc]
        rfl
      · subst same
        exact s
    · obtain ⟨v', u, run⟩ := read_spec (s.backed image.formatted rep valid own) sectors ch (by omega) ⟨p, h, alloc, ne⟩
        offset size
      have long : bytes.length ≤ cs.length * clusterSize v := by
        rw [← length, ← whole, List.length_append]
        omega
      have count : min size.toNat (cs.length * clusterSize v - offset.toNat) = size.toNat := by omega
      refine ⟨_, _, v', run, s.untouched rep valid own u, by rw [u.eq], .inl ⟨by rw [count], ?_⟩⟩
      rw [data, ← whole, List.drop_append_of_le_length (by omega),
        List.take_append_of_le_length (by rw [List.length_drop]; omega)]

/-! ## Runs. -/

lemma Serves.answers (s : Serves disk b v o) (image : Image disk b fs at_) : Answers fs at_ v where
  find i es at_dir name nul := s.find image at_dir nul
  index i es at_dir k := s.index image at_dir k
  read i bytes at_file offset size inside := by
    obtain ⟨ret, data, v', run, -, -, result⟩ := s.read image at_file inside
    exact ⟨ret, data, v', run, result⟩

/-- A legal call returns and keeps the volume. -/
lemma Serves.step (s : Serves disk b v o) (image : Image disk b fs at_) {call : FatCall}
    (legal : call.Legal fs at_ (v, o)) : ∃ v' o', call.step (v, o) = some (v', o') ∧ Serves disk b v' o' := by
  cases call with
  | read c offset size =>
    obtain ⟨i, bytes, at_file, rfl, inside⟩ := legal
    obtain ⟨ret, data, v', run, s', -⟩ := s.read image at_file inside
    refine ⟨v', o, ?_, s'⟩
    rw [FatCall.step, run]
    rfl
  | other op =>
    obtain ⟨legal, apart⟩ := legal
    obtain ⟨L, rep⟩ := s.heap
    obtain ⟨r, data, h, run, permits, rep'⟩ := rep.step legal
    refine ⟨{ v with heap := h }, op.objects o r, ?_, s.source, s.boot, s.init, s.base, ?_, rep'⟩
    · rw [FatCall.step, run]
      rfl
    · exact ClientOp.objects_other permits s.table (Ne.symm apart)

/-- Paths are found component by component. -/
lemma Serves.leads (s : Serves disk b v o) (image : Image disk b fs at_) {path : List (List UInt8)} {d : Dir}
    (strings : ∀ name ∈ path, 0 ∉ name) (points : Points fs at_ d i) (walk : fs.walk i path = some j) :
    ∃ d', Leads v d path d' ∧ Points fs at_ d' j := by
  induction path generalizing i d with
  | nil =>
    cases walk
    exact ⟨d, .nil, points⟩
  | cons name path ih =>
    rw [FileSystem.walk] at walk
    cases at_dir : fs.content i with
    | directory es =>
      rw [at_dir] at walk
      obtain ⟨e, found, walk⟩ := Option.bind_eq_some_iff.mp walk
      obtain ⟨r, run, answer⟩ := s.find image at_dir (strings name List.mem_cons_self)
      rw [found] at answer
      cases r with
      | ok d₁ =>
        obtain ⟨e', same, named⟩ := answer
        cases same
        obtain ⟨d', leads, points'⟩ := ih (fun n mem => strings n (List.mem_cons_of_mem _ mem)) named.points walk
        refine ⟨d', .cons (points.dir es at_dir) ?_ leads, points'⟩
        rw [points.cluster]
        exact run
      | error ret => cases answer.1
    | file bytes =>
      rw [at_dir] at walk
      cases walk
    | unknown =>
      rw [at_dir] at walk
      cases walk

/-- The root is a directory. -/
lemma Serves.root (s : Serves disk b v o) (image : Image disk b fs at_) : Points fs at_ (rootDir v) fs.root := by
  obtain ⟨cluster, es, at_dir⟩ := image.root
  refine ⟨?_, fun _ _ => ?_, fun bytes at_file => ?_⟩
  · rw [rootDir, s.boot, cluster]
  · show ATTR_DIRECTORY &&& ATTR_DIRECTORY ≠ 0
    decide
  · cases at_dir.symm.trans at_file

/-- `fat32_init` loads the table of the disk into a new object, but for want of memory. -/
lemma Formatted.init (f : Formatted v.disk b) (fresh : v.gInitialized = false) (rep : Represents v.heap L o) :
    ∃ ret v', fat32Init v = some (ret, v') ∧
      (ret = -1 ∧ (∃ heap, kmalloc v.heap (tableSize b) = some (0, heap)) ∨
        ret = 0 ∧ o v'.gFat = none ∧ Serves v.disk b v' (o.put v'.gFat ((tableOn v.disk b).map some))) := by
  obtain ⟨boot, read, decoded⟩ := f.boot
  have init := fat32Init_signed fresh read (decoded ▸ f.sign)
  rw [decoded, if_neg f.cluster] at init
  have size := f.tableSize_toNat
  have small := f.small
  obtain ⟨p, h, alloc, ⟨rfl, rfl⟩ | ⟨ne, new, rep'⟩⟩ := rep.kmalloc (n := tableSize b) (not_wraps_of_le (by omega))
  · obtain ⟨v', load⟩ := fat32Load_null alloc
    exact ⟨-1, v', init.trans load, .inl ⟨rfl, _, alloc⟩⟩
  · have low : b.reservedSectorCount.toUInt32.toNat = b.reservedSectorCount.toNat := UInt16.toNat_toUInt32 _
    have sectors := ataRead28Lba_sectors f.table low
    have reads : Readable v.disk b.reservedSectorCount.toUInt32 b.fatSize32.toNat := by rw [Readable, sectors]
    obtain ⟨passes, last, t, zero, load⟩ := fat32Load_trail alloc ne reads
    rw [f.sector] at t
    obtain ⟨-, stored⟩ := trail_read t (by dsimp only; omega)
    dsimp only at stored
    rw [zero, Nat.sub_zero, sectors] at stored
    refine ⟨0, _, init.trans load, .inr ⟨rfl, rep.fresh new, rfl, rfl, rfl, ?_, Objects.put_self,
      (p, (tableSize b).toNat) :: L, ?_⟩⟩
    · have bound := f.table.small
      have tables := Nat.mul_le_mul (Nat.le_of_lt_succ b.numFats.toNat_lt) (Nat.le_of_lt small)
      have copies : (b.numFats.toUInt32 * b.fatSize32).toNat = b.numFats.toNat * b.fatSize32.toNat := by
        rw [UInt32.toNat_mul, UInt8.toNat_toUInt32, Nat.mod_eq_of_lt (by omega)]
      show (b.reservedSectorCount.toUInt32 + b.numFats.toUInt32 * b.fatSize32).toNat = dataStart b
      rw [toNat_add_of_lt (by omega), copies, low, dataStart]
    · have length := f.table_length
      have filled := rep'.store 0 (tableOn v.disk b) (by simp [Cells.blank]; omega)
      have cells : (Cells.blank (tableSize b).toNat).write 0 (tableOn v.disk b) = (tableOn v.disk b).map some := by
        simp [Cells.write, Cells.blank, length, size]
      rw [cells, show p + UInt32.ofNat 0 = p from UInt32.add_zero p] at filled
      show Represents { h with mem := last.mem } _ _
      rw [stored]
      exact filled

/-- The volumes that legal calls lead to. -/
abbrev Mounted (fs : FileSystem ι) (at_ : ι → UInt32) : Volume × Store → Volume × Store → Prop :=
  Runs FatCall.step (FatCall.Legal fs at_)

/-- On a disk that holds a file system `fat32_init` mounts it unless memory is short. From then on, behind any reads and
    any operations of other clients of the heap, every directory and file is found and read as the disk holds it, along
    every path from the root, and every legal call returns. -/
theorem image_served (image : Image v.disk b fs at_) (fresh : v.gInitialized = false) (rep : Represents v.heap L o) :
    ∃ ret v', fat32Init v = some (ret, v') ∧
      (ret = -1 ∧ (∃ heap, kmalloc v.heap (tableSize b) = some (0, heap)) ∨
        ret = 0 ∧ o v'.gFat = none ∧
          ∀ w, Mounted fs at_ (v', o.put v'.gFat ((tableOn v.disk b).map some)) w → Answers fs at_ w.1 ∧
            (∀ path j, (∀ name ∈ path, 0 ∉ name) → fs.walk fs.root path = some j →
              ∃ d, Leads w.1 (rootDir w.1) path d ∧ Points fs at_ d j) ∧
            ∀ call : FatCall, call.Legal fs at_ w → ∃ w', call.step w = some w') := by
  obtain ⟨ret, v', init, ⟨fail, short⟩ | ⟨zero, new, start⟩⟩ := image.formatted.init fresh rep
  · exact ⟨ret, v', init, .inl ⟨fail, short⟩⟩
  · refine ⟨ret, v', init, .inr ⟨zero, new, fun w run => ?_⟩⟩
    have serves : Serves v.disk b w.1 w.2 := by
      refine run.invariant (I := fun x => Serves v.disk b x.1 x.2) start ?_
      rintro ⟨v₁, o₁⟩ call x s legal step
      obtain ⟨v₂, o₂, run, s'⟩ := s.step image legal
      cases step.symm.trans run
      exact s'
    refine ⟨serves.answers image, fun path j strings walk => serves.leads image strings (serves.root image) walk,
      fun call legal => ?_⟩
    obtain ⟨v₂, o₂, run, -⟩ := serves.step image legal
    exact ⟨(v₂, o₂), run⟩

/-! ## A disk with a file. -/

/-- The record of the file `A`, of one byte in cluster 3. -/
def noteRecord : Record where
  name := ⟨[0x41], [], by decide, by decide, by simp, 0x41, rfl, by decide⟩
  attributes := 0x20
  cluster := 3
  size := 1
  created := List.replicate 8 0
  written := List.replicate 4 0
  created_length := rfl
  written_length := rfl
  seen := by decide

/-- A disk of that boot sector, a table in which clusters 2 and 3 are chains, the root directory and the file. -/
def noteDisk : Disk := fun n =>
  if n = 0 then some (smallBoot 1)
  else if n = 1 then some (sectorOf (List.replicate 8 0 ++ toBytes 4 0x0FFFFFFF ++ toBytes 4 0x0FFFFFFF) (by decide))
  else if n = 2 then some (sectorOf noteRecord.bytes (by simp))
  else some (sectorOf [0x58] (by decide))

/-- Its boot sector. -/
def noteBoot : BootSector := ⟨512, 1, 1, 1, 100, 1, 2, [0x46, 0x41, 0x54, 0x33, 0x32, 0x20, 0x20, 0x20]⟩

/-- The root directory, with the file `a`. -/
def noteFiles : FileSystem Bool where
  content := fun i => if i then .file [0x58] else .directory [([0x61], true)]
  root := false

/-- Their clusters. -/
def notePlaces (i : Bool) : UInt32 := if i then 3 else 2

lemma noteDisk_total {n : UInt32} : noteDisk n ≠ none := by
  unfold noteDisk
  split_ifs <;> simp

lemma note_whole {c : UInt32} (low : 2 ≤ c.toNat) (high : c.toNat < 128) : Whole noteDisk noteBoot c := by
  have start : clusterStart noteBoot c = c.toNat := by
    change 1 + 1 * 1 + (c.toNat - 2) * 1 = c.toNat
    omega
  refine ⟨low, high, ?_, fun i _ => noteDisk_total⟩
  rw [start]
  change c.toNat + 1 ≤ 2 ^ 28
  omega

/-- A cluster is a sector there. -/
lemma note_data {c : UInt32} {sector : Sector} (low : 2 ≤ c.toNat) (at_ : noteDisk c = some sector) :
    dataOn noteDisk noteBoot [c] = sector.bytes := by
  have start : clusterStart noteBoot c = c.toNat := by
    change 1 + 1 * 1 + (c.toNat - 2) * 1 = c.toNat
    omega
  have one : noteBoot.sectorsPerCluster.toNat = 1 := rfl
  simp [dataOn, sectorsAt, sectorAt, start, one, at_]

lemma note_image : Image noteDisk noteBoot noteFiles notePlaces where
  formatted := {
    boot := ⟨smallBoot 1, rfl, smallBoot_one⟩
    sign := by decide
    sector := rfl
    cluster := by decide
    table := ⟨by decide, fun i _ => noteDisk_total⟩
    small := by decide }
  root := ⟨rfl, _, rfl⟩
  directory i es at_dir := by
    cases i with
    | false =>
      cases at_dir
      let blank : Slot := .vacant (List.replicate 32 0) ⟨rfl, .inl rfl⟩
      refine ⟨[2], .taken noteRecord :: List.replicate 15 blank,
        .last (note_whole (by decide) (by decide)) (by decide +kernel), ?_, ?_⟩
      · rw [note_data (by decide) rfl]
        have rest : (List.replicate 15 blank).flatMap Slot.bytes = List.replicate (15 * 32) 0 := by
          rw [List.flatMap_replicate, show blank.bytes = List.replicate 32 0 from rfl, List.flatten_replicate_replicate]
        rw [List.flatMap_cons, rest]
        rfl
      refine .cons ⟨rfl, rfl, fun es at_dir => ?_, fun bytes at_file => ?_⟩ .nil
      · cases at_dir
      · cases at_file
        exact ⟨by decide, rfl⟩
    | true => cases at_dir
  file i bytes at_file _ := by
    cases i with
    | false => cases at_file
    | true =>
      cases at_file
      have data : dataOn noteDisk noteBoot [3] = [0x58] ++ List.replicate 511 0 :=
        note_data (c := 3) (by decide) rfl
      exact ⟨[3], .last (note_whole (by decide) (by decide)) (by decide +kernel), ⟨_, data.symm⟩,
        by rw [data, List.length_append, List.length_replicate]; decide⟩

/-- On a fresh heap the disk is mounted and `A` is found in the root and read. -/
theorem image_served_note : ∃ v' d, fat32Init (unmounted noteDisk) = some (0, v') ∧
    Leads v' (rootDir v') [[0x41]] d ∧ d.size.toNat = 1 ∧
    ∃ ret data v'', fat32ReadFileData v' d.cluster 0 1 = some (ret, data, v'') ∧
      (ret = 1 ∧ data = [0x58] ∨ ret = -ENOMEM) := by
  have rep : Represents (unmounted noteDisk).heap [] fun _ => none := represents_kheapInit (s := bare) rfl
  obtain ⟨ret, v', init, ⟨-, heap, short⟩ | ⟨rfl, -, served⟩⟩ :=
    image_served (v := unmounted noteDisk) note_image rfl rep
  · obtain ⟨s, alloc⟩ := kmalloc_first (s := bare) (n := tableSize noteBoot) rfl (by decide)
    cases short.symm.trans alloc
  · obtain ⟨answers, paths, -⟩ := served _ .refl
    have strings : ∀ name ∈ [[(0x41 : UInt8)]], 0 ∉ name := by simp
    obtain ⟨d, leads, points⟩ := paths [[0x41]] true strings (by decide)
    obtain ⟨ret, data, v'', run, result⟩ := answers.read true [0x58] rfl 0 1 (by decide)
    refine ⟨v', d, init, leads, (points.file _ rfl).2, ret, data, v'', ?_, ?_⟩
    · rw [points.cluster]
      exact run
    · obtain ⟨rfl, rfl⟩ | ⟨rfl, -, -⟩ := result
      · exact .inl ⟨rfl, rfl⟩
      · exact .inr rfl

end RetaOS.Fat
