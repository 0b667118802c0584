import RetaOS.Fat.Load
import RetaOS.Fat.Read
import RetaOS.Fat.ShortNames

/-!
# Volumes on a disk

What a disk has to hold to be a FAT32 volume, told without the reader: short names and the fields that they are written
to, the records of a directory, the table of clusters, and a graph of files and directories that lies in them
(`Image`). The lemmas take the reader apart over such a disk. A field is decoded to its name, the records of a cluster
to their entries, and a chain of the table is a chain of the reader as soon as its memory holds the table.
-/

namespace RetaOS.Fat
open Lib Vfs
open Kheap hiding Linked

/-! ## Names and records. -/

/-- A name of eight characters and an extension of three at most. -/
structure ShortName where
  base : List UInt8
  ext : List UInt8
  base_length : base.length ≤ 8
  ext_length : ext.length ≤ 3
  chars : ∀ x ∈ base ++ ext, x ≠ 0 ∧ x ≠ 0x20
  first : ∃ x ∈ base.head?, x ≠ 0xE5

namespace ShortName

/-- The field of a name. -/
def field (n : ShortName) : List UInt8 :=
  n.base ++ List.replicate (8 - n.base.length) 0x20 ++ n.ext ++ List.replicate (3 - n.ext.length) 0x20

/-- The name in lower case, with a dot in front of an extension. -/
def text (n : ShortName) : List UInt8 :=
  n.base.map tolower ++ if n.ext = [] then [] else 0x2E :: n.ext.map tolower

end ShortName

/-- A record of a directory. The times that are kept beside the cluster have no meaning here. -/
structure Record where
  name : ShortName
  attributes : UInt8
  cluster : UInt32
  size : UInt32
  created : List UInt8
  written : List UInt8
  created_length : created.length = 8
  written_length : written.length = 4
  seen : attributes &&& (ATTR_VOLUME_ID ||| ATTR_HIDDEN ||| ATTR_SYSTEM) = 0

/-- The 32 bytes of a record. -/
def Record.bytes (r : Record) : List UInt8 :=
  r.name.field ++ [r.attributes] ++ r.created ++ toBytes 2 (r.cluster.toNat / 2 ^ 16) ++ r.written ++
    toBytes 2 (r.cluster.toNat % 2 ^ 16) ++ toBytes 4 r.size.toNat

/-- What a record tells of its file. -/
def Record.dir (r : Record) : Dir := ⟨r.name.text, r.size, r.cluster, r.attributes⟩

/-- 32 bytes that record no file: unused or deleted, or the part of a long name, a label, a hidden or a system file. -/
structure Unseen (bytes : List UInt8) : Prop where
  length : bytes.length = 32
  kind : bytes[0]? = some 0x00 ∨ bytes[0]? = some 0xE5 ∨
    ∃ a, bytes[11]? = some a ∧ a &&& (ATTR_VOLUME_ID ||| ATTR_HIDDEN ||| ATTR_SYSTEM) ≠ 0

/-- A place in a directory. -/
inductive Slot where
  | vacant (bytes : List UInt8) (unseen : Unseen bytes)
  | taken (r : Record)

namespace Slot

def bytes : Slot → List UInt8
  | vacant bytes _ => bytes
  | taken r => r.bytes

def record? : Slot → Option Record
  | vacant .. => none
  | taken r => some r

end Slot

/-! ## Disks. -/

/-- The bytes of several sectors. -/
def sectorsAt (disk : Disk) (first n : Nat) : List UInt8 := (List.range n).flatMap fun i => sectorAt disk (first + i)

/-- Sectors with numbers of 28 bits that can be read. -/
structure Intact (disk : Disk) (first n : Nat) : Prop where
  small : first + n ≤ 2 ^ 28
  read : ∀ i < n, disk (UInt32.ofNat (first + i)) ≠ none

/-- The first table of clusters. -/
def tableOn (disk : Disk) (b : BootSector) : List UInt8 :=
  sectorsAt disk b.reservedSectorCount.toNat b.fatSize32.toNat

/-- The entry of the table for a cluster. -/
def linkOn (disk : Disk) (b : BootSector) (c : UInt32) : UInt32 := UInt32.ofNat (field (tableOn disk b) (4 * c.toNat) 4)

/-- The first sector behind the tables. -/
def dataStart (b : BootSector) : Nat := b.reservedSectorCount.toNat + b.numFats.toNat * b.fatSize32.toNat

/-- The first sector of a cluster. -/
def clusterStart (b : BootSector) (c : UInt32) : Nat := dataStart b + (c.toNat - 2) * b.sectorsPerCluster.toNat

/-- The bytes of clusters. -/
def dataOn (disk : Disk) (b : BootSector) (cs : List UInt32) : List UInt8 :=
  cs.flatMap fun c => sectorsAt disk (clusterStart b c) b.sectorsPerCluster.toNat

/-- A cluster with an entry in the table, whose sectors can be read. -/
structure Whole (disk : Disk) (b : BootSector) (c : UInt32) : Prop where
  two_le : 2 ≤ c.toNat
  listed : c.toNat < 128 * b.fatSize32.toNat
  intact : Intact disk (clusterStart b c) b.sectorsPerCluster.toNat

/-- The clusters of a chain, from the first to the one with an end mark in the table. -/
inductive ChainOn (disk : Disk) (b : BootSector) : UInt32 → List UInt32 → Prop where
  | last {c} :
    Whole disk b c →
    isEofCluster (linkOn disk b c) = true →
    ChainOn disk b c [c]
  | cons {c cs} :
    Whole disk b c →
    ChainOn disk b (linkOn disk b c) cs →
    ChainOn disk b c (c :: cs)

/-- A disk with the boot sector and the table of a volume. -/
structure Formatted (disk : Disk) (b : BootSector) : Prop where
  boot : ∃ sector, disk 0 = some sector ∧ bootSector sector.bytes = b
  sign : Signed b
  sector : b.bytesPerSector = 512
  cluster : b.sectorsPerCluster ≠ 0
  table : Intact disk b.reservedSectorCount.toNat b.fatSize32.toNat
  small : b.fatSize32.toNat < 2 ^ 20

/-! ## Files and directories. -/

/-- What a node of a file system is. Nothing is promised of an unknown one. -/
inductive Content (ι : Type) where
  | file (bytes : List UInt8)
  | directory (entries : List (List UInt8 × ι))
  | unknown

/-- A graph of files and directories. -/
structure FileSystem (ι : Type) where
  content : ι → Content ι
  root : ι

/-- The node that a path leads to. Names are compared without their case. -/
def FileSystem.walk {ι : Type} (fs : FileSystem ι) : ι → List (List UInt8) → Option ι
  | i, [] => some i
  | i, name :: path =>
    match fs.content i with
    | .directory es => (es.find? fun e => e.1 = name.map tolower).bind fun e => fs.walk e.2 path
    | _ => none

/-- An entry of a directory points to a node, which starts at the cluster `at_ i`. -/
structure Points {ι : Type} (fs : FileSystem ι) (at_ : ι → UInt32) (d : Dir) (i : ι) : Prop where
  cluster : d.cluster = at_ i
  dir : ∀ es, fs.content i = .directory es → d.attributes &&& ATTR_DIRECTORY ≠ 0
  file : ∀ bytes, fs.content i = .file bytes → d.attributes &&& ATTR_DIRECTORY = 0 ∧ d.size.toNat = bytes.length

/-- It does so under the name. -/
structure Names {ι : Type} (fs : FileSystem ι) (at_ : ι → UInt32) (d : Dir) (e : List UInt8 × ι) : Prop where
  name : d.name = e.1
  points : Points fs at_ d e.2

/-- A disk holds a file system, whose nodes start at the clusters `at_`. -/
structure Image {ι : Type} (disk : Disk) (b : BootSector) (fs : FileSystem ι) (at_ : ι → UInt32) : Prop where
  formatted : Formatted disk b
  root : at_ fs.root = b.rootCluster ∧ ∃ es, fs.content fs.root = .directory es
  directory : ∀ i es, fs.content i = .directory es → ∃ (cs : _) (slots : List Slot),
    ChainOn disk b (at_ i) cs ∧ dataOn disk b cs = slots.flatMap Slot.bytes ∧
    List.Forall₂ (Names fs at_) ((slots.filterMap Slot.record?).map Record.dir) es
  file : ∀ i bytes, fs.content i = .file bytes → bytes ≠ [] → ∃ cs, ChainOn disk b (at_ i) cs ∧
    bytes <+: dataOn disk b cs ∧ (dataOn disk b cs).length < 2 ^ 31

variable {disk : Disk} {b : BootSector} {v : Volume} {c lba : UInt32} {first n k : Nat} {cs : List UInt32}
  {bytes part : List UInt8} {r : Record} {slots : List Slot}

/-! ## Decoding names. -/

namespace ShortName

variable (n : ShortName)

lemma base_front : n.field.take 8 = n.base ++ List.replicate (8 - n.base.length) 0x20 := by
  have short := n.base_length
  rw [field, List.append_assoc, List.take_append_of_le_length, List.take_of_length_le]
  · simp only [List.length_append, List.length_replicate]
    omega
  · simp only [List.length_append, List.length_replicate]
    omega

lemma ext_back : n.field.drop 8 = n.ext ++ List.replicate (3 - n.ext.length) 0x20 := by
  have short := n.base_length
  have front : (n.base ++ List.replicate (8 - n.base.length) 0x20).length = 8 := by
    simp only [List.length_append, List.length_replicate]
    omega
  rw [field, List.append_assoc, List.drop_append_of_le_length (by omega), List.drop_of_length_le (by omega),
    List.nil_append]

@[simp] lemma field_length : n.field.length = 11 := by
  have short := n.base_length
  have short' := n.ext_length
  simp only [field, List.length_append, List.length_replicate]
  omega

/-- A part that was filled up with spaces. -/
lemma copyName_padded (k : Nat) (letters : ∀ x ∈ part, x ≠ 0x20) :
    copyName (part ++ List.replicate k 0x20) = part.map tolower := by
  have all : part.filter (· ≠ 0x20) = part := List.filter_eq_self.mpr fun x mem => by simpa using letters x mem
  rw [copyName, List.filter_append, all]
  simp

/-- The reader decodes a field to the name that was written. -/
lemma entryName_field : entryName n.field = n.text := by
  have base : copyName (n.field.take 8) = n.base.map tolower := by
    rw [base_front]
    exact copyName_padded _ fun x mem => (n.chars x (List.mem_append_left _ mem)).2
  have ext : copyName ((n.field.drop 8).take 3) = n.ext.map tolower := by
    have whole : (n.ext ++ List.replicate (3 - n.ext.length) 0x20).length ≤ 3 := by
      have short := n.ext_length
      simp only [List.length_append, List.length_replicate]
      omega
    rw [ext_back, List.take_of_length_le whole]
    exact copyName_padded _ fun x mem => (n.chars x (List.mem_append_right _ mem)).2
  have letters {part : List UInt8} (sub : part ⊆ n.base ++ n.ext) : ∀ y ∈ part.map tolower, y ≠ 0 := by
    intro y mem
    obtain ⟨x, inside, rfl⟩ := List.mem_map.mp mem
    exact tolower_ne_zero (n.chars x (sub inside)).1
  have strings := letters (List.subset_append_left n.base n.ext)
  have strings' := letters (List.subset_append_right n.base n.ext)
  rw [entryName, base, ext, ext_back, text]
  cases e : n.ext with
  | nil =>
    have blank : (List.replicate (3 - ([] : List UInt8).length) 0x20).head? = some (0x20 : UInt8) := rfl
    rw [List.nil_append, if_pos rfl, if_pos blank, List.append_nil]
    exact List.takeWhile_eq_self_iff.mpr fun y mem => by simpa using strings y mem
  | cons x rest =>
    have visible : x ≠ 0x20 := (n.chars x (by simp [e])).2
    rw [if_neg (by simpa using visible), if_neg (by simp), ← e]
    refine List.takeWhile_eq_self_iff.mpr fun y mem => ?_
    obtain mem | mem := List.mem_append.mp mem
    · simpa using strings y mem
    · obtain rfl | mem := List.mem_cons.mp mem
      · rfl
      · simpa using strings' y mem

end ShortName

/-! ## Decoding records. -/

@[simp] lemma Record.bytes_length : r.bytes.length = 32 := by
  simp [Record.bytes, r.created_length, r.written_length]

/-- A piece of a list between two others. -/
lemma field_middle (front back : List UInt8) {v : Nat} (at_ : front.length = n) (lt : v < 256 ^ k) :
    field (front ++ toBytes k v ++ back) n k = v := by
  rw [field, List.append_assoc, List.drop_append_of_le_length (by omega), List.drop_of_length_le (by omega),
    List.nil_append, List.take_append_of_le_length (by simp), List.take_of_length_le (by simp), ofBytes_toBytes,
    Nat.mod_eq_of_lt lt]

/-- The reader decodes a record to what was written. -/
lemma Record.dirEntry_bytes (r : Record) : dirEntry r.bytes = {
    name := r.name.field
    attributes := r.attributes
    firstClusterHigh := UInt16.ofNat (r.cluster.toNat / 2 ^ 16)
    firstClusterLow := UInt16.ofNat (r.cluster.toNat % 2 ^ 16)
    fileSize := r.size } := by
  have width := r.cluster.toNat_lt
  have name : r.bytes.take 11 = r.name.field := by
    simp only [Record.bytes, List.append_assoc]
    rw [List.take_append_of_le_length (by simp), List.take_of_length_le (by simp)]
  have attributes : field r.bytes 11 1 = r.attributes.toNat := by
    have one : [r.attributes] = toBytes 1 r.attributes.toNat := by simp [toBytes]
    simp only [Record.bytes, one, List.append_assoc]
    rw [← List.append_assoc r.name.field]
    exact field_middle _ _ (by simp) r.attributes.toNat_lt
  have high : field r.bytes 20 2 = r.cluster.toNat / 2 ^ 16 := by
    have split : r.bytes = r.name.field ++ [r.attributes] ++ r.created ++ toBytes 2 (r.cluster.toNat / 2 ^ 16) ++
        (r.written ++ toBytes 2 (r.cluster.toNat % 2 ^ 16) ++ toBytes 4 r.size.toNat) := by
      simp only [Record.bytes, List.append_assoc]
    rw [split]
    exact field_middle _ _ (by simp [r.created_length]) (by omega)
  have low : field r.bytes 26 2 = r.cluster.toNat % 2 ^ 16 :=
    field_middle _ _ (by simp [r.created_length, r.written_length]) (by omega)
  have size : field r.bytes 28 4 = r.size.toNat := by
    have last := field_middle (r.name.field ++ [r.attributes] ++ r.created ++ toBytes 2 (r.cluster.toNat / 2 ^ 16) ++
      r.written ++ toBytes 2 (r.cluster.toNat % 2 ^ 16)) [] (n := 28) (k := 4) (v := r.size.toNat)
      (by simp [r.created_length, r.written_length]) r.size.toNat_lt
    rwa [List.append_nil] at last
  rw [dirEntry, name, attributes, high, low, size, UInt8.ofNat_toNat, UInt32.ofNat_toNat]

lemma Record.fillDir_bytes (r : Record) : fillDir (dirEntry r.bytes) = r.dir := by
  have width := r.cluster.toNat_lt
  have cluster : (UInt16.ofNat (r.cluster.toNat / 2 ^ 16)).toUInt32 <<< 16 |||
      (UInt16.ofNat (r.cluster.toNat % 2 ^ 16)).toUInt32 = r.cluster := by
    apply UInt32.toNat_inj.mp
    have high : (UInt16.ofNat (r.cluster.toNat / 2 ^ 16)).toUInt32.toNat = r.cluster.toNat / 2 ^ 16 := by
      rw [UInt16.toNat_toUInt32, UInt16.toNat_ofNat']
      omega
    have low : (UInt16.ofNat (r.cluster.toNat % 2 ^ 16)).toUInt32.toNat = r.cluster.toNat % 2 ^ 16 := by
      rw [UInt16.toNat_toUInt32, UInt16.toNat_ofNat']
      omega
    rw [UInt32.toNat_or, UInt32.toNat_shiftLeft, high, low]
    change (r.cluster.toNat / 2 ^ 16) <<< 16 % 2 ^ 32 ||| r.cluster.toNat % 2 ^ 16 = r.cluster.toNat
    rw [Nat.shiftLeft_eq, Nat.mod_eq_of_lt (by omega), Nat.mul_comm, ← Nat.two_pow_add_eq_or_of_lt (by omega)]
    omega
  rw [fillDir, dirEntry_bytes, dir]
  dsimp only
  rw [cluster, r.name.entryName_field]

/-- The attributes for which the reader passes over a record. -/
lemma attributes_seen {a : UInt8} : a &&& (ATTR_VOLUME_ID ||| ATTR_HIDDEN ||| ATTR_SYSTEM) = 0 ↔
    a &&& ATTR_VOLUME_ID = 0 ∧ a &&& ATTR_HIDDEN = 0 ∧ a &&& ATTR_SYSTEM = 0 := by
  have split (x y : UInt8) : a &&& (x ||| y) = a &&& x ||| a &&& y :=
    UInt8.toBitVec_inj.mp BitVec.and_or_distrib_left
  rw [split, split, UInt8.or_eq_zero_iff, UInt8.or_eq_zero_iff, and_assoc]

/-- A record is not passed over. -/
lemma Record.skipped_bytes (r : Record) : skipped (dirEntry r.bytes) = false := by
  obtain ⟨label, hidden, system⟩ := attributes_seen.mp r.seen
  obtain ⟨x, front, live⟩ := r.name.first
  have head : r.name.field.head? = some x := by
    cases base : r.name.base with
    | nil =>
      rw [base] at front
      cases front
    | cons y rest =>
      rw [base] at front
      simpa [ShortName.field, base] using front
  have nonzero : x ≠ 0 := (r.name.chars x (List.mem_append_left _ (List.mem_of_mem_head? front))).1
  rw [skipped, dirEntry_bytes]
  simp [head, nonzero, live, label, hidden, system]

/-- What is no record is passed over. -/
lemma Unseen.skipped_bytes (unseen : Unseen bytes) : skipped (dirEntry bytes) = true := by
  obtain ⟨length, kind⟩ := unseen
  have head : (dirEntry bytes).name.head? = bytes[0]? := by
    rw [dirEntry]
    dsimp only
    rw [List.head?_take, if_neg (by decide), List.head?_eq_getElem?]
  rw [skipped, head]
  obtain free | deleted | ⟨a, at_, marked⟩ := kind
  · simp [free]
  · simp [deleted]
  · have attributes : (dirEntry bytes).attributes = a := by
      obtain ⟨lt, eq⟩ := List.getElem?_eq_some_iff.mp at_
      have one : (bytes.drop 11).take 1 = [a] := by
        rw [List.drop_eq_getElem_cons lt, eq]
        rfl
      rw [dirEntry]
      dsimp only
      rw [field, one]
      show UInt8.ofNat (ofBytes [a]) = a
      simp [ofBytes]
    rw [attributes]
    by_contra seen
    simp only [Bool.or_eq_true, bne_iff_ne, ne_eq, not_or, not_not] at seen
    obtain ⟨⟨⟨-, label⟩, hidden⟩, system⟩ := seen
    exact marked (attributes_seen.mpr ⟨label, hidden, system⟩)

/-! ## Decoding directories. -/

/-- The records in bytes, 32 each. -/
def recordsIn (bytes : List UInt8) : List DirEntry :=
  (List.range (bytes.length / 32)).map fun i => dirEntry ((bytes.drop (32 * i)).take 32)

lemma recordsIn_append (whole : part.length = 32 * k) :
    recordsIn (part ++ bytes) = recordsIn part ++ recordsIn bytes := by
  have count : (part ++ bytes).length / 32 = k + bytes.length / 32 := by
    rw [List.length_append]
    omega
  rw [recordsIn, recordsIn, recordsIn, count, show part.length / 32 = k by omega, List.range_add, List.map_append,
    List.map_map]
  congr 1
  · refine List.map_congr_left fun i mem => ?_
    have lt := List.mem_range.mp mem
    rw [List.drop_append_of_le_length (by omega), List.take_append_of_le_length (by rw [List.length_drop]; omega)]
  · refine List.map_congr_left fun i _ => ?_
    have past : 32 * (k + i) = part.length + 32 * i := by omega
    rw [Function.comp_apply, past, List.drop_append, List.drop_of_length_le (by omega), List.nil_append,
      Nat.add_sub_cancel_left]

@[simp] lemma Slot.bytes_length (s : Slot) : s.bytes.length = 32 := by
  cases s with
  | vacant bytes unseen => exact unseen.length
  | taken r => exact r.bytes_length

/-- The reader shows the records among the slots. -/
lemma Slot.shown_flatMap (slots : List Slot) :
    shown (recordsIn (slots.flatMap Slot.bytes)) = (slots.filterMap Slot.record?).map Record.dir := by
  induction slots with
  | nil => rfl
  | cons s slots ih =>
    have one : recordsIn s.bytes = [dirEntry s.bytes] := by
      rw [recordsIn, s.bytes_length]
      show [dirEntry ((s.bytes.drop 0).take 32)] = _
      rw [List.drop_zero, List.take_of_length_le (by simp)]
    rw [List.flatMap_cons, recordsIn_append (k := 1) (by simp), one, List.singleton_append]
    cases s with
    | vacant bytes unseen =>
      rw [shown_skip (show skipped (dirEntry (vacant bytes unseen).bytes) = true from unseen.skipped_bytes), ih]
      rfl
    | taken r =>
      rw [shown_keep (show skipped (dirEntry (taken r).bytes) = false from r.skipped_bytes), ih,
        show fillDir (dirEntry (taken r).bytes) = r.dir from r.fillDir_bytes]
      rfl

/-! ## Reading sectors. -/

lemma sectorsAt_succ : sectorsAt disk first (n + 1) = sectorAt disk first ++ sectorsAt disk (first + 1) n := by
  rw [sectorsAt, List.range_succ_eq_map, List.flatMap_cons, List.flatMap_map]
  congr 1
  refine List.flatMap_congr fun i _ => ?_
  rw [Nat.succ_eq_add_one, Nat.add_comm i, ← Nat.add_assoc]

lemma Intact.tail (h : Intact disk first (n + 1)) : Intact disk (first + 1) n := by
  obtain ⟨small, read⟩ := h
  refine ⟨by omega, fun i lt => ?_⟩
  rw [Nat.add_assoc, Nat.add_comm 1]
  exact read (i + 1) (by omega)

lemma Intact.sector (h : Intact disk first n) (lt : k < n) (at_ : lba.toNat = first + k) :
    ∃ s, disk (lba &&& 0x0FFFFFFF) = some s ∧ sectorAt disk (first + k) = s.bytes := by
  obtain ⟨small, read⟩ := h
  have low : lba &&& 0x0FFFFFFF = UInt32.ofNat (first + k) := by
    apply UInt32.toNat_inj.mp
    have mask := toNat_and_mask lba (k := 28) (by decide)
    change (lba &&& 0x0FFFFFFF).toNat = _ at mask
    rw [mask, at_, toNat_ofNat_lt (by omega), Nat.mod_eq_of_lt (by omega)]
  obtain ⟨s, hs⟩ := Option.ne_none_iff_exists'.mp (read k lt)
  exact ⟨s, low ▸ hs, by rw [sectorAt, hs]; rfl⟩

/-- Sectors that can be read are read. -/
lemma ataRead28Lba_sectors (h : Intact disk first n) (at_ : lba.toNat = first) :
    ataRead28Lba disk lba n = (sectorsAt disk first n, true) := by
  induction n generalizing first lba with
  | zero => rfl
  | succ n ih =>
    have small := h.small
    have next : (lba + 1).toNat = first + 1 := by
      rw [← at_]
      exact toNat_add_ofNat (n := 1) (by omega)
    obtain ⟨s, hs, bytes⟩ := h.sector (k := 0) (Nat.succ_pos n) at_
    rw [ataRead28Lba, hs]
    dsimp only
    rw [ih h.tail next, sectorsAt_succ, ← bytes]
    rfl

lemma Intact.sectors_length (h : Intact disk first n) : (sectorsAt disk first n).length = 512 * n := by
  have small := h.small
  have read : ataRead28Lba disk (UInt32.ofNat first) n = _ := ataRead28Lba_sectors h (toNat_ofNat_lt (by omega))
  have readable : Readable disk (UInt32.ofNat first) n := by rw [Readable, read]
  have length := ataRead28Lba_length.2 readable
  rwa [read] at length

/-- The entries that the reader shows from sectors are those in their bytes. -/
lemma sectorDirs_sectors (h : Intact disk first n) (at_ : lba.toNat = first) :
    sectorDirs disk lba n = shown (recordsIn (sectorsAt disk first n)) := by
  induction n generalizing first lba with
  | zero => simp [sectorDirs, sectorsAt, recordsIn, shown]
  | succ n ih =>
    have small := h.small
    have next : (lba + 1).toNat = first + 1 := by
      rw [← at_]
      exact toNat_add_ofNat (n := 1) (by omega)
    obtain ⟨s, hs, bytes⟩ := h.sector (k := 0) (Nat.succ_pos n) at_
    have read : (readSectors disk lba 1).1 = s.bytes := by
      show (ataRead28Lba disk lba 1).1 = s.bytes
      rw [ataRead28Lba, hs]
      exact List.append_nil _
    have whole : dirEntries s.bytes = recordsIn s.bytes := by
      rw [dirEntries, recordsIn, s.length]
    rw [sectorDirs, read, ih h.tail next, sectorsAt_succ, ← Nat.add_zero first, bytes, Nat.add_zero,
      recordsIn_append (k := 16) s.length, shown_append, whole]

end RetaOS.Fat
