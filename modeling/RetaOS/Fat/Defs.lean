import RetaOS.Vfs.Defs
import RetaOS.Kheap.Defs

/-!
# FAT32

The reader of FAT32 volumes in `fs/fat32.c`, over the sectors that `ata_read28_lba` reads. The table `g_fat` and the
buffer of a cluster lie on the kernel heap, so they are memory at the addresses that `kmalloc` returned. The pointers
that a caller passes are not `NULL`, and its buffer lies elsewhere: what is copied there is returned as a list of bytes.
A record of the disk is decoded from the bytes of a sector. The loops along a chain of clusters need not end, and
`none` is a call that never returns.

Texts for the console are left out, and so are the fields of the boot sector and of directory entries that no function
reads.
-/

namespace RetaOS.Fat
open Lib Vfs

/-! ## The disk. -/

/-- The content of a sector. -/
structure Sector where
  bytes : List UInt8
  length : bytes.length = 512

/-- A disk: the sectors by their 28-bit numbers, `none` for one that cannot be read. Without a drive there is none. -/
abbrev Disk := UInt32 → Option Sector

/-- `ata_read28_lba`: the bytes transferred, and whether all sectors were read. The drive gets the low 28 bits of a
    sector number. -/
def ataRead28Lba (disk : Disk) (lba : UInt32) : Nat → List UInt8 × Bool
  | 0 => ([], true)
  | count + 1 =>
    match disk (lba &&& 0x0FFFFFFF) with
    | none => ([], false)
    | some sector =>
      let (bytes, ok) := ataRead28Lba disk (lba + 1) count
      (sector.bytes ++ bytes, ok)

/-- `read_sectors`. -/
def readSectors (disk : Disk) (lba : UInt32) (numSectors : UInt8) : List UInt8 × Bool :=
  ataRead28Lba disk lba numSectors.toNat

/-- The little-endian number in `n` bytes from an offset on. -/
def field (bytes : List UInt8) (offset n : Nat) : Nat := ofBytes ((bytes.drop offset).take n)

/-- `fat32_boot_sector_t`. -/
structure BootSector where
  bytesPerSector : UInt16
  sectorsPerCluster : UInt8
  reservedSectorCount : UInt16
  numFats : UInt8
  totalSectors32 : UInt32
  fatSize32 : UInt32
  rootCluster : UInt32
  fsType : List UInt8

/-- The boot sector in the bytes of a sector. -/
def bootSector (bytes : List UInt8) : BootSector where
  bytesPerSector := UInt16.ofNat (field bytes 11 2)
  sectorsPerCluster := UInt8.ofNat (field bytes 13 1)
  reservedSectorCount := UInt16.ofNat (field bytes 14 2)
  numFats := UInt8.ofNat (field bytes 16 1)
  totalSectors32 := UInt32.ofNat (field bytes 32 4)
  fatSize32 := UInt32.ofNat (field bytes 36 4)
  rootCluster := UInt32.ofNat (field bytes 44 4)
  fsType := (bytes.drop 82).take 8

/-- `fat32_dir_entry_t`. -/
structure DirEntry where
  name : List UInt8
  attributes : UInt8
  firstClusterHigh : UInt16
  firstClusterLow : UInt16
  fileSize : UInt32

/-- A directory entry in 32 bytes. -/
def dirEntry (bytes : List UInt8) : DirEntry where
  name := bytes.take 11
  attributes := UInt8.ofNat (field bytes 11 1)
  firstClusterHigh := UInt16.ofNat (field bytes 20 2)
  firstClusterLow := UInt16.ofNat (field bytes 26 2)
  fileSize := UInt32.ofNat (field bytes 28 4)

/-- `(fat32_dir_entry_t*)sector_buffer`, the 16 entries of a sector. -/
def dirEntries (bytes : List UInt8) : List DirEntry :=
  (List.range 16).map fun i => dirEntry ((bytes.drop (32 * i)).take 32)

def ATTR_HIDDEN : UInt8 := 0x02
def ATTR_SYSTEM : UInt8 := 0x04
def ATTR_VOLUME_ID : UInt8 := 0x08
def ATTR_DIRECTORY : UInt8 := 0x10

/-! ## The volume. -/

/-- The static variables of `fat32.c`, with the disk and the kernel heap. -/
structure Volume where
  disk : Disk
  heap : Kheap.Heap
  gBootSector : BootSector
  gFat : UInt32
  gTotalClusters : UInt32
  gFatBeginLba : UInt32
  gClusterBeginLba : UInt32
  gInitialized : Bool

/-- `is_eof_cluster`. -/
def isEofCluster (cluster : UInt32) : Bool := cluster ≥ 0x0FFFFFF8

/-- `get_first_sector_of_cluster`. -/
def getFirstSectorOfCluster (v : Volume) (cluster : UInt32) : UInt32 :=
  v.gClusterBeginLba + (cluster - 2) * v.gBootSector.sectorsPerCluster.toUInt32

/-- `g_fat[cluster]`. -/
def fatEntry (m : Memory) (gFat cluster : UInt32) : UInt32 := m.load32 (gFat + 4 * cluster)

/-- The variables of the loop of `fat32_init`. -/
structure LoadFat where
  mem : Memory
  sectorsRemaining : UInt32
  currentLba : UInt32
  fatPtr : UInt32

/-- One pass of the loop of `fat32_init`; it leaves with the memory, and whether all sectors were read. -/
def loadBody (disk : Disk) (bytesPerSector : UInt16) (l : LoadFat) : Pass LoadFat (Memory × Bool) :=
  if l.sectorsRemaining > 0 then
    let sectorsToRead : UInt8 := if l.sectorsRemaining > 255 then 255 else l.sectorsRemaining.toUInt8
    let (bytes, ok) := readSectors disk l.currentLba sectorsToRead
    let mem := l.mem.storeBytes l.fatPtr bytes
    if ok then
      .next {
        mem
        sectorsRemaining := l.sectorsRemaining - sectorsToRead.toUInt32
        currentLba := l.currentLba + sectorsToRead.toUInt32
        fatPtr := l.fatPtr + sectorsToRead.toUInt32 * bytesPerSector.toUInt32 }
    else .done (mem, false)
  else .done (l.mem, true)

/-- The part of `fat32_init` behind the checks of the boot sector. -/
def fat32Load (v : Volume) : Option (Int × Volume) :=
  let fatSize := v.gBootSector.fatSize32 * v.gBootSector.bytesPerSector.toUInt32
  match Kheap.kmalloc v.heap fatSize with
  | none => none
  | some (gFat, heap) =>
    let v := { v with gFat, heap }
    if gFat = 0 then some (-1, v)
    else
      match loop (loadBody v.disk v.gBootSector.bytesPerSector)
        ⟨heap.mem, v.gBootSector.fatSize32, v.gFatBeginLba, gFat⟩ with
      | none => none
      | some (mem, true) => some (0, { v with heap := { heap with mem }, gInitialized := true })
      | some (mem, false) =>
        match Kheap.kfree { heap with mem } gFat with
        | none => none
        | some heap => some (-1, { v with heap })

/-- `fat32_init`. A division by zero raises an exception and the call does not return. -/
def fat32Init (v : Volume) : Option (Int × Volume) :=
  if v.gInitialized then some (0, v)
  else
    match readSectors v.disk 0 1 with
    | (_, false) => some (-1, v)
    | (bytes, true) =>
      let boot := bootSector bytes
      let v := { v with gBootSector := boot }
      -- `"FAT32"`
      if boot.fsType.take 5 ≠ [0x46, 0x41, 0x54, 0x33, 0x32] then some (-1, v)
      else
        let gFatBeginLba := boot.reservedSectorCount.toUInt32
        let gClusterBeginLba := gFatBeginLba + boot.numFats.toUInt32 * boot.fatSize32
        let dataSectors := boot.totalSectors32 - gClusterBeginLba
        if boot.sectorsPerCluster = 0 then none
        else
          let gTotalClusters := dataSectors / boot.sectorsPerCluster.toUInt32
          fat32Load { v with gFatBeginLba, gClusterBeginLba, gTotalClusters }

/-- `fat32_cleanup`. -/
def fat32Cleanup (v : Volume) : Option Volume :=
  if v.gFat = 0 then some { v with gInitialized := false }
  else
    match Kheap.kfree v.heap v.gFat with
    | none => none
    | some heap => some { v with heap, gFat := 0, gInitialized := false }

/-! ## Names. -/

/-- `tolower`. -/
def tolower (c : UInt8) : UInt8 := if 0x41 ≤ c ∧ c ≤ 0x5A then c + 0x20 else c

/-- `strcasecmp`, over the bytes before the `NUL` of each string. -/
def strcasecmp : List UInt8 → List UInt8 → Int
  | [], [] => 0
  | [], b :: _ => 0 - (tolower b).toNat
  | a :: _, [] => (tolower a).toNat
  | a :: s, b :: t => if tolower a = tolower b then strcasecmp s t else (tolower a).toNat - (tolower b).toNat

/-- The loops that copy a part of a name, without its spaces and in lower case. -/
def copyName (bytes : List UInt8) : List UInt8 := (bytes.filter (· ≠ 0x20)).map tolower

/-- The conversion of an 8.3 name in `fat32_find_entry` and `fat32_readdir_index`, up to the first `NUL`. -/
def entryName (name : List UInt8) : List UInt8 :=
  let base := copyName (name.take 8)
  let full := if (name.drop 8).head? = some 0x20 then base else base ++ 0x2E :: copyName ((name.drop 8).take 3)
  full.takeWhile (· ≠ 0)

/-- `fat32_dir_t`. -/
structure Dir where
  name : List UInt8
  size : UInt32
  cluster : UInt32
  attributes : UInt8

/-- What `fat32_find_entry` and `fat32_readdir_index` put in `*entry`. -/
def fillDir (de : DirEntry) : Dir where
  name := entryName de.name
  size := de.fileSize
  cluster := de.firstClusterHigh.toUInt32 <<< 16 ||| de.firstClusterLow.toUInt32
  attributes := de.attributes

/-- The entries that both functions skip: empty, deleted, volume label, hidden and system. -/
def skipped (de : DirEntry) : Bool :=
  de.name.head? == some 0x00 || de.name.head? == some 0xE5 || de.attributes &&& ATTR_VOLUME_ID != 0 ||
    de.attributes &&& ATTR_HIDDEN != 0 || de.attributes &&& ATTR_SYSTEM != 0

/-! ## Directories. -/

/-- How a part of a directory is left: with an entry, with a read error, or with what to go on with. -/
inductive Scan (α : Type) where
  | found (entry : Dir)
  | failed
  | more (a : α)

/-- The loop of `fat32_find_entry` over the entries of a sector. -/
def findInEntries (name : List UInt8) : List DirEntry → Scan Unit
  | [] => .more ()
  | de :: rest =>
    if skipped de then findInEntries name rest
    else if strcasecmp (entryName de.name) name = 0 then .found (fillDir de)
    else findInEntries name rest

/-- The loop of `fat32_find_entry` over the sectors of a cluster. -/
def findInSectors (disk : Disk) (name : List UInt8) (sector : UInt32) : Nat → Scan Unit
  | 0 => .more ()
  | count + 1 =>
    match readSectors disk sector 1 with
    | (_, false) => .failed
    | (bytes, true) =>
      match findInEntries name (dirEntries bytes) with
      | .more () => findInSectors disk name (sector + 1) count
      | r => r

/-- One pass of the loop of `fat32_find_entry` over the clusters. -/
def findBody (v : Volume) (name : List UInt8) (cluster : UInt32) : Pass UInt32 (Except Int Dir) :=
  if isEofCluster cluster = false ∧ cluster ≠ 0 then
    match findInSectors v.disk name (getFirstSectorOfCluster v cluster) v.gBootSector.sectorsPerCluster.toNat with
    | .found entry => .done (.ok entry)
    | .failed => .done (.error (-EIO_))
    | .more () => .next (fatEntry v.heap.mem v.gFat cluster)
  else .done (.error (-ENOENT))

/-- `fat32_find_entry`. -/
def fat32FindEntry (v : Volume) (dirCluster : UInt32) (name : List UInt8) : Option (Except Int Dir) :=
  if v.gInitialized = false then some (.error (-EINVAL)) else loop (findBody v name) dirCluster

/-- The loop of `fat32_readdir_index` over the entries of a sector. -/
def indexInEntries (index : UInt32) (entriesFound : UInt32) : List DirEntry → Scan UInt32
  | [] => .more entriesFound
  | de :: rest =>
    if skipped de then indexInEntries index entriesFound rest
    else if entriesFound = index then .found (fillDir de)
    else indexInEntries index (entriesFound + 1) rest

/-- The loop of `fat32_readdir_index` over the sectors of a cluster. -/
def indexInSectors (disk : Disk) (index : UInt32) (sector entriesFound : UInt32) : Nat → Scan UInt32
  | 0 => .more entriesFound
  | count + 1 =>
    match readSectors disk sector 1 with
    | (_, false) => .failed
    | (bytes, true) =>
      match indexInEntries index entriesFound (dirEntries bytes) with
      | .more entriesFound => indexInSectors disk index (sector + 1) entriesFound count
      | r => r

/-- One pass of the loop of `fat32_readdir_index` over the clusters, with `entries_found`. -/
def indexBody (v : Volume) (index : UInt32) : UInt32 × UInt32 → Pass (UInt32 × UInt32) (Except Int Dir)
  | (cluster, entriesFound) =>
    if isEofCluster cluster = false ∧ cluster ≠ 0 then
      match indexInSectors v.disk index (getFirstSectorOfCluster v cluster) entriesFound
        v.gBootSector.sectorsPerCluster.toNat with
      | .found entry => .done (.ok entry)
      | .failed => .done (.error (-EIO_))
      | .more entriesFound => .next (fatEntry v.heap.mem v.gFat cluster, entriesFound)
    else .done (.error (-ENOENT))

/-- `fat32_readdir_index`. -/
def fat32ReaddirIndex (v : Volume) (dirCluster index : UInt32) : Option (Except Int Dir) :=
  if v.gInitialized = false then some (.error (-EINVAL)) else loop (indexBody v index) (dirCluster, 0)

/-! ## Files. -/

/-- `bytes_per_cluster`. -/
def bytesPerCluster (v : Volume) : UInt32 :=
  v.gBootSector.sectorsPerCluster.toUInt32 * v.gBootSector.bytesPerSector.toUInt32

/-- One pass of the loop of `fat32_read_file_data` that skips clusters, over `current_cluster` and
    `current_offset`. -/
def skipBody (v : Volume) (offset : UInt32) : UInt32 × UInt32 → Pass (UInt32 × UInt32) (UInt32 × UInt32)
  | (currentCluster, currentOffset) =>
    if currentOffset + bytesPerCluster v ≤ offset ∧ isEofCluster currentCluster = false then
      .next (fatEntry v.heap.mem v.gFat currentCluster, currentOffset + bytesPerCluster v)
    else .done (currentCluster, currentOffset)

/-- The variables of the loop of `fat32_read_file_data` that reads clusters; `data` is what has been copied to the
    buffer. -/
structure ReadData where
  mem : Memory
  data : List UInt8
  bytesRead : UInt32
  bytesRemaining : UInt32
  currentCluster : UInt32
  clusterOffset : UInt32

/-- One pass of that loop; it leaves with the variables, and whether all clusters were read. -/
def readBody (v : Volume) (clusterBuffer : UInt32) (r : ReadData) : Pass ReadData (ReadData × Bool) :=
  if r.bytesRemaining > 0 ∧ isEofCluster r.currentCluster = false then
    let (bytes, ok) :=
      readSectors v.disk (getFirstSectorOfCluster v r.currentCluster) v.gBootSector.sectorsPerCluster
    let mem := r.mem.storeBytes clusterBuffer bytes
    if ok then
      let room := bytesPerCluster v - r.clusterOffset
      let toRead := if room > r.bytesRemaining then r.bytesRemaining else room
      .next {
        mem
        data := r.data ++ mem.loadBytes (clusterBuffer + r.clusterOffset) toRead.toNat
        bytesRead := r.bytesRead + toRead
        bytesRemaining := r.bytesRemaining - toRead
        currentCluster := fatEntry mem v.gFat r.currentCluster
        clusterOffset := 0 }
    else .done ({ r with mem }, false)
  else .done (r, true)

/-- The part of `fat32_read_file_data` with a cluster buffer. -/
def readClusters (v : Volume) (clusterBuffer firstCluster offset size : UInt32) :
    Option (Int × List UInt8 × Volume) :=
  match loop (skipBody v offset) (firstCluster, 0) with
  | none => none
  | some (currentCluster, currentOffset) =>
    match loop (readBody v clusterBuffer) ⟨v.heap.mem, [], 0, size, currentCluster, offset - currentOffset⟩ with
    | none => none
    | some (r, ok) =>
      match Kheap.kfree { v.heap with mem := r.mem } clusterBuffer with
      | none => none
      | some heap => some (if ok then r.bytesRead.toInt32.toInt else -EIO_, r.data, { v with heap })

/-- `fat32_read_file_data`: the value returned, and the bytes put in the buffer. -/
def fat32ReadFileData (v : Volume) (firstCluster offset size : UInt32) : Option (Int × List UInt8 × Volume) :=
  if v.gInitialized = false then some (-EINVAL, [], v)
  else if size = 0 then some (0, [], v)
  else
    match Kheap.kmalloc v.heap (bytesPerCluster v) with
    | none => none
    | some (clusterBuffer, heap) =>
      if clusterBuffer = 0 then some (-ENOMEM, [], { v with heap })
      else readClusters { v with heap } clusterBuffer firstCluster offset size

end RetaOS.Fat
