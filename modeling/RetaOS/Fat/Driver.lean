import RetaOS.Fat.Defs

/-!
# FAT32 in the file system

The functions of `fs/fat32_vfs.c`: the nodes of a volume, the callbacks behind their pointers and `fat32_mount`. The
record `fat32_file_private_t` of a node lies on the kernel heap at the address in `priv`. The heap block that
`fat32_create_node` copies a node to has an address and its content is returned beside it; `fat32_mount` puts the root
in the store of nodes that `vfs.c` reads, under its address.

A `Driver` has a result for every call. One that never returns marks the state, and nothing after it happens on the
machine.
-/

namespace RetaOS.Fat
open Lib Vfs

def ENOSYS : Int := 38

def VFS_FILE : UInt32 := 0x01
def VFS_DIRECTORY : UInt32 := 0x02

/-- `sizeof(fat32_file_private_t)`. -/
def sizeofPrivate : UInt32 := 16

/-- `sizeof(vfs_node_t)`. -/
def sizeofNode : UInt32 := 332

/-- The callbacks of `fat32_vfs.c`. -/
inductive FatFn where
  | fat32Read
  | fat32Write
  | fat32Open
  | fat32Close
  | fat32VfsReaddir
  | fat32Finddir
deriving DecidableEq

/-- A node of a FAT32 volume. -/
abbrev Node := Vfs.Node FatFn

/-- The state of the driver: the volume, the addresses of `vfs_root` and of the variable `current_node` of `vfs_lookup`,
    and whether a call has not returned. -/
structure Fat32 where
  volume : Volume
  vfsRootAddr : UInt32
  currentNodeAddr : UInt32
  hung : Bool

/-! ## The fields of `fat32_file_private_t`. -/

/-- `priv->cluster`. -/
def privCluster (m : Memory) (priv : UInt32) : UInt32 := m.load32 priv

/-- `priv->size`. -/
def privSize (m : Memory) (priv : UInt32) : UInt32 := m.load32 (priv + 4)

/-- `priv->is_dir`. -/
def privIsDir (m : Memory) (priv : UInt32) : UInt8 := m (priv + 12)

/-- `priv->pos = pos`. -/
def setPrivPos (m : Memory) (priv pos : UInt32) : Memory := m.store32 (priv + 8) pos

/-- The stores of `fat32_create_node` into the record. -/
def setPriv (m : Memory) (priv cluster size : UInt32) (isDir : Bool) : Memory :=
  let m := m.store32 priv cluster
  let m := m.store32 (priv + 4) size
  let m := setPrivPos m priv 0
  m.store8 (priv + 12) (if isDir then 1 else 0)

/-- Another memory for the kernel heap. -/
def Volume.setMem (v : Volume) (mem : Memory) : Volume := { v with heap := { v.heap with mem } }

/-! ## Nodes. -/

/-- The node that `fat32_create_node` fills in. -/
def fatNode (name : List UInt8) (size : UInt32) (isDir : Bool) (priv : UInt32) : Node :=
  { Node.zero with
    name := name.take (VFS_NAME_MAX - 1)
    size
    flags := if isDir then VFS_DIRECTORY else VFS_FILE
    read := some .fat32Read
    write := some .fat32Write
    open_ := some .fat32Open
    close := some .fat32Close
    readdir := if isDir then some .fat32VfsReaddir else none
    finddir := if isDir then some .fat32Finddir else none
    priv := some priv.toNat }

/-- `fat32_create_node`: the address of the node and the node, or `NULL`. -/
def fat32CreateNode (v : Volume) (name : List UInt8) (size : UInt32) (isDir : Bool) (cluster : UInt32) :
    Option (Option (UInt32 × Node) × Volume) :=
  match Kheap.kmalloc v.heap sizeofPrivate with
  | none => none
  | some (priv, heap) =>
    if priv = 0 then some (none, { v with heap })
    else
      match Kheap.kmalloc { heap with mem := setPriv heap.mem priv cluster size isDir } sizeofNode with
      | none => none
      | some (nodePtr, heap) =>
        if nodePtr = 0 then
          match Kheap.kfree heap priv with
          | none => none
          | some heap => some (none, { v with heap })
        else some (some (nodePtr, fatNode name size isDir priv), { v with heap })

/-! ## The callbacks. -/

/-- `fat32_read`, over its call of `fat32_read_file_data`: a monad of its own lets a reader watch the call. -/
def fat32ReadBy {m : Type → Type} [Monad m]
    (readFileData : Volume → UInt32 → UInt32 → UInt32 → m (Int × List UInt8 × Volume)) (v : Volume) (n : Node)
    (offset size : UInt32) : m ((Int × List UInt8) × Volume) :=
  match n.priv with
  | none => pure ((-EINVAL, []), v)
  | some p => do
    let priv := UInt32.ofNat p
    let fileSize := privSize v.heap.mem priv
    if privIsDir v.heap.mem priv ≠ 0 then pure ((-EISDIR, []), v)
    else if offset ≥ fileSize then pure ((0, []), v)
    else
      let size := if offset + size > fileSize then fileSize - offset else size
      let (bytesRead, data, v) ← readFileData v (privCluster v.heap.mem priv) offset size
      if bytesRead < 0 then pure ((bytesRead, data), v)
      else pure ((bytesRead, data), v.setMem (setPrivPos v.heap.mem priv (offset + UInt32.ofInt bytesRead)))

/-- `fat32_read`. -/
def fat32Read (v : Volume) (n : Node) (offset size : UInt32) : Option ((Int × List UInt8) × Volume) :=
  fat32ReadBy fat32ReadFileData v n offset size

/-- `fat32_open`. -/
def fat32Open (v : Volume) (n : Node) : Int × Volume :=
  match n.priv with
  | none => (-EINVAL, v)
  | some p => (0, v.setMem (setPrivPos v.heap.mem (UInt32.ofNat p) 0))

/-- `fat32_close`. -/
def fat32Close (n : Node) : Int := if n.priv.isNone then -EINVAL else 0

/-- `fat32_vfs_readdir`. -/
def fat32VfsReaddir (v : Volume) (n : Node) (index : UInt32) : Option Dirent :=
  match n.priv with
  | none => some ⟨[], 0, false⟩
  | some p =>
    let priv := UInt32.ofNat p
    if privIsDir v.heap.mem priv = 0 then some ⟨[], 0, false⟩
    else if index = 0 then some ⟨[0x2E], 0, true⟩
    else if index = 1 then some ⟨[0x2E, 0x2E], 0, true⟩
    else
      match fat32ReaddirIndex v (privCluster v.heap.mem priv) (index - 2) with
      | none => none
      | some (.error _) => some ⟨[], 0, false⟩
      | some (.ok entry) =>
        some ⟨entry.name.take (VFS_NAME_MAX - 1), entry.size, entry.attributes &&& ATTR_DIRECTORY != 0⟩

/-- The variable `child` of `vfs_lookup` after `*out_node = p`: `fat32_finddir` takes its address for that of a
    pointer, and the four bytes of `p` come to lie at the start of the name. -/
def childOf (p : UInt32) : Node := { Node.zero with name := (toBytes 4 p.toNat).takeWhile (· ≠ 0) }

/-- `fat32_finddir`: the value returned, and what `child` holds then. -/
def fat32Finddir (d : Fat32) (n : Node) (name : List UInt8) : Option ((Int × Node) × Volume) :=
  let v := d.volume
  match n.priv with
  | none => some ((-EINVAL, .zero), v)
  | some p =>
    let priv := UInt32.ofNat p
    if privIsDir v.heap.mem priv = 0 then some ((-ENOTDIR, .zero), v)
    else if name = [0x2E] then some ((0, childOf d.currentNodeAddr), v)
    else if name = [0x2E, 0x2E] then some ((0, childOf d.vfsRootAddr), v)
    else
      match fat32FindEntry v (privCluster v.heap.mem priv) name with
      | none => none
      | some (.error _) => some ((-ENOENT, .zero), v)
      | some (.ok entry) =>
        match fat32CreateNode v name entry.size (entry.attributes &&& ATTR_DIRECTORY != 0) entry.cluster with
        | none => none
        | some (none, v) => some ((0, childOf 0), v)
        | some (some (nodePtr, _), v) => some ((0, childOf nodePtr), v)

/-- The state after a call, which is marked when the call does not return. -/
def Fat32.after {α : Type} (d : Fat32) (noReturn : α) : Option (α × Volume) → α × Fat32
  | none => (noReturn, { d with hung := true })
  | some (a, volume) => (a, { d with volume })

/-- The functions behind the pointers in the nodes of a volume. Each is called through a pointer of its own type, and
    no node has a pointer for `lseek`. -/
def fat32Driver : Driver FatFn Fat32 where
  read _ d n offset count :=
    let ((ret, bytes), d) := d.after (-EIO_, []) (fat32Read d.volume n offset count)
    (ret, bytes, n, d)
  write _ d n _ _ := (-ENOSYS, n, d)
  open_ _ d n _ := ((fat32Open d.volume n).1, n, { d with volume := (fat32Open d.volume n).2 })
  close _ d n := (fat32Close n, n, d)
  readdir _ d n index :=
    let (entry, d) := d.after ⟨[], 0, false⟩ ((fat32VfsReaddir d.volume n index).map fun entry => (entry, d.volume))
    (entry, n, d)
  finddir _ d n name :=
    let ((ret, child), d) := d.after (-EIO_, .zero) (fat32Finddir d n name)
    (ret, child, d)
  lseek _ d n _ _ := (-EINVAL, n, d)

/-! ## Mounting. -/

/-- The kernel state with a FAT32 driver. -/
abbrev State := Vfs.State FatFn Fat32

/-- Another volume. -/
def setVolume (s : State) (volume : Volume) : State := { s with drv := { s.drv with volume } }

/-- `fat32_mount`: the address of the root node, or `NULL`. -/
def fat32Mount (s : State) : Option (Option Nat × State) :=
  match fat32Init s.drv.volume with
  | none => none
  | some (ret, v) =>
    if ret ≠ 0 then some (none, setVolume s v)
    else
      match fat32CreateNode v [] 0 true v.gBootSector.rootCluster with
      | none => none
      | some (none, v) => some (none, setVolume s v)
      | some (some (root, node), v) =>
        some (some root.toNat, (setVolume s v).setNode root.toNat { node with name := [0x2F] })

end RetaOS.Fat
