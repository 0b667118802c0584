import RetaOS.Vfs.Defs
import RetaOS.Kheap.Defs

/-!
# The initial ramdisk

The ustar archive driver of `kernel/initrd.c`: `mount_initrd` walks the 512-byte headers of an image that
lies in memory at `g_initrd_img`, makes a node for each directory and regular file of the archive, and sets
the tree as the root of the virtual file system. Header fields are read from memory with the offsets of
`struct tar_header`; a name is a C string and may run on past its field. The image stays where it is and
`tar_read` copies from it.
-/

namespace RetaOS.Initrd
open Lib Vfs

/-! ## The driver. -/

/-- The functions of `initrd.c` whose addresses are put in nodes. -/
inductive TarFn where
  | tarRead
  | tarOpen
  | tarClose
  | tarReaddir
  | tarFinddir
deriving DecidableEq

/-- `tar_file_meta_t`. -/
structure TarFileMeta where
  size : UInt32
  dataOff : UInt32

/-- The static variables of `initrd.c` with the file records on the heap, and the address space that the
    image lies in. -/
structure Ramdisk where
  heap : Kheap.Heap
  gInitrdImg : UInt32
  gInitrdBytes : UInt32
  metas : Nat → Option TarFileMeta

/-- The kernel state that `mount_initrd` works on. -/
abbrev State := Vfs.State TarFn Ramdisk

/-- A node of the initial ramdisk. -/
abbrev Node := Vfs.Node TarFn

/-- The record that `node->data` points to. -/
def meta? (d : Ramdisk) (n : Node) : Option TarFileMeta := n.data.bind d.metas

/-- How `tar_read` ends: with a value and nothing copied, or with the copy of `n` bytes from `src`. -/
inductive TarCopy where
  | ret (value : Int)
  | copy (src n : UInt32)

/-- `tar_read` up to its `memcpy`. -/
def tarCopy (d : Ramdisk) (n : Node) (offset count : UInt32) : TarCopy :=
  match meta? d n with
  | none => .ret (-EIO_)
  | some m =>
    if d.gInitrdImg = 0 then .ret (-EIO_)
    else if offset ≥ m.size then .ret 0
    else
      let remaining := m.size - offset
      let toRead := if count < remaining then count else remaining
      .copy (d.gInitrdImg + m.dataOff + offset) toRead

/-- `tar_read`: the value returned and the bytes put in the buffer. -/
def tarRead (d : Ramdisk) (n : Node) (offset count : UInt32) : Int × List UInt8 :=
  match tarCopy d n offset count with
  | .ret value => (value, [])
  | .copy src toRead => (toRead.toInt32.toInt, d.heap.mem.loadBytes src toRead.toNat)

/-- The functions of `initrd.c` behind the pointers in its nodes. A call through a pointer of another type
    does not occur and returns `-ENOTDIR`. -/
def tarDriver : Driver TarFn Ramdisk where
  read
    | .tarRead, d, n, offset, count =>
      let (ret, bytes) := tarRead d n offset count
      (ret, bytes, n, d)
    | _, d, n, _, _ => (-ENOTDIR, [], n, d)
  write _ d n _ _ := (-ENOTDIR, n, d)
  open_
    | .tarOpen, d, n, _ => (0, n, d)
    | _, d, n, _ => (-ENOTDIR, n, d)
  close
    | .tarClose, d, n => (0, n, d)
    | _, d, n => (-ENOTDIR, n, d)
  readdir _ d n _ := (⟨[], 0, false⟩, n, d)
  finddir _ d _ _ := (-ENOTDIR, .zero, d)
  lseek _ d n _ _ := (-ENOTDIR, n, d)

/-! ## Headers. -/

/-- The value of one octal digit, if it is one. -/
def octalDigit (c : UInt8) : Option UInt32 := if 0x30 ≤ c ∧ c ≤ 0x37 then some (c - 0x30).toUInt32 else none

/-- The loop of `parse_octal` over the bytes of a field; it stops at a `NUL` as at any other byte that is no
    octal digit. -/
def parseOctalFrom (val : UInt32) : List UInt8 → UInt32
  | [] => val
  | c :: cs =>
    match octalDigit c with
    | none => val
    | some v => parseOctalFrom (val * 8 + v) cs

/-- `parse_octal`. -/
def parseOctal (str : List UInt8) : UInt32 := parseOctalFrom 0 str

/-- `hdr->name` as a C string. -/
def hdrName (m : Memory) (hdr : UInt32) : List UInt8 := m.cstr hdr

/-- `parse_octal(hdr->mode, sizeof(hdr->mode)) & 0777`. -/
def hdrMode (m : Memory) (hdr : UInt32) : UInt32 := parseOctal (m.loadBytes (hdr + 100) 8) &&& 0o777

/-- `parse_octal(hdr->size, sizeof(hdr->size))`. -/
def hdrSize (m : Memory) (hdr : UInt32) : UInt32 := parseOctal (m.loadBytes (hdr + 124) 12)

/-- `hdr->typeflag`. -/
def hdrTypeflag (m : Memory) (hdr : UInt32) : UInt8 := m (hdr + 156)

/-- `hdr->typeflag == '0' || hdr->typeflag == '\0'`. -/
def isReg (typeflag : UInt8) : Bool := typeflag == 0x30 || typeflag == 0

/-- `hdr->typeflag == '5'`. -/
def isDir (typeflag : UInt8) : Bool := typeflag == 0x35

/-- The step of `off` past a header: `512 + ((size + 511) & ~511)`. -/
def advance (size : UInt32) : UInt32 := 512 + ((size + 511) &&& ~~~511)

/-- A path without a leading `"./"`. -/
def stripDot (path : List UInt8) : List UInt8 :=
  match path with
  | 0x2E :: 0x2F :: rest => rest
  | _ => path

/-! ## The tree. -/

/-- The variables of `ensure_dir` at the head of its loop. -/
structure Ensure where
  cur : Nat
  s : List UInt8
  state : State

/-- The child directory that has a name, as `ensure_dir` looks for it. -/
def findDir (s : State) (cur : Nat) (comp : List UInt8) : Option (Option Nat) :=
  search (fun p => (s.node p).next)
    (fun p => (s.node p).flags &&& S_IFDIR != 0 && (s.node p).name == comp) (s.node cur).children

/-- A directory node as `ensure_dir` makes it. -/
def dirNode (comp : List UInt8) (parent : Nat) : Node :=
  { Node.zero with
    name := comp.take (VFS_NAME_MAX - 1)
    flags := S_IFDIR ||| 0o755
    open_ := some .tarOpen
    close := some .tarClose
    readdir := some .tarReaddir
    finddir := some .tarFinddir
    parent := some parent }

/-- One pass of the loop of `ensure_dir`, over one component of the path. -/
def ensureBody (st : Ensure) : Pass Ensure (Nat × State) :=
  match st.s.dropWhile isSlash with
  | [] => .done (st.cur, st.state)
  | c :: cs =>
    let comp := ((c :: cs).takeWhile (!isSlash ·)).take (VFS_NAME_MAX - 1)
    let rest := (c :: cs).dropWhile (!isSlash ·)
    .inner st (findDir st.state st.cur comp) fun
      | some ch => .next ⟨ch, rest, st.state⟩
      | none =>
        match st.state.kmalloc with
        | (none, state) => .done (st.cur, state)
        | (some ch, state) =>
          .next ⟨ch, rest, vfsNodeAddChild (state.setNode ch (dirNode comp st.cur)) st.cur ch⟩

/-- `ensure_dir`: the directory, and the state with the nodes made for it. -/
def ensureDir (s : State) (base : Nat) (dirpath : List UInt8) : Option (Nat × State) :=
  let p := (stripDot (dirpath.take (VFS_PATH_MAX - 1))).rdropWhile isSlash
  loop ensureBody ⟨base, p, s⟩

/-- The directory part and the name of a regular file, as `mount_initrd` cuts them. -/
def splitPath (path : List UInt8) : List UInt8 × List UInt8 :=
  let pth := stripDot path
  match rsplit isSlash pth with
  | some (dir, name) => (dir.take (VFS_PATH_MAX - 1), name.take (VFS_NAME_MAX - 1))
  | none => ([], pth.take (VFS_NAME_MAX - 1))

/-- The flags of a regular file: a mode of zero stands for `0644`. -/
def fileFlags (mode : UInt32) : UInt32 := S_IFREG ||| (if mode ≠ 0 then mode else 0o644)

/-- A file node as `mount_initrd` makes it. -/
def fileNode (name : List UInt8) (size mode : UInt32) (parent : Nat) (data : Nat) : Node :=
  { Node.zero with
    name
    flags := fileFlags mode
    size
    read := some .tarRead
    open_ := some .tarOpen
    close := some .tarClose
    parent := some parent
    data := some data }

/-- The branch of `mount_initrd` for a regular file whose header is at `off`. -/
def addFile (s : State) (root : Nat) (off : UInt32) (path : List UInt8) (size mode : UInt32) :
    Option State :=
  let (dirpart, base) := splitPath path
  match ensureDir s root dirpart with
  | none => none
  | some (parent, s) =>
    match s.kmalloc with
    | (none, s) => some s
    | (some node, s) =>
      match s.kmalloc with
      | (none, s) => some (s.kfree node)
      | (some data, s) =>
        let metas := Function.update s.drv.metas data (some ⟨size, off + 512⟩)
        let s := { s with drv := { s.drv with metas } }
        let s := s.setNode node (fileNode base size mode parent data)
        some (vfsNodeAddChild s parent node)

/-- The branch of `mount_initrd` for a directory. -/
def addDirectory (s : State) (root : Nat) (path : List UInt8) (mode : UInt32) : Option State :=
  match ensureDir s root path with
  | none => none
  | some (dir, s) =>
    let n := s.node dir
    if n.flags &&& S_IFMT = S_IFDIR ∧ mode ≠ 0 then
      some (s.setNode dir { n with flags := (n.flags &&& S_IFMT) ||| mode })
    else some s

/-- What `mount_initrd` does for the header at `off`. -/
def addEntry (s : State) (root : Nat) (off : UInt32) : Option State :=
  let m := s.drv.heap.mem
  let hdr := s.drv.gInitrdImg + off
  if isReg (hdrTypeflag m hdr) then addFile s root off (hdrName m hdr) (hdrSize m hdr) (hdrMode m hdr)
  else if isDir (hdrTypeflag m hdr) then addDirectory s root (hdrName m hdr) (hdrMode m hdr)
  else some s

/-- One pass of the header walk of `mount_initrd`, over `off` and the state. -/
def mountBody (root : Nat) : UInt32 × State → Pass (UInt32 × State) State
  | (off, s) =>
    let m := s.drv.heap.mem
    let hdr := s.drv.gInitrdImg + off
    if off + 512 ≤ s.drv.gInitrdBytes then
      if m hdr = 0 then .done s
      else .inner (off, s) (addEntry s root off) fun s => .next (off + advance (hdrSize m hdr), s)
    else .done s

/-- The root directory as `mount_initrd` makes it. -/
def rootNode : Node :=
  { Node.zero with
    name := [0x2F]
    flags := S_IFDIR ||| 0o755
    open_ := some .tarOpen
    close := some .tarClose
    readdir := some .tarReaddir
    finddir := some .tarFinddir }

/-- `g_initrd_img = img; g_initrd_bytes = bytes;`. -/
def setImage (s : State) (img bytes : UInt32) : State :=
  { s with drv := { s.drv with gInitrdImg := img, gInitrdBytes := bytes } }

/-- `mount_initrd` up to its loop: the root directory, or `NULL`. -/
def mountRoot (s : State) (img bytes : UInt32) : Option Nat × State :=
  match (setImage s img bytes).kmalloc with
  | (none, s) => (none, s)
  | (some root, s) => (some root, s.setNode root rootNode)

/-- `mount_initrd`. -/
def mountInitrd (s : State) (img bytes : UInt32) : Option (Int × State) :=
  if img = 0 ∨ bytes < 512 then some (-EINVAL, s)
  else
    match mountRoot s img bytes with
    | (none, s) => some (-ENOMEM, s)
    | (some root, s) =>
      match loop (mountBody root) (0, s) with
      | none => none
      | some s => some (0, vfsSetRoot s root)

end RetaOS.Initrd
