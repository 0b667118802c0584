import RetaOS.Lib.CString
import RetaOS.Lib.Linked
import Mathlib.Logic.Function.Basic

/-!
# The virtual file system

Path lookup, the tree operations and the descriptor table of `kernel/vfs.c`. A node (`struct vfs_node`) is a record
whose pointers to other nodes are numbers in a store of the nodes that `kmalloc` handed out, so that `parent`,
`children` and `next` are followed, copied and overwritten as in the source. Strings are the bytes before
their `NUL`. A callback is a name of type `F` that a `Driver` gives a meaning to, over a state `σ` of its own:
`vfs.c` calls whatever function a node carries. Data read is returned; the caller puts it in its buffer.
Walks along `next` and the redirection of `vfs_lookup` at a symbolic link need not end, and `none` is the
result of a call that never returns.
-/

namespace RetaOS.Vfs
open Lib

/-! ## Constants. -/

def ENOENT : Int := 2
def EIO_ : Int := 5
def EBADF : Int := 9
def ENOMEM : Int := 12
def EACCES : Int := 13
def EEXIST : Int := 17
def ENOTDIR : Int := 20
def EISDIR : Int := 21
def EINVAL : Int := 22
def EMFILE : Int := 24
def EROFS : Int := 30
def ENAMETOOLONG : Int := 36
def ENOTEMPTY : Int := 39

def S_IFMT : UInt32 := 0xF000
def S_IFLNK : UInt32 := 0xA000
def S_IFREG : UInt32 := 0x8000
def S_IFDIR : UInt32 := 0x4000

def FT_DIR : UInt32 := S_IFDIR

def O_RDONLY : UInt32 := 0x0000
def O_WRONLY : UInt32 := 0x0001
def O_RDWR : UInt32 := 0x0002
def O_ACCMODE : UInt32 := 0x0003
def O_CREAT : UInt32 := 0x0100
def O_EXCL : UInt32 := 0x0200
def O_TRUNC : UInt32 := 0x0400
def O_APPEND : UInt32 := 0x0800

def SEEK_SET : Int := 0
def SEEK_CUR : Int := 1
def SEEK_END : Int := 2

def VFS_NAME_MAX : Nat := 256
def VFS_PATH_MAX : Nat := 4096
def MAX_OPEN_FILES : Nat := 32

/-- The separator of paths, `"/"` as a delimiter set. -/
def isSlash (c : UInt8) : Bool := c == 0x2F

/-! ## Nodes and state. -/

/-- `struct vfs_node`; `priv` and `data` are pointers too. -/
structure Node (F : Type) where
  name : List UInt8
  size : UInt32
  flags : UInt32
  read : Option F
  write : Option F
  open_ : Option F
  close : Option F
  readdir : Option F
  finddir : Option F
  lseek : Option F
  priv : Option Nat := none
  data : Option Nat
  parent : Option Nat
  children : Option Nat
  next : Option Nat
  position : UInt32

/-- A node after `memset(node, 0, sizeof(vfs_node_t))`. -/
def Node.zero {F : Type} : Node F where
  name := []
  size := 0
  flags := 0
  read := none
  write := none
  open_ := none
  close := none
  readdir := none
  finddir := none
  lseek := none
  data := none
  parent := none
  children := none
  next := none
  position := 0

/-- `vfs_dirent_t`. -/
structure Dirent where
  name : List UInt8
  size : UInt32
  isDir : Bool

/-- What the callbacks of a file system do: the value returned, the bytes put in the caller's buffer (or the
    node put there by `finddir`), the node passed and the state of the driver afterwards. -/
structure Driver (F σ : Type) where
  read : F → σ → Node F → UInt32 → UInt32 → Int × List UInt8 × Node F × σ
  write : F → σ → Node F → UInt32 → List UInt8 → Int × Node F × σ
  open_ : F → σ → Node F → UInt32 → Int × Node F × σ
  close : F → σ → Node F → Int × Node F × σ
  readdir : F → σ → Node F → UInt32 → Dirent × Node F × σ
  finddir : F → σ → Node F → List UInt8 → Int × Node F × σ
  lseek : F → σ → Node F → Int32 → Int → Int × Node F × σ

/-- The static variables of `vfs.c` with the nodes and the in-memory data buffers on the heap. The `k`th call
    of `kmalloc` returns the number `k`, or `NULL` when `oom k`. -/
structure State (F σ : Type) where
  nodes : Nat → Option (Node F)
  buffers : Nat → List UInt8
  oom : Nat → Bool
  calls : Nat
  vfsRoot : Node F
  openFiles : Nat → Node F
  drv : σ

variable {F σ : Type}

namespace State

/-- The node a pointer points to; freed memory has no content of its own and reads as zero. -/
def node (s : State F σ) (p : Nat) : Node F := (s.nodes p).getD .zero

/-- The node at `p` is overwritten. -/
def setNode (s : State F σ) (p : Nat) (n : Node F) : State F σ :=
  { s with nodes := Function.update s.nodes p (some n) }

/-- `kmalloc` of one object. -/
def kmalloc (s : State F σ) : Option Nat × State F σ :=
  (if s.oom s.calls then none else some s.calls, { s with calls := s.calls + 1 })

/-- `kfree` of a node. -/
def kfree (s : State F σ) (p : Nat) : State F σ :=
  { s with nodes := Function.update s.nodes p none }

/-- A descriptor slot is overwritten. -/
def setOpenFile (s : State F σ) (fd : Nat) (n : Node F) : State F σ :=
  { s with openFiles := Function.update s.openFiles fd n }

end State

/-- `vfs_node_add_child`. -/
def vfsNodeAddChild (s : State F σ) (parent child : Nat) : State F σ :=
  let s := s.setNode child { s.node child with next := (s.node parent).children }
  s.setNode parent { s.node parent with children := some child }

/-- `vfs_set_root`. -/
def vfsSetRoot (s : State F σ) (root : Nat) : State F σ := { s with vfsRoot := s.node root }

/-! ## Path lookup. -/

/-- `strtok_r` from a saved position: the token, or `NULL`, and the position to go on from. -/
def strtokR (delim : UInt8 → Bool) (str : List UInt8) : Option (List UInt8) × List UInt8 :=
  match str.dropWhile delim with
  | [] => (none, [])
  | c :: cs => (some ((c :: cs).takeWhile (!delim ·)), ((c :: cs).dropWhile (!delim ·)).drop 1)

/-- The variables of `vfs_lookup` at the head of its loop. -/
structure Lookup (F σ : Type) where
  current : Node F
  component : Option (List UInt8)
  saveptr : List UInt8
  drv : σ

/-- A path without its first slash. -/
def skipSlash (path : List UInt8) : List UInt8 := if path.head? = some 0x2F then path.tail else path

/-- `vfs_lookup` up to its loop. It returns the root at once for an empty path and for `"/"`, as the loop
    does without a component. -/
def lookupStart (s : State F σ) (path : List UInt8) (drv : σ) : Lookup F σ :=
  if path = [] ∨ path = [0x2F] then ⟨s.vfsRoot, none, [], drv⟩
  else
    let pathCopy := path.take (VFS_PATH_MAX - 1)
    let (component, saveptr) := strtokR isSlash (skipSlash pathCopy)
    ⟨s.vfsRoot, component, saveptr, drv⟩

/-- The first child in the list of a node that has a name. -/
def findChild (s : State F σ) (n : Node F) (name : List UInt8) : Option (Option Nat) :=
  search (fun p => (s.node p).next) (fun p => (s.node p).name == name) n.children

/-- The part of `vfs_lookup` that looks a component up in the current directory, by `finddir` first. -/
def lookupChild (D : Driver F σ) (s : State F σ) (current : Node F) (component : List UInt8) (drv : σ) :
    Option (Option (Node F) × σ) :=
  let (ret, child, drv) :=
    match current.finddir with
    | some f => D.finddir f drv current component
    | none => (-ENOENT, .zero, drv)
  if ret = 0 then some (some child, drv)
  else
    match findChild s current component with
    | none => none
    | some p => some (p.map s.node, drv)

/-- The path that `vfs_lookup` goes on with at a symbolic link: the target read from the link, then the next
    component. -/
def linkTarget (bytes : List UInt8) (n : Int) (component : Option (List UInt8)) : List UInt8 :=
  let target := (bytes.take n.toNat).takeWhile (· != 0)
  match component with
  | none => target
  | some c =>
    if target.length + 1 < VFS_PATH_MAX then target ++ 0x2F :: c.take (VFS_PATH_MAX - target.length - 2)
    else target

/-- One pass of the loop of `vfs_lookup`; the recursive call at a symbolic link starts over. -/
def lookupBody (D : Driver F σ) (s : State F σ) (st : Lookup F σ) :
    Pass (Lookup F σ) (Int × Node F × σ) :=
  match st.component with
  | none => .done (0, st.current, st.drv)
  | some component =>
    if component = [0x2E] then
      let (component, saveptr) := strtokR isSlash st.saveptr
      .next { st with component, saveptr }
    else if component = [0x2E, 0x2E] then
      let current := match st.current.parent with
        | some p => s.node p
        | none => st.current
      let (component, saveptr) := strtokR isSlash st.saveptr
      .next { st with current, component, saveptr }
    else
      .inner st (lookupChild D s st.current component st.drv) fun
        | (none, drv) => .done (-ENOENT, s.vfsRoot, drv)
        | (some child, drv) =>
          let (component, saveptr) := strtokR isSlash st.saveptr
          if child.flags &&& S_IFMT = S_IFLNK then
            match child.read with
            | none => .done (-EIO_, s.vfsRoot, drv)
            | some f =>
              let (n, bytes, _, drv) := D.read f drv child 0 (UInt32.ofNat (VFS_PATH_MAX - 1))
              if n > 0 then .next (lookupStart s (linkTarget bytes n component) drv)
              else .done (-EIO_, s.vfsRoot, drv)
          else .next ⟨child, component, saveptr, drv⟩

/-- `vfs_lookup`: the value returned and the node put in `out_node`. -/
def vfsLookup (D : Driver F σ) (s : State F σ) (path : List UInt8) : Option (Int × Node F × State F σ) :=
  match loop (lookupBody D s) (lookupStart s path s.drv) with
  | none => none
  | some (ret, n, drv) => some (ret, n, { s with drv })

/-! ## Creation. -/

/-- `vfs_create_node`. -/
def vfsCreateNode (s : State F σ) (name : List UInt8) (flags : UInt32) : Option Nat × State F σ :=
  match s.kmalloc with
  | (none, s) => (none, s)
  | (some p, s) => (some p, s.setNode p { Node.zero with name := name.take (VFS_NAME_MAX - 1), flags })

/-- The directory part of a path, as `vfs_open` and `vfs_create` cut it; `none` when it is too long. -/
def parentPath (path : List UInt8) : Option (List UInt8) :=
  match rsplit isSlash path with
  | none => some [0x2E]
  | some ([], _) => some [0x2F]
  | some (dir, _) => if dir.length ≥ VFS_PATH_MAX then none else some dir

/-- The name after the last slash of a path. -/
def baseName (path : List UInt8) : List UInt8 :=
  match rsplit isSlash path with
  | none => path
  | some (_, name) => name

/-- `vfs_create`. -/
def vfsCreate (D : Driver F σ) (s : State F σ) (path : List UInt8) (flags : UInt32) :
    Option (Int × State F σ) :=
  if path = [] then some (-EINVAL, s)
  else
    match parentPath path with
    | none => some (-ENAMETOOLONG, s)
    | some dir =>
      match s.kmalloc with
      | (none, s) => some (-ENOMEM, s)
      | (some parent, s) =>
        match vfsLookup D s dir with
        | none => none
        | some (ret, n, s) =>
          let s := s.setNode parent n
          if ret ≠ 0 then some (ret, s.kfree parent)
          else if n.flags &&& FT_DIR = 0 then some (-ENOTDIR, s.kfree parent)
          else
            match vfsLookup D s path with
            | none => none
            | some (ret, _, s) =>
              if ret = 0 then some (-EEXIST, s.kfree parent)
              else
                match vfsCreateNode s (baseName path) flags with
                | (none, s) => some (-ENOMEM, s.kfree parent)
                | (some node, s) =>
                  let s := s.setNode node { s.node node with parent := some parent, next := n.children }
                  let s := s.setNode parent { n with children := some node }
                  some (0, s.kfree parent)

/-- `vfs_mkdir`. -/
def vfsMkdir (D : Driver F σ) (s : State F σ) (path : List UInt8) : Option (Int × State F σ) :=
  if path = [] then some (-EINVAL, s) else vfsCreate D s path (S_IFDIR ||| 0o755)

/-! ## Descriptors. -/

/-- The slot that `fd` names, when it is open. -/
def openFile (s : State F σ) (fd : Int) : Option Nat :=
  if fd < 0 ∨ fd ≥ MAX_OPEN_FILES ∨ (s.openFiles fd.toNat).name = [] then none else some fd.toNat

/-- `vfs_read`: the value returned and the bytes put at `buf`. -/
def vfsRead (D : Driver F σ) (s : State F σ) (fd : Int) (buf count : UInt32) :
    Int × List UInt8 × State F σ :=
  match openFile s fd with
  | none => (-EBADF, [], s)
  | some i =>
    let node := s.openFiles i
    if buf = 0 then (-EINVAL, [], s)
    else if node.flags &&& FT_DIR ≠ 0 then (-EISDIR, [], s)
    else if node.read.isNone ∧ node.data.isNone then (-EBADF, [], s)
    else if node.position ≥ node.size then (0, [], s)
    else
      let toRead := if node.position + count > node.size then node.size - node.position else count
      match node.read with
      | some f =>
        let (result, bytes, node, drv) := D.read f s.drv node node.position toRead
        let node := if result > 0 then { node with position := node.position + UInt32.ofInt result } else node
        (result, bytes, { s.setOpenFile i node with drv })
      | none =>
        match node.data with
        | some p =>
          let bytes := ((s.buffers p).drop node.position.toNat).take toRead.toNat
          (toRead.toInt32.toInt, bytes, s.setOpenFile i { node with position := node.position + toRead })
        | none => (-EIO_, [], s)

/-- The bytes of a buffer after `memcpy(buf + off, bytes, ...)`. -/
def overwrite (buf : List UInt8) (off : Nat) (bytes : List UInt8) : List UInt8 :=
  (buf.take off ++ List.replicate (off - buf.length) 0) ++ bytes ++ buf.drop (off + bytes.length)

/-- The part of `vfs_write` that moves the data of an in-memory file to a larger buffer. What `kmalloc` hands out
    holds whatever was there before. -/
def growData (s : State F σ) (node : Node F) (data : Nat) (size : UInt32) :
    Option (Node F × Nat) × State F σ :=
  match s.kmalloc with
  | (none, s) => (none, s)
  | (some p, s) =>
    let bytes := overwrite (s.buffers p) 0 ((s.buffers data).take node.size.toNat)
    let buffers := Function.update (Function.update s.buffers p bytes) data []
    (some ({ node with data := some p, size }, p), { s with buffers })

/-- `vfs_write` of the bytes at `buf`. -/
def vfsWrite (D : Driver F σ) (s : State F σ) (fd : Int) (buf : UInt32) (bytes : List UInt8) : Int × State F σ :=
  match openFile s fd with
  | none => (-EBADF, s)
  | some i =>
    let node := s.openFiles i
    let count := UInt32.ofNat bytes.length
    if buf = 0 then (-EINVAL, s)
    else if node.flags &&& FT_DIR ≠ 0 then (-EISDIR, s)
    else if node.write.isNone ∧ node.flags &&& O_APPEND = 0 then (-EBADF, s)
    else
      match node.write with
      | some f =>
        let (result, node, drv) := D.write f s.drv node node.position bytes
        let node :=
          if result > 0 then
            let position := node.position + UInt32.ofInt result
            { node with position, size := if position > node.size then position else node.size }
          else node
        (result, { s.setOpenFile i node with drv })
      | none =>
        match node.data with
        | none => (-EROFS, s)
        | some data =>
          let grown :=
            if node.position + count > node.size then growData s node data (node.position + count)
            else (some (node, data), s)
          match grown with
          | (none, s) => (-ENOMEM, s)
          | (some (node, p), s) =>
            let buffers := Function.update s.buffers p (overwrite (s.buffers p) node.position.toNat bytes)
            let node := { node with position := node.position + count }
            (count.toInt32.toInt, { s.setOpenFile i node with buffers })

/-- The permission check of `vfs_open`. -/
def accessAllowed (n : Node F) (mode : UInt32) : Bool :=
  if mode = O_RDONLY then n.flags &&& 0o444 ≠ 0
  else if mode = O_WRONLY then n.flags &&& 0o222 ≠ 0
  else if mode = O_RDWR then n.flags &&& 0o666 ≠ 0
  else true

/-- The truncation of `vfs_open`: the value returned when it fails, or the node it leaves. -/
def truncate (D : Driver F σ) (s : State F σ) (n : Node F) (flags : UInt32) :
    Except Int (Node F) × State F σ :=
  if flags &&& O_TRUNC ≠ 0 ∧ flags &&& O_ACCMODE ≠ O_RDONLY then
    if n.flags &&& O_TRUNC ≠ 0 then (.ok { n with size := 0 }, s)
    else
      match n.write with
      | none => (.ok n, s)
      | some f =>
        let (ret, n, drv) := D.write f s.drv n 0 []
        (if ret < 0 then .error ret else .ok n, { s with drv })
  else (.ok n, s)

/-- `vfs_open` from the node it found, into the free slot `fd`. -/
def openNode (D : Driver F σ) (s : State F σ) (fd : Nat) (n : Node F) (flags : UInt32) : Int × State F σ :=
  let mode := flags &&& O_ACCMODE
  if n.flags &&& FT_DIR ≠ 0 ∧ flags &&& (O_WRONLY ||| O_RDWR) ≠ 0 then (-EISDIR, s)
  else if accessAllowed n mode = false then (-EACCES, s)
  else if flags &&& O_EXCL ≠ 0 ∧ flags &&& O_CREAT ≠ 0 then (-EEXIST, s)
  else
    match truncate D s n flags with
    | (.error ret, s) => (ret, s)
    | (.ok n, s) =>
      let n := { n with position := if flags &&& O_APPEND ≠ 0 then n.size else 0 }
      match n.open_ with
      | none => (fd, s.setOpenFile fd n)
      | some f =>
        let (ret, n, drv) := D.open_ f s.drv n flags
        if ret ≠ 0 then (ret, { s.setOpenFile fd .zero with drv })
        else (fd, { s.setOpenFile fd n with drv })

/-- The part of `vfs_open` that creates a missing file: the value to return, or the node created. -/
def openCreate (D : Driver F σ) (s : State F σ) (path : List UInt8) :
    Option (Except Int (Node F) × State F σ) :=
  match parentPath path with
  | none => some (.error (-ENAMETOOLONG), s)
  | some dir =>
    match vfsLookup D s dir with
    | none => none
    | some (ret, parent, s) =>
      if ret ≠ 0 then some (.error (-ENOENT), s)
      else if parent.flags &&& FT_DIR = 0 then some (.error (-ENOTDIR), s)
      else if parent.flags &&& 0o222 = 0 then some (.error (-EACCES), s)
      else
        match vfsCreate D s path 0o666 with
        | none => none
        | some (ret, s) =>
          if ret ≠ 0 then some (.error ret, s)
          else
            match vfsLookup D s path with
            | none => none
            | some (ret, n, s) => some (if ret ≠ 0 then .error ret else .ok n, s)

/-- The first free slot of the descriptor table. -/
def freeSlot (s : State F σ) : Option Nat :=
  (List.range MAX_OPEN_FILES).find? fun i => (s.openFiles i).name.isEmpty

/-- `vfs_open`. -/
def vfsOpen (D : Driver F σ) (s : State F σ) (path : List UInt8) (flags : UInt32) :
    Option (Int × State F σ) :=
  match freeSlot s with
  | none => some (-EMFILE, s)
  | some fd =>
    match vfsLookup D s path with
    | none => none
    | some (ret, n, s) =>
      if ret = 0 then some (openNode D s fd n flags)
      else if flags &&& O_CREAT = 0 then some (-ENOENT, s)
      else
        match openCreate D s path with
        | none => none
        | some (.error ret, s) => some (ret, s)
        | some (.ok n, s) => some (openNode D s fd n flags)

/-- `vfs_close`. -/
def vfsClose (D : Driver F σ) (s : State F σ) (fd : Int) : Int × State F σ :=
  match openFile s fd with
  | none => (-EBADF, s)
  | some i =>
    match (s.openFiles i).close with
    | none => (0, s.setOpenFile i .zero)
    | some f =>
      let (ret, _, drv) := D.close f s.drv (s.openFiles i)
      (ret, { s.setOpenFile i .zero with drv })

/-- The position that `vfs_lseek` computes, as the bits of its `off_t`; `none` for another `whence`. -/
def seekTo (node : Node F) (offset : Int32) (whence : Int) : Option UInt32 :=
  if whence = SEEK_SET then some offset.toUInt32
  else if whence = SEEK_CUR then some (node.position + offset.toUInt32)
  else if whence = SEEK_END then some (node.size + offset.toUInt32)
  else none

/-- `vfs_lseek`. -/
def vfsLseek (D : Driver F σ) (s : State F σ) (fd : Int) (offset : Int32) (whence : Int) : Int × State F σ :=
  match openFile s fd with
  | none => (-EBADF, s)
  | some i =>
    let node := s.openFiles i
    match seekTo node offset whence with
    | none => (-EINVAL, s)
    | some newPos =>
      if newPos.toInt32 < 0 then (-EINVAL, s)
      else
        match node.lseek with
        | some f =>
          let (ret, node, drv) := D.lseek f s.drv node offset whence
          (ret, { s.setOpenFile i node with drv })
        | none => (newPos.toInt32.toInt, s.setOpenFile i { node with position := newPos })

/-- `vfs_stat`: the value returned, `st_size` and `st_mode`. -/
def vfsStat (D : Driver F σ) (s : State F σ) (path : List UInt8) :
    Option (Int × UInt32 × UInt32 × State F σ) :=
  match vfsLookup D s path with
  | none => none
  | some (ret, n, s) => if ret ≠ 0 then some (ret, 0, 0, s) else some (0, n.size, n.flags, s)

/-! ## Directories. -/

/-- `S_ISDIR`. -/
def isDirectory (flags : UInt32) : Bool := flags &&& S_IFMT == S_IFDIR

/-- `vfs_opendir`: the value returned and the node put in `out_dir`. -/
def vfsOpendir (D : Driver F σ) (s : State F σ) (path : List UInt8) : Option (Int × Node F × State F σ) :=
  match vfsLookup D s path with
  | none => none
  | some (ret, n, s) =>
    if ret ≠ 0 then some (ret, n, s)
    else if n.flags &&& FT_DIR = 0 then some (-ENOTDIR, n, s)
    else some (0, { n with position := 0 }, s)

/-- The loop of `vfs_readdir` that skips `k` children. -/
def skipChildren (s : State F σ) : Nat → Option Nat → Option Nat
  | 0, child => child
  | _ + 1, none => none
  | k + 1, some p => skipChildren s k (s.node p).next

/-- `vfs_readdir`: the entry, or `NULL`, and the directory and the driver afterwards. -/
def vfsReaddir (D : Driver F σ) (s : State F σ) (dir : Node F) (drv : σ) : Option Dirent × Node F × σ :=
  if dir.flags &&& FT_DIR = 0 then (none, dir, drv)
  else
    match dir.readdir with
    | some f =>
      let (entry, dir, drv) := D.readdir f drv dir dir.position
      if entry.name = [] then (none, dir, drv)
      else (some entry, { dir with position := dir.position + 1 }, drv)
    | none =>
      match skipChildren s dir.position.toNat dir.children with
      | none => (none, dir, drv)
      | some p =>
        let child := s.node p
        let entry := ⟨child.name.take (VFS_NAME_MAX - 1), child.size, child.flags &&& FT_DIR != 0⟩
        (some entry, { dir with position := dir.position + 1 }, drv)

/-- The place of a link between nodes: `&p->children` or `&p->next`. -/
inductive Link where
  | children (p : Nat)
  | next (p : Nat)

/-- `*child_ptr`. -/
def State.link (s : State F σ) : Link → Option Nat
  | .children p => (s.node p).children
  | .next p => (s.node p).next

/-- `*child_ptr = q`. -/
def State.setLink (s : State F σ) (q : Option Nat) : Link → State F σ
  | .children p => s.setNode p { s.node p with children := q }
  | .next p => s.setNode p { s.node p with next := q }

/-- Where a node lies: on the heap, or in the local variable `node` of `vfs_remove` and `vfs_rmdir`. -/
inductive Place where
  | heap (p : Nat)
  | stack
deriving DecidableEq

/-- One pass of the loops of `vfs_remove` and `vfs_rmdir` over `child_ptr`. Both look for the node that lies in
    their own local variable: `(*child_ptr)->name == node.name` compares the addresses of two arrays. -/
def unlinkBody (s : State F σ) (l : Link) : Pass Link (Int × State F σ) :=
  match s.link l with
  | none => .done (-ENOENT, s)
  | some p =>
    if Place.heap p = .stack then .done (0, (s.setLink (s.node p).next l).kfree p)
    else .next (.next p)

/-- The end of `vfs_remove` and `vfs_rmdir`, for the node they found: the `close` callback, then the loop. -/
def unlinkNode (D : Driver F σ) (s : State F σ) (n : Node F) : Option (Int × State F σ) :=
  let (n, drv) :=
    match n.close with
    | none => (n, s.drv)
    | some f => (D.close f s.drv n).2
  let s := { s with drv }
  match n.parent with
  | none => some (-ENOENT, s)
  | some parent => loop (unlinkBody s) (.children parent)

/-- `vfs_remove`. -/
def vfsRemove (D : Driver F σ) (s : State F σ) (path : List UInt8) : Option (Int × State F σ) :=
  if path = [] then some (-EINVAL, s)
  else
    match vfsLookup D s path with
    | none => none
    | some (ret, n, s) =>
      if ret ≠ 0 then some (ret, s)
      else if isDirectory n.flags then some (-EISDIR, s)
      else unlinkNode D s n

/-- The names `"."` and `".."`. -/
def isDots (name : List UInt8) : Bool := name == [0x2E] || name == [0x2E, 0x2E]

/-- One pass of the loop of `vfs_rmdir` that looks for an entry. -/
def entriesBody (D : Driver F σ) (s : State F σ) : Node F × σ → Pass (Node F × σ) (Bool × σ)
  | (dir, drv) =>
    match vfsReaddir D s dir drv with
    | (none, _, drv) => .done (false, drv)
    | (some entry, dir, drv) => if isDots entry.name then .next (dir, drv) else .done (true, drv)

/-- `vfs_rmdir`. -/
def vfsRmdir (D : Driver F σ) (s : State F σ) (path : List UInt8) : Option (Int × State F σ) :=
  if path = [] then some (-EINVAL, s)
  else
    match vfsLookup D s path with
    | none => none
    | some (ret, n, s) =>
      if ret ≠ 0 then some (ret, s)
      else if isDirectory n.flags = false then some (-ENOTDIR, s)
      else
        match vfsOpendir D s path with
        | none => none
        | some (ret, dir, s) =>
          if ret ≠ 0 then some (-EIO_, s)
          else
            match loop (entriesBody D s) (dir, s.drv) with
            | none => none
            | some (hasEntries, drv) =>
              let s := { s with drv }
              if hasEntries then some (-ENOTEMPTY, s) else unlinkNode D s n

/-! ## Mounts. -/

/-- The part of `vfs_mount` for a mount point that does not exist. -/
def mountMissing (D : Driver F σ) (s : State F σ) (path : List UInt8) : Option (Int × State F σ) :=
  match rsplit isSlash path with
  | none | some ([], _) => vfsMkdir D s path
  | some (dir, _) =>
    if dir.length ≥ VFS_PATH_MAX then some (-ENAMETOOLONG, s)
    else
      match vfsLookup D s dir with
      | none => none
      | some (ret, parent, s) =>
        if ret ≠ 0 then some (ret, s)
        else if isDirectory parent.flags = false then some (-ENOTDIR, s)
        else vfsMkdir D s path

/-- `vfs_mount` of the file system whose root node is at `fsRoot`. -/
def vfsMount (D : Driver F σ) (s : State F σ) (path : List UInt8) (fsRoot : Nat) : Option (Int × State F σ) :=
  if (s.node fsRoot).name = [] then some (-EINVAL, s)
  else
    match vfsLookup D s path with
    | none => none
    | some (ret, mountPoint, s) =>
      if ret ≠ 0 then mountMissing D s path
      else if isDirectory mountPoint.flags = false then some (-ENOTDIR, s)
      else if path = [0x2F] then
        let s := vfsSetRoot s fsRoot
        match s.vfsRoot.open_ with
        | none => some (0, s)
        | some f =>
          let (ret, vfsRoot, drv) := D.open_ f s.drv s.vfsRoot 0
          some (ret, { s with vfsRoot, drv })
      else
        -- the root node is copied to the local variable `mount_point`
        let mountPoint := s.node fsRoot
        match mountPoint.open_ with
        | none => some (0, s)
        | some f =>
          let (ret, _, drv) := D.open_ f s.drv mountPoint 0
          some (ret, { s with drv })

end RetaOS.Vfs
