import RetaOS.Fat.Driver
import RetaOS.Fat.Read
import RetaOS.Kheap.Integrity
import RetaOS.Syscall.Files
import RetaOS.Vfs.Frame

/-!
# Files of a mounted volume

No path below a mounted volume can be opened. The flags of its nodes are `VFS_FILE` and `VFS_DIRECTORY`, none of the
permission bits that `vfs_open` asks for, and `fat32_finddir` puts the address of a node where `vfs_lookup` has room for
the node itself, so that what `vfs_lookup` goes on with has no flags at all (`Sealed`). Every pass of its loop stays at
such nodes.
-/

namespace RetaOS.Fat
open Lib Vfs
open Kheap hiding Linked

variable {s s₁ s₂ : State} {d : Fat32} {n child : Node} {name path : List UInt8} {ret : Int} {v v' : Volume}
  {l : List Block}

/-- A node without permission to read and without nodes around it. -/
structure Sealed (n : Node) : Prop where
  flags : n.flags &&& 0o444 = 0
  links : n.flags &&& S_IFMT = 0
  parent : n.parent = none
  children : n.children = none

lemma childOf_sealed (p : UInt32) : Sealed (childOf p) where
  flags := by
    change (0 : UInt32) &&& 0o444 = 0
    decide
  links := by
    change (0 : UInt32) &&& S_IFMT = 0
    decide
  parent := rfl
  children := rfl

lemma fatNode_sealed (name : List UInt8) (size : UInt32) (isDir : Bool) (priv : UInt32) :
    Sealed (fatNode name size isDir priv) where
  flags := by
    change (if isDir then VFS_DIRECTORY else VFS_FILE) &&& 0o444 = 0
    cases isDir <;> decide
  links := by
    change (if isDir then VFS_DIRECTORY else VFS_FILE) &&& S_IFMT = 0
    cases isDir <;> decide
  parent := rfl
  children := rfl

/-! ## Paths. -/

/-- What `fat32_finddir` leaves in `child` when it succeeds is no node of the volume. -/
lemma finddir_child {r : (Int × Node) × Volume} (h : fat32Finddir d n name = some r) (ok : r.1.1 = 0) :
    ∃ p, r.1.2 = childOf p := by
  unfold fat32Finddir at h
  dsimp only at h
  split at h
  · cases h
    cases ok
  · split_ifs at h
    · cases h
      cases ok
    · cases h
      exact ⟨_, rfl⟩
    · cases h
      exact ⟨_, rfl⟩
    · split at h
      · cases h
      · cases h
        cases ok
      · split at h
        · cases h
        · cases h
          exact ⟨_, rfl⟩
        · cases h
          exact ⟨_, rfl⟩

lemma finddir_sealed {f : FatFn} {d' : Fat32} (h : fat32Driver.finddir f d n name = (0, child, d')) : Sealed child := by
  cases run : fat32Finddir d n name with
  | none =>
    simp only [fat32Driver, run, Fat32.after] at h
    cases h
  | some r =>
    obtain ⟨⟨ret, c⟩, v⟩ := r
    simp only [fat32Driver, run, Fat32.after] at h
    cases h
    obtain ⟨p, eq⟩ := finddir_child run rfl
    change child = childOf p at eq
    rw [eq]
    exact childOf_sealed p

/-- A component leads from a sealed node to a sealed node or nowhere. -/
lemma lookupChild_sealed (h : Sealed n) {d' : Fat32} {r : Option Node}
    (run : lookupChild fat32Driver s n name d = some (r, d')) : ∀ child, r = some child → Sealed child := by
  have nowhere : findChild s n name = some none := by
    rw [findChild, h.children]
    exact loop_done rfl
  unfold lookupChild at run
  cases find : n.finddir with
  | none =>
    have fails : ¬ (-ENOENT : Int) = 0 := by decide
    simp only [find, fails, ↓reduceIte, nowhere, Option.map_none, Option.some.injEq, Prod.mk.injEq] at run
    rw [← run.1]
    intro child eq
    cases eq
  | some f =>
    simp only [find] at run
    generalize called : fat32Driver.finddir f d n name = result at run
    obtain ⟨ret, c, d₁⟩ := result
    by_cases ok : ret = 0
    · subst ok
      simp only [↓reduceIte, Option.some.injEq, Prod.mk.injEq] at run
      rw [← run.1]
      intro child eq
      rw [← Option.some.inj eq]
      exact finddir_sealed called
    · simp only [ok, ↓reduceIte, nowhere, Option.map_none, Option.some.injEq, Prod.mk.injEq] at run
      rw [← run.1]
      intro child eq
      cases eq

/-- A pass of `vfs_lookup` stays at sealed nodes. -/
lemma lookupBody_sealed {t : Lookup FatFn Fat32} (h : Sealed t.current) :
    (lookupBody fat32Driver s t).To (fun t => Sealed t.current) fun r => r.1 = 0 ∧ Sealed r.2.1 ∨ r.1 = -ENOENT := by
  unfold lookupBody
  split
  · exact .done (.inl ⟨rfl, h⟩)
  · split_ifs
    · exact .next h
    · refine .next ?_
      rw [h.parent]
      exact h
    · refine .inner h ?_
      rintro ⟨r, d'⟩ run
      cases r with
      | none => exact .done (.inr rfl)
      | some child =>
        have sealed := lookupChild_sealed h run child rfl
        have noLink : ¬ child.flags &&& S_IFMT = S_IFLNK := by
          rw [sealed.links]
          decide
        dsimp only
        rw [if_neg noLink]
        exact .next sealed

/-- From a sealed root every path leads to a sealed node or nowhere. -/
lemma vfsLookup_sealed (root : Sealed s.vfsRoot) (run : vfsLookup fat32Driver s path = some (ret, n, s₁)) :
    ret = 0 ∧ Sealed n ∨ ret = -ENOENT := by
  unfold vfsLookup at run
  cases e : loop (lookupBody fat32Driver s) (lookupStart s path s.drv) with
  | none => simp [e] at run
  | some r =>
    have start : Sealed (lookupStart s path s.drv).current := by
      unfold lookupStart
      split_ifs
      · exact root
      · exact root
    have result := loop_rule (fun _ h => lookupBody_sealed h) start e
    simp only [e, Option.some.injEq, Prod.mk.injEq] at run
    obtain ⟨rfl, rfl, -⟩ := run
    exact result

/-- Below a sealed root nothing can be opened for reading. -/
lemma vfsOpen_sealed (root : Sealed s.vfsRoot) (run : vfsOpen fat32Driver s path O_RDONLY = some (ret, s₁)) :
    ret = -EMFILE ∨ ret = -ENOENT ∨ ret = -EACCES := by
  unfold vfsOpen at run
  cases slot : freeSlot s with
  | none =>
    simp only [slot] at run
    cases run
    exact .inl rfl
  | some fd =>
    simp only [slot] at run
    cases look : vfsLookup fat32Driver s path with
    | none => simp [look] at run
    | some r =>
      obtain ⟨found, n, s'⟩ := r
      simp only [look] at run
      rcases vfsLookup_sealed root look with ⟨rfl, sealed⟩ | rfl
      · have denied : accessAllowed n O_RDONLY = false := by simp [accessAllowed, sealed.flags]
        rw [if_pos rfl] at run
        have unfolded : openNode fat32Driver s' fd n O_RDONLY = (-EACCES, s') := by
          have mode : O_RDONLY &&& O_ACCMODE = O_RDONLY := by decide
          have noWrite : O_RDONLY &&& (O_WRONLY ||| O_RDWR) = 0 := by decide
          simp [openNode, mode, noWrite, denied]
        rw [unfolded] at run
        cases run
        exact .inr (.inr rfl)
      · rw [if_neg (by decide), if_pos (by decide)] at run
        cases run
        exact .inr (.inl rfl)

/-! ## Mounting. -/

/-- What `fat32_create_node` returns is a node of the volume. -/
lemma createNode_node {size cluster ptr : UInt32} {isDir : Bool}
    (run : fat32CreateNode v name size isDir cluster = some (some (ptr, n), v')) :
    ∃ priv, n = fatNode name size isDir priv := by
  unfold fat32CreateNode at run
  split at run
  · cases run
  · split_ifs at run
    · simp at run
    · split at run
      · cases run
      · split_ifs at run
        · split at run
          · cases run
          · simp at run
        · simp only [Option.some.injEq, Prod.mk.injEq] at run
          exact ⟨_, run.1.2.symm⟩

/-- The root that `fat32_mount` returns. -/
lemma fat32Mount_root {root : Nat} (mount : fat32Mount s = some (some root, s₁)) : Sealed (s₁.node root) := by
  unfold fat32Mount at mount
  split at mount
  · cases mount
  · split_ifs at mount
    · simp at mount
    · split at mount
      · cases mount
      · simp at mount
      · rename_i create
        obtain ⟨priv, rfl⟩ := createNode_node create
        simp only [Option.some.injEq, Prod.mk.injEq] at mount
        obtain ⟨rfl, rfl⟩ := mount
        obtain ⟨flags, links, parent, children⟩ := fatNode_sealed [] 0 true priv
        simp only [State.node, State.setNode, Function.update_self, Option.getD_some]
        exact ⟨flags, links, parent, children⟩

/-- The root of the file system that a node is mounted on is that node. -/
lemma vfsMount_root {root : Nat} (mount : vfsMount fat32Driver s₁ [0x2F] root = some (0, s₂)) :
    s₂.vfsRoot = s₁.node root := by
  have invalid : ¬ -EINVAL = 0 := by decide
  have notDir : ¬ -ENOTDIR = 0 := by decide
  unfold vfsMount at mount
  by_cases named : (s₁.node root).name = []
  · rw [if_pos named] at mount
    simp [invalid] at mount
  · rw [if_neg named, vfsLookup_slash] at mount
    dsimp only at mount
    rw [if_neg (not_not.mpr rfl)] at mount
    by_cases dir : isDirectory s₁.vfsRoot.flags = false
    · rw [if_pos dir] at mount
      simp [notDir] at mount
    · rw [if_neg dir, if_pos rfl] at mount
      cases callback : (vfsSetRoot s₁ root).vfsRoot.open_ with
      | none =>
        simp only [callback, Option.some.injEq, Prod.mk.injEq, true_and] at mount
        rw [← mount]
        rfl
      | some f =>
        simp only [callback, Option.some.injEq, Prod.mk.injEq] at mount
        rw [← mount.2]
        rfl

/-! ## Reading a file back. -/

/-- Calls of `vfs_read` up to one that returns 0 read these bytes. -/
inductive ReadsToEnd : State → Int → List UInt8 → Prop where
  | done {s s' fd buf count} :
    vfsRead fat32Driver s fd buf count = (0, [], s') →
    ReadsToEnd s fd []
  | read {s s' fd buf count ret bytes rest} :
    vfsRead fat32Driver s fd buf count = (ret, bytes, s') →
    0 < ret →
    ReadsToEnd s' fd rest →
    ReadsToEnd s fd (bytes ++ rest)

/-- A file of the root directory can be opened by its name, has the size of its entry, and reading it to the end gives
    as many bytes of its chain. -/
def ReadsBack (s : State) (name : List UInt8) (entry : Dir) : Prop :=
  ∃ fd s', vfsOpen fat32Driver s (0x2F :: name) O_RDONLY = some (fd, s') ∧ 0 ≤ fd ∧
    Syscall.vfsSize s' fd = entry.size.toNat ∧
    ∀ cs, DataChain s.drv.volume entry.cluster cs →
      ReadsToEnd s' fd ((content s.drv.volume cs).take entry.size.toNat)

lemma not_readsBack_of_sealed {entry : Dir} (root : Sealed s.vfsRoot) : ¬ ReadsBack s name entry := by
  rintro ⟨fd, s', run, nonneg, -⟩
  rcases vfsOpen_sealed root run with rfl | rfl | rfl
  · exact absurd nonneg (by decide)
  · exact absurd nonneg (by decide)
  · exact absurd nonneg (by decide)

/-! ## A volume with one file. -/

/-- A boot sector: sectors of 512 bytes, one in a cluster, two tables of 512 sectors behind 32 reserved ones, the root
    directory in cluster 2. -/
def diskBoot : Sector :=
  sectorOf (List.replicate 11 0 ++ toBytes 2 512 ++ [1] ++ toBytes 2 32 ++ [2] ++ List.replicate 15 0 ++
    toBytes 4 66592 ++ toBytes 4 512 ++ List.replicate 4 0 ++ toBytes 4 2 ++ List.replicate 34 0 ++
    [0x46, 0x41, 0x54, 0x33, 0x32, 0x20, 0x20, 0x20] ++ List.replicate 420 0 ++ [0x55, 0xAA])
    (by simp only [List.length_append, List.length_replicate, toBytes_length, List.length_cons, List.length_nil]; omega)

/-- A disk with the file `A`, on which each chain ends at its first cluster. -/
def oneFile : Disk := fun lba =>
  some (if lba = 0 then diskBoot
    else if lba = 1056 then rootSector
    else ⟨List.replicate 512 0xFF, List.length_replicate⟩)

/-- The kernel before the volume is mounted. -/
def beforeMount : State where
  nodes _ := none
  buffers _ := []
  oom _ := false
  calls := 0
  vfsRoot := { Node.zero with name := [0x2F], flags := S_IFDIR ||| 0o755 }
  openFiles _ := .zero
  drv := {
    volume := ⟨oneFile, kheapInit bare, bootSector [], 0, 0, 0, 0, false⟩
    vfsRootAddr := 0x200000
    currentNodeAddr := 0x300000
    hung := false }

/-- What `fat32_init` reads of the boot sector. -/
lemma oneFile_boot : bootSector (readSectors oneFile 0 1).1 =
    ⟨512, 1, 32, 2, 66592, 512, 2, [0x46, 0x41, 0x54, 0x33, 0x32, 0x20, 0x20, 0x20]⟩ := by
  rfl

/-- The record of a node fits into its block. -/
lemma setPriv_valid {h : Heap} {b : Block} {p : UInt32} (valid : Valid h l) (mem : b ∈ l)
    (addr : p.toNat = b.addr + 12) (le : 16 ≤ b.size) (cluster size : UInt32) (isDir : Bool) :
    Valid { h with mem := setPriv h.mem p cluster size isDir } l := by
  obtain ⟨lo, hi⟩ := valid.bounds mem
  rw [Block.limit] at hi
  have at4 : (p + 4).toNat = p.toNat + 4 := toNat_add_ofNat (n := 4) (by omega)
  have at8 : (p + 8).toNat = p.toNat + 8 := toNat_add_ofNat (n := 8) (by omega)
  have at12 : (p + 12).toNat = p.toNat + 12 := toNat_add_ofNat (n := 12) (by omega)
  have store {a : UInt32} {bs : List UInt8} {m : Memory} (v : Valid { h with mem := m } l) (start : p.toNat ≤ a.toNat)
      (stop : a.toNat + bs.length ≤ p.toNat + 16) : Valid { h with mem := m.storeBytes a bs } l :=
    v.payload mem (by omega) (by rw [Block.limit]; omega)
  refine store (store (store (store valid ?_ ?_) ?_ ?_) ?_ ?_) ?_ ?_
  · exact le_rfl
  · rw [toBytes_length]
    omega
  · omega
  · rw [toBytes_length]
    omega
  · omega
  · rw [toBytes_length]
    omega
  · omega
  · rw [List.length_singleton]
    omega

/-- With room on the heap a node is created. -/
lemma fat32CreateNode_succeeds {b : Block} (valid : Valid v.heap (l ++ [b])) (used : ∀ c ∈ l, c.used = true)
    (free : b.used = false) (room : 400 < b.size) (name : List UInt8) (size : UInt32) (isDir : Bool)
    (cluster : UInt32) :
    ∃ ptr node h, fat32CreateNode v name size isDir cluster = some (some (ptr, node), { v with heap := h }) := by
  obtain ⟨priv, h, alloc, addr, valid'⟩ := kmalloc_bump (n := sizeofPrivate) valid used free (by decide)
    (by change 16 + 16 < b.size; omega)
  have filled := setPriv_valid (b := ⟨b.addr, 16, true⟩) valid' (by simp [sizeofPrivate]) addr le_rfl cluster size isDir
  have used' : ∀ c ∈ l ++ [⟨b.addr, 16, true⟩], c.used = true := by
    intro c hc
    rcases List.mem_append.mp hc with hc | hc
    · exact used c hc
    · cases List.mem_singleton.mp hc
      rfl
  obtain ⟨ptr, h', alloc', addr', -⟩ := kmalloc_bump (n := sizeofNode) filled used' rfl (by decide)
    (by change 332 + 16 < b.size - 16 - 12; omega)
  have ne : priv ≠ 0 := by
    rintro rfl
    change 0 = _ at addr
    omega
  have ne' : ptr ≠ 0 := by
    rintro rfl
    change 0 = _ at addr'
    omega
  refine ⟨ptr, fatNode name size isDir priv, h', ?_⟩
  rw [fat32CreateNode, alloc]
  dsimp only
  rw [if_neg ne, alloc']
  dsimp only
  rw [if_neg ne']

/-- A node of a volume with a name can be mounted at the root. -/
lemma vfsMount_succeeds {p : Nat} (s₁ : State) (root : Nat) (named : (s₁.node root).name ≠ [])
    (dir : isDirectory s₁.vfsRoot.flags = true) (callback : (s₁.node root).open_ = some .fat32Open)
    (priv : (s₁.node root).priv = some p) : ∃ s₂ m, vfsMount fat32Driver s₁ [0x2F] root = some (0, s₂) ∧
      s₂.drv.volume = s₁.drv.volume.setMem m := by
  have root_eq : (vfsSetRoot s₁ root).vfsRoot.open_ = some .fat32Open := callback
  have priv_eq : (vfsSetRoot s₁ root).vfsRoot.priv = some p := priv
  unfold vfsMount
  rw [if_neg named, vfsLookup_slash]
  dsimp only
  rw [if_neg (not_not.mpr rfl), if_neg (by simp [dir]), if_pos rfl, root_eq]
  simp only [fat32Driver, fat32Open, priv_eq]
  exact ⟨_, _, rfl, rfl⟩

/-- The file is found in the first cluster of the root directory. -/
lemma oneFile_find (init : v.gInitialized = true) (disk : v.disk = oneFile)
    (spc : v.gBootSector.sectorsPerCluster = 1) (begin : v.gClusterBeginLba = 1056) :
    ∃ entry, fat32FindEntry v 2 [0x61] = some (.ok entry) ∧ entry.attributes &&& ATTR_DIRECTORY = 0 := by
  have first : getFirstSectorOfCluster v 2 = 1056 := by
    rw [getFirstSectorOfCluster, begin, spc]
    decide
  have read : readSectors oneFile 1056 1 = (rootSector.bytes, true) := by
    have sector : oneFile (1056 &&& 0x0FFFFFFF) = some rootSector := rfl
    have whole : rootSector.bytes ++ [] = rootSector.bytes := List.append_nil _
    simp only [readSectors, UInt8.reduceToNat, ataRead28Lba, sector, whole]
  let de := dirEntry ((rootSector.bytes.drop (32 * 0)).take 32)
  obtain ⟨rest, entries⟩ : ∃ rest, dirEntries rootSector.bytes = de :: rest := by
    rw [dirEntries, List.range_succ_eq_map, List.map_cons]
    exact ⟨_, rfl⟩
  have found : findInSectors oneFile [0x61] 1056 1 = .found (fillDir de) := by
    have shown : ¬ skipped de = true := by decide
    have same : strcasecmp (entryName de.name) [0x61] = 0 := by decide
    simp only [findInSectors, read, entries, findInEntries, if_neg shown, if_pos same]
  refine ⟨fillDir de, ?_, by decide⟩
  rw [fat32FindEntry, if_neg (by simp [init])]
  apply loop_done
  rw [findBody, if_pos (by decide), first, disk, spc]
  simp only [UInt8.reduceToNat, found]

/-- The volume is mounted at the root, and `fat32_find_entry` finds the file in its root directory. -/
lemma oneFile_mounts : ∃ root s₁ s₂ entry, fat32Mount beforeMount = some (some root, s₁) ∧
    vfsMount fat32Driver s₁ [0x2F] root = some (0, s₂) ∧
    fat32FindEntry s₂.drv.volume s₂.drv.volume.gBootSector.rootCluster [0x61] = some (.ok entry) ∧
    entry.attributes &&& ATTR_DIRECTORY = 0 := by
  have heap : Valid beforeMount.drv.volume.heap ([] ++ [initialBlock]) := kheapInit_valid (s := bare) rfl
  obtain ⟨v, init, disk, boot, ready, begin, valid⟩ := fat32Init_succeeds (v := beforeMount.drv.volume) rfl
    (fun _ => nofun) oneFile_boot rfl (by decide) rfl (by decide) heap nofun rfl (by decide)
  obtain ⟨ptr, node, h, create⟩ := fat32CreateNode_succeeds valid (by simp) rfl (by decide) [] 0 true
    v.gBootSector.rootCluster
  obtain ⟨priv, rfl⟩ := createNode_node create
  generalize hs : (setVolume beforeMount { v with heap := h }).setNode ptr.toNat
    { fatNode [] 0 true priv with name := [0x2F] } = s₁
  have mount : fat32Mount beforeMount = some (some ptr.toNat, s₁) := by
    rw [fat32Mount, init]
    dsimp only
    rw [if_neg (not_not.mpr rfl), create]
    dsimp only
    rw [hs]
  have root : s₁.node ptr.toNat = { fatNode [] 0 true priv with name := [0x2F] } := by
    rw [← hs]
    simp only [State.node, State.setNode, Function.update_self, Option.getD_some]
  have before : s₁.vfsRoot = beforeMount.vfsRoot := by rw [← hs]; rfl
  have volume : s₁.drv.volume = { v with heap := h } := by rw [← hs]; rfl
  obtain ⟨s₂, m, set, after⟩ := vfsMount_succeeds (p := priv.toNat) s₁ ptr.toNat
    (by rw [root]; nofun) (by rw [before]; decide) (by rw [root]; rfl) (by rw [root]; rfl)
  rw [volume] at after
  have spc : s₂.drv.volume.gBootSector.sectorsPerCluster = 1 := by
    rw [after]
    exact congrArg BootSector.sectorsPerCluster boot
  have cluster : s₂.drv.volume.gBootSector.rootCluster = 2 := by
    rw [after]
    exact congrArg BootSector.rootCluster boot
  obtain ⟨entry, found, regular⟩ := oneFile_find (v := s₂.drv.volume) (by rw [after]; exact ready)
    (by rw [after]; exact disk) spc (by rw [after]; exact begin)
  exact ⟨ptr.toNat, s₁, s₂, entry, mount, set, by rw [cluster]; exact found, regular⟩

/-- On a volume that is mounted at the root no file is read back. -/
theorem readsBack_never {root : Nat} (mount : fat32Mount s = some (some root, s₁))
    (set : vfsMount fat32Driver s₁ [0x2F] root = some (0, s₂)) (name : List UInt8) (entry : Dir) :
    ¬ ReadsBack s₂ name entry := by
  apply not_readsBack_of_sealed
  rw [vfsMount_root set]
  exact fat32Mount_root mount

/-- The file of that volume is found and is not read back. -/
theorem oneFile_not_readBack : ∃ root s₁ s₂ entry, fat32Mount beforeMount = some (some root, s₁) ∧
    vfsMount fat32Driver s₁ [0x2F] root = some (0, s₂) ∧
    fat32FindEntry s₂.drv.volume s₂.drv.volume.gBootSector.rootCluster [0x61] = some (.ok entry) ∧
    entry.attributes &&& ATTR_DIRECTORY = 0 ∧ ¬ ReadsBack s₂ [0x61] entry := by
  obtain ⟨root, s₁, s₂, entry, mount, set, found, regular⟩ := oneFile_mounts
  refine ⟨root, s₁, s₂, entry, mount, set, found, regular, not_readsBack_of_sealed ?_⟩
  rw [vfsMount_root set]
  exact fat32Mount_root mount

/-- No name is read back from that volume. -/
theorem readsBack_never_oneFile : ∃ root s₁ s₂, fat32Mount beforeMount = some (some root, s₁) ∧
    vfsMount fat32Driver s₁ [0x2F] root = some (0, s₂) ∧ ∀ name entry, ¬ ReadsBack s₂ name entry := by
  obtain ⟨root, s₁, s₂, -, mount, set, -⟩ := oneFile_mounts
  exact ⟨root, s₁, s₂, mount, set, readsBack_never mount set⟩

end RetaOS.Fat
