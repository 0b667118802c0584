import RetaOS.Initrd.RoundTrip
import RetaOS.Vfs.Frame
import RetaOS.Kheap.Integrity

/-!
# Mounting from a block device

`initrd_mount_from_block` reads an image into a new buffer and mounts it. `mount_initrd` changes `g_initrd_img` before
it allocates the root directory, and the caller gives the buffer back when that fails: from then on the nodes of the
tree that was mounted before read from memory that is free. Every other failure leaves the tree, its image and the heap
as they were (`Intact`), so this one allocation decides (`mountFromBlock_intact_iff`).
-/

namespace RetaOS.Initrd
open Lib Vfs Kheap

/-! ## The block layer. -/

/-- `block_dev_t`: what `read` puts in the buffer, which is no more than it is asked for, and what it returns. -/
structure BlockDev where
  name : List UInt8
  read : UInt32 → UInt32 → List UInt8 × Int
  short : ∀ lba count, (read lba count).1.length ≤ 512 * count.toNat

/-- `blk_find`. -/
def blkFind (gBlkDevs : List BlockDev) (name : List UInt8) : Option BlockDev := gBlkDevs.find? fun d => d.name == name

/-- `blk_read`. -/
def blkRead (dev : BlockDev) (lba count buf : UInt32) : List UInt8 × Int :=
  if buf = 0 ∨ count = 0 then ([], -1) else dev.read lba count

/-- `blk_read_byname`. -/
def blkReadByname (gBlkDevs : List BlockDev) (name : List UInt8) (lba count buf : UInt32) : List UInt8 × Int :=
  match blkFind gBlkDevs name with
  | none => ([], -1)
  | some d => blkRead d lba count buf

/-- Another kernel heap. -/
def setHeap (s : State) (heap : Heap) : State := { s with drv := { s.drv with heap } }

/-- `to_read`: as many of the sectors as fit under the cap. -/
def sectorsToRead (maxSectors maxBytesCap : UInt32) : UInt32 :=
  if maxSectors > maxBytesCap / 512 then maxBytesCap / 512 else maxSectors

/-- `initrd_mount_from_block`. -/
def initrdMountFromBlock (s : State) (gBlkDevs : List BlockDev) (devName : Option (List UInt8))
    (startLba maxSectors maxBytesCap : UInt32) : Option (Int × State) :=
  match devName with
  | none => some (-1, s)
  | some name =>
    if maxSectors = 0 then some (-1, s)
    else
      let toRead := sectorsToRead maxSectors maxBytesCap
      if toRead = 0 then some (-1, s)
      else
        let bytes := toRead * 512
        match Kheap.kmalloc s.drv.heap bytes with
        | none => none
        | some (buf, heap) =>
          if buf = 0 then some (-1, setHeap s heap)
          else
            let (data, rc) := blkReadByname gBlkDevs name startLba toRead buf
            let s := setHeap s { heap with mem := heap.mem.storeBytes buf data }
            if rc ≠ 0 then
              match Kheap.kfree s.drv.heap buf with
              | none => none
              | some heap => some (rc, setHeap s heap)
            else
              match mountInitrd s buf bytes with
              | none => none
              | some (ret, s) =>
                if ret < 0 then
                  match Kheap.kfree s.drv.heap buf with
                  | none => none
                  | some heap => some (-1, setHeap s heap)
                else some (0, s)

variable {s s' : State} {devs : List BlockDev} {name : List UInt8} {devName : Option (List UInt8)}
  {lba maxSectors cap buf n : UInt32} {l : List Block} {d : Ramdisk} {ret : Int}

/-! ## What a failed call should leave. -/

/-- The image lies in memory that no free block owns. -/
def Held (l : List Block) (d : Ramdisk) : Prop := ∀ i < d.gInitrdBytes.toNat, Owned l (d.gInitrdImg + UInt32.ofNat i)

/-- What `tar_read` copies lies in memory that no free block owns. -/
def CopyOwned (l : List Block) (d : Ramdisk) (n : Node) (offset count : UInt32) : Prop :=
  ∀ src k, tarCopy d n offset count = .copy src k → ∀ i < k.toNat, Owned l (src + UInt32.ofNat i)

/-- Every path resolves as before, every descriptor is what it was, every node reads what it did, and the image has not
    been freed. -/
structure Intact (l : List Block) (s s' : State) : Prop where
  resolves : ∀ path, lookupOf tarDriver s' path = lookupOf tarDriver s path
  descriptors : s'.openFiles = s.openFiles
  copies : ∀ n offset count, tarCopy s'.drv n offset count = tarCopy s.drv n offset count
  reads : ∀ n offset count, CopyOwned l s.drv n offset count →
    tarRead s'.drv n offset count = tarRead s.drv n offset count
  held : ∃ l', Valid s'.drv.heap l' ∧ Held l' s'.drv

/-- The call gets to the allocation of the root directory: the device is there, a buffer is free and the read
    succeeds. -/
def RootNeeded (l : List Block) (devs : List BlockDev) (devName : Option (List UInt8)) (lba maxSectors cap : UInt32) :
    Prop :=
  ∃ name dev, devName = some name ∧ sectorsToRead maxSectors cap ≠ 0 ∧
    (∃ b ∈ l, Fits (request (sectorsToRead maxSectors cap * 512)) b) ∧ blkFind devs name = some dev ∧
    (dev.read lba (sectorsToRead maxSectors cap)).2 = 0

/-- The sectors that are read fit into the buffer, without a wrap. -/
lemma imageBytes_toNat (maxSectors cap : UInt32) :
    (sectorsToRead maxSectors cap * 512).toNat = 512 * (sectorsToRead maxSectors cap).toNat := by
  have le : (sectorsToRead maxSectors cap).toNat ≤ cap.toNat / 512 := by
    have share : (cap / 512).toNat = cap.toNat / 512 := UInt32.toNat_div cap 512
    rw [sectorsToRead]
    split_ifs with more
    · omega
    · have less := UInt32.le_iff_toNat_le.mp (UInt32.not_lt.mp more)
      omega
  have lt := cap.toNat_lt
  rw [UInt32.toNat_mul]
  change (sectorsToRead maxSectors cap).toNat * 512 % 2 ^ 32 = _
  omega

/-- What a read by name stores is no more than it is asked for. -/
lemma blkReadByname_short : (blkReadByname devs name lba n buf).1.length ≤ 512 * n.toNat := by
  rw [blkReadByname]
  cases blkFind devs name with
  | none => exact Nat.zero_le _
  | some dev =>
    simp only [blkRead]
    split_ifs
    · exact Nat.zero_le _
    · exact dev.short lba n

/-- A read by name of a device that is there. -/
lemma blkReadByname_found (lba : UInt32) {dev : BlockDev} (found : blkFind devs name = some dev) (ne : buf ≠ 0)
    (some_ : n ≠ 0) : blkReadByname devs name lba n buf = dev.read lba n := by
  rw [blkReadByname, found]
  exact if_neg (not_or.mpr ⟨ne, some_⟩)

/-- Resolution does not look at the heap. -/
lemma resolve_setHeap {κ : Nat → List Nat} {heap : Heap} (p : Nat) (cs : List (List UInt8)) :
    Vfs.resolve (setHeap s heap) κ p cs = Vfs.resolve s κ p cs := by
  have child (c : List UInt8) : Vfs.child (setHeap s heap) κ p c = Vfs.child s κ p c := rfl
  induction cs generalizing p with
  | nil => rfl
  | cons c cs ih =>
    have node : (setHeap s heap).node p = s.node p := rfl
    rw [Vfs.resolve, Vfs.resolve, node, child c, ih p (fun _ => rfl), ih _ (fun _ => rfl)]
    cases Vfs.child s κ p c with
    | none => rfl
    | some q => simp only [ih q (fun _ => rfl)]

/-- Another heap leaves a tree intact when the heap is valid with the same blocks and the owned bytes are kept. -/
lemma Intact.of_heap {V : Set UInt32} {root : Nat} {T : Set Nat} {κ : Nat → List Nat} {heap : Heap}
    (m : Mount V s root T κ) (hr : s.vfsRoot = s.node root) (held : Held l s.drv) (valid : Valid heap l)
    (keeps : ∀ x, Owned l x → heap.mem x = s.drv.heap.mem x) : Intact l s (setHeap s heap) := by
  refine ⟨fun path => ?_, rfl, fun _ _ _ => rfl, fun n offset count live => ?_, l, valid, held⟩
  · have t' : Vfs.Tree (setHeap s heap) root T κ :=
      ⟨m.tree.root_mem, m.tree.lt, m.tree.linked, m.tree.kid, m.tree.up, m.tree.top⟩
    have pl' : Plain tarDriver (setHeap s heap) T := ⟨m.plain.noLink, m.plain.notFound⟩
    rw [lookupOf, lookupOf, vfsLookup_eq t' pl' hr, vfsLookup_eq m.tree m.plain hr, resolve_setHeap]
    cases Vfs.resolve s κ root (lookupComponents path) with
    | none => rfl
    | some p => rfl
  · rw [tarRead, tarRead]
    have copy : tarCopy (setHeap s heap).drv n offset count = tarCopy s.drv n offset count := rfl
    rw [copy]
    cases same : tarCopy s.drv n offset count with
    | ret value => rfl
    | copy src k =>
      simp only
      rw [show (setHeap s heap).drv.heap.mem.loadBytes src k.toNat = s.drv.heap.mem.loadBytes src k.toNat from
        Memory.loadBytes_congr fun i hi => keeps _ (live src k same i hi)]

/-- A buffer of at least one sector passes the check of `mount_initrd`. -/
lemma image_accepted {bytes : UInt32} (ne : buf ≠ 0) (large : 512 ≤ bytes.toNat) : ¬ (buf = 0 ∨ bytes < 512) :=
  not_or.mpr ⟨ne, UInt32.not_lt.mpr (UInt32.le_iff_toNat_le.mpr large)⟩

/-- `mount_initrd` of a buffer without memory for the root directory: the image is changed all the same. -/
lemma mountInitrd_noRoot {bytes : UInt32} (ne : buf ≠ 0) (large : 512 ≤ bytes.toNat) (oom : s.oom s.calls = true) :
    mountInitrd s buf bytes = some (-ENOMEM, { setImage s buf bytes with calls := s.calls + 1 }) := by
  have root : mountRoot s buf bytes = (none, { setImage s buf bytes with calls := s.calls + 1 }) := by
    have fails : (setImage s buf bytes).oom (setImage s buf bytes).calls = true := oom
    rw [mountRoot, State.kmalloc, if_pos fails]
    rfl
  rw [mountInitrd, if_neg (image_accepted ne large), root]

/-- With memory for the root directory `mount_initrd` of a buffer does not fail. -/
lemma mountInitrd_root {bytes : UInt32} (ne : buf ≠ 0) (large : 512 ≤ bytes.toNat) (room : s.oom s.calls = false)
    (run : mountInitrd s buf bytes = some (ret, s')) : ret = 0 := by
  have made : ¬ (setImage s buf bytes).oom (setImage s buf bytes).calls = true := by
    have room' : (setImage s buf bytes).oom (setImage s buf bytes).calls = false := room
    simp [room']
  rw [mountInitrd, if_neg (image_accepted ne large), mountRoot, State.kmalloc, if_neg made] at run
  dsimp only at run
  generalize loop (mountBody (setImage s buf bytes).calls) _ = result at run
  cases result with
  | none => cases run
  | some s₁ =>
    cases run
    rfl

/-- A read without an error needs the root directory next. -/
lemma rootNeeded_of_read (small : sectorsToRead maxSectors cap ≠ 0)
    (fit : ∃ b ∈ l, Fits (request (sectorsToRead maxSectors cap * 512)) b) (ne : buf ≠ 0)
    (read : (blkReadByname devs name lba (sectorsToRead maxSectors cap) buf).2 = 0) :
    RootNeeded l devs (some name) lba maxSectors cap := by
  cases find : blkFind devs name with
  | none =>
    rw [blkReadByname, find] at read
    cases read
  | some dev =>
    rw [blkReadByname_found lba find ne small] at read
    exact ⟨name, dev, rfl, small, fit, find, read⟩

/-- A failure of any other kind leaves everything intact. -/
lemma mountFromBlock_intact {V : Set UInt32} {root : Nat} {T : Set Nat} {κ : Nat → List Nat}
    (m : Mount V s root T κ) (hr : s.vfsRoot = s.node root) (valid : Valid s.drv.heap l) (held : Held l s.drv)
    (nw : ¬ Wraps (sectorsToRead maxSectors cap * 512))
    (room : RootNeeded l devs devName lba maxSectors cap → s.oom s.calls = false)
    (run : initrdMountFromBlock s devs devName lba maxSectors cap = some (ret, s')) (fails : ret ≠ 0) :
    Intact l s s' := by
  have unchanged : Intact l s s := .of_heap m hr held valid fun _ _ => rfl
  cases devName with
  | none =>
    cases run
    exact unchanged
  | some name =>
    simp only [initrdMountFromBlock] at run
    split_ifs at run with none small
    · cases run
      exact unchanged
    · cases run
      exact unchanged
    · have size := imageBytes_toNat maxSectors cap
      have pos : 0 < (sectorsToRead maxSectors cap).toNat := Nat.pos_of_ne_zero fun zero =>
        small (UInt32.toNat_inj.mp zero)
      obtain ⟨buf, heap, l', alloc, -, -, ⟨rfl, rfl, -, -⟩ | ⟨ne, -, fit⟩⟩ := kmalloc_effect valid nw
      · rw [alloc] at run
        cases run
        exact unchanged
      · rw [alloc] at run
        dsimp only at run
        rw [if_neg ne] at run
        have short : (blkReadByname devs name lba (sectorsToRead maxSectors cap) buf).1.length ≤
            (sectorsToRead maxSectors cap * 512).toNat := size ▸ blkReadByname_short
        rcases read : blkReadByname devs name lba (sectorsToRead maxSectors cap) buf with ⟨data, rc⟩
        rw [read] at short run
        obtain ⟨heap', free, valid', keeps⟩ := scratch valid nw alloc ne short
        split_ifs at run with error
        · -- the read fails
          have free' : Kheap.kfree (setHeap s { heap with mem := heap.mem.storeBytes buf data }).drv.heap buf =
            some heap' := free
          rw [free'] at run
          cases run
          exact .of_heap m hr held valid' keeps
        · -- the root directory is allocated, so the mount succeeds
          have needed : RootNeeded l devs (some name) lba maxSectors cap := by
            refine rootNeeded_of_read small fit ne ?_
            rw [read]
            exact not_not.mp error
          generalize hs : setHeap s _ = s₁ at run
          have room₁ : s₁.oom s₁.calls = false := by
            rw [← hs]
            exact room needed
          cases mount : mountInitrd s₁ buf (sectorsToRead maxSectors cap * 512) with
          | none => simp [mount] at run
          | some result =>
            obtain ⟨ret', s₂⟩ := result
            obtain rfl := mountInitrd_root ne (by omega) room₁ mount
            simp only [mount, lt_self_iff_false, ↓reduceIte] at run
            cases run
            exact absurd rfl fails

/-- Without memory for the root directory the image is in a buffer that has been given back. -/
lemma mountFromBlock_noRoot (valid : Valid s.drv.heap l) (nw : ¬ Wraps (sectorsToRead maxSectors cap * 512))
    (needed : RootNeeded l devs devName lba maxSectors cap) (oom : s.oom s.calls = true) :
    ∃ s', initrdMountFromBlock s devs devName lba maxSectors cap = some (-1, s') ∧
      ∀ l', Valid s'.drv.heap l' → ¬ Held l' s'.drv := by
  obtain ⟨name, dev, rfl, small, ⟨b, mem, fit⟩, found, success⟩ := needed
  have size := imageBytes_toNat maxSectors cap
  have pos : 0 < (sectorsToRead maxSectors cap).toNat := Nat.pos_of_ne_zero fun zero =>
    small (UInt32.toNat_inj.mp zero)
  have some_ : maxSectors ≠ 0 := by
    rintro rfl
    apply small
    rw [sectorsToRead, if_neg (UInt32.not_lt.mpr (UInt32.zero_le))]
  obtain ⟨buf, heap, l₁, alloc, valid₁, -, ⟨-, -, -, none⟩ | ⟨ne, allocated, -⟩⟩ := kmalloc_effect valid nw
  · exact absurd fit (none b mem)
  · have read := blkReadByname_found lba found ne small
    have short : (dev.read lba (sectorsToRead maxSectors cap)).1.length ≤
        (sectorsToRead maxSectors cap * 512).toNat := size ▸ dev.short _ _
    obtain ⟨heap', free, valid', -⟩ := scratch valid nw alloc ne short
    have owned := allocated.not_owned valid₁ (by omega)
    rw [initrdMountFromBlock]
    dsimp only
    rw [if_neg some_, if_neg small, alloc]
    dsimp only
    rw [if_neg ne, read, if_neg (not_not.mpr success)]
    generalize hs : setHeap s _ = s₁
    have oom₁ : s₁.oom s₁.calls = true := by
      rw [← hs]
      exact oom
    have free₁ : Kheap.kfree s₁.drv.heap buf = some heap' := by
      rw [← hs]
      exact free
    rw [mountInitrd_noRoot ne (by omega) oom₁]
    dsimp only
    rw [if_pos (by decide)]
    have free₂ : Kheap.kfree (setImage s₁ buf (sectorsToRead maxSectors cap * 512)).drv.heap buf = some heap' := free₁
    rw [free₂]
    refine ⟨_, rfl, fun l' valid'' held => ?_⟩
    obtain rfl := valid''.linked.unique valid'.linked
    have first : Owned l' (buf + UInt32.ofNat 0) :=
      held 0 (show 0 < (sectorsToRead maxSectors cap * 512).toNat by omega)
    rw [show (buf + UInt32.ofNat 0 : UInt32) = buf from UInt32.add_zero buf] at first
    exact owned first

/-- Over a mounted tree whose image is not free, a call that fails leaves everything intact exactly when it does not get
    to a root directory that there is no memory for. -/
theorem mountFromBlock_intact_iff {V : Set UInt32} {root : Nat} {T : Set Nat} {κ : Nat → List Nat}
    (m : Mount V s root T κ) (hr : s.vfsRoot = s.node root) (valid : Valid s.drv.heap l) (held : Held l s.drv)
    (nw : ¬ Wraps (sectorsToRead maxSectors cap * 512)) :
    (∀ ret s', initrdMountFromBlock s devs devName lba maxSectors cap = some (ret, s') → ret ≠ 0 → Intact l s s') ↔
      (RootNeeded l devs devName lba maxSectors cap → s.oom s.calls = false) := by
  constructor
  · intro safe needed
    by_contra fails
    obtain ⟨s', run, lost⟩ := mountFromBlock_noRoot valid nw needed (Bool.not_eq_false _ ▸ fails)
    obtain ⟨l', valid', held'⟩ := (safe (-1) s' run (by decide)).held
    exact lost l' valid' held'
  · intro room ret s' run fails
    exact mountFromBlock_intact m hr valid held nw room run fails

/-! ## A disk that cannot be read, and an archive without a root. -/

/-- A kernel before the first mount with a memory, in which these allocations of nodes fail. -/
def beforeMount (m : Memory) (oom : Nat → Bool) : State where
  nodes _ := none
  buffers _ := []
  oom
  calls := 0
  vfsRoot := .zero
  openFiles _ := .zero
  drv := ⟨kheapInit { bare with mem := m }, 0, 0, fun _ => none⟩

/-- An image in low memory is in memory that no free block owns. -/
lemma held_low {img bytes : UInt32} (base : d.gInitrdImg = img) (size : d.gInitrdBytes = bytes)
    (low : img.toNat + bytes.toNat ≤ 0xC0000000) : Held l d := by
  intro i lt
  rw [size] at lt
  rw [base]
  refine .inr (.inl ?_)
  show (img + UInt32.ofNat i : UInt32).toNat < 0xC0000000
  rw [toNat_add_ofNat (by omega)]
  omega

/-- An archive of zeros in low memory can be mounted. -/
lemma beforeMount_mounted (oom : Nat → Bool) (room : oom 0 = false) : ∃ s V root T κ,
    mountInitrd (beforeMount (fun _ => 0) oom) 0x1000 512 = some (0, s) ∧ Mount V s root T κ ∧ s.vfsRoot = s.node root ∧
      s.drv.heap = kheapInit bare ∧ Held [initialBlock] s.drv ∧ s.oom = oom ∧ s.calls = 1 := by
  generalize hs : beforeMount (fun _ => 0) oom = s₁
  have oom₁ : s₁.oom = oom := by rw [← hs]; rfl
  have calls₁ : s₁.calls = 0 := by rw [← hs]; rfl
  have heap₁ : s₁.drv.heap = kheapInit bare := by rw [← hs]; rfl
  have none : s₁.drv.heap.mem 0x1000 = 0 := by
    rw [heap₁]
    decide
  have start := mountRoot_some (s := s₁) (by rw [oom₁, calls₁]; exact room) 0x1000 512
  generalize root₁ : (setImage s₁ 0x1000 512).tick.setNode s₁.calls rootNode = s₀ at start
  have stop : mountBody s₁.calls (0, s₀) = .done s₀ := by
    have room : (0 : UInt32) + 512 ≤ s₀.drv.gInitrdBytes := by
      rw [← root₁]
      exact show (0 : UInt32) + 512 ≤ 512 by decide
    rw [mountBody, if_pos room]
    refine if_pos ?_
    rw [← root₁]
    exact none
  have run : mountInitrd s₁ 0x1000 512 = some (0, vfsSetRoot s₀ s₁.calls) := by
    rw [mountInitrd_loop (by decide) (by decide) start, loop_done stop]
    rfl
  obtain ⟨⟨root, T, κ, mounted⟩, -⟩ := mountInitrd_mounted run
  have held := held_low (l := [initialBlock]) mounted.base mounted.size (by decide)
  refine ⟨_, _, root, T, κ, run, mounted.mount, mounted.root_eq, ?_, held, ?_, ?_⟩
  · rw [← heap₁, ← root₁]
    rfl
  · rw [← oom₁, ← root₁]
    rfl
  · rw [← root₁]
    show s₁.calls + 1 = 1
    rw [calls₁]

/-- A disk of zeros. -/
def zeros : BlockDev where
  name := [0x68, 0x64, 0x61]
  read _ count := (List.replicate (512 * count.toNat) 0, 0)
  short _ _ := by simp

/-- A disk whose reads fail. -/
def damaged : BlockDev where
  name := [0x68, 0x64, 0x61]
  read _ _ := ([], -5)
  short _ _ := Nat.zero_le _

lemma damaged_rootNeeded : ¬ RootNeeded l [damaged] (some name) lba maxSectors cap := by
  rintro ⟨_, dev, -, -, -, found, success⟩
  have same : dev = damaged := List.mem_singleton.mp (List.mem_of_find?_eq_some found)
  rw [same] at success
  cases success

/-- A failed read of the disk is reported, and the buffer is given back. -/
lemma mountFromBlock_damaged (start : s.drv.heap = kheapInit { bare with mem := oneByteArchive }) :
    ∃ s', initrdMountFromBlock s [damaged] (some [0x68, 0x64, 0x61]) 1 512 0x80000 = some (-5, s') := by
  have valid : Valid s.drv.heap [initialBlock] := start ▸ kheapInit_valid rfl
  obtain ⟨heap, alloc⟩ := kmalloc_first (s := { bare with mem := oneByteArchive }) (n := 0x40000) rfl (by decide)
  rw [← start] at alloc
  have short : ([] : List UInt8).length ≤ (0x40000 : UInt32).toNat := Nat.zero_le _
  obtain ⟨heap', free, -, -⟩ := scratch valid (by decide) alloc (by decide) short
  refine ⟨setHeap s heap', ?_⟩
  have size : sectorsToRead 512 0x80000 * 512 = 0x40000 := by decide
  have read : blkReadByname [damaged] [0x68, 0x64, 0x61] 1 (sectorsToRead 512 0x80000) 0xC000000C = ([], -5) := by
    decide
  rw [initrdMountFromBlock]
  dsimp only
  rw [if_neg (by decide), if_neg (by decide), size, alloc]
  dsimp only
  rw [if_neg (by decide), read, if_pos (by decide)]
  rw [show Kheap.kfree (setHeap s { heap with mem := heap.mem.storeBytes 0xC000000C [] }).drv.heap 0xC000000C =
    some heap' from free]
  rfl

/-- The heap is built above the archive. -/
lemma kheapInit_image : Image (kheapInit { bare with mem := oneByteArchive }).mem 0x1000 1536 [oneByteEntry] := by
  refine ⟨by decide, by decide, ?_, oneByteArchive_image.noClash⟩
  have header : EntryAt (kheapInit { bare with mem := oneByteArchive }).mem (0x1000 + 0) oneByteEntry := by
    refine ⟨by decide, by decide, ?_, ?_, by decide, by decide +kernel, by decide +kernel⟩
    · exact ⟨[], List.replicate 8 0, by decide, nofun, rfl, by simp⟩
    · exact ⟨List.replicate 10 0 ++ [1], [0], by decide, by decide, by decide, by simp⟩
  have rest : Archive (kheapInit { bare with mem := oneByteArchive }).mem 0x1000 1536 1024 [] :=
    .endMark (by decide) (by decide +kernel)
  exact .entry header (by decide) (by decide) rest

/-- Over a mounted archive a failed read leaves its file where it was. -/
theorem mountFromBlock_intact_oneByte : ∃ s n s',
    mountInitrd (beforeMount oneByteArchive fun _ => false) 0x1000 1536 = some (0, s) ∧
    lookupOf tarDriver s [0x2F, 0x61] = some (0, n) ∧ Holds s.drv n [0x42] ∧
    initrdMountFromBlock s [damaged] (some [0x68, 0x64, 0x61]) 1 512 0x80000 = some (-5, s') ∧
    lookupOf tarDriver s' [0x2F, 0x61] = some (0, n) ∧ Intact [initialBlock] s s' := by
  obtain ⟨s, n, mount, look, holds, -, heap⟩ :=
    oneByteEntry_lookup (s := beforeMount oneByteArchive fun _ => false) kheapInit_image fun _ => rfl
  obtain ⟨⟨root, T, κ, t⟩, -⟩ := mountInitrd_mounted mount
  have valid : Valid s.drv.heap [initialBlock] := by
    rw [heap]
    exact kheapInit_valid (s := { bare with mem := oneByteArchive }) rfl
  have found : lookupOf tarDriver s [0x2F, 0x61] = some (0, n) := by
    rw [lookupOf, look]
    rfl
  obtain ⟨s', run⟩ := mountFromBlock_damaged (heap.trans rfl)
  have intact := (mountFromBlock_intact_iff t.mount t.root_eq valid (held_low t.base t.size (by decide))
    (by decide)).mpr
    (fun needed => absurd needed damaged_rootNeeded) (-5) s' run (by decide)
  exact ⟨s, n, s', mount, found, holds, run, (intact.resolves _).trans found, intact⟩

/-- When the root directory of the new archive cannot be allocated, the old one is left with an image that is free. -/
theorem mountFromBlock_broken : ∃ s s',
    mountInitrd (beforeMount (fun _ => 0) fun k => k == 1) 0x1000 512 = some (0, s) ∧
    Valid s.drv.heap [initialBlock] ∧ Held [initialBlock] s.drv ∧
    initrdMountFromBlock s [zeros] (some [0x68, 0x64, 0x61]) 1 512 0x80000 = some (-1, s') ∧
    ¬ Intact [initialBlock] s s' := by
  obtain ⟨s, V, root, T, κ, run, -, -, heap, held, oom, calls⟩ := beforeMount_mounted (fun k => k == 1) rfl
  have valid : Valid s.drv.heap [initialBlock] := heap ▸ kheapInit_valid rfl
  have needed : RootNeeded [initialBlock] [zeros] (some [0x68, 0x64, 0x61]) 1 512 0x80000 :=
    ⟨_, zeros, rfl, by decide, ⟨initialBlock, by simp, by decide⟩, rfl, rfl⟩
  obtain ⟨s', fails, lost⟩ := mountFromBlock_noRoot valid (by decide) needed (by rw [oom, calls]; rfl)
  refine ⟨s, s', run, valid, held, fails, fun intact => ?_⟩
  obtain ⟨l', valid', held'⟩ := intact.held
  exact lost l' valid' held'

end RetaOS.Initrd
