import RetaOS.Elf.Defs
import RetaOS.Initrd.RoundTrip
import RetaOS.Kheap.Integrity

/-!
# The loader and the position of its descriptor

`elf_exec` reads its header with the descriptor that it then reads the whole file with, and does not seek back.
`vfsRead_sized` says what one read of a file of the ramdisk can do, `execLoaded_fails` that the second read
comes up short, and `elfExec_never_loads` that no file of a mounted tree is ever run.
-/

namespace RetaOS.Elf
open Lib Vfs Initrd

variable {s s' : State} {d : Ramdisk} {n : Node} {fd pos : Nat} {path : List UInt8} {ehAddr : UInt32}

/-! ## Executables. -/

/-- The program header `i` of a file. -/
def phdr (file : List UInt8) (i : Nat) : Phdr :=
  Phdr.ofBytes ((file.drop ((Ehdr.ofBytes file).ePhoff.toNat + sizeofPhdr * i)).take sizeofPhdr)

/-- The program header `i` of a file is one of a segment. -/
def Segment (file : List UInt8) (i : Nat) : Prop :=
  i < (Ehdr.ofBytes file).ePhnum.toNat ∧ (phdr file i).pType = PT_LOAD

/-- A well-formed ELF32 executable. -/
structure WellFormed (file : List UInt8) : Prop where
  header : sizeofEhdr ≤ file.length
  valid : elfValidate (Ehdr.ofBytes file) = true
  table : (Ehdr.ofBytes file).ePhoff.toNat + sizeofPhdr * (Ehdr.ofBytes file).ePhnum.toNat ≤ file.length
  inside : ∀ i, Segment file i → (phdr file i).pOffset.toNat + (phdr file i).pFilesz.toNat ≤ file.length
  fits : ∀ i, Segment file i → (phdr file i).pFilesz ≤ (phdr file i).pMemsz ∧
    (phdr file i).pVaddr.toNat + (phdr file i).pMemsz.toNat ≤ 2 ^ 32
  apart : ∀ i j, Segment file i → Segment file j → i ≠ j →
    (phdr file i).pVaddr.toNat + (phdr file i).pMemsz.toNat ≤ (phdr file j).pVaddr.toNat ∨
      (phdr file j).pVaddr.toNat + (phdr file j).pMemsz.toNat ≤ (phdr file i).pVaddr.toNat

/-- `elf_exec` goes to user mode at the entry point of a file, with its segments in memory. -/
def Loads (ehAddr : UInt32) (s : State) (path file : List UInt8) : Prop :=
  ∃ stackTop s', elfExec ehAddr s path = some (.usermode (Ehdr.ofBytes file).eEntry stackTop s') ∧
    ∀ i, Segment file i →
      s'.drv.heap.mem.loadBytes (phdr file i).pVaddr (phdr file i).pMemsz.toNat =
        (file.drop (phdr file i).pOffset.toNat).take (phdr file i).pFilesz.toNat ++
          List.replicate ((phdr file i).pMemsz.toNat - (phdr file i).pFilesz.toNat) 0

/-- `kmalloc` hands out a block of the heap region for `n` bytes. -/
def Room (heap : Kheap.Heap) (n : UInt32) : Prop :=
  ∃ p heap', Kheap.kmalloc heap n = some (p, heap') ∧ Kheap.InRegion p n.toNat

/-! ## One read. -/

/-- A file of the ramdisk whose record has the size of its node. -/
structure Sized (d : Ramdisk) (n : Node) : Prop where
  flags : n.flags &&& S_IFMT = S_IFREG
  read : n.read = some .tarRead
  open_ : n.open_ = some .tarOpen
  record : ∃ off, meta? d n = some ⟨n.size, off⟩

lemma sized_of_file {off : UInt32} (f : File d off n) : Sized d n := ⟨f.flags, f.read, f.open_, off + 512, f.sized⟩

lemma Sized.no_flag (h : Sized d n) : ¬ n.flags &&& FT_DIR ≠ 0 := by
  have mask : FT_DIR = S_IFMT &&& FT_DIR := by decide
  rw [mask, ← UInt32.and_assoc, h.flags]
  decide

lemma Sized.with_position (h : Sized d n) (v : UInt32) : Sized d { n with position := v } :=
  ⟨h.flags, h.read, h.open_, h.record⟩

/-- `tar_read` below the end of a file delivers at most what is left of it. -/
lemma tarRead_sized {off offset : UInt32} (record : meta? d n = some ⟨n.size, off⟩) (himg : d.gInitrdImg ≠ 0)
    (short : n.size.toNat < 2 ^ 31) (lt : offset < n.size) (count : UInt32) :
    ∃ bytes : List UInt8, offset.toNat + bytes.length ≤ n.size.toNat ∧
      tarRead d n offset count = ((bytes.length : Int), bytes) := by
  have len := toRead_toNat lt count
  have below := UInt32.lt_iff_toNat_lt.mp lt
  rw [tarRead, tarCopy_lt record himg lt]
  generalize (if count < _ then count else _) = toRead at len
  refine ⟨_, ?_, Prod.ext ?_ rfl⟩
  · rw [Memory.loadBytes_length]
    omega
  · rw [Memory.loadBytes_length]
    exact toInt_of_lt (by omega)

/-- What one `vfs_read` of a file can do: nothing, or deliver some of what is left of it and move the position past
    that. -/
lemma vfsRead_sized (buf count : UInt32) (h : Sized s.drv (s.openFiles fd)) (himg : s.drv.gInitrdImg ≠ 0)
    (short : (s.openFiles fd).size.toNat < 2 ^ 31) :
    (∃ ret, ret ≤ 0 ∧ vfsRead tarDriver s fd buf count = (ret, [], s)) ∨
      ∃ bytes : List UInt8, (s.openFiles fd).position.toNat + bytes.length ≤ (s.openFiles fd).size.toNat ∧
        vfsRead tarDriver s fd buf count =
          ((bytes.length : Int), bytes, s.setOpenFile fd (advanced (s.openFiles fd) bytes.length)) := by
  by_cases slot : openFile s fd = some fd
  · by_cases hbuf : buf = 0
    · refine .inl ⟨-EINVAL, by decide, ?_⟩
      simp only [vfsRead, slot, if_pos hbuf]
    · have readable : ¬ ((s.openFiles fd).read.isNone = true ∧ (s.openFiles fd).data.isNone = true) := by
        rw [h.read]
        simp
      by_cases atEnd : (s.openFiles fd).position ≥ (s.openFiles fd).size
      · refine .inl ⟨0, le_rfl, ?_⟩
        simp only [vfsRead, slot, if_neg hbuf, if_neg h.no_flag, if_neg readable, if_pos atEnd]
      · obtain ⟨off, record⟩ := h.record
        obtain ⟨bytes, fits, run⟩ := tarRead_sized record himg short (UInt32.not_le.mp atEnd)
          (if (s.openFiles fd).position + count > (s.openFiles fd).size then
            (s.openFiles fd).size - (s.openFiles fd).position else count)
        exact .inr ⟨bytes, fits, vfsRead_tarRead slot hbuf h.no_flag h.read atEnd run⟩
  · refine .inl ⟨-EBADF, by decide, ?_⟩
    have closed : openFile s fd = none := by
      unfold openFile at slot ⊢
      split_ifs at slot ⊢ with h
      · rfl
      · exact absurd rfl slot
    simp only [vfsRead, closed]

/-! ## Opening. -/

/-- `vfs_open` for reading of a node that lookup finds: no free descriptor, a refusal, or the node in the free slot. -/
lemma vfsOpen_found (callback : n.open_ = some .tarOpen) (look : vfsLookup tarDriver s path = some (0, n, s)) :
    vfsOpen tarDriver s path O_RDONLY = match freeSlot s with
      | none => some (-EMFILE, s)
      | some i => some (match refusal n O_RDONLY with
        | some e => (e, s)
        | none => ((i : Int), s.setOpenFile i { n with position := 0 })) := by
  rw [vfsOpen_eq]
  cases freeSlot s with
  | none => rfl
  | some i =>
    rw [openTarget, look]
    dsimp only
    rw [if_pos rfl]
    dsimp only
    rw [openNode_eq]
    cases refusal n O_RDONLY with
    | some e => rfl
    | none =>
      have kept : truncate tarDriver s n O_RDONLY = (.ok n, s) := if_neg (by decide)
      rw [kept]
      dsimp only
      rw [fillSlot, show (openAt n O_RDONLY).open_ = some .tarOpen from callback]
      rfl

/-- It fails and changes nothing, or it fills the free slot. -/
lemma vfsOpen_reading {ret : Int} (callback : n.open_ = some .tarOpen)
    (look : vfsLookup tarDriver s path = some (0, n, s)) (opens : vfsOpen tarDriver s path 0 = some (ret, s')) :
    (ret < 0 ∧ s' = s) ∨
      ∃ fd, freeSlot s = some fd ∧ ret = (fd : Nat) ∧ s' = s.setOpenFile fd { n with position := 0 } := by
  have opened := vfsOpen_found callback look
  change vfsOpen tarDriver s path 0 = _ at opened
  rw [opened] at opens
  cases slot : freeSlot s with
  | none =>
    rw [slot] at opens
    cases opens
    exact .inl ⟨by decide, rfl⟩
  | some fd =>
    rw [slot] at opens
    cases refused : refusal n O_RDONLY with
    | some e =>
      rw [refused] at opens
      cases opens
      refine .inl ⟨?_, rfl⟩
      obtain rfl | rfl | rfl := refusal_mem refused <;> decide
    | none =>
      rw [refused] at opens
      cases opens
      exact .inr ⟨fd, rfl, rfl, rfl⟩

/-! ## The second read. -/

/-- Once the header is read, the whole file is not read through the same descriptor any more. -/
lemma execLoaded_fails {eh : Ehdr} {elfData stSize entry top : UInt32} (h : Sized s.drv (s.openFiles fd))
    (himg : s.drv.gInitrdImg ≠ 0) (size : (s.openFiles fd).size = stSize) (short : stSize.toNat < 2 ^ 31)
    (moved : 0 < (s.openFiles fd).position.toNat) (large : 0 < stSize.toNat) :
    execLoaded s fd eh elfData stSize ≠ some (.usermode entry top s') := by
  have less : (vfsRead tarDriver s fd elfData stSize).1 < stSize.toInt32.toInt := by
    rw [toInt_of_lt short]
    have read := vfsRead_sized elfData stSize h himg (size ▸ short)
    cases read with
    | inl read =>
      obtain ⟨ret, le, run⟩ := read
      rw [run]
      omega
    | inr read =>
      obtain ⟨bytes, fits, run⟩ := read
      rw [size] at fits
      rw [run]
      omega
  unfold execLoaded
  simp only [if_pos less]
  split
  · nofun
  · nofun

lemma Sized.advanced {k : Nat} (h : Sized d n) : Sized d (advanced n k) := by
  unfold Initrd.advanced
  split_ifs
  · exact h.with_position _
  · exact h

lemma advanced_size {k : Nat} : (advanced n k).size = n.size := by
  unfold advanced
  split_ifs <;> rfl

/-- `elf_exec` does not get to user mode with a file open at its start. -/
lemma execOpened_fails {stSize entry top : UInt32} (h : Sized s.drv (s.openFiles fd))
    (himg : s.drv.gInitrdImg ≠ 0) (size : (s.openFiles fd).size = stSize)
    (first : (s.openFiles fd).position.toNat = 0) (room : Room s.drv.heap stSize) :
    execOpened ehAddr s fd stSize ≠ some (.usermode entry top s') := by
  subst size
  obtain ⟨p, heap, alloc, start, limit⟩ := room
  have short : (s.openFiles fd).size.toNat < 2 ^ 31 := by
    change 0xC0000000 ≤ p.toNat at start
    change p.toNat + (s.openFiles fd).size.toNat ≤ 0xC0000000 + 0x100000 at limit
    omega
  have read := vfsRead_sized ehAddr (UInt32.ofNat sizeofEhdr) h himg short
  unfold execOpened
  cases read with
  | inl read =>
    obtain ⟨rd, le, run⟩ := read
    have less : rd < (sizeofEhdr : Int) := le.trans_lt (by decide)
    simp only [run, if_pos less]
    nofun
  | inr read =>
    obtain ⟨bytes, fits, run⟩ := read
    rw [first] at fits
    have heapKept : (s.setOpenFile fd (advanced (s.openFiles fd) bytes.length)).drv.heap = s.drv.heap := rfl
    simp only [run, heapKept, alloc]
    split_ifs with less
    · nofun
    · nofun
    · nofun
    have header : 52 ≤ bytes.length := Int.ofNat_le.mp (not_lt.mp less)
    have slot : (setHeap (s.setOpenFile fd (advanced (s.openFiles fd) bytes.length)) heap).openFiles fd =
        advanced (s.openFiles fd) bytes.length := openFiles_setOpenFile
    have record : Sized { s.drv with heap } (s.openFiles fd) := ⟨h.flags, h.read, h.open_, h.record⟩
    apply execLoaded_fails
    · rw [slot]
      exact record.advanced
    · exact himg
    · rw [slot, advanced_size]
    · exact short
    · rw [slot, advanced_position (by omega), first]
      omega
    · omega

/-- `elf_exec` does not get to user mode with a file. -/
theorem elfExec_fails {entry top : UInt32} (h : Sized s.drv n) (himg : s.drv.gInitrdImg ≠ 0)
    (look : vfsLookup tarDriver s path = some (0, n, s)) (room : Room s.drv.heap n.size) :
    elfExec ehAddr s path ≠ some (.usermode entry top s') := by
  have stat : vfsStat tarDriver s path = some (0, n.size, n.flags, s) := by
    simp only [vfsStat, look, ne_eq, not_true_eq_false, if_false]
  unfold elfExec
  simp only [stat, lt_irrefl, if_false]
  split_ifs
  · nofun
  cases opens : vfsOpen tarDriver s path 0 with
  | none => nofun
  | some r =>
    obtain ⟨ret, s1⟩ := r
    simp only
    split_ifs with failed
    · nofun
    cases vfsOpen_reading h.open_ look opens with
    | inl negative => exact absurd negative.1 failed
    | inr opened =>
      obtain ⟨fd, -, rfl, rfl⟩ := opened
      have slot : (s.setOpenFile fd { n with position := 0 }).openFiles fd = { n with position := 0 } :=
        openFiles_setOpenFile
      apply execOpened_fails
      · rw [slot]
        exact h.with_position 0
      · exact himg
      · rw [slot]
      · rw [slot]
        rfl
      · exact room

/-! ## Mounted trees. -/

/-- The kernel some time after a mount: descriptors and the heap are as they may be. -/
def later (s : State) (table : Nat → Node) (heap : Kheap.Heap) : State :=
  { s with openFiles := table, drv := { s.drv with heap } }

/-- No regular file of a mounted tree is ever run. -/
theorem elfExec_never_loads (s0 s1 : State) (img bytes : UInt32) (mount : mountInitrd s0 img bytes = some (0, s1))
    (table : Nat → Node) (heap : Kheap.Heap) (path : List UInt8) (n : Node)
    (look : vfsLookup tarDriver (later s1 table heap) path = some (0, n, later s1 table heap))
    (reg : n.flags &&& S_IFMT = S_IFREG) (room : Room heap n.size) (ehAddr : UInt32) (file : List UInt8) :
    ¬ Loads ehAddr (later s1 table heap) path file := by
  intro loads
  obtain ⟨top, s', run, _⟩ := loads
  obtain ⟨⟨root, T, κ, t⟩, _⟩ := mountInitrd_mounted mount
  have plain := t.mount.plain
  have tree : Tree (later s1 table heap) root T κ :=
    t.mount.tree.congr le_rfl (fun _ _ => rfl) (fun _ _ => rfl) fun _ _ => rfl
  have found := vfsLookup_eq tree ⟨plain.noLink, plain.notFound⟩ t.root_eq path
  rw [look] at found
  cases at_ : resolve (later s1 table heap) κ root (lookupComponents path) with
  | none =>
    rw [at_] at found
    cases found
  | some p =>
    rw [at_] at found
    cases found
    have hp := tree.resolve_mem tree.root_mem at_
    cases t.mount.node p hp with
    | inl h =>
      have both := h.flags.symm.trans reg
      revert both
      decide
    | inr h =>
      obtain ⟨off, _, f⟩ := h
      have sized : Sized (later s1 table heap).drv (s1.node p) :=
        ⟨reg, f.read, f.open_, (sized_of_file f).record⟩
      have himg : (later s1 table heap).drv.gInitrdImg ≠ 0 := by
        change s1.drv.gInitrdImg ≠ 0
        rw [t.base]
        exact t.valid
      exact elfExec_fails sized himg look room run

/-! ## An executable. -/

/-- An executable of 88 bytes with one segment: the last four bytes at `0x200000`, then four bytes of zeros. -/
def elfFile : List UInt8 :=
  [0x7F, 0x45, 0x4C, 0x46, 1, 1, 1, 0, 0, 0, 0, 0, 0, 0, 0, 0, 2, 0, 3, 0, 1, 0, 0, 0, 0, 0, 0x20, 0, 52, 0, 0, 0,
    0, 0, 0, 0, 0, 0, 0, 0, 52, 0, 32, 0, 1, 0, 0, 0, 0, 0, 0, 0,
    1, 0, 0, 0, 84, 0, 0, 0, 0, 0, 0x20, 0, 0, 0, 0, 0, 4, 0, 0, 0, 8, 0, 0, 0, 5, 0, 0, 0, 0, 0x10, 0, 0,
    0x90, 0x90, 0xEB, 0xFE]

/-- The archive of the executable alone, named `a`. -/
def elfArchive : Memory :=
  imageAt (0x61 :: List.replicate 123 0 ++ List.replicate 8 0x30 ++ [0x31, 0x33, 0x30] ++ List.replicate 377 0 ++
    elfFile)

def elfEntry : TarEntry := .file { oneByteFile with payload := elfFile, short := by decide }

lemma elfArchive_image : Image elfArchive 0x1000 1536 [elfEntry] := by
  refine ⟨by decide, by decide, ?_, ?_⟩
  · have header : EntryAt elfArchive (0x1000 + 0) elfEntry := by
      refine ⟨by decide, by decide, ?_, ?_, by decide, by decide +kernel, by decide +kernel⟩
      · exact ⟨[], List.replicate 8 0, by decide, nofun, rfl, by simp⟩
      · exact ⟨List.replicate 8 0 ++ [1, 3, 0], [0], by decide, by decide, by decide, by simp⟩
    have rest : Archive elfArchive 0x1000 1536 1024 [] := .endMark (by decide) (by decide +kernel)
    exact .entry header (by decide) (by decide) rest
  · intro f hf e he
    cases List.mem_singleton.mp hf
    cases List.mem_singleton.mp he
    decide

/-- Its one segment. -/
lemma elfFile_segment {i : Nat} (h : Segment elfFile i) : i = 0 := by
  have count : (Ehdr.ofBytes elfFile).ePhnum.toNat = 1 := by decide
  have lt := h.1
  omega

lemma elfFile_wellFormed : WellFormed elfFile := by
  refine ⟨by decide, by decide, by decide, ?_, ?_, ?_⟩
  · intro i h
    cases elfFile_segment h
    decide
  · intro i h
    cases elfFile_segment h
    decide
  · intro i j hi hj ne
    exact absurd ((elfFile_segment hi).trans (elfFile_segment hj).symm) ne

/-- The archive mounts, and `/a` is the executable while no descriptor is in use. -/
lemma elfArchive_mounted : ∃ s1 n, mountInitrd (freshState elfArchive) 0x1000 1536 = some (0, s1) ∧
    vfsLookup tarDriver (later s1 (fun _ => .zero) s1.drv.heap) [0x2F, 0x61] =
      some (0, n, later s1 (fun _ => .zero) s1.drv.heap) ∧ Holds s1.drv n elfFile ∧ Room s1.drv.heap n.size := by
  have free : ∀ k, (freshState elfArchive).oom k = false := fun _ => rfl
  obtain ⟨s1, root, T, κ, π, run, dec, hr, _, heap⟩ := mountInitrd_decoded elfArchive_image free
  have held := get_last [] [] elfArchive_image.noClash fun _ mem => absurd mem List.not_mem_nil
  have name : pathOf [0x2F, 0x61] = [] ++ [[0x61]] := by decide
  obtain ⟨n, look, holds, _⟩ :=
    (dec.table fun _ => .zero).lookup_file hr (by decide) name (by rw [name]; decide) held
  refine ⟨s1, n, run, look, holds, ?_⟩
  have size : n.size.toNat = 88 := by
    obtain ⟨off, file, load⟩ := holds
    rw [file.size, load.size]
    rfl
  obtain ⟨heap', alloc⟩ := Kheap.kmalloc_fresh (s := s1.drv.heap) (n := n.size) (by rw [heap]; rfl) (by omega)
  refine ⟨0xC000000C, heap', alloc, ?_⟩
  rw [size]
  decide

/-- The executable is not run. -/
theorem elfExec_never_loads_elfFile : ∃ s1, mountInitrd (freshState elfArchive) 0x1000 1536 = some (0, s1) ∧
    ¬ Loads 0x200 (later s1 (fun _ => .zero) s1.drv.heap) [0x2F, 0x61] elfFile := by
  obtain ⟨s1, n, mount, look, holds, room⟩ := elfArchive_mounted
  have reg : n.flags &&& S_IFMT = S_IFREG := by
    obtain ⟨off, file, _⟩ := holds
    exact file.flags
  exact ⟨s1, mount, elfExec_never_loads (freshState elfArchive) s1 0x1000 1536 mount (fun _ => .zero) s1.drv.heap
    [0x2F, 0x61] n look reg room 0x200 elfFile⟩

/-- A well-formed executable of a mounted tree, with a free descriptor and room for it on the heap, is not loaded. -/
theorem exec_stops_short : ¬ ∀ (s0 s1 : State) (img bytes : UInt32), mountInitrd s0 img bytes = some (0, s1) →
    ∀ (table : Nat → Node) (heap : Kheap.Heap) (path file : List UInt8) (n : Node) (ehAddr : UInt32),
      vfsLookup tarDriver (later s1 table heap) path = some (0, n, later s1 table heap) →
      Holds (later s1 table heap).drv n file → WellFormed file → Room heap n.size →
      freeSlot (later s1 table heap) ≠ none → ehAddr ≠ 0 → Loads ehAddr (later s1 table heap) path file := by
  intro claim
  obtain ⟨s1, n, mount, look, holds, room⟩ := elfArchive_mounted
  have slots : freeSlot (later s1 (fun _ => .zero) s1.drv.heap) = some 0 := rfl
  obtain ⟨top, s', run, _⟩ := claim (freshState elfArchive) s1 0x1000 1536 mount (fun _ => .zero) s1.drv.heap
    [0x2F, 0x61] elfFile n 0x200 look holds elfFile_wellFormed room (by rw [slots]; nofun) (by decide)
  obtain ⟨off, file, _⟩ := holds
  have himg : s1.drv.gInitrdImg ≠ 0 := by
    obtain ⟨⟨_, _, _, t⟩, _⟩ := mountInitrd_mounted mount
    rw [t.base]
    exact t.valid
  exact elfExec_fails (s := later s1 (fun _ => .zero) s1.drv.heap) (sized_of_file file) himg look room run

end RetaOS.Elf
