import RetaOS.Elf.Failure

/-!
# Reading a whole file

`vfs_read_all` of `kernel/vfs.c` opens a file, reads it once, closes it and puts a `NUL` behind what it read.
`Orderly.look` is a path lookup in a mounted tree, `readAll_dir` and `readAll_file` say what the read does with each
kind of node, and `vfsReadAll_exact` is the result for every call: a readable file is delivered up to the room in the
buffer, an error writes nothing, and the descriptors are those of before.
-/

namespace RetaOS.Elf
open Lib Vfs Initrd

variable {s s' s0 s1 : State} {n : Node} {root i : Nat} {T : Set Nat} {κ : Nat → List Nat} {path : List UInt8}
  {buf count maxlen outLen : UInt32} {heap : Kheap.Heap}

/-! ## The function. -/

/-- The kernel memory after stores. -/
def setMem (s : State) (m : Memory) : State := setHeap s { s.drv.heap with mem := m }

/-- `vfs_read_all` past `vfs_open`. -/
def readAllOpened (s : State) (fd : Int) (buf maxlen outLen : UInt32) : Int × State :=
  let (bytesRead, s) := readInto s fd buf (maxlen - 1)
  let (closeRet, s) := vfsClose tarDriver s fd
  if bytesRead < 0 then (bytesRead, s)
  else
    let s := setMem s (s.drv.heap.mem.store8 (buf + UInt32.ofInt bytesRead) 0)
    let s := if outLen ≠ 0 then setMem s (s.drv.heap.mem.store32 outLen (UInt32.ofInt bytesRead)) else s
    (if closeRet < 0 then closeRet else 0, s)

/-- `vfs_read_all`. -/
def vfsReadAll (s : State) (path : Option (List UInt8)) (buf maxlen outLen : UInt32) : Option (Int × State) :=
  match path with
  | none => some (-EINVAL, s)
  | some path =>
    if buf = 0 ∨ maxlen = 0 then some (-EINVAL, s)
    else
      match vfsOpen tarDriver s path O_RDONLY with
      | none => none
      | some (fd, s) => if fd < 0 then some (fd, s) else some (readAllOpened s fd buf maxlen outLen)

/-- The memory once `bytes` are delivered at `buf`: a `NUL` behind them, and their number at `outLen`. -/
def delivered (m : Memory) (buf outLen : UInt32) (bytes : List UInt8) : Memory :=
  if outLen ≠ 0 then (m.storeBytes buf (bytes ++ [0])).store32 outLen (UInt32.ofNat bytes.length)
  else m.storeBytes buf (bytes ++ [0])

/-! ## The node of a path. -/

/-- A lookup in a mounted tree finds a named node of the tree, or it fails. -/
lemma Orderly.look {V : Set UInt32} (m : Mount V s1 root T κ) (hr : s1.vfsRoot = s1.node root) (h : Orderly s1 T s)
    (d : Ramdisk) (path : List UInt8) : ∃ ret n, vfsLookup tarDriver { s with drv := d } path =
      some (ret, n, { s with drv := d }) ∧ ((ret = 0 ∧ n.name ≠ [] ∧ ∃ p ∈ T, n = s1.node p) ∨ ret < 0) := by
  obtain ⟨tree, plain, root_eq⟩ := h.tree_onDrive m hr d
  have look := vfsLookup_eq tree plain root_eq path
  cases found : Vfs.resolve { s with drv := d } κ root (lookupComponents path) with
  | none =>
    rw [found] at look
    exact ⟨_, _, look, .inr (by decide)⟩
  | some p =>
    rw [found] at look
    have through := tree.resolve_through .root (fun c hc => (mem_tokens hc).1) found
    have mem := through.mem tree
    have node : ∀ q ∈ T, State.node { s with drv := d } q = s1.node q := h.tree.node
    have name : (State.node { s with drv := d } root).name ≠ [] := by
      rw [node root m.tree.root_mem]
      exact m.root_name
    exact ⟨_, _, look, .inl ⟨rfl, through.named name, p, mem, node p mem⟩⟩

/-! ## One read and one close. -/

/-- `vfs_close` of a descriptor that was free gives the table back. -/
lemma Lent.closed (h : Lent s i n) (callback : n.close = some .tarClose) :
    vfsClose tarDriver (s.setOpenFile i n) i = (0, s) := by
  refine Prod.ext ?_ h.close
  rw [vfsClose, h.isOpen]
  dsimp only
  rw [openFiles_setOpenFile, callback]
  rfl

lemma storeBytes_nil (m : Memory) (a : UInt32) : m.storeBytes a [] = m := by
  funext x
  exact Memory.storeBytes_outside (Nat.zero_le _)

/-- A directory is opened and closed, and nothing is read. -/
lemma readAll_dir (h : Lent s i n) (dir : Dir n) (nonnull : buf ≠ 0) :
    readAllOpened (s.setOpenFile i n) i buf maxlen outLen = (-EISDIR, s) := by
  have read : vfsRead tarDriver (s.setOpenFile i n) i buf (maxlen - 1) = (-EISDIR, [], s.setOpenFile i n) := by
    have flag := dir.is_dir
    rw [← @openFiles_setOpenFile s n i] at flag
    unfold vfsRead
    rw [h.isOpen]
    dsimp only
    rw [if_neg nonnull, if_pos flag]
  have same : readInto (s.setOpenFile i n) i buf (maxlen - 1) = (-EISDIR, s.setOpenFile i n) := by
    rw [readInto, read]
    dsimp only
    rw [storeBytes_nil]
    rfl
  rw [readAllOpened, same]
  dsimp only
  rw [h.closed dir.close]
  rfl

/-- A file is delivered up to the room in the buffer, and closed. -/
lemma readAll_file (h : Lent s i n) (sized : Sized s.drv n) (callback : n.close = some .tarClose)
    (first : n.position = 0) (himg : s.drv.gInitrdImg ≠ 0) (short : n.size.toNat < 2 ^ 31) (nonnull : buf ≠ 0)
    (room : maxlen ≠ 0) : readAllOpened (s.setOpenFile i n) i buf maxlen outLen =
      (0, setMem s (delivered s.drv.heap.mem buf outLen ((contents s.drv n).take (maxlen.toNat - 1)))) := by
  obtain ⟨o, record⟩ := sized.record
  have slot : (s.setOpenFile i n).openFiles i = n := openFiles_setOpenFile
  have count : (maxlen - 1).toNat = maxlen.toNat - 1 := by
    have pos : maxlen.toNat ≠ 0 := fun zero => room (UInt32.toNat_inj.mp zero)
    rw [UInt32.toNat_sub_of_le maxlen 1 (UInt32.le_iff_toNat_le.mpr (Nat.one_le_iff_ne_zero.mpr pos))]
    rfl
  have size := contents_length record
  have slice : ((contents (s.setOpenFile i n).drv n).drop n.position.toNat).take (maxlen - 1).toNat =
      (contents s.drv n).take (maxlen.toNat - 1) := by
    rw [first, count]
    rfl
  have len : ((contents s.drv n).take (maxlen.toNat - 1)).length < 2 ^ 31 := by
    rw [List.length_take, size]
    omega
  have read := vfsRead_contents (s := s.setOpenFile i n) (o := o) h.isOpen (slot.symm ▸ sized.no_flag)
    (slot.symm ▸ sized.read) (slot.symm ▸ record) himg (slot.symm ▸ short) nonnull (slot.symm ▸ slice)
  rw [slot] at read
  generalize (contents s.drv n).take (maxlen.toNat - 1) = bytes at read len
  have reused : (s.setOpenFile i n).setOpenFile i (advanced n bytes.length) =
      s.setOpenFile i (advanced n bytes.length) := by
    rw [State.setOpenFile, State.setOpenFile, State.setOpenFile, Function.update_idem]
  have filled : readInto (s.setOpenFile i n) i buf (maxlen - 1) =
      ((bytes.length : Int),
        (setMem s (s.drv.heap.mem.storeBytes buf bytes)).setOpenFile i (advanced n bytes.length)) := by
    rw [readInto, read]
    dsimp only
    rw [reused]
    rfl
  have lent : Lent (setMem s (s.drv.heap.mem.storeBytes buf bytes)) i (advanced n bytes.length) :=
    ⟨h.lt, h.zero, advanced_name.symm ▸ h.name⟩
  have closes : (advanced n bytes.length).close = some .tarClose := by
    unfold advanced
    split_ifs
    · exact callback
    · exact callback
  have nonneg : ¬ (bytes.length : Int) < 0 := by omega
  have word : UInt32.ofInt bytes.length = UInt32.ofNat bytes.length := by
    rw [← UInt32.toNat_inj, toNat_ofInt (by omega), toNat_ofNat_lt (by omega)]
  have whole : (s.drv.heap.mem.storeBytes buf bytes).store8 (buf + UInt32.ofNat bytes.length) 0 =
      s.drv.heap.mem.storeBytes buf (bytes ++ [0]) := by
    have short' : bytes.length + [(0 : UInt8)].length ≤ 2 ^ 32 := by
      rw [List.length_singleton]
      omega
    exact Memory.storeBytes_append short'
  rw [readAllOpened, filled]
  dsimp only
  rw [lent.closed closes]
  dsimp only
  rw [if_neg nonneg, word, if_neg (lt_irrefl _)]
  change (0, if outLen ≠ 0 then setMem s (((s.drv.heap.mem.storeBytes buf bytes).store8 _ 0).store32 _ _)
    else setMem s ((s.drv.heap.mem.storeBytes buf bytes).store8 _ 0)) = _
  rw [whole, delivered]
  split_ifs
  · rfl
  · rfl

/-! ## Every call. -/

/-- A readable file passes the checks of `vfs_open`. -/
lemma refusal_reading (readable : n.flags &&& 0o444 ≠ 0) :
    refusal n O_RDONLY = none := by
  have access : ¬ accessAllowed n (O_RDONLY &&& O_ACCMODE) = false := by
    have allowed : accessAllowed n (O_RDONLY &&& O_ACCMODE) = true := by
      simpa [accessAllowed, O_RDONLY, O_ACCMODE] using readable
    rw [allowed]
    decide
  have noDir : ¬ (n.flags &&& FT_DIR ≠ 0 ∧ O_RDONLY &&& (O_WRONLY ||| O_RDWR) ≠ 0) := by
    have clear : O_RDONLY &&& (O_WRONLY ||| O_RDWR) = 0 := by decide
    exact fun h => h.2 clear
  rw [refusal, if_neg noDir, if_neg access, if_neg (by decide)]

/-- `vfs_read_all` of a path that lookup does not find. -/
lemma readAll_missing {ret : Int} (outLen : UInt32) (look : vfsLookup tarDriver s path = some (ret, n, s))
    (fails : ret ≠ 0) (nonnull : buf ≠ 0) (room : maxlen ≠ 0) :
    ∃ e, e < 0 ∧ vfsReadAll s (some path) buf maxlen outLen = some (e, s) := by
  have accepted : ¬ (buf = 0 ∨ maxlen = 0) := by
    rw [not_or]
    exact ⟨nonnull, room⟩
  have noCreate : O_RDONLY &&& O_CREAT = 0 := by decide
  cases free : freeSlot s with
  | none =>
    have opens : vfsOpen tarDriver s path O_RDONLY = some (-EMFILE, s) := by rw [vfsOpen_eq, free]
    refine ⟨-EMFILE, by decide, ?_⟩
    simp only [vfsReadAll, if_neg accepted, opens, if_pos (show -EMFILE < 0 by decide)]
  | some i =>
    have opens : vfsOpen tarDriver s path O_RDONLY = some (-ENOENT, s) := by
      rw [vfsOpen_eq, free, openTarget, look]
      dsimp only
      rw [if_neg fails, if_pos noCreate]
    refine ⟨-ENOENT, by decide, ?_⟩
    simp only [vfsReadAll, if_neg accepted, opens, if_pos (show -ENOENT < 0 by decide)]

/-- `vfs_read_all` of a path that lookup finds: `vfs_open` fails, or the node is read from the free slot. -/
lemma readAll_found (outLen : UInt32) (callback : n.open_ = some .tarOpen)
    (look : vfsLookup tarDriver s path = some (0, n, s)) (nonnull : buf ≠ 0) (room : maxlen ≠ 0) :
    ((freeSlot s = none ∨ refusal n O_RDONLY ≠ none) ∧
      ∃ e, e < 0 ∧ vfsReadAll s (some path) buf maxlen outLen = some (e, s)) ∨
    ∃ i, freeSlot s = some i ∧ vfsReadAll s (some path) buf maxlen outLen =
      some (readAllOpened (s.setOpenFile i { n with position := 0 }) i buf maxlen outLen) := by
  have accepted : ¬ (buf = 0 ∨ maxlen = 0) := by
    rw [not_or]
    exact ⟨nonnull, room⟩
  have opens := vfsOpen_found callback look
  cases free : freeSlot s with
  | none =>
    rw [free] at opens
    refine .inl ⟨.inl rfl, -EMFILE, by decide, ?_⟩
    simp only [vfsReadAll, if_neg accepted, opens, if_pos (show -EMFILE < 0 by decide)]
  | some i =>
    rw [free] at opens
    cases refused : refusal n O_RDONLY with
    | some e =>
      have neg : e < 0 := by
        obtain rfl | rfl | rfl := refusal_mem refused
        all_goals decide
      rw [refused] at opens
      refine .inl ⟨.inr nofun, e, neg, ?_⟩
      simp only [vfsReadAll, if_neg accepted, opens, if_pos neg]
    | none =>
      have nonneg : ¬ ((i : Nat) : Int) < 0 := by omega
      rw [refused] at opens
      refine .inr ⟨i, rfl, ?_⟩
      simp only [vfsReadAll, if_neg accepted, opens, if_neg nonneg]

/-- On every tree of files below `2 ^ 31` bytes that `mount_initrd` mounts, after any calls on descriptors and with any
    contents of memory: a readable file is delivered up to the room in the buffer when a descriptor is free, a call that
    returns an error has stored nothing, and the descriptors are as before. -/
theorem vfsReadAll_exact {img bytes : UInt32} {P : Call → Prop} {H : Set Nat}
    (mount : mountInitrd s0 img bytes = some (0, s1))
    (sizes : ∀ off ∈ Files s0.drv.heap.mem img bytes, (hdrSize s0.drv.heap.mem (img + off)).toNat < 2 ^ 31)
    (zero : ∀ i, s0.openFiles i = .zero) (run : Run tarDriver P s1 s H) (heap : Kheap.Heap)
    (path : Option (List UInt8)) (buf maxlen outLen : UInt32) :
    ∃ ret s', vfsReadAll (setHeap s heap) path buf maxlen outLen = some (ret, s') ∧ s'.openFiles = s.openFiles ∧
      (ret ≠ 0 → s' = setHeap s heap) ∧
      ∀ p n, path = some p → buf ≠ 0 → 1 ≤ maxlen → lookupOf tarDriver (setHeap s heap) p = some (0, n) →
        n.flags &&& S_IFMT = S_IFREG → n.flags &&& 0o444 ≠ 0 → freeSlot s ≠ none →
        (contents (setHeap s heap).drv n).length = n.size.toNat ∧ ret = 0 ∧
          s' = setMem (setHeap s heap)
            (delivered heap.mem buf outLen ((contents (setHeap s heap).drv n).take (maxlen.toNat - 1))) := by
  obtain ⟨⟨root, T, κ, t⟩, -⟩ := mountInitrd_mounted mount
  have closed : ∀ i, s1.openFiles i = .zero := fun i => (congrFun (mountInitrd_slots mount) i).trans (zero i)
  have orderly := orderly_run t.mount t.root_eq closed run
  have himg : (setHeap s heap).drv.gInitrdImg ≠ 0 := by
    have img_eq : s.drv.gInitrdImg = img := by rw [← orderly.tree.drv, t.base]
    exact img_eq ▸ t.valid
  by_cases accepted : ∃ p, path = some p ∧ buf ≠ 0 ∧ maxlen ≠ 0
  · obtain ⟨path, rfl, nonnull, room⟩ := accepted
    obtain ⟨ret, n, look, ⟨rfl, name, q, hq, rfl⟩ | neg⟩ :=
      orderly.look t.mount t.root_eq { s.drv with heap } path
    · change vfsLookup tarDriver (setHeap s heap) path = some (0, s1.node q, setHeap s heap) at look
      have found : ∀ n, lookupOf tarDriver (setHeap s heap) path = some (0, n) → s1.node q = n := by
        intro n h
        rw [lookupOf, look] at h
        cases h
        rfl
      obtain ⟨fails, e, neg, result⟩ | ⟨i, free, result⟩ :=
        readAll_found outLen (opened_by_tarOpen t.mount hq) look nonnull room
      · refine ⟨e, _, result, rfl, fun _ => rfl, ?_⟩
        intro p n eq _ _ h _ readable slot
        cases eq
        cases found n h
        cases fails with
        | inl full => exact absurd full slot
        | inr refused => exact absurd (refusal_reading readable) refused
      · obtain ⟨full, -⟩ | ⟨j, free', lt, empty, -⟩ := freeSlot_spec (s := setHeap s heap)
        · cases free.symm.trans full
        · cases free.symm.trans free'
          have lent : Lent (setHeap s heap) i { s1.node q with position := 0 } :=
            ⟨lt, orderly.closed i empty, name⟩
          cases t.mount.node q hq with
          | inl dir =>
            have moved : Dir { s1.node q with position := 0 } :=
              ⟨dir.flags, dir.read, dir.data, dir.open_, dir.close, dir.size, dir.lseek⟩
            rw [readAll_dir lent moved nonnull] at result
            refine ⟨_, _, result, rfl, fun _ => rfl, ?_⟩
            intro p n eq _ _ h file
            cases eq
            cases found n h
            have apart : S_IFREG ≠ S_IFDIR := by decide
            exact absurd (file.symm.trans dir.flags) apart
          | inr hf =>
            obtain ⟨off, hoff, file⟩ := hf
            have record : meta? (setHeap s heap).drv (s1.node q) = some ⟨(s1.node q).size, off + 512⟩ := by
              have same : meta? (setHeap s heap).drv (s1.node q) = meta? s.drv (s1.node q) := rfl
              rw [same, ← orderly.tree.drv]
              exact file.sized
            have sized : Sized (setHeap s heap).drv { s1.node q with position := 0 } :=
              ⟨file.flags, file.read, file.open_, off + 512, record⟩
            have short : (s1.node q).size.toNat < 2 ^ 31 := by
              rw [file.size, t.heap, t.base]
              exact sizes off hoff
            rw [readAll_file lent sized file.close rfl himg short nonnull room] at result
            refine ⟨_, _, result, rfl, fun ne => absurd rfl ne, ?_⟩
            intro p n eq _ _ h _ _ _
            cases eq
            cases found n h
            exact ⟨contents_length record, rfl, rfl⟩
    · obtain ⟨e, -, result⟩ := readAll_missing outLen look (by omega) nonnull room
      refine ⟨e, _, result, rfl, fun _ => rfl, ?_⟩
      intro p n eq _ _ h
      cases eq
      rw [lookupOf, show vfsLookup tarDriver (setHeap s heap) path = _ from look] at h
      cases h
      cases neg
  · have refused : vfsReadAll (setHeap s heap) path buf maxlen outLen = some (-EINVAL, setHeap s heap) := by
      cases path with
      | none => rfl
      | some p =>
        refine if_pos ?_
        by_contra ok
        rw [not_or] at ok
        exact accepted ⟨p, rfl, ok⟩
    refine ⟨-EINVAL, _, refused, rfl, fun _ => rfl, ?_⟩
    intro p n eq nonnull room
    refine absurd ⟨p, eq, nonnull, ?_⟩ accepted
    rintro rfl
    exact absurd room (by decide)

/-- The file of an archive, read into a buffer of 16 bytes. -/
theorem vfsReadAll_oneByte : ∃ s1 s', mountInitrd (freshState oneByteArchive) 0x1000 1536 = some (0, s1) ∧
    vfsReadAll s1 (some [0x2F, 0x61]) 0x4000 16 0x5000 = some (0, s') ∧ s'.openFiles = s1.openFiles ∧
    s' = setMem s1 (delivered s1.drv.heap.mem 0x4000 0x5000 [0x42]) := by
  obtain ⟨s1, n, mount, look, holds, -⟩ := oneByteArchive_lookup
  have slot : freeSlot s1 ≠ none := by
    unfold freeSlot
    rw [mountInitrd_slots mount]
    nofun
  have sizes : ∀ off ∈ Files (freshState oneByteArchive).drv.heap.mem 0x1000 1536,
      (hdrSize (freshState oneByteArchive).drv.heap.mem (0x1000 + off)).toNat < 2 ^ 31 := by
    intro off hoff
    change (hdrSize oneByteArchive (0x1000 + off)).toNat < _
    rw [oneByteArchive_size (by decide) hoff]
    decide
  obtain ⟨ret, s', run, table, -, file⟩ := vfsReadAll_exact mount sizes (fun _ => rfl)
    (Run.start (P := fun _ => True)) s1.drv.heap (some [0x2F, 0x61]) 0x4000 16 0x5000
  have known : lookupOf tarDriver s1 [0x2F, 0x61] = some (0, n) := lookupOf_eq_some.mpr ⟨s1, look⟩
  have content : contents s1.drv n = [0x42] := holds.contents_eq
  have readable := holds.readable
  obtain ⟨off, node, -⟩ := holds
  obtain ⟨-, rfl, result⟩ := file _ n rfl (by decide) (by decide) known node.flags readable slot
  refine ⟨s1, s', mount, run, table, ?_⟩
  rw [result]
  change setMem s1 (delivered _ _ _ ((contents s1.drv n).take _)) = _
  rw [content]
  rfl

end RetaOS.Elf
