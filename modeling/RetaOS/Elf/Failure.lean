import RetaOS.Elf.Exec
import RetaOS.Elf.Load
import RetaOS.Initrd.Interleaving
import RetaOS.Vfs.Descriptors

/-!
# Programs that do not load

What a `process_exec` or an `elf_exec` that fails leaves behind. `Lent` is a free descriptor with a node to open on it,
and `Restored` relates two kernels that differ in free memory only. Every way to fail ends in it, because a free
descriptor is zero and the allocator has no two free neighbours; `Orderly` is the part of that which runs of calls on
descriptors keep, and `exec_unchanged` the result.
-/

namespace RetaOS.Elf
open Lib Vfs Initrd
open Kheap (Valid Owned Wraps)

variable {s s' s0 s1 o : State} {n : Node} {root : Nat} {T : Set Nat} {κ : Nat → List Nat} {path : List UInt8}
  {fd ret : Int} {i : Nat} {ehAddr buf count size proc : UInt32} {bytes : List UInt8} {l : List Block}
  {heap : Kheap.Heap}

/-! ## One descriptor. -/

/-- A descriptor that is free, and a node to open it on. -/
structure Lent (s : State) (i : Nat) (n : Node) : Prop where
  lt : i < MAX_OPEN_FILES
  zero : s.openFiles i = .zero
  name : n.name ≠ []

lemma Lent.onHeap (h : Lent s i n) (heap : Kheap.Heap) : Lent (setHeap s heap) i n := ⟨h.lt, h.zero, h.name⟩

lemma Lent.isOpen (h : Lent s i n) : openFile (s.setOpenFile i n) i = some i := by
  refine openFile_eq_some.mpr ⟨rfl, h.lt, ?_⟩
  rw [openFiles_setOpenFile]
  exact h.name

/-- A slot that was free is as before once it is closed. -/
lemma Lent.close (h : Lent s i n) : (vfsClose tarDriver (s.setOpenFile i n) i).2 = s := by
  have table : Function.update (Function.update s.openFiles i n) i .zero = s.openFiles := by
    rw [Function.update_idem, ← h.zero, Function.update_eq_self]
  have emptied : (s.setOpenFile i n).setOpenFile i .zero = s := by simp only [State.setOpenFile, table]
  rw [vfsClose, h.isOpen]
  dsimp only
  rw [openFiles_setOpenFile]
  cases n.close with
  | none => exact emptied
  | some f =>
    dsimp only
    rw [tarDriver_close_drv]
    exact emptied

lemma tarRead_length {d : Ramdisk} {off : UInt32} : (tarRead d n off count).2.length ≤ count.toNat := by
  rw [tarRead]
  rcases copy : tarCopy d n off count with value | ⟨src, k⟩
  · exact Nat.zero_le _
  · dsimp only
    rw [Memory.loadBytes_length]
    rw [tarCopy] at copy
    split at copy
    · cases copy
    · dsimp only at copy
      split_ifs at copy with _ _ less
      · cases copy
        exact le_rfl
      · cases copy
        exact UInt32.le_iff_toNat_le.mp (UInt32.not_lt.mp less)

/-- `vfs_read` passes on no larger count. -/
lemma clampRead_le (more : n.position < n.size) : (clampRead n count).toNat ≤ count.toNat := by
  rw [clampRead]
  split_ifs with cut
  · have rest := UInt32.toNat_sub_of_le _ _ (UInt32.le_of_lt more)
    have sum := UInt32.toNat_add n.position count
    rw [gt_iff_lt, UInt32.lt_iff_toNat_lt] at cut
    have top := n.size.toNat_lt
    omega
  · exact le_rfl

/-- The callbacks of the ramdisk keep the names of nodes. -/
lemma tarDriver_keepsNames : KeepsNames tarDriver where
  finddir _ _ _ _ := show -ENOTDIR ≠ 0 by decide
  read f _ _ _ _ := by cases f <;> rfl
  write _ _ _ _ _ := rfl
  open_ f _ _ _ := by cases f <;> rfl
  lseek _ _ _ _ _ := rfl

/-- A read delivers no more than it is asked for. -/
lemma read_length : (vfsRead tarDriver s fd buf count).2.1.length ≤ count.toNat := by
  cases slot : openFile s fd with
  | none =>
    rw [vfsRead_closed slot]
    exact Nat.zero_le _
  | some i =>
    obtain ⟨-, readable, read⟩ | ⟨-, ret, -, read⟩ := vfsRead_cases tarDriver buf count slot
    · have le : (clampRead (s.openFiles i) count).toNat ≤ count.toNat := clampRead_le readable.more
      rw [read, readSlot]
      dsimp only
      cases (s.openFiles i).read with
      | some f =>
        cases f with
        | tarRead => exact tarRead_length.trans le
        | _ => exact Nat.zero_le _
      | none =>
        cases (s.openFiles i).data with
        | some p =>
          dsimp only
          rw [List.length_take]
          omega
        | none => exact Nat.zero_le _
    · rw [read]
      exact Nat.zero_le _

/-- A read changes the slot of its descriptor only. -/
lemma Lent.read (h : Lent s i n) (buf count : UInt32) :
    ∃ n', Lent s i n' ∧ (vfsRead tarDriver (s.setOpenFile i n) i buf count).2.2 = s.setOpenFile i n' := by
  have one : OneSlot (s.setOpenFile i n) (vfsRead tarDriver (s.setOpenFile i n) i buf count).2.2 i := vfsRead_oneSlot
  have slots : OnSlot (s.setOpenFile i n) (vfsRead tarDriver (s.setOpenFile i n) i buf count).2.2 i :=
    vfsRead_slots tarDriver_keepsNames
  obtain ⟨table, state, others⟩ := one
  have named := slots.names i
  rw [state, openFiles_setOpenFile] at named
  refine ⟨table i, ⟨h.lt, h.zero, fun empty => h.name (named.symm.trans empty)⟩, state.trans ?_⟩
  have only : table = Function.update s.openFiles i (table i) := by
    funext j
    by_cases e : j = i
    · rw [e, Function.update_self]
    · rw [Function.update_of_ne e, others j (by omega)]
      exact Function.update_of_ne e ..
  exact congrArg (fun openFiles => ({ s with openFiles } : State)) only

/-- A read into a buffer stores no more than it is asked for. -/
lemma Lent.fill (h : Lent s i n) (run : readInto ((setHeap s heap).setOpenFile i n) i buf count = (ret, o)) :
    ∃ bytes : List UInt8, ∃ n', bytes.length ≤ count.toNat ∧ Lent s i n' ∧
      o = (setHeap s { heap with mem := heap.mem.storeBytes buf bytes }).setOpenFile i n' := by
  obtain ⟨n', ⟨lt, zero, name⟩, slot⟩ := (h.onHeap heap).read buf count
  have short : (vfsRead tarDriver ((setHeap s heap).setOpenFile i n) i buf count).2.1.length ≤ count.toNat :=
    read_length
  rw [readInto] at run
  dsimp only at run
  rw [slot] at run
  cases run
  exact ⟨_, n', short, ⟨lt, zero, name⟩, rfl⟩

/-! ## A mounted tree. -/

/-- A kernel with a tree of small files, in which a descriptor that is free is zero. The image, the records of the files
    and the heap are as they may be. -/
structure Tidy (s : State) (root : Nat) (T : Set Nat) (κ : Nat → List Nat) : Prop where
  tree : Tree s root T κ
  plain : Plain tarDriver s T
  root_eq : s.vfsRoot = s.node root
  root_name : (s.node root).name ≠ []
  callback : ∀ p ∈ T, (s.node p).open_ = some .tarOpen
  small : ∀ p ∈ T, (s.node p).size.toNat < 0x3FE00000
  closed : ∀ i, (s.openFiles i).name = [] → s.openFiles i = .zero

lemma Tidy.setHeap (t : Tidy s root T κ) (heap : Kheap.Heap) : Tidy (setHeap s heap) root T κ where
  tree := t.tree.congr le_rfl (fun _ _ => rfl) (fun _ _ => rfl) fun _ _ => rfl
  plain := ⟨t.plain.noLink, t.plain.notFound⟩
  root_eq := t.root_eq
  root_name := t.root_name
  callback := t.callback
  small := t.small
  closed := t.closed

/-- A node that lookup finds. -/
structure Found (n : Node) : Prop where
  name : n.name ≠ []
  callback : n.open_ = some .tarOpen
  small : n.size.toNat < 0x3FE00000

lemma Tidy.lookup (t : Tidy s root T κ) (path : List UInt8) :
    ∃ ret n, vfsLookup tarDriver s path = some (ret, n, s) ∧ ((ret = 0 ∧ Found n) ∨ ret < 0) := by
  have look := vfsLookup_eq t.tree t.plain t.root_eq path
  cases found : Vfs.resolve s κ root (lookupComponents path) with
  | none =>
    rw [found] at look
    exact ⟨_, _, look, .inr (by decide)⟩
  | some p =>
    rw [found] at look
    have through := t.tree.resolve_through .root (fun c hc => (mem_tokens hc).1) found
    have mem := through.mem t.tree
    exact ⟨_, _, look, .inl ⟨rfl, through.named t.root_name, t.callback p mem, t.small p mem⟩⟩

/-- `vfs_stat` changes nothing. -/
lemma Tidy.stat (t : Tidy s root T κ) {mode : UInt32} (run : vfsStat tarDriver s path = some (ret, size, mode, s')) :
    s' = s ∧ (ret < 0 ∨ size.toNat < 0x3FE00000) := by
  obtain ⟨r, n, look, ⟨rfl, found⟩ | neg⟩ := t.lookup path
  · rw [vfsStat, look] at run
    cases run
    exact ⟨rfl, .inr found.small⟩
  · have fails : r ≠ 0 := by omega
    rw [vfsStat, look] at run
    dsimp only at run
    rw [if_pos fails] at run
    cases run
    exact ⟨rfl, .inl neg⟩

/-- `vfs_open` for reading fails and changes nothing, or fills a slot that was free. -/
lemma Tidy.opens (t : Tidy s root T κ) (run : vfsOpen tarDriver s path 0 = some (fd, s')) :
    (fd < 0 ∧ s' = s) ∨ ∃ i n, fd = (i : Nat) ∧ Lent s i n ∧ Found n ∧ s' = s.setOpenFile i n := by
  obtain ⟨full, -⟩ | ⟨i, free, lt, empty, -⟩ := freeSlot_spec (s := s)
  · rw [vfsOpen_eq, full] at run
    cases run
    exact .inl ⟨by decide, rfl⟩
  obtain ⟨r, n, look, ⟨rfl, found⟩ | neg⟩ := t.lookup path
  · obtain failed | ⟨j, free', rfl, rfl⟩ := vfsOpen_reading found.callback look run
    · exact .inl failed
    · cases free.symm.trans free'
      exact .inr ⟨i, { n with position := 0 }, rfl, ⟨lt, t.closed i empty, found.name⟩,
        ⟨found.name, found.callback, found.small⟩, rfl⟩
  · have fails : ¬ r = 0 := by omega
    rw [vfsOpen_eq, free, openTarget, look] at run
    dsimp only at run
    rw [if_neg fails, if_pos (by decide)] at run
    cases run
    exact .inl ⟨by decide, rfl⟩

/-! ## Failures. -/

/-- The kernel as it was but for free memory, with the blocks `l` on the heap. -/
def Restored (l : List Block) (s s' : State) : Prop :=
  ∃ heap, s' = setHeap s heap ∧ Valid heap l ∧ ∀ x, Owned l x → heap.mem x = s.drv.heap.mem x

lemma Restored.refl (v : Valid s.drv.heap l) : Restored l s s := ⟨_, rfl, v, fun _ _ => rfl⟩

lemma not_wraps (small : size.toNat < 0x3FE00000) : ¬ Wraps size := by
  intro wraps
  have := wraps.1
  omega

/-- A file that does not read is closed, and its buffer given back. -/
lemma Lent.buffer (h : Lent s i n) (v : Valid s.drv.heap l) (small : size.toNat < 0x3FE00000)
    (alloc : Kheap.kmalloc s.drv.heap size = some (buf, heap)) (ne : buf ≠ 0)
    (run : readInto ((setHeap s heap).setOpenFile i n) i buf size = (ret, o)) :
    ∃ heap', Kheap.kfree o.drv.heap buf = some heap' ∧
      Restored l s (vfsClose tarDriver (setHeap o heap') i).2 ∧
      Restored l s (setHeap (vfsClose tarDriver o i).2 heap') := by
  obtain ⟨bytes, n', short, h', rfl⟩ := h.fill run
  obtain ⟨heap', free, v', keeps⟩ := Kheap.scratch v (not_wraps small) alloc ne short
  refine ⟨heap', free, ⟨heap', (h'.onHeap heap').close, v', keeps⟩, heap', ?_, v', keeps⟩
  rw [(h'.onHeap { heap with mem := heap.mem.storeBytes buf bytes }).close]
  rfl

/-- `elf_load` and `elf_exec` start alike: a file that is not found, too small or not opened changes nothing. -/
lemma Tidy.statOpen {α : Type} {f : State → α} {k : State → Int → UInt32 → Option α} {r : α} (t : Tidy s root T κ)
    (run : (match vfsStat tarDriver s path with
      | none => none
      | some (ret, stSize, _, s) =>
        if ret < 0 then some (f s)
        else if stSize < UInt32.ofNat sizeofEhdr then some (f s)
        else
          match vfsOpen tarDriver s path 0 with
          | none => none
          | some (fd, s) => if fd < 0 then some (f s) else k s fd stSize) = some r) :
    r = f s ∨ ∃ i n size, Lent s i n ∧ size.toNat < 0x3FE00000 ∧ k (s.setOpenFile i n) i size = some r := by
  rcases stat : vfsStat tarDriver s path with _ | ⟨ret, stSize, mode, s₁⟩
  · rw [stat] at run
    cases run
  obtain ⟨rfl, fails⟩ := t.stat stat
  rw [stat] at run
  dsimp only at run
  split_ifs at run with negative
  · cases run
    exact .inl rfl
  · cases run
    exact .inl rfl
  have small := fails.resolve_left negative
  rcases opening : vfsOpen tarDriver s₁ path 0 with _ | ⟨fd, s₂⟩
  · rw [opening] at run
    cases run
  rw [opening] at run
  dsimp only at run
  obtain ⟨neg, rfl⟩ | ⟨i, n, rfl, h, -, rfl⟩ := t.opens opening
  · rw [if_pos neg] at run
    cases run
    exact .inl rfl
  · rw [if_neg (by omega)] at run
    exact .inr ⟨i, n, stSize, h, small, run⟩

/-- They go on alike: a header that does not read or is refused, or no memory for the file, changes nothing. -/
lemma Lent.header {α : Type} {f : State → α} {c : Ehdr → Prop} [DecidablePred c]
    {k : State → Ehdr → UInt32 → Option α} {r : α} (h : Lent s i n) (v : Valid s.drv.heap l)
    (small : size.toNat < 0x3FE00000)
    (run : (let (rd, bytes, s) := vfsRead tarDriver (s.setOpenFile i n) i ehAddr (UInt32.ofNat sizeofEhdr)
      let eh := Ehdr.ofBytes bytes
      if rd < sizeofEhdr then some (f (vfsClose tarDriver s i).2)
      else if c eh then some (f (vfsClose tarDriver s i).2)
      else
        match Kheap.kmalloc s.drv.heap size with
        | none => none
        | some (elfData, heap) =>
          if elfData = 0 then some (f (vfsClose tarDriver (setHeap s heap) i).2)
          else k (setHeap s heap) eh elfData) = some r) :
    r = f s ∨ ∃ n' eh elfData heap, Lent s i n' ∧ Kheap.kmalloc s.drv.heap size = some (elfData, heap) ∧
      elfData ≠ 0 ∧ k ((setHeap s heap).setOpenFile i n') eh elfData = some r := by
  obtain ⟨n', h', slot⟩ := h.read ehAddr (UInt32.ofNat sizeofEhdr)
  have closed := h'.close
  have same : (s.setOpenFile i n').drv.heap = s.drv.heap := rfl
  dsimp only at run
  rw [slot] at run
  split_ifs at run
  · cases run
    rw [closed]
    exact .inl rfl
  · cases run
    rw [closed]
    exact .inl rfl
  rcases alloc : Kheap.kmalloc s.drv.heap size with _ | ⟨elfData, heap⟩
  · rw [same, alloc] at run
    cases run
  rw [same, alloc] at run
  dsimp only at run
  split_ifs at run with null
  · subst null
    obtain ⟨-, rfl⟩ | ⟨ne, -⟩ := Kheap.kmalloc_owned v (not_wraps small) alloc
    · cases run
      exact .inl (congrArg f closed)
    · exact absurd rfl ne
  · exact .inr ⟨n', _, elfData, heap, h', rfl, null, run⟩

lemma elfLoadRead_restored {eh : Ehdr} (h : Lent s i n) (v : Valid s.drv.heap l) (small : size.toNat < 0x3FE00000)
    (alloc : Kheap.kmalloc s.drv.heap size = some (buf, heap)) (ne : buf ≠ 0)
    (run : elfLoadRead ((setHeap s heap).setOpenFile i n) i eh buf size = some (0, s')) : Restored l s s' := by
  rcases read : readInto ((setHeap s heap).setOpenFile i n) i buf size with ⟨rd, o⟩
  obtain ⟨heap', free, closed, afterwards⟩ := h.buffer v small alloc ne read
  rw [elfLoadRead, read] at run
  dsimp only at run
  split_ifs at run
  · rw [free] at run
    cases run
    exact closed
  · have one : OneSlot o (vfsClose tarDriver o i).2 i := vfsClose_oneSlot
    obtain ⟨table, state, -⟩ := one
    have same : (vfsClose tarDriver o i).2.drv.heap = o.drv.heap := by rw [state]
    rw [same, free] at run
    cases run
    exact afterwards
  · cases run
    exact absurd rfl ne

/-- `elf_load` that returns `NULL`. -/
lemma elfLoad_restored {data : UInt32} (t : Tidy s root T κ) (v : Valid s.drv.heap l)
    (run : elfLoad ehAddr s data size = some (0, s')) : Restored l s s' := by
  obtain same | ⟨i, n, stSize, h, small, opened⟩ :=
    t.statOpen (f := fun s => ((0 : UInt32), s)) (k := elfLoadOpened ehAddr) run
  · cases same
    exact .refl v
  obtain same | ⟨n', eh, elfData, heap, h', alloc, ne, loaded⟩ :=
    h.header (f := fun s => ((0 : UInt32), s)) (c := fun eh => eh.eIdent.take 4 ≠ elfMagic)
      (k := fun s eh elfData => elfLoadRead s i eh elfData stSize) v small opened
  · cases same
    exact .refl v
  · exact elfLoadRead_restored h' v small alloc ne loaded

/-- `elf_exec` when the second read comes up short. -/
lemma execLoaded_short {eh : Ehdr} {rd : Int} (read : readInto s fd buf size = (rd, o))
    (less : rd < size.toInt32.toInt) : execLoaded s fd eh buf size =
      match Kheap.kfree o.drv.heap buf with
      | none => none
      | some heap => some (.ret (-1) (vfsClose tarDriver (setHeap o heap) fd).2) := by
  cases read
  exact if_pos less

/-- `elf_exec` does not return once the file is read. -/
lemma execLoaded_full {eh : Ehdr} {rd : Int} (read : readInto s fd buf size = (rd, o))
    (full : ¬ rd < size.toInt32.toInt) : execLoaded s fd eh buf size ≠ some (.ret ret s') := by
  cases read
  have loads : execLoaded s fd eh buf size = _ := if_neg full
  rw [loads]
  split
  · nofun
  · split
    · nofun
    · nofun

/-- `elf_exec` that returns. -/
lemma elfExec_restored (t : Tidy s root T κ) (v : Valid s.drv.heap l)
    (run : elfExec ehAddr s path = some (.ret ret s')) : Restored l s s' := by
  obtain same | ⟨i, n, stSize, h, small, opened⟩ := t.statOpen (f := Exec.ret (-1)) (k := execOpened ehAddr) run
  · cases same
    exact .refl v
  obtain same | ⟨n', eh, elfData, heap, h', alloc, ne, loaded⟩ :=
    h.header (f := Exec.ret (-1)) (c := fun eh => elfValidate eh = false)
      (k := fun s eh elfData => execLoaded s i eh elfData stSize) v small opened
  · cases same
    exact .refl v
  rcases read : readInto ((setHeap s heap).setOpenFile i n') i elfData stSize with ⟨rd, o⟩
  obtain ⟨heap', free, after, -⟩ := h'.buffer v small alloc ne read
  by_cases less : rd < stSize.toInt32.toInt
  · rw [execLoaded_short read less, free] at loaded
    cases loaded
    exact after
  · exact absurd loaded (execLoaded_full read less)

/-- `process_exec` once the file is in its buffer: what `elf_load` leaves behind when it fails is given back with it. -/
lemma execFile_restored (t : Tidy s root T κ) (h : Lent s i n) (v : Valid s.drv.heap l)
    (small : size.toNat < 0x3FE00000) (alloc : Kheap.kmalloc s.drv.heap size = some (buf, heap)) (ne : buf ≠ 0)
    (run : execFile ehAddr ((setHeap s heap).setOpenFile i n) proc i buf size = some (-1, s')) : Restored l s s' := by
  rcases read : readInto ((setHeap s heap).setOpenFile i n) i buf size with ⟨rd, o⟩
  obtain ⟨heap', free, after, -⟩ := h.buffer v small alloc ne read
  rw [execFile, read] at run
  dsimp only at run
  split_ifs at run
  · rw [free] at run
    cases run
    exact after
  · obtain ⟨bytes, n', short, h', rfl⟩ := h.fill read
    obtain ⟨null, -⟩ | ⟨-, l', v', allocated, keeps⟩ := Kheap.kmalloc_owned v (not_wraps small) alloc
    · exact absurd null ne
    obtain ⟨v₁, stores⟩ := allocated.store v' short
    rw [(h'.onHeap { heap with mem := heap.mem.storeBytes buf bytes }).close, execLoad] at run
    rcases loading : elfLoad ehAddr (setHeap s { heap with mem := heap.mem.storeBytes buf bytes }) buf size with
      _ | ⟨entry, s₂⟩
    · rw [loading] at run
      cases run
    rw [loading] at run
    dsimp only at run
    rcases freeing : Kheap.kfree s₂.drv.heap buf with _ | heap₃
    · rw [freeing] at run
      cases run
    rw [freeing] at run
    dsimp only at run
    split_ifs at run with null
    · subst null
      cases run
      obtain ⟨heap₂, rfl, v₂, same⟩ := elfLoad_restored (t.setHeap _) v₁ loading
      obtain ⟨heap₄, free₄, v₄, keeps₄⟩ := allocated.giveBack v v₂
      cases freeing.symm.trans free₄
      refine ⟨_, rfl, v₄, fun x owned => ?_⟩
      calc heap₃.mem x = heap₂.mem x := keeps₄ x owned
        _ = heap.mem.storeBytes buf bytes x := same x (allocated.owned owned)
        _ = heap.mem x := stores x owned
        _ = s.drv.heap.mem x := keeps x owned
    · cases run

/-- The size that `process_exec` asks for is that of the node. -/
lemma Lent.vfsSize (h : Lent s i n) (small : n.size.toNat < 0x3FE00000) :
    UInt32.ofInt (Syscall.vfsSize (s.setOpenFile i n) i) = n.size := by
  rw [Syscall.vfsSize, h.isOpen]
  dsimp only
  rw [openFiles_setOpenFile, toInt_of_lt (by omega)]
  exact UInt32.toNat_inj.mp (toNat_ofInt n.size.toNat_lt)

/-- `process_exec` that fails. -/
lemma processExec_restored {path : Option (List UInt8)} (t : Tidy s root T κ) (v : Valid s.drv.heap l)
    (run : processExec ehAddr s proc path = some (-1, s')) : Restored l s s' := by
  cases path with
  | none =>
    cases run
    exact .refl v
  | some path =>
    rw [processExec] at run
    split_ifs at run
    · cases run
      exact .refl v
    rcases opening : vfsOpen tarDriver s path 0 with _ | ⟨fd, s1⟩
    · rw [opening] at run
      cases run
    rw [opening] at run
    dsimp only at run
    obtain ⟨neg, rfl⟩ | ⟨i, n, rfl, h, found, rfl⟩ := t.opens opening
    · rw [if_pos neg] at run
      cases run
      exact .refl v
    rw [if_neg (by omega), h.vfsSize found.small] at run
    have same : (s.setOpenFile i n).drv.heap = s.drv.heap := rfl
    split_ifs at run
    · cases run
      rw [h.close]
      exact .refl v
    rcases alloc : Kheap.kmalloc s.drv.heap n.size with _ | ⟨fileData, heap⟩
    · rw [same, alloc] at run
      cases run
    rw [same, alloc] at run
    dsimp only at run
    split_ifs at run with null
    · subst null
      obtain ⟨-, rfl⟩ | ⟨ne, -⟩ := Kheap.kmalloc_owned v (not_wraps found.small) alloc
      · cases run
        exact ⟨_, h.close, v, fun _ _ => rfl⟩
      · exact absurd rfl ne
    · exact execFile_restored t h v found.small alloc null run

/-! ## Runs over the descriptors. -/

/-- The tree is as it was mounted, and a descriptor that is free is zero. -/
structure Orderly (s1 : State) (T : Set Nat) (s : State) : Prop where
  tree : Kept T Eq s1 s
  calls : s1.calls ≤ s.calls
  closed : ∀ i, (s.openFiles i).name = [] → s.openFiles i = .zero

lemma Orderly.onSlot (h : Orderly s1 T s) (slot : OnSlot s s' fd) (drv : s'.drv = s.drv) (calls : s.calls ≤ s'.calls) :
    Orderly s1 T s' where
  tree := by
    refine ⟨slot.tree.root.trans h.tree.root, fun p hp => ?_, h.tree.drv.trans drv.symm⟩
    rw [← h.tree.node p hp, State.node, State.node, slot.tree.nodes]
  calls := h.calls.trans calls
  closed i empty := by
    have before : (s.openFiles i).name = [] := (slot.names i).symm.trans empty
    exact (slot.closed i before).trans (h.closed i before)

/-- A larger buffer is no change of the ramdisk. -/
lemma growTo_drv (s : State) (n : Node) (p : Nat) (count : UInt32) :
    (growTo s n p count).2.drv = s.drv ∧ s.calls ≤ (growTo s n p count).2.calls := by
  rw [growTo, growData]
  split_ifs
  · cases oom : s.oom s.calls with
    | true =>
      rw [kmalloc_none oom]
      exact ⟨rfl, Nat.le_succ _⟩
    | false =>
      rw [kmalloc_some oom]
      exact ⟨rfl, Nat.le_succ _⟩
  · exact ⟨rfl, le_rfl⟩

/-- `vfs_write` changes nothing in the ramdisk. -/
lemma vfsWrite_drv : (vfsWrite tarDriver s fd buf bytes).2.drv = s.drv ∧
    s.calls ≤ (vfsWrite tarDriver s fd buf bytes).2.calls := by
  cases slot : openFile s fd with
  | none =>
    rw [vfsWrite_closed slot]
    exact ⟨rfl, le_rfl⟩
  | some i =>
    obtain ⟨-, -, run⟩ | ⟨-, ret, -, run⟩ := vfsWrite_cases tarDriver buf bytes slot
    · rw [run, writeSlot]
      dsimp only
      cases (s.openFiles i).write with
      | some f => exact ⟨rfl, le_rfl⟩
      | none =>
        cases (s.openFiles i).data with
        | none => exact ⟨rfl, le_rfl⟩
        | some p =>
          have grown := growTo_drv s (s.openFiles i) p (UInt32.ofNat bytes.length)
          dsimp only
          rw [storeData]
          generalize growTo s (s.openFiles i) p (UInt32.ofNat bytes.length) = r at grown ⊢
          rcases r with ⟨_ | r, t⟩
          · exact grown
          · exact grown
    · rw [run]
      exact ⟨rfl, le_rfl⟩

/-- Every call on descriptors keeps order. -/
lemma Orderly.step {V : Set UInt32} (m : Mount V s1 root T κ) (hr : s1.vfsRoot = s1.node root) (h : Orderly s1 T s)
    {c : Call} (run : c.run tarDriver s = some (ret, s')) : Orderly s1 T s' := by
  cases c with
  | open_ path flags =>
    obtain ⟨-, slots, kept, le⟩ | ⟨i, p, lt, hp, name, -, -, rfl⟩ := vfsOpen_tar m hr h.tree h.calls run
    · exact ⟨kept, h.calls.trans le, fun j => slots ▸ h.closed j⟩
    · refine ⟨⟨h.tree.root, h.tree.node, h.tree.drv⟩, h.calls, fun j empty => ?_⟩
      by_cases e : j = i
      · subst e
        rw [openFiles_setOpenFile] at empty
        exact absurd empty name
      · have slot : (s.setOpenFile i (openAt (s1.node p) flags)).openFiles j = s.openFiles j :=
          Function.update_of_ne e ..
        rw [slot] at empty ⊢
        exact h.closed j empty
  | close fd =>
    obtain rfl : (vfsClose tarDriver s fd).2 = s' := congrArg Prod.snd (Option.some.inj run)
    have one : OneSlot s (vfsClose tarDriver s fd).2 fd := vfsClose_oneSlot
    obtain ⟨table, state, -⟩ := one
    obtain ⟨-, ⟨-, slots⟩ | ⟨i, -, slots⟩⟩ := vfsClose_slots tarDriver s fd
    · rw [state] at slots ⊢
      exact ⟨⟨h.tree.root, h.tree.node, h.tree.drv⟩, h.calls, fun j => (congrFun slots j) ▸ h.closed j⟩
    · rw [state] at slots ⊢
      refine ⟨⟨h.tree.root, h.tree.node, h.tree.drv⟩, h.calls, fun j empty => ?_⟩
      rw [slots] at empty ⊢
      by_cases e : j = i
      · rw [e, Function.update_self]
      · rw [Function.update_of_ne e] at empty ⊢
        exact h.closed j empty
  | read fd buf count =>
    cases run
    have one : OneSlot s (vfsRead tarDriver s fd buf count).2.2 fd := vfsRead_oneSlot
    obtain ⟨table, state, -⟩ := one
    exact h.onSlot (vfsRead_slots tarDriver_keepsNames) (by rw [state]) (by rw [state])
  | write fd buf bytes =>
    obtain rfl : (vfsWrite tarDriver s fd buf bytes).2 = s' := congrArg Prod.snd (Option.some.inj run)
    exact h.onSlot (vfsWrite_slots tarDriver_keepsNames) vfsWrite_drv.1 vfsWrite_drv.2
  | lseek fd offset whence =>
    obtain rfl : (vfsLseek tarDriver s fd offset whence).2 = s' := congrArg Prod.snd (Option.some.inj run)
    have one : OneSlot s (vfsLseek tarDriver s fd offset whence).2 fd := vfsLseek_oneSlot
    obtain ⟨table, state, -⟩ := one
    exact h.onSlot (vfsLseek_slots tarDriver_keepsNames) (by rw [state]) (by rw [state])

/-- Every run from a mount keeps order. -/
lemma orderly_run {V : Set UInt32} {P : Call → Prop} {H : Set Nat} (m : Mount V s1 root T κ)
    (hr : s1.vfsRoot = s1.node root) (zero : ∀ i, s1.openFiles i = .zero) (run : Run tarDriver P s1 s H) :
    Orderly s1 T s := by
  induction run with
  | start => exact ⟨.refl tarDriver_steady, le_rfl, fun i _ => zero i⟩
  | step _ _ call ih => exact ih.step m hr call

/-- Order keeps the tree in which lookup goes, whatever has become of the image, the records of the files and the
    heap. -/
lemma Orderly.tree_onDrive {V : Set UInt32} (m : Mount V s1 root T κ) (hr : s1.vfsRoot = s1.node root)
    (h : Orderly s1 T s) (d : Ramdisk) : Tree { s with drv := d } root T κ ∧ Plain tarDriver { s with drv := d } T ∧
      ({ s with drv := d } : State).vfsRoot = State.node { s with drv := d } root := by
  have node : ∀ p ∈ T, State.node { s with drv := d } p = s1.node p := h.tree.node
  have calls : s1.calls ≤ ({ s with drv := d } : State).calls := h.calls
  refine ⟨?tree, ⟨?noLink, ?notFound⟩, ?root_eq⟩
  case tree =>
    apply m.tree.congr calls
    · intro p hp
      rw [node p hp]
    · intro p hp
      rw [node p hp]
    · intro p hp
      rw [node p hp]
  case noLink =>
    intro p hp
    rw [node p hp]
    exact m.plain.noLink p hp
  case notFound =>
    intro p hp
    rw [node p hp]
    exact m.plain.notFound p hp
  case root_eq =>
    rw [node root m.tree.root_mem]
    exact h.tree.root.trans hr

/-- Every node of a mounted tree is opened by `tar_open`. -/
lemma opened_by_tarOpen {V : Set UInt32} {p : Nat} (m : Mount V s1 root T κ) (hp : p ∈ T) :
    (s1.node p).open_ = some .tarOpen := by
  cases m.node p hp with
  | inl dir => exact dir.open_
  | inr hf =>
    obtain ⟨off, -, file⟩ := hf
    exact file.open_

/-- Order is all that the loaders need. -/
lemma Orderly.tidy {V : Set UInt32} (m : Mount V s1 root T κ) (hr : s1.vfsRoot = s1.node root)
    (small : ∀ p ∈ T, (s1.node p).size.toNat < 0x3FE00000) (h : Orderly s1 T s) (d : Ramdisk) :
    Tidy { s with drv := d } root T κ := by
  have node : ∀ p ∈ T, State.node { s with drv := d } p = s1.node p := h.tree.node
  obtain ⟨tree, plain, root_eq⟩ := h.tree_onDrive m hr d
  refine ⟨tree, plain, root_eq, ?root_name, ?callback, ?small, h.closed⟩
  case root_name =>
    rw [node root m.tree.root_mem]
    exact m.root_name
  case callback =>
    intro p hp
    rw [node p hp]
    exact opened_by_tarOpen m hp
  case small =>
    intro p hp
    rw [node p hp]
    exact small p hp

/-! ## What a failure leaves. -/

/-- The process, the descriptor table and the list of blocks of the heap are as they were. -/
structure Unchanged (proc : UInt32) (s s' : State) : Prop where
  process : s'.drv.heap.mem.loadBytes proc sizeofProcess = s.drv.heap.mem.loadBytes proc sizeofProcess
  descriptors : s'.openFiles = s.openFiles
  blocks : ∃ l, Valid s.drv.heap l ∧ Valid s'.drv.heap l

/-- A live allocation is owned. -/
lemma owned_of_live {L : Kheap.Live} {k j : Nat} (v : Valid heap l) (o : Kheap.Owns l L) (mem : (proc, k) ∈ L)
    (lt : j < k) : Owned l (proc + UInt32.ofNat j) := by
  obtain ⟨b, hb, used, addr, le⟩ := o.block _ mem
  obtain ⟨-, hi⟩ := v.bounds hb
  dsimp only at addr le
  rw [Block.limit] at hi
  refine .inl ⟨b, hb, used, ?_⟩
  rw [Block.limit, toNat_add_ofNat (by omega)]
  omega

lemma Restored.unchanged (v : Valid s.drv.heap l) (owned : ∀ j < sizeofProcess, Owned l (proc + UInt32.ofNat j))
    (r : Restored l s s') : Unchanged proc s s' := by
  obtain ⟨heap, rfl, v', keeps⟩ := r
  exact ⟨Memory.loadBytes_congr fun j lt => keeps _ (owned j lt), rfl, l, v, v'⟩

/-- Over every tree of files below `0x3FE00000` bytes that `mount_initrd` mounts, with any descriptors open, in every
    state of the heap and with any process that is allocated or lies below the heap: a `process_exec` or an
    `elf_exec` that returns -1 changes neither the process nor the descriptors nor the blocks of the heap. -/
theorem exec_unchanged {img bytes : UInt32} {P : Call → Prop} {H : Set Nat} {d : Ramdisk} {h0 : Kheap.Heap}
    {L : Kheap.Live} (mount : mountInitrd s0 img bytes = some (0, s1))
    (sizes : ∀ off ∈ Files s0.drv.heap.mem img bytes, (hdrSize s0.drv.heap.mem (img + off)).toNat < 0x3FE00000)
    (zero : ∀ i, s0.openFiles i = .zero) (run : Run tarDriver P s1 s H) (fresh : h0.kheapInited = false)
    (reach : Kheap.Reachable Kheap.HeapCall.Bounded h0 (d.heap, L))
    (live : proc.toNat + sizeofProcess ≤ 0xC0000000 ∨ (proc, sizeofProcess) ∈ L) (ehAddr : UInt32) :
    (∀ path s', processExec ehAddr { s with drv := d } proc path = some (-1, s') →
      Unchanged proc { s with drv := d } s') ∧
    ∀ filename s', elfExec ehAddr { s with drv := d } filename = some (.ret (-1) s') →
      Unchanged proc { s with drv := d } s' := by
  obtain ⟨⟨root, T, κ, t⟩, -⟩ := mountInitrd_mounted mount
  have small : ∀ p ∈ T, (s1.node p).size.toNat < 0x3FE00000 := by
    intro p hp
    cases t.mount.node p hp with
    | inl hd =>
      rw [hd.size]
      decide
    | inr hf =>
      obtain ⟨off, hoff, file⟩ := hf
      rw [file.size, t.heap, t.base]
      exact sizes off hoff
  have closed : ∀ i, s1.openFiles i = .zero := fun i => (congrFun (mountInitrd_slots mount) i).trans (zero i)
  have tidy := (orderly_run t.mount t.root_eq closed run).tidy t.mount t.root_eq small d
  obtain ⟨l, v, owns⟩ := (reach.mono fun _ _ => Kheap.Good.of_bounded).inv fresh
  have owned : ∀ j < sizeofProcess, Owned l (proc + UInt32.ofNat j) := by
    intro j lt
    cases live with
    | inl below =>
      refine .inr (.inl ?_)
      rw [toNat_add_ofNat (by omega)]
      omega
    | inr mem => exact owned_of_live v owns mem lt
  constructor
  · intro path s' fails
    exact (processExec_restored tidy v fails).unchanged v owned
  · intro filename s' fails
    exact (elfExec_restored tidy v fails).unchanged v owned

/-- A process in a block of its own, and the archive of one file. -/
theorem exec_unchanged_oneByte : ∃ s1 heap, mountInitrd (freshState oneByteArchive) 0x1000 1536 = some (0, s1) ∧
    Kheap.kmalloc (Kheap.kheapInit Kheap.bare) 68 = some (0xC000000C, heap) ∧
    ∀ s', processExec 0x200 { s1 with drv := { s1.drv with heap } } 0xC000000C (some [0x2F, 0x61]) = some (-1, s') →
      Unchanged 0xC000000C { s1 with drv := { s1.drv with heap } } s' := by
  have free : ∀ k, (freshState oneByteArchive).oom k = false := fun _ => rfl
  obtain ⟨s1, -, -, -, -, mount, -⟩ := mountInitrd_decoded oneByteArchive_image free
  obtain ⟨heap, alloc⟩ := Kheap.kmalloc_first (s := Kheap.bare) (n := 68) rfl (by decide)
  have small : Kheap.HeapCall.Bounded (Kheap.kheapInit Kheap.bare) (.kmalloc 68) :=
    show (68 : UInt32).toNat ≤ 0x3FE00000 by decide
  have reach : Kheap.Reachable Kheap.HeapCall.Bounded Kheap.bare (heap, [(0xC000000C, 68)]) :=
    .tail .refl (.call (.kmalloc 68) (.inl rfl) small alloc)
  have sizes : ∀ off ∈ Files (freshState oneByteArchive).drv.heap.mem 0x1000 1536,
      (hdrSize (freshState oneByteArchive).drv.heap.mem (0x1000 + off)).toNat < 0x3FE00000 := by
    intro off hoff
    change (hdrSize oneByteArchive (0x1000 + off)).toNat < _
    rw [oneByteArchive_size (by decide) hoff]
    decide
  have all := exec_unchanged (d := { s1.drv with heap }) mount sizes (fun _ => rfl)
    (Run.start (P := fun _ => True)) rfl reach (.inr (List.mem_singleton.mpr rfl)) 0x200
  exact ⟨s1, heap, mount, alloc, all.1 (some [0x2F, 0x61])⟩

end RetaOS.Elf
