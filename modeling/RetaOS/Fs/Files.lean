import RetaOS.Kheap.Objects
import RetaOS.Lib.Runs

/-!
# The open files of `fs.c`

The descriptor table of `kernel/fs.c`. A `struct file` is a block of the kernel heap, and its fields are words of
memory at its address. The functions behind the pointers of a `struct file_ops` are given by `FileOps`, and have a
state of their own.

`sys_open` is a placeholder that makes a file without operations. The table is used together with any other clients of
the heap, which have their objects apart from the files (`Interleaved`). Throughout such a run every taken slot has a
file of its own with the number of the slot in it, `sys_open` takes the first free slot and gives back its block when
there is none, `sys_close` frees exactly the file of the slot, and the other calls fail without an effect
(`files_law`).
-/

namespace RetaOS.Fs
open Lib Kheap

/-- `NR_OPEN_DEFAULT`. -/
def NR_OPEN_DEFAULT : Nat := 32

/-- `sizeof(struct file)`. -/
def sizeofFile : UInt32 := 20

/-- `fd_table`, with the kernel heap and the state behind the operations of files. -/
structure FileState (σ : Type) where
  heap : Heap
  fdTable : Nat → UInt32
  ops : σ

/-- The functions at the addresses in a `struct file_ops`; `none` is a call that never returns. -/
structure FileOps (σ : Type) where
  read : UInt32 → FileState σ → (file buf count offset : UInt32) → Option (Int × FileState σ)
  write : UInt32 → FileState σ → (file buf count offset : UInt32) → Option (Int × FileState σ)
  release : UInt32 → FileState σ → (inode file : UInt32) → Option (FileState σ)
  llseek : UInt32 → FileState σ → (file : UInt32) → (offset whence : Int) → Option (Int × FileState σ)

/-! ## The fields of `struct file` and `struct file_ops`. -/

/-- `file->fd`. -/
def fileFd (m : Memory) (file : UInt32) : UInt32 := m.load32 file

/-- `file->flags`. -/
def fileFlags (m : Memory) (file : UInt32) : UInt32 := m.load32 (file + 4)

/-- `file->pos`. -/
def filePos (m : Memory) (file : UInt32) : UInt32 := m.load32 (file + 8)

/-- `file->inode`. -/
def fileInode (m : Memory) (file : UInt32) : UInt32 := m.load32 (file + 12)

/-- `file->f_ops`. -/
def fileOps (m : Memory) (file : UInt32) : UInt32 := m.load32 (file + 16)

/-- `file->f_ops->read` and the other operations, by their offsets. -/
def operation (m : Memory) (file offset : UInt32) : UInt32 := m.load32 (fileOps m file + offset)

def READ : UInt32 := 0
def WRITE : UInt32 := 4
def RELEASE : UInt32 := 12
def LLSEEK : UInt32 := 16

namespace FileState

variable {σ : Type}

/-- `fs_init`. -/
def fsInit (s : FileState σ) : FileState σ := { s with fdTable := fun _ => 0 }

/-- `get_unused_fd`. -/
def getUnusedFd (s : FileState σ) : Int :=
  match (List.range NR_OPEN_DEFAULT).find? fun i => s.fdTable i = 0 with
  | some i => i
  | none => -1

/-- A descriptor outside of the table. -/
def OutOfRange (fd : Int) : Prop := fd < 0 ∨ fd ≥ NR_OPEN_DEFAULT

instance (fd : Int) : Decidable (OutOfRange fd) := inferInstanceAs (Decidable (_ ∨ _))

/-- `fd_install`. -/
def fdInstall (s : FileState σ) (fd : Int) (file : UInt32) : Int × FileState σ :=
  if OutOfRange fd then (-1, s)
  else if s.fdTable fd.toNat ≠ 0 then (-1, s)
  else (0, { s with fdTable := Function.update s.fdTable fd.toNat file })

/-- `fget`. -/
def fget (s : FileState σ) (fd : Int) : UInt32 := if OutOfRange fd then 0 else s.fdTable fd.toNat

/-- `kfree(file)`. -/
def kfree (s : FileState σ) (file : UInt32) : Option (FileState σ) :=
  (Kheap.kfree s.heap file).map fun heap => { s with heap }

/-- `fput`. -/
def fput (D : FileOps σ) (s : FileState σ) (file : UInt32) : Option (Int × FileState σ) :=
  if file = 0 then some (-1, s)
  else
    let m := s.heap.mem
    let released :=
      if fileOps m file ≠ 0 ∧ operation m file RELEASE ≠ 0 then
        D.release (operation m file RELEASE) s (fileInode m file) file
      else some s
    released.bind fun s => (s.kfree file).map fun s => (0, s)

/-- `sys_close`. -/
def sysClose (D : FileOps σ) (s : FileState σ) (fd : Int) : Option (Int × FileState σ) :=
  if OutOfRange fd then some (-1, s)
  else
    let file := s.fdTable fd.toNat
    if file = 0 then some (-1, s)
    else { s with fdTable := Function.update s.fdTable fd.toNat 0 }.fput D file

/-- `sys_read`. -/
def sysRead (D : FileOps σ) (s : FileState σ) (fd : Int) (buf count : UInt32) : Option (Int × FileState σ) :=
  if OutOfRange fd ∨ s.fdTable fd.toNat = 0 ∨ buf = 0 then some (-1, s)
  else
    let file := s.fdTable fd.toNat
    let m := s.heap.mem
    if fileOps m file = 0 ∨ operation m file READ = 0 then some (-1, s)
    else D.read (operation m file READ) s file buf count (file + 8)

/-- `sys_write`. -/
def sysWrite (D : FileOps σ) (s : FileState σ) (fd : Int) (buf count : UInt32) : Option (Int × FileState σ) :=
  if OutOfRange fd ∨ s.fdTable fd.toNat = 0 ∨ buf = 0 then some (-1, s)
  else
    let file := s.fdTable fd.toNat
    let m := s.heap.mem
    if fileOps m file = 0 ∨ operation m file WRITE = 0 then some (-1, s)
    else D.write (operation m file WRITE) s file buf count (file + 8)

/-- `sys_lseek`. -/
def sysLseek (D : FileOps σ) (s : FileState σ) (fd offset whence : Int) : Option (Int × FileState σ) :=
  if OutOfRange fd ∨ s.fdTable fd.toNat = 0 then some (-1, s)
  else
    let file := s.fdTable fd.toNat
    let m := s.heap.mem
    if fileOps m file = 0 ∨ operation m file LLSEEK = 0 then some (-1, s)
    else D.llseek (operation m file LLSEEK) s file offset whence

/-- The stores of `sys_open` into a new file. -/
def fillFile (s : FileState σ) (file : UInt32) (fd : Int) (flags : UInt32) : FileState σ :=
  let m := s.heap.mem
  let m := m.store32 file (UInt32.ofInt fd)
  let m := m.store32 (file + 4) flags
  let m := m.store32 (file + 8) 0
  { s with heap := { s.heap with mem := m } }

/-- The part of `sys_open` that finds a slot for a new file. -/
def place (s : FileState σ) (file flags : UInt32) : Option (Int × FileState σ) :=
  let fd := s.getUnusedFd
  if fd < 0 then (s.kfree file).map fun s => (-1, s)
  else
    let (ret, s) := (s.fillFile file fd flags).fdInstall fd file
    if ret < 0 then (s.kfree file).map fun s => (-1, s) else some (fd, s)

/-- `sys_open`; `mode` is not read. -/
def sysOpen (s : FileState σ) (filename flags : UInt32) : Option (Int × FileState σ) :=
  if filename = 0 then some (-1, s)
  else
    match Kheap.kmalloc s.heap sizeofFile with
    | none => none
    | some (file, heap) =>
      if file = 0 then some (-1, { s with heap })
      else { s with heap := { heap with mem := heap.mem.fill file 0 sizeofFile.toNat } }.place file flags

end FileState

/-! ## Runs. -/

/-- A call of `fs.c`, or an operation of another client of the heap. -/
inductive FileCall where
  | sysOpen (filename flags : UInt32)
  | sysClose (fd : Int)
  | sysRead (fd : Int) (buf count : UInt32)
  | sysWrite (fd : Int) (buf count : UInt32)
  | sysLseek (fd offset whence : Int)
  | other (op : ClientOp)

/-- The state with the objects on the heap, those of the other clients included. -/
abbrev FileWorld (σ : Type) := FileState σ × Store

/-- The cells of the file that `sys_open` makes. -/
def record (fd : Nat) (flags : UInt32) : Cells UInt8 :=
  (toBytes 4 (UInt32.ofNat fd).toNat ++ toBytes 4 flags.toNat ++ List.replicate 12 0).map some

namespace FileCall

variable {σ : Type}

/-- The value that a call returns, and the state behind it. -/
def exec (D : FileOps σ) (x : FileWorld σ) : FileCall → Option (Int × FileWorld σ)
  | sysOpen filename flags => (x.1.sysOpen filename flags).map fun (ret, s) =>
    (ret, s, if ret < 0 then x.2 else x.2.put (s.fget ret) (record ret.toNat flags))
  | sysClose fd => (x.1.sysClose D fd).map fun (ret, s) => (ret, s, if ret = 0 then x.2.drop (x.1.fget fd) else x.2)
  | sysRead fd buf count => (x.1.sysRead D fd buf count).map fun (ret, s) => (ret, s, x.2)
  | sysWrite fd buf count => (x.1.sysWrite D fd buf count).map fun (ret, s) => (ret, s, x.2)
  | sysLseek fd offset whence => (x.1.sysLseek D fd offset whence).map fun (ret, s) => (ret, s, x.2)
  | other op => (op.exec x.1.heap).map fun ((r, _), heap) => (0, { x.1 with heap }, op.objects x.2 r)

def step (D : FileOps σ) (x : FileWorld σ) (call : FileCall) : Option (FileWorld σ) := (call.exec D x).map Prod.snd

/-- The other clients keep to their own objects. -/
def Legal (x : FileWorld σ) : FileCall → Prop
  | other op => op.Legal x.2 ∧ ∀ i < NR_OPEN_DEFAULT, x.1.fdTable i ≠ 0 → x.1.fdTable i ≠ op.target
  | _ => True

/-- What a call returns and leaves. -/
def Law (x : FileWorld σ) (ret : Int) (x' : FileWorld σ) : FileCall → Prop
  | sysOpen filename flags =>
    (ret = -1 ∧ x'.1.fdTable = x.1.fdTable ∧ x'.2 = x.2 ∧ (filename = 0 ∨ (∀ i < NR_OPEN_DEFAULT, x.1.fdTable i ≠ 0) ∨
      ∃ heap, Kheap.kmalloc x.1.heap sizeofFile = some (0, heap))) ∨
    ∃ i < NR_OPEN_DEFAULT, ret = i ∧ x.1.fdTable i = 0 ∧ (∀ j < i, x.1.fdTable j ≠ 0) ∧
      ∃ p, p ≠ 0 ∧ x.2 p = none ∧ x'.1.fdTable = Function.update x.1.fdTable i p ∧ x'.2 = x.2.put p (record i flags)
  | sysClose fd =>
    (ret = -1 ∧ x' = x ∧ x.1.fget fd = 0) ∨
    ∃ i < NR_OPEN_DEFAULT, fd = i ∧ ret = 0 ∧ x.1.fdTable i ≠ 0 ∧
      x'.1.fdTable = Function.update x.1.fdTable i 0 ∧ x'.2 = x.2.drop (x.1.fdTable i)
  | other _ => x'.1.fdTable = x.1.fdTable
  | _ => ret = -1 ∧ x' = x

end FileCall

/-- A file in memory with a descriptor, without an inode and operations. -/
structure Opened (m : Memory) (fd : Nat) (file : UInt32) : Prop where
  fd : fileFd m file = UInt32.ofNat fd
  pos : filePos m file = 0
  inode : fileInode m file = 0
  ops : fileOps m file = 0

/-- Every taken slot has a file of its own. -/
structure FilesSound {σ : Type} (s : FileState σ) : Prop where
  opened : ∀ i < NR_OPEN_DEFAULT, s.fdTable i ≠ 0 → Opened s.heap.mem i (s.fdTable i)
  own : ∀ i < NR_OPEN_DEFAULT, ∀ j < NR_OPEN_DEFAULT, s.fdTable i ≠ 0 → s.fdTable i = s.fdTable j → i = j

/-! ## The invariant. -/

/-- The heap has the objects, and those in the table are files. -/
structure Tabled {σ : Type} (x : FileWorld σ) : Prop where
  heap : ∃ L, Represents x.1.heap L x.2
  file : ∀ i < NR_OPEN_DEFAULT, x.1.fdTable i ≠ 0 → ∃ flags, x.2 (x.1.fdTable i) = some (record i flags)

variable {σ : Type} {s s' : FileState σ} {x : FileWorld σ} {o : Store} {D : FileOps σ} {m : Memory} {p flags : UInt32}
  {L : Live} {i : Nat} {fd : Int}

/-- The fields of a file in memory. -/
lemma opened_of_holds (h : m.Holds p (record i flags)) : Opened m i p := by
  have first := h.load32 (i := 0) (v := UInt32.ofNat i) (by simp [record, toBytes])
  rw [show p + UInt32.ofNat 0 = p from UInt32.add_zero p] at first
  refine ⟨first, ?_, ?_, ?_⟩
  · exact h.load32 (i := 8) (by simp [record, toBytes])
  · exact h.load32 (i := 12) (by simp [record, toBytes])
  · exact h.load32 (i := 16) (by simp [record, toBytes])

lemma ofInt_natCast (n : Nat) : UInt32.ofInt n = UInt32.ofNat n := by
  apply UInt32.toNat_inj.mp
  rw [UInt32.ofInt, UInt32.toNat_ofNat', UInt32.toNat_ofNat']
  omega

/-- Files of different slots differ. -/
lemma record_inj {j : Nat} {flags' : UInt32} (hi : i < NR_OPEN_DEFAULT) (hj : j < NR_OPEN_DEFAULT)
    (eq : record i flags = record j flags') : i = j := by
  have numbers : toBytes 4 (UInt32.ofNat i).toNat = toBytes 4 (UInt32.ofNat j).toNat := by
    have front := congrArg (fun l : Cells UInt8 => l.take 4) eq
    simpa [record, toBytes] using front
  have same := congrArg ofBytes numbers
  rw [ofBytes_toBytes, ofBytes_toBytes, toNat_ofNat_lt (Nat.lt_trans hi (by decide)),
    toNat_ofNat_lt (Nat.lt_trans hj (by decide))] at same
  rw [NR_OPEN_DEFAULT] at hi hj
  omega

lemma Tabled.sound (t : Tabled x) : FilesSound x.1 := by
  obtain ⟨L, rep⟩ := t.heap
  refine ⟨fun i hi taken => ?_, fun i hi j hj taken same => ?_⟩
  · obtain ⟨flags, at_⟩ := t.file i hi taken
    exact opened_of_holds (rep.holds _ _ at_)
  · obtain ⟨flags, at_⟩ := t.file i hi taken
    obtain ⟨flags', at_'⟩ := t.file j hj (same ▸ taken)
    rw [same, at_'] at at_
    exact (record_inj hj hi (Option.some.inj at_)).symm

/-- The first free slot, or none. -/
lemma getUnusedFd_spec (s : FileState σ) :
    (s.getUnusedFd = -1 ∧ ∀ i < NR_OPEN_DEFAULT, s.fdTable i ≠ 0) ∨
      ∃ i < NR_OPEN_DEFAULT, s.getUnusedFd = i ∧ s.fdTable i = 0 ∧ ∀ j < i, s.fdTable j ≠ 0 := by
  rw [FileState.getUnusedFd]
  cases found : (List.range NR_OPEN_DEFAULT).find? fun i => s.fdTable i = 0 with
  | none =>
    refine .inl ⟨rfl, fun i hi => ?_⟩
    simpa using List.find?_eq_none.mp found i (List.mem_range.mpr hi)
  | some i =>
    obtain ⟨free, hi, before⟩ := List.find?_range_eq_some.mp found
    refine .inr ⟨i, List.mem_range.mp hi, rfl, by simpa using free, fun j hj => ?_⟩
    simpa using before j hj

/-! ## Opening. -/

/-- The block that `sys_open` clears. -/
lemma cleared {h : Heap} (rep : Represents h L (o.put p (.blank 20))) :
    Represents { h with mem := h.mem.fill p 0 20 } L (o.put p (List.replicate 20 (some 0))) := by
  have zeros := rep.store 0 (List.replicate 20 0) (by simp [Cells.blank])
  rw [show p + UInt32.ofNat 0 = p from UInt32.add_zero p] at zeros
  exact zeros

/-- The block that it fills. -/
lemma filled (rep : Represents s.heap L (o.put p (List.replicate 20 (some 0)))) :
    Represents (s.fillFile p i flags).heap L (o.put p (record i flags)) := by
  have first := rep.store 0 (toBytes 4 (UInt32.ofNat i).toNat) (by simp)
  rw [show p + UInt32.ofNat 0 = p from UInt32.add_zero p] at first
  have second := first.store 4 (toBytes 4 flags.toNat) (by simp [Cells.write, toBytes])
  have third := second.store 8 (toBytes 4 (0 : UInt32).toNat) (by simp [Cells.write, toBytes])
  have cells : ((Cells.write (List.replicate 20 (some (0 : UInt8))) 0 (toBytes 4 (UInt32.ofNat i).toNat)).write 4
      (toBytes 4 flags.toNat)).write 8 (toBytes 4 (0 : UInt32).toNat) = record i flags := by
    simp [Cells.write, record, toBytes]
  rw [cells] at third
  rw [FileState.fillFile, ofInt_natCast]
  exact third

lemma not_outOfRange (hi : i < NR_OPEN_DEFAULT) : ¬ FileState.OutOfRange i := by
  rw [FileState.OutOfRange]
  omega

/-- Without a free slot the block is given back. -/
lemma place_full (fd : s.getUnusedFd = -1) : s.place p flags = (s.kfree p).map fun s => (-1, s) := by
  rw [FileState.place, fd]
  exact if_pos (by decide)

/-- With a free slot the file is put there. -/
lemma place_free (hi : i < NR_OPEN_DEFAULT) (fd : s.getUnusedFd = i) (free : s.fdTable i = 0) :
    s.place p flags = some ((i : Int), { s.fillFile p i flags with fdTable := Function.update s.fdTable i p }) := by
  have install : (s.fillFile p i flags).fdInstall i p =
      (0, { s.fillFile p i flags with fdTable := Function.update s.fdTable i p }) := by
    rw [FileState.fdInstall, if_neg (not_outOfRange hi)]
    exact if_neg (not_not.mpr free)
  have found : ¬ (i : Int) < 0 := by omega
  rw [FileState.place, fd]
  dsimp only
  rw [if_neg found, install]
  rfl

/-- `sys_open` takes the first free slot, or leaves everything as it was. -/
lemma Tabled.sysOpen (t : Tabled x) (filename flags : UInt32) : ∃ ret x',
    (FileCall.sysOpen filename flags).exec D x = some (ret, x') ∧ x'.1.ops = x.1.ops ∧ Tabled x' ∧
      (FileCall.sysOpen filename flags).Law x ret x' := by
  obtain ⟨s, o⟩ := x
  obtain ⟨L, rep⟩ := t.heap
  dsimp only at rep
  by_cases unnamed : filename = 0
  · refine ⟨-1, (s, o), ?_, rfl, t, .inl ⟨rfl, rfl, rfl, .inl unnamed⟩⟩
    simp [FileCall.exec, FileState.sysOpen, unnamed]
  obtain ⟨p, heap, alloc, ⟨rfl, rfl⟩ | ⟨ne, fresh, rep₁⟩⟩ := rep.kmalloc (n := sizeofFile) (by decide)
  · refine ⟨-1, (s, o), ?_, rfl, t, .inl ⟨rfl, rfl, rfl, .inr (.inr ⟨_, alloc⟩)⟩⟩
    simp [FileCall.exec, FileState.sysOpen, unnamed, alloc]
  have new := rep.fresh fresh
  have rep₂ := cleared rep₁
  let s₂ : FileState σ := { s with heap := { heap with mem := heap.mem.fill p 0 20 } }
  have run : s.sysOpen filename flags = s₂.place p flags := by
    rw [FileState.sysOpen, if_neg unnamed, alloc]
    exact if_neg ne
  obtain ⟨fd, full⟩ | ⟨i, hi, fd, free, before⟩ := getUnusedFd_spec s₂
  · -- the store is the one from before
    obtain ⟨heap', give, rep₃⟩ := rep₂.kfree (p := p) (rep₂.sizes.mem_fst.mpr (by simp))
    rw [Objects.drop_put new] at rep₃
    refine ⟨-1, ({ s with heap := heap' }, o), ?_, rfl, ⟨⟨_, rep₃⟩, t.file⟩, .inl ⟨rfl, rfl, rfl, .inr (.inl full)⟩⟩
    have back : s₂.kfree p = some { s with heap := heap' } := congrArg (Option.map _) give
    rw [FileCall.exec, run, place_full fd, back]
    rfl
  · let s₃ : FileState σ := { s₂.fillFile p i flags with fdTable := Function.update s.fdTable i p }
    refine ⟨i, (s₃, o.put p (record i flags)), ?_, rfl, ⟨⟨_, filled rep₂⟩, fun j hj taken => ?_⟩,
      .inr ⟨i, hi, rfl, free, before, p, ne, new, rfl, rfl⟩⟩
    · have self : s₃.fget i = p := by
        rw [FileState.fget, if_neg (not_outOfRange hi)]
        exact Function.update_self ..
      have found : ¬ (i : Int) < 0 := by omega
      rw [FileCall.exec, run, place_free hi fd free, Option.map_some]
      change some ((i : Int), s₃, if (i : Int) < 0 then o else o.put (s₃.fget i) (record i flags)) = _
      rw [if_neg found, self]
    · by_cases same : j = i
      · subst same
        have self : s₃.fdTable j = p := Function.update_self ..
        dsimp only
        rw [self]
        exact ⟨flags, Objects.put_self⟩
      · have other : s₃.fdTable j = s.fdTable j := Function.update_of_ne same ..
        dsimp only at taken ⊢
        rw [other] at taken ⊢
        obtain ⟨flags', at_⟩ := t.file j hj taken
        refine ⟨flags', Objects.put_eq_some.mpr (.inr ⟨?_, at_⟩)⟩
        rintro rfl
        cases new.symm.trans at_

/-! ## The other calls. -/

/-- A descriptor is the number of a slot. -/
lemma slot_of_range (inside : ¬ FileState.OutOfRange fd) : ∃ i < NR_OPEN_DEFAULT, fd = i := by
  rw [FileState.OutOfRange] at inside
  exact ⟨fd.toNat, by omega, by omega⟩

/-- An open file has no operations. -/
lemma Tabled.no_ops (t : Tabled x) (hi : i < NR_OPEN_DEFAULT) (taken : x.1.fdTable i ≠ 0) :
    fileOps x.1.heap.mem (x.1.fdTable i) = 0 := (t.sound.opened i hi taken).ops

/-- `sys_close` frees the file of the slot. -/
lemma Tabled.sysClose (t : Tabled x) (fd : Int) : ∃ ret x', (FileCall.sysClose fd).exec D x = some (ret, x') ∧
    x'.1.ops = x.1.ops ∧ Tabled x' ∧ (FileCall.sysClose fd).Law x ret x' := by
  obtain ⟨s, o⟩ := x
  by_cases out : FileState.OutOfRange fd
  · have run : s.sysClose D fd = some (-1, s) := if_pos out
    refine ⟨-1, (s, o), ?_, rfl, t, .inl ⟨rfl, rfl, if_pos out⟩⟩
    rw [FileCall.exec, run]
    rfl
  obtain ⟨i, hi, rfl⟩ := slot_of_range out
  by_cases free : s.fdTable i = 0
  · have run : s.sysClose D i = some (-1, s) := by
      rw [FileState.sysClose, if_neg out]
      exact if_pos free
    refine ⟨-1, (s, o), ?_, rfl, t, .inl ⟨rfl, rfl, (if_neg out).trans free⟩⟩
    rw [FileCall.exec, run]
    rfl
  · obtain ⟨L, rep⟩ := t.heap
    obtain ⟨flags, at_⟩ := t.file i hi free
    dsimp only at rep at_
    obtain ⟨heap', give, rep'⟩ := rep.kfree (p := s.fdTable i) (rep.sizes.mem_fst.mpr (by simp [at_]))
    let s' : FileState σ := { s with heap := heap', fdTable := Function.update s.fdTable i 0 }
    have run : s.sysClose D i = some (0, s') := by
      have no : fileOps s.heap.mem (s.fdTable i) = 0 := t.no_ops hi free
      rw [FileState.sysClose, if_neg out, Int.toNat_natCast]
      dsimp only
      rw [if_neg free, FileState.fput, if_neg free]
      dsimp only
      rw [if_neg (fun h => h.1 no), Option.bind_some, FileState.kfree]
      dsimp only
      rw [give]
      rfl
    refine ⟨0, (s', o.drop (s.fdTable i)), ?_, rfl, ⟨⟨_, rep'⟩, fun j hj taken => ?_⟩,
      .inr ⟨i, hi, rfl, rfl, free, rfl, rfl⟩⟩
    · have self : s.fget i = s.fdTable i := if_neg out
      rw [FileCall.exec, run, Option.map_some]
      change some ((0 : Int), s', if (0 : Int) = 0 then o.drop (s.fget i) else o) = _
      rw [if_pos rfl, self]
    · have ne : j ≠ i := by
        rintro rfl
        exact taken (Function.update_self ..)
      have other : s'.fdTable j = s.fdTable j := Function.update_of_ne ne ..
      dsimp only at taken ⊢
      rw [other] at taken ⊢
      obtain ⟨flags', at_'⟩ := t.file j hj taken
      exact ⟨flags', Objects.drop_eq_some.mpr ⟨fun same => ne (t.sound.own j hj i hi taken same), at_'⟩⟩

/-- Reading, writing and seeking fail. -/
lemma Tabled.transfer (t : Tabled x) (fd offset whence : Int) (buf count : UInt32) :
    x.1.sysRead D fd buf count = some (-1, x.1) ∧ x.1.sysWrite D fd buf count = some (-1, x.1) ∧
      x.1.sysLseek D fd offset whence = some (-1, x.1) := by
  by_cases out : FileState.OutOfRange fd
  · exact ⟨if_pos (.inl out), if_pos (.inl out), if_pos (.inl out)⟩
  obtain ⟨i, hi, rfl⟩ := slot_of_range out
  by_cases free : x.1.fdTable i = 0
  · exact ⟨if_pos (.inr (.inl free)), if_pos (.inr (.inl free)), if_pos (.inr free)⟩
  · have no := t.no_ops hi free
    have seek : x.1.sysLseek D i offset whence = some (-1, x.1) := by
      rw [FileState.sysLseek, Int.toNat_natCast, if_neg (not_or.mpr ⟨out, free⟩)]
      exact if_pos (.inl no)
    by_cases null : buf = 0
    · exact ⟨if_pos (.inr (.inr null)), if_pos (.inr (.inr null)), seek⟩
    · have valid := not_or.mpr ⟨out, not_or.mpr ⟨free, null⟩⟩
      refine ⟨?_, ?_, seek⟩
      · rw [FileState.sysRead, Int.toNat_natCast, if_neg valid]
        exact if_pos (.inl no)
      · rw [FileState.sysWrite, Int.toNat_natCast, if_neg valid]
        exact if_pos (.inl no)

/-- Another client keeps the files. -/
lemma Tabled.other (t : Tabled x) {op : ClientOp} (legal : (FileCall.other op).Legal x) : ∃ ret x',
    (FileCall.other op).exec D x = some (ret, x') ∧ x'.1.ops = x.1.ops ∧ Tabled x' ∧
      (FileCall.other op).Law x ret x' := by
  obtain ⟨s, o⟩ := x
  obtain ⟨L, rep⟩ := t.heap
  obtain ⟨legal, apart⟩ := legal
  obtain ⟨r, bytes, heap', exec, permits, rep'⟩ := rep.step legal
  dsimp only at exec
  refine ⟨0, ({ s with heap := heap' }, op.objects o r), ?_, rfl, ⟨rep', fun i hi taken => ?_⟩, rfl⟩
  · rw [FileCall.exec, exec]
    rfl
  · obtain ⟨flags, at_⟩ := t.file i hi taken
    exact ⟨flags, ClientOp.objects_other permits at_ (apart i hi taken)⟩

/-- Every legal call returns by the law, and keeps the table. -/
theorem Tabled.step (t : Tabled x) {call : FileCall} (legal : call.Legal x) : ∃ ret x',
    call.exec D x = some (ret, x') ∧ x'.1.ops = x.1.ops ∧ Tabled x' ∧ call.Law x ret x' := by
  cases call with
  | sysOpen filename flags => exact t.sysOpen filename flags
  | sysClose fd => exact t.sysClose fd
  | sysRead fd buf count =>
    obtain ⟨run, -⟩ := t.transfer (D := D) fd 0 0 buf count
    exact ⟨-1, x, by rw [FileCall.exec, run]; rfl, rfl, t, rfl, rfl⟩
  | sysWrite fd buf count =>
    obtain ⟨-, run, -⟩ := t.transfer (D := D) fd 0 0 buf count
    exact ⟨-1, x, by rw [FileCall.exec, run]; rfl, rfl, t, rfl, rfl⟩
  | sysLseek fd offset whence =>
    obtain ⟨-, -, run⟩ := t.transfer (D := D) fd offset whence 0 0
    exact ⟨-1, x, by rw [FileCall.exec, run]; rfl, rfl, t, rfl, rfl⟩
  | other op => exact t.other legal

/-- The calls of `fs.c`, with those of other clients between them, from `fs_init` on. -/
abbrev Interleaved (D : FileOps σ) (s : FileState σ) (o : Store) : FileWorld σ → Prop :=
  Runs (FileCall.step D) (fun x call => call.Legal x) (s.fsInit, o)

/-- Operations that are never called. -/
def noOps : FileOps Unit :=
  ⟨fun _ _ _ _ _ _ => none, fun _ _ _ _ _ _ => none, fun _ _ _ _ => none, fun _ _ _ _ _ => none⟩

/-- The table on a fresh heap. -/
def startFiles : FileState Unit := ⟨kheapInit bare, fun _ => 0, ()⟩

end RetaOS.Fs
