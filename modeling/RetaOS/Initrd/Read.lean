import RetaOS.Initrd.Decode
import RetaOS.Initrd.Bounds
import RetaOS.Vfs.OpenFile

/-!
# Reading a file of the ramdisk

Opening and reading through the descriptor table. `Opened s fd payload pos` says that the slot `fd` holds the file of
a payload at position `pos`; `vfsOpen_file` establishes it, `vfsRead_opened` is one `vfs_read`, and
`readMany_opened` a sequence of them: whatever counts are asked for, the bytes delivered are the payload from the
position on, each once, and nothing at its end.
-/

namespace RetaOS.Initrd
open Lib Vfs

variable {s s' : State} {d : Ramdisk} {n : Node} {payload : List UInt8} {fd pos : Nat} {path : List UInt8}

/-- The bytes of the image that a node stands for. -/
def contents (d : Ramdisk) (n : Node) : List UInt8 :=
  match meta? d n with
  | none => []
  | some r => d.heap.mem.loadBytes (d.gInitrdImg + r.dataOff) r.size.toNat

lemma File.contents_eq {off : UInt32} (h : File d off n) : contents d n =
    d.heap.mem.loadBytes (d.gInitrdImg + off + 512) (hdrSize d.heap.mem (d.gInitrdImg + off)).toNat := by
  rw [contents, h.record, UInt32.add_assoc]

/-- The record of a file has the size of its node. -/
lemma File.sized {off : UInt32} (h : File d off n) : meta? d n = some ⟨n.size, off + 512⟩ := by
  rw [h.size]
  exact h.record

lemma contents_length {o : UInt32} (record : meta? d n = some ⟨n.size, o⟩) : (contents d n).length = n.size.toNat := by
  rw [contents, record]
  exact Memory.loadBytes_length

lemma File.contents_length {off : UInt32} (h : File d off n) : (contents d n).length = n.size.toNat :=
  Initrd.contents_length h.sized

lemma Holds.contents_eq (h : Holds d n payload) : contents d n = payload := by
  obtain ⟨off, file, load⟩ := h
  rw [file.contents_eq, load.size, load.bytes]

/-- What `tar_read` puts in the buffer is the file from an offset on. -/
lemma tarRead_contents {o : UInt32} (record : meta? d n = some ⟨n.size, o⟩) (himg : d.gInitrdImg ≠ 0)
    (short : n.size.toNat < 2 ^ 31) (offset count : UInt32) :
    tarRead d n offset count = (((((contents d n).drop offset.toNat).take count.toNat).length : Int),
      ((contents d n).drop offset.toNat).take count.toNat) := by
  have size := contents_length record
  have stored : contents d n = d.heap.mem.loadBytes (d.gInitrdImg + o) n.size.toNat := by rw [contents, record]
  by_cases lt : offset < n.size
  · have len := toRead_toNat lt count
    rw [tarRead, tarCopy_lt record himg lt]
    dsimp only
    generalize (if count < _ then count else _) = toRead at len ⊢
    have bytes : d.heap.mem.loadBytes (d.gInitrdImg + o + offset) toRead.toNat =
        ((contents d n).drop offset.toNat).take count.toNat := by
      have slice := Memory.loadBytes_slice (m := d.heap.mem) (a := d.gInitrdImg + o)
        (n := n.size.toNat) offset.toNat count.toNat
      rw [UInt32.ofNat_toNat] at slice
      rw [len, stored, slice]
    simp only [bytes, List.length_take, List.length_drop]
    rw [toInt_of_lt (by omega), len, size]
  · have ge := UInt32.not_lt.mp lt
    have full : (contents d n).drop offset.toNat = [] := by
      rw [List.drop_eq_nil_iff, size]
      exact UInt32.le_iff_toNat_le.mp ge
    rw [tarRead, tarCopy_ge record himg ge, full, List.take_nil]
    rfl

/-- The slot `fd` holds the file of a payload, read up to `pos`. -/
structure Opened (s : State) (fd : Nat) (payload : List UInt8) (pos : Nat) : Prop where
  lt : fd < MAX_OPEN_FILES
  holds : Holds s.drv (s.openFiles fd) payload
  named : (s.openFiles fd).name ≠ []
  position : (s.openFiles fd).position.toNat = pos
  le : pos ≤ payload.length

lemma File.with_position {off : UInt32} (f : File d off n) (v : UInt32) : File d off { n with position := v } :=
  ⟨f.name, f.size, f.mode, f.read, f.open_, f.close, f.leaf, f.record, f.lseek⟩

lemma Holds.with_position (h : Holds d n payload) (v : UInt32) : Holds d { n with position := v } payload := by
  obtain ⟨off, f, load⟩ := h
  exact ⟨off, f.with_position v, load⟩

/-- An open file after a read of `k` bytes, as `vfs_read` leaves it. -/
def advanced (n : Node) (k : Nat) : Node :=
  if (k : Int) > 0 then { n with position := n.position + UInt32.ofInt k } else n

lemma Holds.advanced {k : Nat} (h : Holds d n payload) : Holds d (advanced n k) payload := by
  unfold Initrd.advanced
  split_ifs
  · exact h.with_position _
  · exact h

lemma advanced_name {k : Nat} : (advanced n k).name = n.name := by
  unfold advanced
  split_ifs <;> rfl

lemma advanced_position {k : Nat} (h : n.position.toNat + k < 2 ^ 32) :
    (advanced n k).position.toNat = n.position.toNat + k := by
  unfold advanced
  split_ifs with pos
  · have len := toNat_ofInt (n := k) (by omega)
    rw [toNat_add_of_lt (by rw [len]; exact h), len]
  · omega

lemma openFiles_setOpenFile : (s.setOpenFile fd n).openFiles fd = n := Function.update_self ..

/-- A read through `tar_read`, from the open slot on. -/
lemma vfsRead_tarRead {buf count : UInt32} {bytes : List UInt8} (slot : openFile s fd = some fd) (hbuf : buf ≠ 0)
    (noDir : ¬ (s.openFiles fd).flags &&& FT_DIR ≠ 0) (hread : (s.openFiles fd).read = some .tarRead)
    (more : ¬ (s.openFiles fd).position ≥ (s.openFiles fd).size)
    (run : tarRead s.drv (s.openFiles fd) (s.openFiles fd).position
      (if (s.openFiles fd).position + count > (s.openFiles fd).size then
        (s.openFiles fd).size - (s.openFiles fd).position else count) = ((bytes.length : Int), bytes)) :
    vfsRead tarDriver s fd buf count =
      ((bytes.length : Int), bytes, s.setOpenFile fd (advanced (s.openFiles fd) bytes.length)) := by
  simp only [vfsRead, slot, if_neg hbuf, if_neg noDir, if_neg more]
  generalize s.openFiles fd = n at *
  cases n
  cases hread
  simp only [Option.isNone_some, Bool.false_eq_true, false_and, if_false, tarDriver, run]
  rfl

/-- A slot that is open. -/
lemma Opened.openFile (o : Opened s fd payload pos) : openFile s fd = some fd :=
  openFile_eq_some.mpr ⟨rfl, o.lt, o.named⟩

/-- The limit that `vfs_read` puts on the count does not change what is read, also where its sum wraps. -/
lemma take_limit {at_ size count : UInt32} (hsize : size.toNat = payload.length) (lt : at_ < size) :
    (payload.drop at_.toNat).take (if at_ + count > size then size - at_ else count).toNat =
      (payload.drop at_.toNat).take count.toNat := by
  have rest := UInt32.toNat_sub_of_le size at_ (UInt32.le_of_lt lt)
  have c := count.toNat_lt
  have top := size.toNat_lt
  rw [UInt32.lt_iff_toNat_lt] at lt
  rw [List.take_eq_take_iff, List.length_drop, ← hsize]
  split_ifs with h
  · rw [gt_iff_lt, UInt32.lt_iff_toNat_lt, UInt32.toNat_add] at h
    rw [rest]
    omega
  · rfl

/-- One `vfs_read` of a file, for every count and at every position. -/
lemma vfsRead_contents {o buf : UInt32} (slot : openFile s fd = some fd)
    (noDir : ¬ (s.openFiles fd).flags &&& FT_DIR ≠ 0) (hread : (s.openFiles fd).read = some .tarRead)
    (record : meta? s.drv (s.openFiles fd) = some ⟨(s.openFiles fd).size, o⟩) (himg : s.drv.gInitrdImg ≠ 0)
    (short : (s.openFiles fd).size.toNat < 2 ^ 31) (nonnull : buf ≠ 0) {bytes : List UInt8} {count : UInt32}
    (slice : ((contents s.drv (s.openFiles fd)).drop (s.openFiles fd).position.toNat).take count.toNat = bytes) :
    vfsRead tarDriver s fd buf count =
      ((bytes.length : Int), bytes, s.setOpenFile fd (advanced (s.openFiles fd) bytes.length)) := by
  have size := contents_length record
  by_cases more : (s.openFiles fd).position < (s.openFiles fd).size
  · have run := tarRead_contents record himg short (s.openFiles fd).position
      (if (s.openFiles fd).position + count > (s.openFiles fd).size then
        (s.openFiles fd).size - (s.openFiles fd).position else count)
    rw [take_limit size.symm more, slice] at run
    exact vfsRead_tarRead slot nonnull noDir hread (UInt32.not_le.mpr more) run
  · have end_ := UInt32.not_lt.mp more
    have empty : bytes = [] := by
      rw [← slice, List.drop_eq_nil_of_le, List.take_nil]
      rw [size]
      exact UInt32.le_iff_toNat_le.mp end_
    have source : (s.openFiles fd).read ≠ none := by
      rw [hread]
      exact fun h => nomatch h
    subst empty
    rw [vfsRead_end slot nonnull (not_not.mp noDir) source end_]
    have stay : ¬ ((0 : Nat) : Int) > 0 := by decide
    have kept : s.setOpenFile fd (advanced (s.openFiles fd) 0) = s := by
      rw [advanced, if_neg stay, State.setOpenFile, Function.update_eq_self]
    rw [List.length_nil, kept]
    rfl

lemma vfsRead_file {off buf : UInt32} (slot : openFile s fd = some fd) (file : File s.drv off (s.openFiles fd))
    (himg : s.drv.gInitrdImg ≠ 0) (short : (s.openFiles fd).size.toNat < 2 ^ 31) (nonnull : buf ≠ 0)
    {bytes : List UInt8} {count : UInt32}
    (slice : ((contents s.drv (s.openFiles fd)).drop (s.openFiles fd).position.toNat).take count.toNat = bytes) :
    vfsRead tarDriver s fd buf count =
      ((bytes.length : Int), bytes, s.setOpenFile fd (advanced (s.openFiles fd) bytes.length)) :=
  vfsRead_contents slot file.no_flag file.read file.sized himg short nonnull slice

/-- At the end of a file `vfs_read` returns 0. -/
lemma Opened.atEnd (o : Opened s fd payload payload.length) {buf : UInt32} (hbuf : buf ≠ 0) (count : UInt32) :
    vfsRead tarDriver s fd buf count = (0, [], s) := by
  obtain ⟨off, file, load⟩ := o.holds
  have source : (s.openFiles fd).read ≠ none := by
    rw [file.read]
    exact fun h => nomatch h
  refine vfsRead_end o.openFile hbuf (not_not.mp file.no_flag) source ?_
  rw [UInt32.le_iff_toNat_le, o.position, file.size, load.size]

/-- One `vfs_read` of a file delivers the payload from the position on and moves the position past it. -/
theorem vfsRead_opened (o : Opened s fd payload pos) (himg : s.drv.gInitrdImg ≠ 0)
    (short : payload.length < 2 ^ 31) {buf : UInt32} (hbuf : buf ≠ 0) (count : UInt32) :
    ∃ s', vfsRead tarDriver s fd buf count = ((((payload.drop pos).take count.toNat).length : Int),
        (payload.drop pos).take count.toNat, s') ∧
      Opened s' fd payload (pos + ((payload.drop pos).take count.toNat).length) ∧ s'.drv = s.drv := by
  obtain ⟨off, file, load⟩ := o.holds
  have size : (s.openFiles fd).size.toNat = payload.length := by rw [file.size, load.size]
  have slice : ((contents s.drv (s.openFiles fd)).drop (s.openFiles fd).position.toNat).take count.toNat =
      (payload.drop pos).take count.toNat := by
    rw [o.holds.contents_eq, o.position]
  have run := vfsRead_file o.openFile file himg (size ▸ short) hbuf slice
  have fits : pos + ((payload.drop pos).take count.toNat).length ≤ payload.length := by
    have le := o.le
    simp only [List.length_take, List.length_drop]
    omega
  generalize (payload.drop pos).take count.toNat = bytes at run fits
  refine ⟨s.setOpenFile fd (advanced (s.openFiles fd) bytes.length), run, ⟨o.lt, ?_, ?_, ?_, fits⟩, rfl⟩
  · rw [openFiles_setOpenFile]
    exact o.holds.advanced
  · rw [openFiles_setOpenFile, advanced_name]
    exact o.named
  · rw [openFiles_setOpenFile, advanced_position (by rw [o.position]; omega), o.position]

/-! ## Sequences of reads. -/

/-- Reads of the given counts, one after the other: the bytes of all of them. -/
def readMany (s : State) (fd : Nat) (buf : UInt32) : List UInt32 → List UInt8 × State
  | [] => ([], s)
  | count :: counts =>
    let (_, bytes, s) := vfsRead tarDriver s fd buf count
    let (rest, s) := readMany s fd buf counts
    (bytes ++ rest, s)

/-- What is taken of a list in two steps. -/
lemma take_append_take (l : List UInt8) (j k : Nat) :
    l.take j ++ (l.drop (l.take j).length).take k = l.take (j + k) := by
  rw [List.take_add, List.length_take]
  by_cases h : j ≤ l.length
  · rw [Nat.min_eq_left h]
  · rw [Nat.min_eq_right (by omega), List.drop_length, List.drop_eq_nil_of_le (by omega)]

/-- Reads of a file deliver the payload from the position on. -/
theorem readMany_opened (o : Opened s fd payload pos) (himg : s.drv.gInitrdImg ≠ 0)
    (short : payload.length < 2 ^ 31) {buf : UInt32} (hbuf : buf ≠ 0) (counts : List UInt32) :
    ∃ s', readMany s fd buf counts = ((payload.drop pos).take (counts.map UInt32.toNat).sum, s') ∧
      Opened s' fd payload (pos + ((payload.drop pos).take (counts.map UInt32.toNat).sum).length) ∧
      s'.drv = s.drv := by
  induction counts generalizing s pos with
  | nil =>
    refine ⟨s, ?_, ?_, rfl⟩
    · rw [readMany, List.map_nil, List.sum_nil, List.take_zero]
    · rw [List.map_nil, List.sum_nil, List.take_zero]
      exact o
  | cons count counts ih =>
    obtain ⟨s1, run1, o1, drv1⟩ := vfsRead_opened o himg short hbuf count
    obtain ⟨s2, run2, o2, drv2⟩ := ih o1 (drv1 ▸ himg)
    have both := take_append_take (payload.drop pos) count.toNat (counts.map UInt32.toNat).sum
    rw [List.drop_drop] at both
    rw [List.map_cons, List.sum_cons, ← both]
    refine ⟨s2, ?_, ?_, drv2.trans drv1⟩
    · rw [readMany, run1]
      simp only [run2]
    · rw [List.length_append, ← Nat.add_assoc]
      exact o2

/-! ## Opening. -/

lemma Holds.readable (h : Holds d n payload) : n.flags &&& 0o444 ≠ 0 := by
  obtain ⟨off, file, load⟩ := h
  rw [file.mode]
  exact load.readable

/-- `vfs_open` of a file that lookup finds, for reading. -/
theorem vfsOpen_file (look : vfsLookup tarDriver s path = some (0, n, s)) (h : Holds s.drv n payload)
    (named : n.name ≠ []) (free : freeSlot s = some fd) :
    ∃ s', vfsOpen tarDriver s path O_RDONLY = some ((fd : Int), s') ∧ Opened s' fd payload 0 ∧ s'.drv = s.drv := by
  have readable := h.readable
  have held := h.with_position 0
  have lt : fd < MAX_OPEN_FILES := List.mem_range.mp (List.mem_of_find?_eq_some free)
  have opened : openNode tarDriver s fd n O_RDONLY = ((fd : Int), s.setOpenFile fd { n with position := 0 }) := by
    obtain ⟨off, file, _⟩ := h
    have access : accessAllowed n (O_RDONLY &&& O_ACCMODE) = true := by
      simpa [accessAllowed, O_RDONLY, O_ACCMODE] using readable
    have kept : truncate tarDriver s n O_RDONLY = (.ok n, s) := by simp [truncate, O_RDONLY]
    have noExcl : ¬ (O_RDONLY &&& O_EXCL ≠ 0 ∧ O_RDONLY &&& O_CREAT ≠ 0) := by decide
    have noDir : ¬ (n.flags &&& FT_DIR ≠ 0 ∧ O_RDONLY &&& (O_WRONLY ||| O_RDWR) ≠ 0) := fun h => file.no_flag h.1
    have noAppend : ¬ O_RDONLY &&& O_APPEND ≠ 0 := by decide
    have hopen := file.open_
    simp only [openNode, if_neg noDir, access, if_neg noExcl, kept, if_neg noAppend, Bool.true_eq_false, if_false]
    cases n
    cases hopen
    rfl
  refine ⟨s.setOpenFile fd { n with position := 0 }, ?_, ?_, rfl⟩
  · simp only [vfsOpen, free, look, if_true, opened]
  · refine ⟨lt, ?_, ?_, ?_, Nat.zero_le _⟩
    · rw [openFiles_setOpenFile]
      exact held
    · rw [openFiles_setOpenFile]
      exact named
    · rw [openFiles_setOpenFile]
      rfl

end RetaOS.Initrd
