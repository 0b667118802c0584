import RetaOS.Vfs.Tree

/-!
# The calls on an open descriptor

What `vfs_read` and `vfs_write` do once the slot of a descriptor is known to be open, and what `vfs_open` does once
the node is found: the checks, then the callback of the node when it has one and its data buffer otherwise.
-/

namespace RetaOS.Vfs
open Lib

variable {F σ : Type} {D : Driver F σ} {s : State F σ} {n : Node F} {buf count : UInt32} {bytes : List UInt8}
  {fd : Int} {i : Nat}

/-- An open descriptor is the index of its slot. -/
lemma openFile_eq_some : openFile s fd = some i ↔ fd = i ∧ i < MAX_OPEN_FILES ∧ (s.openFiles i).name ≠ [] := by
  unfold openFile
  split_ifs with bad
  · constructor
    · exact fun h => nomatch h
    · rintro ⟨rfl, lt, open_⟩
      rw [Int.toNat_natCast] at bad
      obtain neg | big | closed := bad
      · omega
      · omega
      · exact absurd closed open_
  · rw [not_or, not_or] at bad
    rw [Option.some.injEq]
    constructor
    · rintro rfl
      exact ⟨by omega, by omega, bad.2.2⟩
    · rintro ⟨rfl, -, -⟩
      rfl

/-! ## `vfs_read`. -/

/-- The count that `vfs_read` passes on: cut at the end of the file, unless the sum wraps. -/
def clampRead (n : Node F) (count : UInt32) : UInt32 :=
  if n.position + count > n.size then n.size - n.position else count

/-- `vfs_read` from the slot of a file that has more to read. -/
def readSlot (D : Driver F σ) (s : State F σ) (i : Nat) (count : UInt32) : Int × List UInt8 × State F σ :=
  let n := s.openFiles i
  match n.read with
  | some f =>
    let r := D.read f s.drv n n.position (clampRead n count)
    let n := if r.1 > 0 then { r.2.2.1 with position := r.2.2.1.position + UInt32.ofInt r.1 } else r.2.2.1
    (r.1, r.2.1, { s.setOpenFile i n with drv := r.2.2.2 })
  | none =>
    match n.data with
    | some p =>
      let bytes := ((s.buffers p).drop n.position.toNat).take (clampRead n count).toNat
      ((clampRead n count).toInt32.toInt, bytes, s.setOpenFile i { n with position := n.position + clampRead n count })
    | none => (-EIO_, [], s)

/-- A slot that `vfs_read` reads from. -/
structure Readable (n : Node F) : Prop where
  file : n.flags &&& FT_DIR = 0
  source : n.read ≠ none ∨ n.data ≠ none
  more : n.position < n.size

/-- `vfs_read` reads from a slot, or returns an error or 0 and changes nothing. -/
lemma vfsRead_cases (D : Driver F σ) (buf count : UInt32) (h : openFile s fd = some i) :
    (buf ≠ 0 ∧ Readable (s.openFiles i) ∧ vfsRead D s fd buf count = readSlot D s i count) ∨
      (¬ (buf ≠ 0 ∧ Readable (s.openFiles i)) ∧ ∃ ret, ret ≤ 0 ∧ vfsRead D s fd buf count = (ret, [], s)) := by
  unfold vfsRead
  rw [h]
  dsimp only
  by_cases null : buf = 0
  · rw [if_pos null]
    exact .inr ⟨fun ok => ok.1 null, _, by decide, rfl⟩
  by_cases dir : (s.openFiles i).flags &&& FT_DIR ≠ 0
  · rw [if_neg null, if_pos dir]
    exact .inr ⟨fun ok => dir ok.2.file, _, by decide, rfl⟩
  by_cases source : (s.openFiles i).read.isNone ∧ (s.openFiles i).data.isNone
  · rw [if_neg null, if_neg dir, if_pos source]
    rw [Option.isNone_iff_eq_none, Option.isNone_iff_eq_none] at source
    refine .inr ⟨fun ok => ?_, _, by decide, rfl⟩
    cases ok.2.source with
    | inl has => exact has source.1
    | inr has => exact has source.2
  by_cases atEnd : (s.openFiles i).position ≥ (s.openFiles i).size
  · rw [if_neg null, if_neg dir, if_neg source, if_pos atEnd]
    exact .inr ⟨fun ok => absurd ok.2.more (UInt32.not_lt.mpr atEnd), _, le_rfl, rfl⟩
  rw [if_neg null, if_neg dir, if_neg source, if_neg atEnd]
  rw [Option.isNone_iff_eq_none, Option.isNone_iff_eq_none] at source
  exact .inl ⟨null, ⟨not_not.mp dir, not_and_or.mp source, UInt32.not_le.mp atEnd⟩, rfl⟩

/-- `vfs_read` at the end of a file. -/
lemma vfsRead_end (h : openFile s fd = some i) (nonnull : buf ≠ 0) (file : (s.openFiles i).flags &&& FT_DIR = 0)
    (source : (s.openFiles i).read ≠ none) (end_ : (s.openFiles i).size ≤ (s.openFiles i).position) :
    vfsRead D s fd buf count = (0, [], s) := by
  have readable : ¬ ((s.openFiles i).read.isNone ∧ (s.openFiles i).data.isNone) := by
    rw [Option.isNone_iff_eq_none]
    exact fun h => source h.1
  unfold vfsRead
  rw [h]
  dsimp only
  rw [if_neg nonnull, if_neg (not_not.mpr file), if_neg readable, if_pos end_]

lemma vfsRead_closed (h : openFile s fd = none) : vfsRead D s fd buf count = (-EBADF, [], s) := by
  unfold vfsRead
  rw [h]

/-! ## `vfs_write`. -/

/-- The node, the pointer to its data and the state once the data is large enough. -/
def growTo (s : State F σ) (n : Node F) (data : Nat) (count : UInt32) : Option (Node F × Nat) × State F σ :=
  if n.position + count > n.size then growData s n data (n.position + count) else (some (n, data), s)

/-- `vfs_write` into the data buffer of a slot. -/
def storeData (s : State F σ) (i data : Nat) (bytes : List UInt8) : Int × State F σ :=
  match growTo s (s.openFiles i) data (UInt32.ofNat bytes.length) with
  | (none, s) => (-ENOMEM, s)
  | (some (n, p), s) =>
    let buffers := Function.update s.buffers p (overwrite (s.buffers p) n.position.toNat bytes)
    let n := { n with position := n.position + UInt32.ofNat bytes.length }
    ((UInt32.ofNat bytes.length).toInt32.toInt, { s.setOpenFile i n with buffers })

/-- The slot after a `write` callback that returned `ret`. -/
def afterWrite (n : Node F) (ret : Int) : Node F :=
  if ret > 0 then
    let position := n.position + UInt32.ofInt ret
    { n with position, size := if position > n.size then position else n.size }
  else n

/-- `vfs_write` to the slot of a file that may be written. -/
def writeSlot (D : Driver F σ) (s : State F σ) (i : Nat) (bytes : List UInt8) : Int × State F σ :=
  let n := s.openFiles i
  match n.write with
  | some f =>
    let r := D.write f s.drv n n.position bytes
    (r.1, { s.setOpenFile i (afterWrite r.2.1 r.1) with drv := r.2.2 })
  | none =>
    match n.data with
    | none => (-EROFS, s)
    | some data => storeData s i data bytes

/-- A slot that `vfs_write` writes to. -/
structure Writable (n : Node F) : Prop where
  file : n.flags &&& FT_DIR = 0
  target : n.write ≠ none ∨ n.flags &&& O_APPEND ≠ 0

/-- `vfs_write` writes to a slot, or returns an error and changes nothing. -/
lemma vfsWrite_cases (D : Driver F σ) (buf : UInt32) (bytes : List UInt8) (h : openFile s fd = some i) :
    (buf ≠ 0 ∧ Writable (s.openFiles i) ∧ vfsWrite D s fd buf bytes = writeSlot D s i bytes) ∨
      (¬ (buf ≠ 0 ∧ Writable (s.openFiles i)) ∧ ∃ ret, ret < 0 ∧ vfsWrite D s fd buf bytes = (ret, s)) := by
  unfold vfsWrite
  rw [h]
  dsimp only
  by_cases null : buf = 0
  · rw [if_pos null]
    exact .inr ⟨fun ok => ok.1 null, _, by decide, rfl⟩
  by_cases dir : (s.openFiles i).flags &&& FT_DIR ≠ 0
  · rw [if_neg null, if_pos dir]
    exact .inr ⟨fun ok => dir ok.2.file, _, by decide, rfl⟩
  by_cases target : (s.openFiles i).write.isNone ∧ (s.openFiles i).flags &&& O_APPEND = 0
  · rw [if_neg null, if_neg dir, if_pos target]
    rw [Option.isNone_iff_eq_none] at target
    refine .inr ⟨fun ok => ?_, _, by decide, rfl⟩
    cases ok.2.target with
    | inl has => exact has target.1
    | inr has => exact has target.2
  rw [if_neg null, if_neg dir, if_neg target]
  rw [Option.isNone_iff_eq_none] at target
  exact .inl ⟨null, ⟨not_not.mp dir, not_and_or.mp target⟩, rfl⟩

lemma vfsWrite_closed (h : openFile s fd = none) : vfsWrite D s fd buf bytes = (-EBADF, s) := by
  unfold vfsWrite
  rw [h]

/-- Moving data to a larger buffer changes neither the tree nor the descriptors. -/
lemma growTo_frame (s : State F σ) (n : Node F) (data : Nat) (count : UInt32) :
    (growTo s n data count).2.nodes = s.nodes ∧ (growTo s n data count).2.vfsRoot = s.vfsRoot ∧
      (growTo s n data count).2.openFiles = s.openFiles := by
  unfold growTo growData
  split_ifs
  · cases oom : s.oom s.calls with
    | true =>
      rw [kmalloc_none oom]
      exact ⟨rfl, rfl, rfl⟩
    | false =>
      rw [kmalloc_some oom]
      exact ⟨rfl, rfl, rfl⟩
  · exact ⟨rfl, rfl, rfl⟩

/-! ## `vfs_lseek`. -/

/-- `vfs_lseek` of a node without a callback for it. -/
lemma vfsLseek_plain {offset : Int32} {whence : Int} (h : openFile s fd = some i)
    (noCallback : (s.openFiles i).lseek = none) :
    vfsLseek D s fd offset whence =
      match seekTo (s.openFiles i) offset whence with
      | none => (-EINVAL, s)
      | some newPos =>
        if newPos.toInt32 < 0 then (-EINVAL, s)
        else (newPos.toInt32.toInt, s.setOpenFile i { s.openFiles i with position := newPos }) := by
  unfold vfsLseek
  rw [h]
  dsimp only
  generalize s.openFiles i = n at noCallback ⊢
  cases n
  cases noCallback
  rfl

/-! ## `vfs_open`. -/

/-- The error that the checks of `vfs_open` give for a node, if any. -/
def refusal (n : Node F) (flags : UInt32) : Option Int :=
  if n.flags &&& FT_DIR ≠ 0 ∧ flags &&& (O_WRONLY ||| O_RDWR) ≠ 0 then some (-EISDIR)
  else if accessAllowed n (flags &&& O_ACCMODE) = false then some (-EACCES)
  else if flags &&& O_EXCL ≠ 0 ∧ flags &&& O_CREAT ≠ 0 then some (-EEXIST)
  else none

/-- The position a file is opened at. -/
def openAt (n : Node F) (flags : UInt32) : Node F :=
  { n with position := if flags &&& O_APPEND ≠ 0 then n.size else 0 }

/-- The end of `vfs_open`, for the node to put in the slot. -/
def fillSlot (D : Driver F σ) (s : State F σ) (fd : Nat) (n : Node F) (flags : UInt32) : Int × State F σ :=
  match n.open_ with
  | none => (fd, s.setOpenFile fd n)
  | some f =>
    let r := D.open_ f s.drv n flags
    if r.1 ≠ 0 then (r.1, { s.setOpenFile fd .zero with drv := r.2.2 })
    else (fd, { s.setOpenFile fd r.2.1 with drv := r.2.2 })

lemma openNode_eq {flags : UInt32} : openNode D s i n flags =
    match refusal n flags with
    | some e => (e, s)
    | none =>
      match truncate D s n flags with
      | (.error ret, s) => (ret, s)
      | (.ok n, s) => fillSlot D s i (openAt n flags) flags := by
  unfold openNode refusal
  dsimp only
  by_cases dir : n.flags &&& FT_DIR ≠ 0 ∧ flags &&& (O_WRONLY ||| O_RDWR) ≠ 0
  · rw [if_pos dir, if_pos dir]
  by_cases access : accessAllowed n (flags &&& O_ACCMODE) = false
  · rw [if_neg dir, if_neg dir, if_pos access, if_pos access]
  by_cases excl : flags &&& O_EXCL ≠ 0 ∧ flags &&& O_CREAT ≠ 0
  · rw [if_neg dir, if_neg dir, if_neg access, if_neg access, if_pos excl, if_pos excl]
  rw [if_neg dir, if_neg dir, if_neg access, if_neg access, if_neg excl, if_neg excl]
  rfl

/-- Every refusal is one of three errors. -/
lemma refusal_mem {flags : UInt32} {e : Int} (h : refusal n flags = some e) :
    e = -EISDIR ∨ e = -EACCES ∨ e = -EEXIST := by
  unfold refusal at h
  split_ifs at h
  · cases h
    exact .inl rfl
  · cases h
    exact .inr (.inl rfl)
  · cases h
    exact .inr (.inr rfl)

/-- The first free slot. -/
lemma freeSlot_spec : (freeSlot s = none ∧ ∀ i < MAX_OPEN_FILES, (s.openFiles i).name ≠ []) ∨
    ∃ i, freeSlot s = some i ∧ i < MAX_OPEN_FILES ∧ (s.openFiles i).name = [] ∧
      ∀ j < i, (s.openFiles j).name ≠ [] := by
  unfold freeSlot
  cases h : (List.range MAX_OPEN_FILES).find? fun i => (s.openFiles i).name.isEmpty with
  | none =>
    rw [List.find?_range_eq_none] at h
    refine .inl ⟨rfl, fun i lt empty => ?_⟩
    have free := h i lt
    simp [empty] at free
  | some i =>
    rw [List.find?_range_eq_some] at h
    obtain ⟨free, mem, before⟩ := h
    refine .inr ⟨i, rfl, List.mem_range.mp mem, by simpa using free, fun j lt empty => ?_⟩
    have free := before j lt
    simp [empty] at free

/-- The node that `vfs_open` opens, found or created. -/
def openTarget (D : Driver F σ) (s : State F σ) (path : List UInt8) (flags : UInt32) :
    Option (Except Int (Node F) × State F σ) :=
  match vfsLookup D s path with
  | none => none
  | some (ret, n, s) =>
    if ret = 0 then some (.ok n, s)
    else if flags &&& O_CREAT = 0 then some (.error (-ENOENT), s)
    else openCreate D s path

lemma vfsOpen_eq {path : List UInt8} {flags : UInt32} : vfsOpen D s path flags =
    match freeSlot s with
    | none => some (-EMFILE, s)
    | some fd =>
      match openTarget D s path flags with
      | none => none
      | some (.error ret, s) => some (ret, s)
      | some (.ok n, s) => some (openNode D s fd n flags) := by
  unfold vfsOpen openTarget
  cases freeSlot s with
  | none => rfl
  | some fd =>
    dsimp only
    cases vfsLookup D s path with
    | none => rfl
    | some r =>
      obtain ⟨ret, n, t⟩ := r
      dsimp only
      split_ifs
      · rfl
      · rfl
      · rfl

/-! ## What the calls leave alone. -/

section Views
variable {α : Type} {π : Node F → α} {s' : State F σ} {flags : UInt32}

/-- A view of nodes that shows neither position nor size, nor the data of a file that may be moved. -/
structure Ignores (π : Node F → α) : Prop where
  position : ∀ n position, π { n with position } = π n
  size : ∀ n size, π { n with size } = π n
  data : ∀ n data, n.write = none → n.flags &&& O_APPEND ≠ 0 → π { n with data } = π n

/-- A call on the descriptor `fd`: it changes no other slot, and in its own nothing that the view shows. -/
structure Within (π : Node F → α) (s s' : State F σ) (fd : Int) : Prop where
  nodes : s'.nodes = s.nodes
  root : s'.vfsRoot = s.vfsRoot
  others : ∀ i : Nat, (i : Int) ≠ fd → s'.openFiles i = s.openFiles i
  same : ∀ i, π (s'.openFiles i) = π (s.openFiles i)
  closed : openFile s fd = none → s'.openFiles = s.openFiles

lemma Within.refl : Within π s s fd := ⟨rfl, rfl, fun _ _ => rfl, fun _ => rfl, fun _ => rfl⟩

/-- The slot is overwritten with a node of the same view. -/
lemma Within.set (h : openFile s fd = some i) (same : π n = π (s.openFiles i)) (nodes : s'.nodes = s.nodes)
    (root : s'.vfsRoot = s.vfsRoot) (slots : s'.openFiles = Function.update s.openFiles i n) : Within π s s' fd := by
  obtain ⟨rfl, -, -⟩ := openFile_eq_some.mp h
  refine ⟨nodes, root, fun j ne => ?_, fun j => ?_, fun none => ?_⟩
  · rw [slots, Function.update_of_ne (by omega)]
  · rw [slots]
    by_cases e : j = i
    · rw [e, Function.update_self, same]
    · rw [Function.update_of_ne e]
  · cases h.symm.trans none

/-- A read from a data buffer moves the position. -/
lemma readSlot_data {p : Nat} (noCallback : (s.openFiles i).read = none) (data : (s.openFiles i).data = some p) :
    (readSlot D s i count).2.2 = s.setOpenFile i { s.openFiles i with
      position := (s.openFiles i).position + clampRead (s.openFiles i) count } := by
  unfold readSlot
  dsimp only
  rw [noCallback, data]

lemma readSlot_within (ig : Ignores π) (keeps : ∀ f d n off count, π (D.read f d n off count).2.2.1 = π n)
    (h : openFile s fd = some i) : Within π s (readSlot D s i count).2.2 fd := by
  cases hr : (s.openFiles i).read with
  | some f =>
    unfold readSlot
    dsimp only
    rw [hr]
    refine .set h ?_ rfl rfl rfl
    split_ifs
    · exact (ig.position ..).trans (keeps ..)
    · exact keeps ..
  | none =>
    cases hd : (s.openFiles i).data with
    | some p =>
      rw [readSlot_data hr hd]
      exact .set h (ig.position ..) rfl rfl rfl
    | none =>
      unfold readSlot
      dsimp only
      rw [hr, hd]
      exact .refl

lemma vfsRead_within (ig : Ignores π) (keeps : ∀ f d n off count, π (D.read f d n off count).2.2.1 = π n) :
    Within π s (vfsRead D s fd buf count).2.2 fd := by
  cases h : openFile s fd with
  | none =>
    rw [vfsRead_closed h]
    exact .refl
  | some i =>
    obtain ⟨-, -, run⟩ | ⟨-, ret, -, run⟩ := vfsRead_cases D buf count h
    · rw [run]
      exact readSlot_within ig keeps h
    · rw [run]
      exact .refl

/-- Moving data to a larger buffer changes nothing that the view shows. -/
lemma growTo_view (ig : Ignores π) {data : Nat} (inMemory : n.write = none) (append : n.flags &&& O_APPEND ≠ 0)
    {r : Node F × Nat} (grown : (growTo s n data count).1 = some r) : π r.1 = π n := by
  unfold growTo growData at grown
  split_ifs at grown
  · cases oom : s.oom s.calls with
    | true =>
      rw [kmalloc_none oom] at grown
      cases grown
    | false =>
      rw [kmalloc_some oom] at grown
      cases grown
      exact (ig.size { n with data := some s.calls } _).trans (ig.data n _ inMemory append)
  · cases grown
    rfl

lemma storeData_within (ig : Ignores π) {data : Nat} (h : openFile s fd = some i)
    (inMemory : (s.openFiles i).write = none) (append : (s.openFiles i).flags &&& O_APPEND ≠ 0) :
    Within π s (storeData s i data bytes).2 fd := by
  obtain ⟨nodes, root, slots⟩ :=
    growTo_frame s (s.openFiles i) data (UInt32.ofNat bytes.length)
  unfold storeData
  generalize e : growTo s (s.openFiles i) data (UInt32.ofNat bytes.length) = r at nodes root slots ⊢
  obtain ⟨r, t⟩ := r
  cases r with
  | none =>
    exact ⟨nodes, root, fun j _ => congrFun slots j, fun j => congrArg π (congrFun slots j), fun _ => slots⟩
  | some r =>
    have view : π r.1 = π (s.openFiles i) := growTo_view ig inMemory append (congrArg Prod.fst e)
    exact .set h ((ig.position ..).trans view) nodes root (congrArg (Function.update · i _) slots)

lemma afterWrite_view (ig : Ignores π) {ret : Int} : π (afterWrite n ret) = π n := by
  unfold afterWrite
  split_ifs
  · exact (ig.size { n with position := n.position + UInt32.ofInt ret } _).trans (ig.position ..)
  · rfl

lemma writeSlot_within (ig : Ignores π) (keeps : ∀ f d n off bytes, π (D.write f d n off bytes).2.1 = π n)
    (h : openFile s fd = some i) (writable : Writable (s.openFiles i)) : Within π s (writeSlot D s i bytes).2 fd := by
  unfold writeSlot
  dsimp only
  cases hw : (s.openFiles i).write with
  | some f => exact .set h ((afterWrite_view ig).trans (keeps ..)) rfl rfl rfl
  | none =>
    cases (s.openFiles i).data with
    | none => exact .refl
    | some data => exact storeData_within ig h hw (writable.target.resolve_left fun has => has hw)

lemma vfsWrite_within (ig : Ignores π) (keeps : ∀ f d n off bytes, π (D.write f d n off bytes).2.1 = π n) :
    Within π s (vfsWrite D s fd buf bytes).2 fd := by
  cases h : openFile s fd with
  | none =>
    rw [vfsWrite_closed h]
    exact .refl
  | some i =>
    obtain ⟨-, writable, run⟩ | ⟨-, ret, -, run⟩ := vfsWrite_cases D buf bytes h
    · rw [run]
      exact writeSlot_within ig keeps h writable
    · rw [run]
      exact .refl

/-- The truncation of `vfs_open` changes nothing that the view shows, and fails as the callback does. -/
lemma truncate_view (ig : Ignores π) (keeps : ∀ f d n off bytes, π (D.write f d n off bytes).2.1 = π n)
    {r : Except Int (Node F)} (run : truncate D s n flags = (r, s')) :
    s'.nodes = s.nodes ∧ s'.vfsRoot = s.vfsRoot ∧ s'.openFiles = s.openFiles ∧ (∀ m, r = .ok m → π m = π n) ∧
      ∀ e, r = .error e → e < 0 ∧ ∃ f, e = (D.write f s.drv n 0 []).1 := by
  have unchanged (m : Node F) (same : π m = π n) (run : (Except.ok (ε := Int) m, s) = (r, s')) :
      s'.nodes = s.nodes ∧ s'.vfsRoot = s.vfsRoot ∧ s'.openFiles = s.openFiles ∧ (∀ m, r = .ok m → π m = π n) ∧
        ∀ e, r = .error e → e < 0 ∧ ∃ f, e = (D.write f s.drv n 0 []).1 := by
    cases run
    refine ⟨rfl, rfl, rfl, fun m' h => ?_, fun e h => nomatch h⟩
    cases h
    exact same
  unfold truncate at run
  split_ifs at run
  · exact unchanged { n with size := 0 } (ig.size n 0) run
  · cases hf : n.write with
    | none =>
      rw [hf] at run
      exact unchanged _ rfl run
    | some f =>
      rw [hf] at run
      cases run
      refine ⟨rfl, rfl, rfl, fun m h => ?_, fun e h => ?_⟩
      · split_ifs at h
        cases h
        exact keeps ..
      · split_ifs at h with neg
        cases h
        exact ⟨neg, f, rfl⟩
  · exact unchanged _ rfl run

end Views

end RetaOS.Vfs
