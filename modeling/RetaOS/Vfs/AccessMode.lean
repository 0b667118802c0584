import RetaOS.Vfs.OpenFile
import RetaOS.Vfs.Frame

/-!
# The access mode of a descriptor

`vfs_open` checks the access mode against the mode bits of the node; nothing of it is kept for the calls that
follow. `counted` is a driver that counts the calls of `write` callbacks, so that `Enforced` can say what a call on
the descriptor may do. `access_mode_enforced_iff` is about whole sessions on a descriptor: the mode is enforced
throughout exactly when every step meets `Meets`, that is when the mode at open covers the step or the step comes to
nothing.
-/

namespace RetaOS.Vfs
open Lib

/-- A driver that counts the calls of its `write` callbacks. -/
def counted {F σ : Type} (D : Driver F σ) : Driver F (σ × Nat) where
  read f d n off count := ((D.read f d.1 n off count).1, (D.read f d.1 n off count).2.1,
    (D.read f d.1 n off count).2.2.1, (D.read f d.1 n off count).2.2.2, d.2)
  write f d n off bytes := ((D.write f d.1 n off bytes).1, (D.write f d.1 n off bytes).2.1,
    (D.write f d.1 n off bytes).2.2, d.2 + 1)
  open_ f d n flags := ((D.open_ f d.1 n flags).1, (D.open_ f d.1 n flags).2.1, (D.open_ f d.1 n flags).2.2, d.2)
  close f d n := ((D.close f d.1 n).1, (D.close f d.1 n).2.1, (D.close f d.1 n).2.2, d.2)
  readdir f d n i := ((D.readdir f d.1 n i).1, (D.readdir f d.1 n i).2.1, (D.readdir f d.1 n i).2.2, d.2)
  finddir f d n c := ((D.finddir f d.1 n c).1, (D.finddir f d.1 n c).2.1, (D.finddir f d.1 n c).2.2, d.2)
  lseek f d n off whence := ((D.lseek f d.1 n off whence).1, (D.lseek f d.1 n off whence).2.1,
    (D.lseek f d.1 n off whence).2.2, d.2)

/-- The calls of a session on one descriptor. -/
inductive Op where
  | read (buf count : UInt32)
  | write (buf : UInt32) (bytes : List UInt8)
  | lseek (offset : Int32) (whence : Int)

variable {F σ : Type} {D : Driver F σ} {n : Node F} {path : List UInt8} {flags : UInt32} {fd : Int} {i : Nat}

/-- The file bytes a call delivers, and the state it leaves. -/
def Op.run (D : Driver F σ) (fd : Int) (s : State F σ) : Op → List UInt8 × State F σ
  | .read buf count => (vfsRead D s fd buf count).2
  | .write buf bytes => ([], (vfsWrite D s fd buf bytes).2)
  | .lseek offset whence => ([], (vfsLseek D s fd offset whence).2)

/-- The steps of a session: the state before each call, and the call. -/
def steps (D : Driver F σ) (fd : Int) (s : State F σ) : List Op → List (State F σ × Op)
  | [] => []
  | op :: ops => (s, op) :: steps D fd (op.run D fd s).2 ops

/-- The access mode allows writing, and the node has a write bit. -/
def MayWrite (n : Node F) (flags : UInt32) : Prop :=
  (flags &&& O_ACCMODE = O_WRONLY ∨ flags &&& O_ACCMODE = O_RDWR) ∧ n.flags &&& 0o222 ≠ 0

/-- The access mode allows reading, and the node has a read bit. -/
def MayRead (n : Node F) (flags : UInt32) : Prop :=
  (flags &&& O_ACCMODE = O_RDONLY ∨ flags &&& O_ACCMODE = O_RDWR) ∧ n.flags &&& 0o444 ≠ 0

/-- A call wrote: it called a `write` callback, changed a buffer, or, as a write, gave the file another size. -/
def Wrote (D : Driver F σ) (fd : Int) (s : State F (σ × Nat)) (op : Op) : Prop :=
  let s' := (op.run (counted D) fd s).2
  s'.drv.2 ≠ s.drv.2 ∨ s'.buffers ≠ s.buffers ∨
    (∃ buf bytes, op = .write buf bytes) ∧ ∃ i, openFile s fd = some i ∧ (s'.openFiles i).size ≠ (s.openFiles i).size

/-- A step writes only if the file may be written, and delivers bytes only if it may be read. -/
def Enforced (D : Driver F σ) (n : Node F) (flags : UInt32) (fd : Int) (x : State F (σ × Nat) × Op) : Prop :=
  (Wrote D fd x.1 x.2 → MayWrite n flags) ∧ ((x.2.run (counted D) fd x.1).1 ≠ [] → MayRead n flags)

/-- A read of the slot delivers nothing: the callback has nothing for it, or the buffer no bytes at the position. -/
def NothingRead (D : Driver F σ) (s : State F (σ × Nat)) (n : Node F) (count : UInt32) : Prop :=
  match n.read with
  | some f => (D.read f s.drv.1 n n.position (clampRead n count)).2.1 = []
  | none => ∀ p, n.data = some p → ((s.buffers p).drop n.position.toNat).take (clampRead n count).toNat = []

/-- A write to the slot changes nothing: there is no callback, and there is no data, or no room for a larger buffer,
    or the bytes are there already. -/
def NothingWritten (s : State F σ) (n : Node F) (bytes : List UInt8) : Prop :=
  n.write = none ∧ ∀ p, n.data = some p →
    if n.position + UInt32.ofNat bytes.length > n.size then s.oom s.calls = true
    else overwrite (s.buffers p) n.position.toNat bytes = s.buffers p

/-- The access mode covers a step, or the call is refused, or it comes to nothing. -/
def Meets (D : Driver F σ) (n : Node F) (flags : UInt32) (fd : Int) : State F (σ × Nat) × Op → Prop
  | (s, .read buf count) => flags &&& O_ACCMODE = O_RDONLY ∨
    flags &&& O_ACCMODE = O_RDWR ∧ n.flags &&& 0o444 ≠ 0 ∨
    ∀ i, openFile s fd = some i → buf ≠ 0 → Readable (s.openFiles i) → NothingRead D s (s.openFiles i) count
  | (s, .write buf bytes) => flags &&& O_ACCMODE = O_WRONLY ∨
    flags &&& O_ACCMODE = O_RDWR ∧ n.flags &&& 0o222 ≠ 0 ∨
    ∀ i, openFile s fd = some i → buf ≠ 0 → Writable (s.openFiles i) → NothingWritten s (s.openFiles i) bytes
  | (_, .lseek _ _) => True

variable {s s' : State F (σ × Nat)} {buf count : UInt32} {bytes : List UInt8} {offset : Int32} {whence : Int}

/-! ## What the calls do. -/

/-- A read writes nothing. -/
lemma vfsRead_not_wrote : ¬ Wrote D fd s (.read buf count) := by
  have quiet : (vfsRead (counted D) s fd buf count).2.2.drv.2 = s.drv.2 ∧
      (vfsRead (counted D) s fd buf count).2.2.buffers = s.buffers := by
    cases h : openFile s fd with
    | none =>
      rw [vfsRead_closed h]
      exact ⟨rfl, rfl⟩
    | some i =>
      obtain ⟨-, -, run⟩ | ⟨-, ret, -, run⟩ := vfsRead_cases (counted D) buf count h
      · rw [run]
        unfold readSlot
        dsimp only
        cases (s.openFiles i).read with
        | some f => exact ⟨rfl, rfl⟩
        | none =>
          cases (s.openFiles i).data with
          | some p => exact ⟨rfl, rfl⟩
          | none => exact ⟨rfl, rfl⟩
      · rw [run]
        exact ⟨rfl, rfl⟩
  rintro (called | changed | ⟨⟨_, _, h⟩, -⟩)
  · exact called quiet.1
  · exact changed quiet.2
  · cases h

/-- A seek writes nothing. -/
lemma vfsLseek_not_wrote : ¬ Wrote D fd s (.lseek offset whence) := by
  have quiet : (vfsLseek (counted D) s fd offset whence).2.drv.2 = s.drv.2 ∧
      (vfsLseek (counted D) s fd offset whence).2.buffers = s.buffers := by
    unfold vfsLseek
    cases openFile s fd with
    | none => exact ⟨rfl, rfl⟩
    | some i =>
      dsimp only
      cases seekTo (s.openFiles i) offset whence with
      | none => exact ⟨rfl, rfl⟩
      | some newPos =>
        dsimp only
        split_ifs
        · exact ⟨rfl, rfl⟩
        · cases (s.openFiles i).lseek with
          | some f => exact ⟨rfl, rfl⟩
          | none => exact ⟨rfl, rfl⟩
  rintro (called | changed | ⟨⟨_, _, h⟩, -⟩)
  · exact called quiet.1
  · exact changed quiet.2
  · cases h

/-- When a read delivers nothing. -/
lemma vfsRead_empty_iff : (vfsRead (counted D) s fd buf count).2.1 = [] ↔
    ∀ i, openFile s fd = some i → buf ≠ 0 → Readable (s.openFiles i) → NothingRead D s (s.openFiles i) count := by
  cases e : openFile s fd with
  | none =>
    rw [vfsRead_closed e]
    exact ⟨fun _ i h => (nomatch h), fun _ => rfl⟩
  | some i =>
    obtain ⟨nonnull, readable, run⟩ | ⟨refused, ret, -, run⟩ :=
      vfsRead_cases (counted D) buf count e
    · have slot : (readSlot (counted D) s i count).2.1 = [] ↔ NothingRead D s (s.openFiles i) count := by
        unfold readSlot NothingRead
        dsimp only
        cases (s.openFiles i).read with
        | some f => exact Iff.rfl
        | none =>
          cases (s.openFiles i).data with
          | some p =>
            refine ⟨fun h q hq => ?_, fun h => h p rfl⟩
            cases hq
            exact h
          | none => exact ⟨fun _ q hq => (nomatch hq), fun _ => rfl⟩
      rw [run, slot]
      refine ⟨fun h j hj _ _ => ?_, fun h => h i rfl nonnull readable⟩
      cases hj
      exact h
    · rw [run]
      refine ⟨fun _ j hj nonnull readable => ?_, fun _ => rfl⟩
      cases hj
      exact absurd ⟨nonnull, readable⟩ refused

/-- What a write to a slot does to the count of callbacks, the buffers and the size. -/
lemma writeSlot_nothing_iff : (writeSlot (counted D) s i bytes).2.drv.2 = s.drv.2 ∧
    (writeSlot (counted D) s i bytes).2.buffers = s.buffers ∧
      ((writeSlot (counted D) s i bytes).2.openFiles i).size = (s.openFiles i).size ↔
    NothingWritten s (s.openFiles i) bytes := by
  unfold writeSlot NothingWritten
  dsimp only
  cases (s.openFiles i).write with
  | some f =>
    have counts (k : Nat) : k + 1 ≠ k := Nat.succ_ne_self k
    exact ⟨fun h => absurd h.1 (counts _), fun h => nomatch h.1⟩
  | none =>
    cases hp : (s.openFiles i).data with
    | none => exact ⟨fun _ => ⟨rfl, fun p h => (nomatch h)⟩, fun _ => ⟨rfl, rfl, rfl⟩⟩
    | some p =>
      dsimp only
      unfold storeData growTo
      by_cases grow : (s.openFiles i).position + UInt32.ofNat bytes.length > (s.openFiles i).size
      · rw [if_pos grow]
        unfold growData
        cases oom : s.oom s.calls with
        | true =>
          rw [kmalloc_none oom]
          refine ⟨fun _ => ⟨rfl, fun q _ => ?_⟩, fun _ => ⟨rfl, rfl, rfl⟩⟩
          rw [if_pos grow]
        | false =>
          -- a larger buffer gives the file a larger size
          rw [kmalloc_some oom]
          refine ⟨fun h => ?_, fun h => ?_⟩
          · have size := h.2.2
            dsimp only [State.setOpenFile] at size
            rw [Function.update_self] at size
            exact absurd size (UInt32.ne_of_lt grow).symm
          · have full := h.2 p rfl
            rw [if_pos grow] at full
            cases full
      · rw [if_neg grow]
        have buffers : Function.update s.buffers p (overwrite (s.buffers p) (s.openFiles i).position.toNat bytes) =
            s.buffers ↔ overwrite (s.buffers p) (s.openFiles i).position.toNat bytes = s.buffers p :=
          Function.update_eq_self_iff
        constructor
        · intro h
          refine ⟨rfl, fun q hq => ?_⟩
          cases hq
          rw [if_neg grow]
          exact buffers.mp h.2.1
        · intro h
          have same := h.2 p rfl
          rw [if_neg grow] at same
          refine ⟨rfl, buffers.mpr same, ?_⟩
          dsimp only [State.setOpenFile]
          rw [Function.update_self]

/-- When a write changes nothing. -/
lemma vfsWrite_not_wrote_iff : ¬ Wrote D fd s (.write buf bytes) ↔
    ∀ i, openFile s fd = some i → buf ≠ 0 → Writable (s.openFiles i) → NothingWritten s (s.openFiles i) bytes := by
  unfold Wrote Op.run
  dsimp only
  cases e : openFile s fd with
  | none =>
    rw [vfsWrite_closed e]
    refine ⟨fun _ i h => (nomatch h), ?_⟩
    rintro - (called | changed | ⟨-, i, h, -⟩)
    · exact called rfl
    · exact changed rfl
    · cases h
  | some i =>
    obtain ⟨nonnull, writable, run⟩ | ⟨refused, ret, -, run⟩ :=
      vfsWrite_cases (counted D) buf bytes e
    · rw [run]
      constructor
      · intro quiet j hj _ _
        cases hj
        rw [← writeSlot_nothing_iff (D := D)]
        refine ⟨?_, ?_, ?_⟩
        · by_contra h
          exact quiet (.inl h)
        · by_contra h
          exact quiet (.inr (.inl h))
        · by_contra h
          exact quiet (.inr (.inr ⟨⟨buf, bytes, rfl⟩, i, rfl, h⟩))
      · intro nothing
        obtain ⟨count, buffers, size⟩ :=
          (writeSlot_nothing_iff (D := D)).mpr (nothing i rfl nonnull writable)
        rintro (called | changed | ⟨-, j, hj, resized⟩)
        · exact called count
        · exact changed buffers
        · cases hj
          exact resized size
    · rw [run]
      refine ⟨fun _ j hj nonnull writable => ?_, fun _ => ?_⟩
      · cases hj
        exact absurd ⟨nonnull, writable⟩ refused
      · rintro (called | changed | ⟨-, j, hj, resized⟩)
        · exact called rfl
        · exact changed rfl
        · exact resized rfl

/-! ## Sessions. -/

/-- A node that was opened passed the permission check. -/
lemma vfsOpen_allowed {s s0 s1 : State F σ} (target : openTarget D s path flags = some (.ok n, s0))
    (opened : vfsOpen D s path flags = some (fd, s1)) (ok : 0 ≤ fd) :
    accessAllowed n (flags &&& O_ACCMODE) = true := by
  rw [vfsOpen_eq, target] at opened
  cases free : freeSlot s with
  | none =>
    rw [free] at opened
    cases opened
    exact absurd ok (by decide)
  | some i =>
    rw [free] at opened
    dsimp only at opened
    rw [Option.some.injEq, openNode_eq] at opened
    by_contra denied
    rw [Bool.not_eq_true] at denied
    cases refused : refusal n flags with
    | some e =>
      rw [refused] at opened
      cases opened
      obtain rfl | rfl | rfl := refusal_mem refused
      · exact absurd ok (by decide)
      · exact absurd ok (by decide)
      · exact absurd ok (by decide)
    | none =>
      unfold refusal at refused
      split_ifs at refused

/-- The access mode lets through what the node allows. -/
lemma mayWrite_of_wronly (mode : flags &&& O_ACCMODE = O_WRONLY)
    (allowed : accessAllowed n (flags &&& O_ACCMODE) = true) : MayWrite n flags := by
  refine ⟨.inl mode, ?_⟩
  rw [mode] at allowed
  simpa [accessAllowed, O_WRONLY, O_RDONLY] using allowed

lemma mayRead_of_rdonly (mode : flags &&& O_ACCMODE = O_RDONLY)
    (allowed : accessAllowed n (flags &&& O_ACCMODE) = true) : MayRead n flags := by
  refine ⟨.inl mode, ?_⟩
  rw [mode] at allowed
  simpa [accessAllowed, O_RDONLY] using allowed

/-- The access mode and the node allow writing, when the check of `vfs_open` was passed. -/
lemma mayWrite_iff (allowed : accessAllowed n (flags &&& O_ACCMODE) = true) : MayWrite n flags ↔
    flags &&& O_ACCMODE = O_WRONLY ∨ flags &&& O_ACCMODE = O_RDWR ∧ n.flags &&& 0o222 ≠ 0 := by
  constructor
  · rintro ⟨wronly | rdwr, bit⟩
    · exact .inl wronly
    · exact .inr ⟨rdwr, bit⟩
  · rintro (wronly | ⟨rdwr, bit⟩)
    · exact mayWrite_of_wronly wronly allowed
    · exact ⟨.inr rdwr, bit⟩

/-- The access mode and the node allow reading, when the check of `vfs_open` was passed. -/
lemma mayRead_iff (allowed : accessAllowed n (flags &&& O_ACCMODE) = true) : MayRead n flags ↔
    flags &&& O_ACCMODE = O_RDONLY ∨ flags &&& O_ACCMODE = O_RDWR ∧ n.flags &&& 0o444 ≠ 0 := by
  constructor
  · rintro ⟨rdonly | rdwr, bit⟩
    · exact .inl rdonly
    · exact .inr ⟨rdwr, bit⟩
  · rintro (rdonly | ⟨rdwr, bit⟩)
    · exact mayRead_of_rdonly rdonly allowed
    · exact ⟨.inr rdwr, bit⟩

/-- The steps that enforce the access mode are those that meet the condition. -/
lemma enforced_iff {op : Op} (allowed : accessAllowed n (flags &&& O_ACCMODE) = true) :
    Enforced D n flags fd (s, op) ↔ Meets D n flags fd (s, op) := by
  unfold Enforced Meets
  cases op with
  | read buf count =>
    dsimp only
    rw [← or_assoc, ← mayRead_iff allowed, ← vfsRead_empty_iff]
    constructor
    · intro h
      by_cases delivered : (vfsRead (counted D) s fd buf count).2.1 = []
      · exact .inr delivered
      · exact .inl (h.2 delivered)
    · intro h
      refine ⟨fun wrote => absurd wrote vfsRead_not_wrote, fun delivered => ?_⟩
      exact h.resolve_right delivered
  | write buf bytes =>
    dsimp only
    rw [← or_assoc, ← mayWrite_iff allowed, ← vfsWrite_not_wrote_iff (D := D)]
    constructor
    · intro h
      by_cases wrote : Wrote D fd s (.write buf bytes)
      · exact .inl (h.1 wrote)
      · exact .inr wrote
    · intro h
      exact ⟨fun wrote => h.resolve_right (not_not.mpr wrote), fun delivered => absurd rfl delivered⟩
  | lseek offset whence =>
    exact ⟨fun _ => trivial, fun _ => ⟨fun wrote => absurd wrote vfsLseek_not_wrote, fun h => absurd rfl h⟩⟩

/-- The sessions that enforce the access mode throughout are those whose steps all meet the condition. -/
theorem access_mode_enforced_iff {s0 s1 : State F (σ × Nat)}
    (target : openTarget (counted D) s path flags = some (.ok n, s0))
    (opened : vfsOpen (counted D) s path flags = some (fd, s1)) (ok : 0 ≤ fd) (ops : List Op) :
    (∀ x ∈ steps (counted D) fd s1 ops, Enforced D n flags fd x) ↔
      ∀ x ∈ steps (counted D) fd s1 ops, Meets D n flags fd x :=
  forall₂_congr fun _ _ => enforced_iff (vfsOpen_allowed target opened ok)

/-! ## A file that is found by its file system. -/

/-- The file `a`, with callbacks to read and to write. -/
def notes : Node Unit :=
  { Node.zero with name := [0x61], flags := S_IFREG ||| 0o644, size := 1, read := some (), write := some () }

/-- A file system whose directory has one file, which takes what is written to it. -/
def notesDriver : Driver Unit Unit where
  read _ d n _ _ := (1, [0x41], n, d)
  write _ d n _ bytes := (bytes.length, n, d)
  open_ _ d n _ := (0, n, d)
  close _ d n := (0, n, d)
  readdir _ d n _ := (⟨[], 0, false⟩, n, d)
  finddir _ d _ _ := (0, notes, d)
  lseek _ d n _ _ := (0, n, d)

/-- Its root is the root of the tree. -/
def notesRoot : State Unit (Unit × Nat) where
  nodes _ := none
  buffers _ := []
  oom _ := false
  calls := 0
  vfsRoot := { Node.zero with name := [0x2F], flags := S_IFDIR ||| 0o755, finddir := some () }
  openFiles _ := .zero
  drv := ((), 0)

lemma notes_found : openTarget (counted notesDriver) notesRoot [0x2F, 0x61] flags = some (.ok notes, notesRoot) := by
  have start : lookupStart notesRoot [0x2F, 0x61] notesRoot.drv =
      ⟨notesRoot.vfsRoot, some [0x61], [], notesRoot.drv⟩ := rfl
  have first : lookupBody (counted notesDriver) notesRoot ⟨notesRoot.vfsRoot, some [0x61], [], notesRoot.drv⟩ =
      .next ⟨notes, none, [], notesRoot.drv⟩ := rfl
  have last : lookupBody (counted notesDriver) notesRoot ⟨notes, none, [], notesRoot.drv⟩ =
      .done (0, notes, notesRoot.drv) := rfl
  have look : vfsLookup (counted notesDriver) notesRoot [0x2F, 0x61] = some (0, notes, notesRoot) := by
    rw [vfsLookup, start, loop_next first, loop_done last]
  rw [openTarget, look]
  rfl

lemma notes_opened (refused : refusal notes flags = none) (keep : flags &&& O_TRUNC = 0)
    (append : flags &&& O_APPEND = 0) : vfsOpen (counted notesDriver) notesRoot [0x2F, 0x61] flags =
      some (0, notesRoot.setOpenFile 0 notes) := by
  have free : freeSlot notesRoot = some 0 := rfl
  have opened : openAt notes flags = notes := by
    unfold openAt
    rw [if_neg (not_not.mpr append)]
    rfl
  rw [vfsOpen_eq, free, notes_found]
  dsimp only
  rw [openNode_eq, refused]
  dsimp only
  rw [truncate, if_neg fun h => h.1 keep]
  dsimp only
  rw [opened]
  rfl

/-- A file opened with `O_WRONLY` and written to, then read. -/
theorem wronly_session : ∃ s1, vfsOpen (counted notesDriver) notesRoot [0x2F, 0x61] O_WRONLY = some (0, s1) ∧
    ((∀ x ∈ steps (counted notesDriver) 0 s1 [.write 1 [0x42], .read 1 1], Enforced notesDriver notes O_WRONLY 0 x) ↔
      ∀ x ∈ steps (counted notesDriver) 0 s1 [.write 1 [0x42], .read 1 1], Meets notesDriver notes O_WRONLY 0 x) := by
  have opened : vfsOpen (counted notesDriver) notesRoot [0x2F, 0x61] O_WRONLY = some (0, _) :=
    notes_opened (by decide) (by decide) (by decide)
  exact ⟨_, opened, access_mode_enforced_iff notes_found opened le_rfl _⟩

/-- A file opened with `O_RDONLY` is written to. -/
theorem rdonly_written : ∃ s1, vfsOpen (counted notesDriver) notesRoot [0x2F, 0x61] O_RDONLY = some (0, s1) ∧
    ∃ x ∈ steps (counted notesDriver) 0 s1 [.write 1 [0x42]], ¬ Enforced notesDriver notes O_RDONLY 0 x := by
  refine ⟨_, notes_opened (by decide) (by decide) (by decide), _, List.mem_cons_self, fun enforced => ?_⟩
  have wrote : Wrote notesDriver 0 (notesRoot.setOpenFile 0 notes) (.write 1 [0x42]) := .inl (by decide)
  obtain ⟨wronly | rdwr, -⟩ := enforced.1 wrote
  · exact absurd wronly (by decide)
  · exact absurd rdwr (by decide)

end RetaOS.Vfs
