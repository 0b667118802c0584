import RetaOS.Initrd.Read
import RetaOS.Initrd.RoundTrip
import RetaOS.Vfs.Create
import RetaOS.Vfs.Descriptors

/-!
# Positions of descriptors

What the calls on one descriptor of a mounted tree do. `Handle` is what a descriptor stands for, a directory or the
bytes of a file with a position, and `history` what it has become after the events of a run, which by `history_own`
depends on its own events only. `Stands` says that a slot holds a handle; `Stands.read` and `Stands.lseek` carry it
through reads and seeks, for every count and every offset.
-/

namespace RetaOS.Initrd
open Lib Vfs

/-! ## Handles. -/

/-- What a descriptor gives access to. -/
inductive Kind where
  | dir
  | file (content : List UInt8)

/-- What a descriptor stands for. -/
structure Handle where
  kind : Kind
  pos : Nat

/-- The size that `SEEK_END` counts from. -/
def Kind.size : Kind → Nat
  | .dir => 0
  | .file content => content.length

namespace Handle

/-- The bytes that a read of `count` bytes delivers. -/
def bytes (h : Handle) (count : UInt32) : List UInt8 :=
  match h.kind with
  | .dir => []
  | .file content => (content.drop h.pos).take count.toNat

/-- The handle after a read; a read into a null buffer does nothing. -/
def read (h : Handle) (buf count : UInt32) : Handle :=
  if buf = 0 then h else { h with pos := h.pos + (h.bytes count).length }

/-- The position that a seek counts from. -/
def base (h : Handle) (whence : Int) : Option Nat :=
  if whence = SEEK_SET then some 0
  else if whence = SEEK_CUR then some h.pos
  else if whence = SEEK_END then some h.kind.size
  else none

/-- The position that a seek goes to, if it lies in `[0, 2 ^ 31)`. -/
def target (h : Handle) (offset : Int32) (whence : Int) : Option Nat :=
  match h.base whence with
  | none => none
  | some b => if 0 ≤ b + offset.toInt ∧ b + offset.toInt < 2 ^ 31 then some (b + offset.toInt).toNat else none

/-- The handle after a seek. -/
def seek (h : Handle) (offset : Int32) (whence : Int) : Handle :=
  match h.target offset whence with
  | none => h
  | some pos => { h with pos }

/-- The value a seek returns. -/
def seekRet (h : Handle) (offset : Int32) (whence : Int) : Int :=
  match h.target offset whence with
  | none => -EINVAL
  | some pos => pos

end Handle

/-- What a node gives access to. -/
def kindOf (d : Ramdisk) (n : Node) : Kind := if n.flags &&& FT_DIR ≠ 0 then .dir else .file (contents d n)

/-- The handle of a path opened in the tree of `s`. -/
def opened (s : State) (path : List UInt8) (flags : UInt32) : Handle :=
  match lookupOf tarDriver s path with
  | none => ⟨.dir, 0⟩
  | some (_, n) => ⟨kindOf s.drv n, if flags &&& O_APPEND ≠ 0 then (kindOf s.drv n).size else 0⟩

/-! ## Histories. -/

/-- A call that has returned. -/
structure Event where
  call : Call
  ret : Int

/-- An event is one of the descriptor `fd`: the call that opened it, or a later call on it. -/
def Event.own (fd : Nat) (e : Event) : Bool :=
  match e.call with
  | .open_ _ _ => e.ret == fd
  | .close fd' | .read fd' _ _ | .write fd' _ _ | .lseek fd' _ _ => fd' == fd

/-- What a descriptor stands for after an event of its own, opened in the tree of `s`. -/
def Event.next (s : State) (h : Option Handle) (e : Event) : Option Handle :=
  match e.call with
  | .open_ path flags => some (opened s path flags)
  | .close _ => none
  | .read _ buf count => h.map (·.read buf count)
  | .write _ _ _ => h
  | .lseek _ offset whence => h.map (·.seek offset whence)

/-- What the descriptor `fd` stands for after some events. -/
def history (s : State) (fd : Nat) (tr : List Event) : Option Handle :=
  tr.foldl (fun h e => if e.own fd then e.next s h else h) none

/-- The calls of the runs. -/
def Reads : Call → Prop
  | .write _ _ _ => False
  | _ => True

/-- The runs from `s1`, with their events. -/
inductive Trace (s1 : State) : List Event → State → Prop where
  | start : Trace s1 [] s1
  | step {tr s c ret s'} :
    Trace s1 tr s →
    Reads c →
    c.run tarDriver s = some (ret, s') →
    Trace s1 (tr ++ [⟨c, ret⟩]) s'

variable {s s' s0 s1 : State} {d : Ramdisk} {n : Node} {root : Nat} {T : Set Nat} {κ : Nat → List Nat}
  {V : Set UInt32} {path : List UInt8} {flags : UInt32} {tr : List Event} {e : Event} {fd : Nat} {h : Handle}

lemma history_step : history s fd (tr ++ [e]) = if e.own fd then e.next s (history s fd tr) else history s fd tr := by
  rw [history, List.foldl_append]
  rfl

/-- What a descriptor stands for depends on its own events only. -/
theorem history_own : history s fd (tr.filter (·.own fd)) = history s fd tr := by
  rw [history, history, List.foldl_filter]
  congr 1
  funext h e
  split_ifs
  · rfl
  · rfl

/-! ## The driver. -/

/-- The callbacks of the ramdisk change nothing in it. -/
lemma tarDriver_read_drv {f : TarFn} {off count : UInt32} : (tarDriver.read f d n off count).2.2.2 = d := by
  cases f
  · rfl
  · rfl
  · rfl
  · rfl
  · rfl

lemma tarDriver_close_drv {f : TarFn} : (tarDriver.close f d n).2.2 = d := by
  cases f
  · rfl
  · rfl
  · rfl
  · rfl
  · rfl

lemma tarDriver_steady : Steady tarDriver T Eq where
  refl _ := rfl
  symm := Eq.symm
  trans := Eq.trans
  finddir _ _ _ _ _ _ := ⟨rfl, rfl, rfl⟩
  inside _ _ _ _ _ found := absurd found (by decide : -ENOTDIR ≠ 0)
  read f d d' n off count same := by
    cases same
    exact ⟨rfl, rfl, tarDriver_read_drv.symm⟩

/-- A call that changes the slot of its descriptor only. -/
def OneSlot (s s' : State) (fd : Int) : Prop :=
  ∃ table : Nat → Node, s' = { s with openFiles := table } ∧ ∀ i : Nat, (i : Int) ≠ fd → table i = s.openFiles i

lemma OneSlot.refl {fd : Int} : OneSlot s s fd := ⟨s.openFiles, rfl, fun _ _ => rfl⟩

lemma OneSlot.set {fd : Int} {i : Nat} (slot : openFile s fd = some i) (n : Node) :
    OneSlot s (s.setOpenFile i n) fd := by
  obtain ⟨rfl, -, -⟩ := openFile_eq_some.mp slot
  exact ⟨_, rfl, fun j ne => Function.update_of_ne (by omega) ..⟩

lemma vfsRead_oneSlot {fd : Int} {buf count : UInt32} : OneSlot s (vfsRead tarDriver s fd buf count).2.2 fd := by
  cases slot : openFile s fd with
  | none =>
    rw [vfsRead_closed slot]
    exact .refl
  | some i =>
    obtain ⟨-, -, run⟩ | ⟨-, ret, -, run⟩ := vfsRead_cases tarDriver buf count slot
    · rw [run]
      unfold readSlot
      dsimp only
      cases (s.openFiles i).read with
      | some f =>
        dsimp only
        rw [tarDriver_read_drv]
        exact .set slot _
      | none =>
        cases (s.openFiles i).data with
        | some p => exact .set slot _
        | none => exact .refl
    · rw [run]
      exact .refl

lemma vfsLseek_oneSlot {fd : Int} {offset : Int32} {whence : Int} :
    OneSlot s (vfsLseek tarDriver s fd offset whence).2 fd := by
  unfold vfsLseek
  cases slot : openFile s fd with
  | none => exact .refl
  | some i =>
    dsimp only
    cases seekTo (s.openFiles i) offset whence with
    | none => exact .refl
    | some newPos =>
      dsimp only
      split_ifs
      · exact .refl
      · cases (s.openFiles i).lseek with
        | some f => exact .set slot _
        | none => exact .set slot _

lemma vfsClose_oneSlot {fd : Int} : OneSlot s (vfsClose tarDriver s fd).2 fd := by
  unfold vfsClose
  cases slot : openFile s fd with
  | none => exact .refl
  | some i =>
    dsimp only
    cases (s.openFiles i).close with
    | some f =>
      dsimp only
      rw [tarDriver_close_drv]
      exact .set slot _
    | none => exact .set slot _

/-! ## One descriptor. -/

/-- The slot `fd` holds a node of the tree of `s1`, at the position of the handle. -/
structure Stands (s1 : State) (T : Set Nat) (s : State) (fd : Nat) (h : Handle) : Prop where
  lt : fd < MAX_OPEN_FILES
  node : ∃ p ∈ T, (s1.node p).name ≠ [] ∧ h.kind = kindOf s1.drv (s1.node p) ∧
    ∃ v : UInt32, v.toNat = h.pos ∧ s.openFiles fd = { s1.node p with position := v }
  small : h.pos < 2 ^ 31

lemma Stands.slot (st : Stands s1 T s fd h) : openFile s fd = some fd := by
  obtain ⟨p, -, name, -, v, -, holds⟩ := st.node
  refine openFile_eq_some.mpr ⟨rfl, st.lt, ?_⟩
  rw [holds]
  exact name

/-- A handle stays in a slot that is left alone. -/
lemma Stands.congr (st : Stands s1 T s fd h) (same : s'.openFiles fd = s.openFiles fd) : Stands s1 T s' fd h := by
  obtain ⟨p, hp, name, kind, v, pos, holds⟩ := st.node
  exact ⟨st.lt, ⟨p, hp, name, kind, v, pos, same.trans holds⟩, st.small⟩

/-- The position that `vfs_lseek` computes is the base plus the offset, as a word. -/
lemma seekTo_eq {offset : Int32} {whence : Int} (pos : n.position.toNat = h.pos) (size : n.size.toNat = h.kind.size) :
    seekTo n offset whence = (h.base whence).map fun b => UInt32.ofNat b + offset.toUInt32 := by
  unfold seekTo Handle.base
  split_ifs
  · exact congrArg some (UInt32.zero_add _).symm
  · rw [Option.map_some, ← pos, UInt32.ofNat_toNat]
  · rw [Option.map_some, ← size, UInt32.ofNat_toNat]
  · rfl

/-- In range the word is the sum. -/
lemma seek_inside {b : Nat} {offset : Int32} (small : b < 2 ^ 31)
    (range : 0 ≤ (b : Int) + offset.toInt ∧ (b : Int) + offset.toInt < 2 ^ 31) :
    ¬ (UInt32.ofNat b + offset.toUInt32).toInt32 < 0 ∧
      (UInt32.ofNat b + offset.toUInt32).toNat = ((b : Int) + offset.toInt).toNat := by
  have sum := toNat_add_signed (UInt32.ofNat b) offset
  rw [toNat_ofNat_lt (by omega)] at sum
  rw [toInt32_neg_iff]
  omega

/-- Out of range it is negative. -/
lemma seek_outside {b : Nat} {offset : Int32} (small : b < 2 ^ 31)
    (range : ¬ (0 ≤ (b : Int) + offset.toInt ∧ (b : Int) + offset.toInt < 2 ^ 31)) :
    (UInt32.ofNat b + offset.toUInt32).toInt32 < 0 := by
  have sum := toNat_add_signed (UInt32.ofNat b) offset
  have low := offset.le_toInt
  have high := offset.toInt_lt
  rw [toNat_ofNat_lt (by omega)] at sum
  rw [toInt32_neg_iff]
  omega

section Tree
variable (m : Mount V s1 root T κ) (himg : s1.drv.gInitrdImg ≠ 0)
  (short : ∀ p ∈ T, (s1.node p).size.toNat < 2 ^ 31)

lemma kindOf_dir (hd : Dir n) : kindOf d n = .dir := if_pos hd.is_dir

lemma kindOf_file {off : UInt32} (f : File d off n) : kindOf d n = .file (contents d n) := if_neg f.no_flag

include m in
/-- The size of a node is that of its kind. -/
lemma kindOf_size {p : Nat} (hp : p ∈ T) : (kindOf s1.drv (s1.node p)).size = (s1.node p).size.toNat := by
  cases m.node p hp with
  | inl hd =>
    rw [kindOf_dir hd, hd.size]
    rfl
  | inr hf =>
    obtain ⟨off, -, file⟩ := hf
    rw [kindOf_file file]
    exact file.contents_length

include m himg short in
/-- A read delivers the bytes of the handle and moves it past them. -/
lemma Stands.read (st : Stands s1 T s fd h) (same : s.drv = s1.drv) (buf count : UInt32) :
    Stands s1 T (vfsRead tarDriver s fd buf count).2.2 fd (h.read buf count) ∧
      ∀ content, h.kind = .file content → buf ≠ 0 →
        (vfsRead tarDriver s fd buf count).1 = (h.bytes count).length ∧
          (vfsRead tarDriver s fd buf count).2.1 = h.bytes count := by
  have slot := st.slot
  obtain ⟨p, hp, name, kind, v, pos, holds⟩ := st.node
  cases m.node p hp with
  | inl hd =>
    rw [kindOf_dir hd] at kind
    -- a directory cannot be read, and its handle stays where it is
    have dir : ¬ (buf ≠ 0 ∧ Readable (s.openFiles fd)) := by
      intro ok
      have file := ok.2.file
      rw [holds] at file
      exact hd.is_dir file
    have stays : h.read buf count = h := by
      have empty : h.bytes count = [] := by rw [Handle.bytes, kind]
      rw [Handle.read, empty]
      split_ifs
      · rfl
      · rfl
    obtain ⟨nonnull, readable, -⟩ | ⟨-, ret, -, run⟩ :=
      vfsRead_cases tarDriver buf count slot
    · exact absurd ⟨nonnull, readable⟩ dir
    · rw [run, stays]
      refine ⟨st, fun content file => ?_⟩
      cases kind.symm.trans file
  | inr hf =>
    obtain ⟨off, -, file⟩ := hf
    have size := file.contents_length
    rw [kindOf_file file] at kind
    by_cases nonnull : buf = 0
    · obtain ⟨bad, -⟩ | ⟨-, ret, -, run⟩ := vfsRead_cases tarDriver buf count slot
      · exact absurd nonnull bad
      · rw [run, Handle.read, if_pos nonnull]
        exact ⟨st, fun _ _ bad => absurd nonnull bad⟩
    -- the read takes the bytes behind the position and moves it past them
    · have bytes : h.bytes count = ((contents s1.drv (s1.node p)).drop h.pos).take count.toNat := by
        unfold Handle.bytes
        rw [kind]
      have fits : h.pos + (h.bytes count).length < 2 ^ 31 := by
        have small := st.small
        have limit := short p hp
        rw [bytes, List.length_take, List.length_drop, size]
        omega
      have slice : ((contents s.drv (s.openFiles fd)).drop (s.openFiles fd).position.toNat).take count.toNat =
          h.bytes count := by
        rw [holds, same, bytes, ← pos]
        rfl
      have file' : File s.drv off (s.openFiles fd) := by
        rw [holds, same]
        exact file.with_position v
      have short' : (s.openFiles fd).size.toNat < 2 ^ 31 := by
        rw [holds]
        exact short p hp
      rw [vfsRead_file slot file' (same ▸ himg) short' nonnull slice]
      refine ⟨⟨st.lt, ⟨p, hp, name, ?_, ?_⟩, ?_⟩, fun _ _ _ => ⟨rfl, rfl⟩⟩
      · rw [Handle.read, if_neg nonnull, kindOf_file file]
        exact kind
      · rw [openFiles_setOpenFile, Handle.read, if_neg nonnull]
        refine ⟨(advanced (s.openFiles fd) (h.bytes count).length).position, ?_, ?_⟩
        · rw [advanced_position, holds]
          · exact congrArg (· + (h.bytes count).length) pos
          · rw [holds]
            change v.toNat + _ < _
            omega
        · rw [advanced, holds]
          split_ifs
          · rfl
          · rfl
      · rw [Handle.read, if_neg nonnull]
        exact fits

omit himg in
include m short in
/-- A seek moves the handle to the exact sum, or nowhere. -/
lemma Stands.lseek (st : Stands s1 T s fd h) (offset : Int32) (whence : Int) :
    (vfsLseek tarDriver s fd offset whence).1 = h.seekRet offset whence ∧
      Stands s1 T (vfsLseek tarDriver s fd offset whence).2 fd (h.seek offset whence) := by
  have slot := st.slot
  obtain ⟨p, hp, name, kind, v, pos, holds⟩ := st.node
  have size : (s1.node p).size.toNat = h.kind.size := by
    rw [kind]
    exact (kindOf_size m hp).symm
  have noCallback : (s.openFiles fd).lseek = none := by
    rw [holds]
    cases m.node p hp with
    | inl hd => exact hd.lseek
    | inr hf =>
      obtain ⟨off, -, file⟩ := hf
      exact file.lseek
  have base : ∀ b, h.base whence = some b → b < 2 ^ 31 := by
    intro b hb
    unfold Handle.base at hb
    split_ifs at hb
    · cases hb
      decide
    · cases hb
      exact st.small
    · cases hb
      exact size ▸ short p hp
  have atPos : (s.openFiles fd).position.toNat = h.pos := by
    rw [holds]
    exact pos
  have ofSize : (s.openFiles fd).size.toNat = h.kind.size := by
    rw [holds]
    exact size
  rw [vfsLseek_plain slot noCallback, seekTo_eq atPos ofSize]
  unfold Handle.seekRet Handle.seek Handle.target
  cases hb : h.base whence with
  | none => exact ⟨rfl, st⟩
  | some b =>
    dsimp only [Option.map_some]
    by_cases range : 0 ≤ (b : Int) + offset.toInt ∧ (b : Int) + offset.toInt < 2 ^ 31
    · obtain ⟨neg, value⟩ := seek_inside (base b hb) range
      rw [if_neg neg, if_pos range]
      have signed := toInt_of_lt (x := UInt32.ofNat b + offset.toUInt32) (by omega)
      refine ⟨?_, st.lt, ⟨p, hp, name, kind, _, value, ?_⟩, ?_⟩
      · dsimp only
        rw [signed, value]
      · dsimp only
        rw [openFiles_setOpenFile, holds]
      · change (_ : Int).toNat < _
        omega
    · rw [if_pos (seek_outside (base b hb) range), if_neg range]
      exact ⟨rfl, st⟩

end Tree

end RetaOS.Initrd
