import RetaOS.Vfs.Create
import RetaOS.Vfs.Descriptors

/-!
# Which file a slot holds

A slot of the descriptor table is a copy of a node, which the calls on the descriptor change: they move the
position, and a write may change the size. `Node.identity` is what is left of a node without these, and
`vfsOpen_fills` says that `vfs_open` puts the file it found or created into a free slot, for callbacks that leave
the identity of their node alone (`KeepsFiles`).
-/

namespace RetaOS.Vfs
open Lib

variable {F σ : Type} {D : Driver F σ} {s s' : State F σ} {n : Node F} {path : List UInt8} {flags buf count : UInt32}
  {bytes : List UInt8} {fd ret : Int} {i : Nat}

/-- A node without position and size, and without the data of an in-memory file, which moves when it grows. -/
def Node.identity (n : Node F) : Node F :=
  { n with size := 0, position := 0, data := if n.write.isNone ∧ n.flags &&& O_APPEND ≠ 0 then none else n.data }

/-- Callbacks that leave the identity of their node alone, and `open` callbacks that return 0 or an error. -/
structure KeepsFiles (D : Driver F σ) : Prop where
  read : ∀ f d n off count, (D.read f d n off count).2.2.1.identity = n.identity
  write : ∀ f d n off bytes, (D.write f d n off bytes).2.1.identity = n.identity
  open_ : ∀ f d n flags, (D.open_ f d n flags).2.1.identity = n.identity
  opens : ∀ f d n flags, (D.open_ f d n flags).1 ≤ 0

lemma identity_ignores : Ignores (Node.identity (F := F)) := by
  refine ⟨fun _ _ => rfl, fun _ _ => rfl, fun n data inMemory append => ?_⟩
  have grows : n.write.isNone ∧ n.flags &&& O_APPEND ≠ 0 := ⟨Option.isNone_iff_eq_none.mpr inMemory, append⟩
  unfold Node.identity
  dsimp only
  rw [if_pos grows, if_pos grows]

/-- A node of the same identity has the same name. -/
lemma identity_name {m : Node F} (h : m.identity = n.identity) : m.name = n.name := by
  have name := congrArg Node.name h
  exact name

lemma vfsRead_identity (keeps : KeepsFiles D) : Within Node.identity s (vfsRead D s fd buf count).2.2 fd :=
  vfsRead_within identity_ignores keeps.read

lemma vfsWrite_identity (keeps : KeepsFiles D) : Within Node.identity s (vfsWrite D s fd buf bytes).2 fd :=
  vfsWrite_within identity_ignores keeps.write

/-! ## Free slots. -/

/-- The slots in use stay as they are. -/
def KeepsUsed (s s' : State F σ) : Prop := ∀ i, (s.openFiles i).name ≠ [] → s'.openFiles i = s.openFiles i

lemma KeepsUsed.of_eq (h : s'.openFiles = s.openFiles) : KeepsUsed s s' := fun i _ => congrFun h i

lemma KeepsUsed.trans {s'' : State F σ} (h : KeepsUsed s s') (h' : KeepsUsed s' s'') : KeepsUsed s s'' := by
  intro i used
  have same := h i used
  rw [← same] at used
  exact (h' i used).trans same

/-- A change of a free slot. -/
lemma KeepsUsed.update (free : (s.openFiles i).name = []) (slots : s'.openFiles = Function.update s.openFiles i n) :
    KeepsUsed s s' := by
  intro j used
  rw [slots]
  refine Function.update_of_ne ?_ ..
  rintro rfl
  exact used free

/-- A close changes no other slot. -/
lemma vfsClose_others (j : Nat) (ne : (j : Int) ≠ fd) : (vfsClose D s fd).2.openFiles j = s.openFiles j := by
  obtain ⟨-, ⟨-, slots⟩ | ⟨i, open_, slots⟩⟩ := vfsClose_slots D s fd
  · exact congrFun slots j
  · obtain ⟨rfl, -, -⟩ := openFile_eq_some.mp open_
    rw [slots]
    exact Function.update_of_ne (by omega) ..

lemma vfsStat_slots {size mode : UInt32} (run : vfsStat D s path = some (ret, size, mode, s')) :
    s'.openFiles = s.openFiles := by
  unfold vfsStat at run
  split at run
  · cases run
  rename_i r n s1 look
  obtain ⟨d, rfl⟩ := vfsLookup_state look
  split_ifs at run
  · cases run
    rfl
  · cases run
    rfl

/-! ## `vfs_open`. -/

/-- A free slot. -/
lemma freeSlot_free (free : freeSlot s = some i) : i < MAX_OPEN_FILES ∧ (s.openFiles i).name = [] := by
  obtain ⟨none, -⟩ | ⟨j, some_, lt, empty, -⟩ := freeSlot_spec (s := s)
  · cases free.symm.trans none
  · cases free.symm.trans some_
    exact ⟨lt, empty⟩

lemma openTarget_frame {r : Except Int (Node F)} (run : openTarget D s path flags = some (r, s')) :
    s'.openFiles = s.openFiles ∧ ∀ e, r = .error e → e < 0 := by
  unfold openTarget at run
  split at run
  · cases run
  rename_i r1 n s1 look
  obtain ⟨d, rfl⟩ := vfsLookup_state look
  split_ifs at run
  · cases run
    exact ⟨rfl, fun e h => nomatch h⟩
  · cases run
    refine ⟨rfl, fun e h => ?_⟩
    cases h
    exact (by decide : -ENOENT < 0)
  · exact openCreate_frame (s := { s with drv := d }) run

/-- `vfs_open` from the slot `i` on: the file is in the slot and `i` is returned, or an error and the slot is
    cleared at most. -/
def Fills (s s' : State F σ) (i : Nat) (n : Node F) (ret : Int) : Prop :=
  (ret = i ∧ ∃ m : Node F, m.identity = n.identity ∧ s'.openFiles = Function.update s.openFiles i m) ∨
    ret < 0 ∧ (s'.openFiles = s.openFiles ∨ s'.openFiles = Function.update s.openFiles i .zero)

/-- The descriptors before are those of `s`, and the file is `n`. -/
lemma Fills.of_same {t : State F σ} {m : Node F} (h : Fills t s' i m ret) (slots : t.openFiles = s.openFiles)
    (same : m.identity = n.identity) : Fills s s' i n ret := by
  rw [Fills, ← slots, ← same]
  exact h

lemma fillSlot_fills (keeps : KeepsFiles D) : Fills s (fillSlot D s i n flags).2 i n (fillSlot D s i n flags).1 := by
  unfold fillSlot
  cases n.open_ with
  | none => exact .inl ⟨rfl, n, rfl, rfl⟩
  | some f =>
    dsimp only
    split_ifs with failed
    · exact .inr ⟨lt_of_le_of_ne (keeps.opens ..) failed, .inr rfl⟩
    · exact .inl ⟨rfl, _, keeps.open_ .., rfl⟩

lemma openNode_fills (keeps : KeepsFiles D) (run : openNode D s i n flags = (ret, s')) : Fills s s' i n ret := by
  rw [openNode_eq] at run
  cases refused : refusal n flags with
  | some e =>
    rw [refused] at run
    cases run
    obtain rfl | rfl | rfl := refusal_mem refused
    · exact .inr ⟨by decide, .inl rfl⟩
    · exact .inr ⟨by decide, .inl rfl⟩
    · exact .inr ⟨by decide, .inl rfl⟩
  | none =>
    rw [refused] at run
    generalize e : truncate D s n flags = x at run
    obtain ⟨r, t⟩ := x
    obtain ⟨-, -, slots, ok, error⟩ := truncate_view identity_ignores keeps.write e
    cases r with
    | error e =>
      cases run
      exact .inr ⟨(error _ rfl).1, .inl slots⟩
    | ok m =>
      have run : fillSlot D t i (openAt m flags) flags = (ret, s') := run
      have fills : Fills t (fillSlot D t i (openAt m flags) flags).2 i _ _ := fillSlot_fills keeps
      rw [run] at fills
      exact fills.of_same slots ((identity_ignores.position ..).trans (ok m rfl))

/-- `vfs_open` puts the file it found or created in a free slot and returns its number, or fails; it keeps the
    slots in use. -/
lemma vfsOpen_fills (keeps : KeepsFiles D) (run : vfsOpen D s path flags = some (ret, s')) :
    KeepsUsed s s' ∧ (ret < 0 ∨ ∃ (i : Nat) (n : Node F) (s0 : State F σ) (m : Node F), ret = i ∧
      i < MAX_OPEN_FILES ∧ (s.openFiles i).name = [] ∧ openTarget D s path flags = some (.ok n, s0) ∧
        m.identity = n.identity ∧ s'.openFiles = Function.update s.openFiles i m) := by
  rw [vfsOpen_eq] at run
  cases free : freeSlot s with
  | none =>
    rw [free] at run
    cases run
    exact ⟨.of_eq rfl, .inl (by decide)⟩
  | some i =>
    obtain ⟨lt, empty⟩ := freeSlot_free free
    rw [free] at run
    cases target : openTarget D s path flags with
    | none =>
      rw [target] at run
      cases run
    | some r =>
      obtain ⟨r, s1⟩ := r
      obtain ⟨slots, error⟩ := openTarget_frame target
      rw [target] at run
      cases r with
      | error e =>
        cases run
        exact ⟨.of_eq slots, .inl (error _ rfl)⟩
      | ok n =>
        obtain ⟨rfl, m, same, slots⟩ | ⟨neg, slots | slots⟩ :=
          (openNode_fills keeps (Option.some.inj run)).of_same slots rfl
        · exact ⟨.update empty slots, .inr ⟨i, n, s1, m, rfl, lt, empty, rfl, same, slots⟩⟩
        · exact ⟨.of_eq slots, .inl neg⟩
        · exact ⟨.update empty slots, .inl neg⟩

end RetaOS.Vfs
