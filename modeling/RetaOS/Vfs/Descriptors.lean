import RetaOS.Vfs.Frame
import RetaOS.Vfs.OpenFile

/-!
# The descriptor table

Runs of the calls on descriptors. A slot is taken when the name of its node is not empty; `Tracks` is the
invariant that the taken slots are those the calls of a run have opened and not closed, and that all others are
zero. `descriptor_law` says what each call of a run does to the table, for a tree of named nodes and callbacks
that leave the name of their node alone (`KeepsNames`) and return error codes (`ErrorCodes`).
-/

namespace RetaOS.Vfs
open Lib

/-- The calls on descriptors. -/
inductive Call where
  | open_ (path : List UInt8) (flags : UInt32)
  | close (fd : Int)
  | read (fd : Int) (buf count : UInt32)
  | write (fd : Int) (buf : UInt32) (bytes : List UInt8)
  | lseek (fd : Int) (offset : Int32) (whence : Int)

namespace Call

/-- The value a call returns, and the state it leaves. -/
def run {F σ : Type} (D : Driver F σ) (s : State F σ) : Call → Option (Int × State F σ)
  | .open_ path flags => vfsOpen D s path flags
  | .close fd => some (vfsClose D s fd)
  | .read fd buf count => some ((vfsRead D s fd buf count).1, (vfsRead D s fd buf count).2.2)
  | .write fd buf bytes => some (vfsWrite D s fd buf bytes)
  | .lseek fd offset whence => some (vfsLseek D s fd offset whence)

/-- The open descriptors after a call that returned `ret`. -/
def opened (H : Set Nat) (ret : Int) : Call → Set Nat
  | .open_ _ _ => if 0 ≤ ret then insert ret.toNat H else H
  | .close fd => {i ∈ H | (i : Int) ≠ fd}
  | _ => H

/-- The call does not ask for a file to be created. -/
def NoCreate : Call → Prop
  | .open_ _ flags => flags &&& O_CREAT = 0
  | _ => True

end Call

/-- The runs from `s0` with calls of `P`, and the descriptors open at their end. -/
inductive Run {F σ : Type} (D : Driver F σ) (P : Call → Prop) (s0 : State F σ) : State F σ → Set Nat → Prop where
  | start : Run D P s0 s0 ∅
  | step {s H c ret s'} :
    Run D P s0 s H →
    P c →
    c.run D s = some (ret, s') →
    Run D P s0 s' (c.opened H ret)

variable {F σ : Type} {D : Driver F σ} {s s' s0 : State F σ} {A : Set Nat} {H : Set Nat} {P : Call → Prop}
  {n : Node F} {path : List UInt8} {flags buf count : UInt32} {bytes : List UInt8} {fd ret : Int} {i : Nat}

/-- The nodes that lookup can reach have names. -/
structure Named (s : State F σ) (A : Set Nat) : Prop where
  root : Inside A s.vfsRoot
  node : ∀ p ∈ A, Inside A (s.node p)
  rootName : s.vfsRoot.name ≠ []
  name : ∀ p ∈ A, (s.node p).name ≠ []

/-- Callbacks that leave the name of their node alone, and `finddir` callbacks that report failure. -/
structure KeepsNames (D : Driver F σ) : Prop where
  finddir : ∀ f d n c, (D.finddir f d n c).1 ≠ 0
  read : ∀ f d n off count, (D.read f d n off count).2.2.1.name = n.name
  write : ∀ f d n off bytes, (D.write f d n off bytes).2.1.name = n.name
  open_ : ∀ f d n flags, (D.open_ f d n flags).2.1.name = n.name
  lseek : ∀ f d n off whence, (D.lseek f d n off whence).2.1.name = n.name

/-- `open` returns 0 or a negative error, and neither `open` nor an empty `write` returns `-EMFILE`. -/
structure ErrorCodes (D : Driver F σ) : Prop where
  opens : ∀ f d n flags, (D.open_ f d n flags).1 ≤ 0 ∧ (D.open_ f d n flags).1 ≠ -EMFILE
  empties : ∀ f d n, (D.write f d n 0 []).1 ≠ -EMFILE

/-- The taken slots are those of `H`, all others are zero, and lookups reach named nodes only. -/
structure Tracks (s : State F σ) (A H : Set Nat) : Prop where
  named : Named s A
  taken : ∀ i, (s.openFiles i).name ≠ [] ↔ i ∈ H
  free : ∀ i, i ∉ H → s.openFiles i = .zero
  lt : ∀ i ∈ H, i < MAX_OPEN_FILES

/-- A change of the state that leaves the tree alone. -/
structure SameTree (s s' : State F σ) : Prop where
  nodes : s'.nodes = s.nodes
  root : s'.vfsRoot = s.vfsRoot

/-- A call on the descriptor `fd` that keeps names: no other slot changes, and no closed one. -/
structure OnSlot (s s' : State F σ) (fd : Int) : Prop where
  tree : SameTree s s'
  others : ∀ i : Nat, (i : Int) ≠ fd → s'.openFiles i = s.openFiles i
  names : ∀ i, (s'.openFiles i).name = (s.openFiles i).name
  closed : ∀ i, (s.openFiles i).name = [] → s'.openFiles i = s.openFiles i

/-! ## Reads, writes, seeks and closes. -/

lemma OnSlot.refl : OnSlot s s fd := ⟨⟨rfl, rfl⟩, fun _ _ => rfl, fun _ => rfl, fun _ _ => rfl⟩

/-- A slot that is open may be overwritten with a node of the same name. -/
lemma OnSlot.set (h : openFile s fd = some i) (name : n.name = (s.openFiles i).name) (tree : SameTree s s')
    (slots : s'.openFiles = Function.update s.openFiles i n) : OnSlot s s' fd := by
  obtain ⟨rfl, -, open_⟩ := openFile_eq_some.mp h
  refine ⟨tree, fun j ne => ?_, fun j => ?_, fun j free => ?_⟩
  · rw [slots, Function.update_of_ne (by omega)]
  · rw [slots]
    by_cases e : j = i
    · rw [e, Function.update_self, name]
    · rw [Function.update_of_ne e]
  · rw [slots, Function.update_of_ne]
    rintro rfl
    exact open_ free

lemma name_ignores : Ignores (Node.name (F := F)) := ⟨fun _ _ => rfl, fun _ _ => rfl, fun _ _ _ _ => rfl⟩

/-- A call that keeps the names in the table. -/
lemma Within.onSlot (w : Within Node.name s s' fd) : OnSlot s s' fd := by
  refine ⟨⟨w.nodes, w.root⟩, w.others, w.same, fun i empty => ?_⟩
  by_cases own : (i : Int) = fd
  · have closed : openFile s fd = none := by
      cases h : openFile s fd with
      | none => rfl
      | some j =>
        obtain ⟨e, -, open_⟩ := openFile_eq_some.mp h
        obtain rfl : i = j := by omega
        exact absurd empty open_
    exact congrFun (w.closed closed) i
  · exact w.others i own

lemma vfsRead_slots (keeps : KeepsNames D) : OnSlot s (vfsRead D s fd buf count).2.2 fd :=
  (vfsRead_within name_ignores keeps.read).onSlot

lemma vfsWrite_slots (keeps : KeepsNames D) : OnSlot s (vfsWrite D s fd buf bytes).2 fd :=
  (vfsWrite_within name_ignores keeps.write).onSlot

lemma vfsLseek_slots (keeps : KeepsNames D) {offset : Int32} {whence : Int} :
    OnSlot s (vfsLseek D s fd offset whence).2 fd := by
  unfold vfsLseek
  cases h : openFile s fd with
  | none => exact .refl
  | some i =>
    dsimp only
    cases seekTo (s.openFiles i) offset whence with
    | none => exact .refl
    | some newPos =>
      dsimp only
      split_ifs
      · exact .refl
      · cases (s.openFiles i).lseek with
        | some f => exact .set h (keeps.lseek ..) ⟨rfl, rfl⟩ rfl
        | none =>
          refine .set h ?_ ⟨rfl, rfl⟩ rfl
          rfl

/-- A close empties the slot of its descriptor, whatever the callback returns. -/
lemma vfsClose_slots (D : Driver F σ) (s : State F σ) (fd : Int) : SameTree s (vfsClose D s fd).2 ∧
    ((openFile s fd = none ∧ (vfsClose D s fd).2.openFiles = s.openFiles) ∨
      ∃ i, openFile s fd = some i ∧ (vfsClose D s fd).2.openFiles = Function.update s.openFiles i .zero) := by
  unfold vfsClose
  cases h : openFile s fd with
  | none => exact ⟨⟨rfl, rfl⟩, .inl ⟨rfl, rfl⟩⟩
  | some i =>
    dsimp only
    cases (s.openFiles i).close with
    | none => exact ⟨⟨rfl, rfl⟩, .inr ⟨i, rfl, rfl⟩⟩
    | some f => exact ⟨⟨rfl, rfl⟩, .inr ⟨i, rfl, rfl⟩⟩

/-! ## Lookups. -/

/-- A component leads to a named node. -/
lemma lookupChild_named (keeps : KeepsNames D) (named : Named s A) (inside : Inside A n) {component : List UInt8}
    {d : σ} {r : Option (Node F) × σ} (h : lookupChild D s n component d = some r) :
    ∀ c, r.1 = some c → Inside A c ∧ c.name ≠ [] := by
  have list (x : σ) (h : (findChild s n component).map (fun p => (p.map s.node, x)) = some r) :
      ∀ c, r.1 = some c → Inside A c ∧ c.name ≠ [] := by
    cases e : findChild s n component with
    | none =>
      rw [e] at h
      cases h
    | some q =>
      rw [e] at h
      cases h
      intro c hc
      cases q with
      | none => cases hc
      | some q =>
        cases hc
        have mem : q ∈ A := by
          refine (search_congr (A := A) ?_ (fun _ _ => rfl) (fun _ _ => rfl) ?_).2 q e
          · intro p hp q hq
            exact named.node p hp q (.inr (.inr hq))
          · intro p hp
            exact inside p (.inr (.inl hp))
        exact ⟨named.node q mem, named.name q mem⟩
  cases hf : n.finddir with
  | none =>
    rw [lookupChild_listed hf] at h
    exact list d h
  | some f =>
    rw [lookupChild_finddir hf, if_neg (keeps.finddir f d n component)] at h
    exact list _ h

lemma lookupStart_named (named : Named s A) (path : List UInt8) (d : σ) :
    Inside A (lookupStart s path d).current ∧ (lookupStart s path d).current.name ≠ [] := by
  unfold lookupStart
  split_ifs
  · exact ⟨named.root, named.rootName⟩
  · exact ⟨named.root, named.rootName⟩

/-- Lookup goes through named nodes only. -/
lemma lookupBody_named (keeps : KeepsNames D) (named : Named s A) {t : Lookup F σ}
    (h : Inside A t.current ∧ t.current.name ≠ []) :
    (lookupBody D s t).To (fun t => Inside A t.current ∧ t.current.name ≠ [])
      fun r => r.1 = 0 → r.2.1.name ≠ [] := by
  have fails {e : Int} {m : Node F} {d : σ} (ne : e ≠ 0) :
      (Pass.done (e, m, d)).To (fun t : Lookup F σ => Inside A t.current ∧ t.current.name ≠ [])
        fun r => r.1 = 0 → r.2.1.name ≠ [] := .done fun h => absurd h ne
  unfold lookupBody
  split
  · exact .done fun _ => h.2
  · dsimp only
    split_ifs
    · exact .next h
    · refine .next ?_
      cases up : t.current.parent with
      | none => exact h
      | some p =>
        have hp := h.1 p (.inl up)
        exact ⟨named.node p hp, named.name p hp⟩
    · refine .inner h fun x e => ?_
      have found := lookupChild_named keeps named h.1 e
      split
      · exact fails (by decide)
      · split_ifs
        · split
          · exact fails (by decide)
          · split_ifs
            · exact .next (lookupStart_named named ..)
            · exact fails (by decide)
        · exact .next (found _ rfl)

/-- A lookup finds a named node, and changes the driver state only. -/
lemma vfsLookup_named (keeps : KeepsNames D) (named : Named s A) (run : vfsLookup D s path = some (ret, n, s')) :
    (ret = 0 → n.name ≠ []) ∧ SameTree s s' ∧ s'.openFiles = s.openFiles := by
  unfold vfsLookup at run
  cases e : loop (lookupBody D s) (lookupStart s path s.drv) with
  | none =>
    rw [e] at run
    cases run
  | some r =>
    rw [e] at run
    cases run
    exact ⟨loop_rule (fun _ => lookupBody_named keeps named) (lookupStart_named named ..) e, ⟨rfl, rfl⟩, rfl⟩

/-! ## `vfs_open`. -/

/-- The truncation changes neither the tree nor the descriptors. -/
lemma truncate_spec (keeps : KeepsNames D) (codes : ErrorCodes D) {r : Except Int (Node F)}
    (run : truncate D s n flags = (r, s')) :
    SameTree s s' ∧ s'.openFiles = s.openFiles ∧ (∀ m, r = .ok m → m.name = n.name) ∧
      ∀ e, r = .error e → e < 0 ∧ e ≠ -EMFILE := by
  obtain ⟨nodes, root, slots, names, error⟩ := truncate_view name_ignores keeps.write run
  refine ⟨⟨nodes, root⟩, slots, names, fun e h => ?_⟩
  obtain ⟨neg, f, rfl⟩ := error e h
  exact ⟨neg, codes.empties f s.drv n⟩

/-- What a call that opens the free slot `i` does: it puts a named node there and returns `i`, or it returns an
    error and leaves every slot as it was. -/
structure Opens (s s' : State F σ) (i : Nat) (ret : Int) : Prop where
  tree : SameTree s s'
  slots : (∃ n : Node F, n.name ≠ [] ∧ ret = i ∧ s'.openFiles = Function.update s.openFiles i n) ∨
    (ret < 0 ∧ ret ≠ -EMFILE ∧ s'.openFiles = s.openFiles)

/-- A changed state that has the tree and the descriptors of the one before. -/
lemma Opens.of_same {s1 : State F σ} (h : Opens s1 s' i ret) (tree : SameTree s s1)
    (slots : s1.openFiles = s.openFiles) : Opens s s' i ret := by
  refine ⟨⟨h.tree.nodes.trans tree.nodes, h.tree.root.trans tree.root⟩, ?_⟩
  rw [← slots]
  exact h.slots

lemma fillSlot_spec (keeps : KeepsNames D) (codes : ErrorCodes D) (name : n.name ≠ []) (zero : s.openFiles i = .zero)
    (run : fillSlot D s i n flags = (ret, s')) : Opens s s' i ret := by
  unfold fillSlot at run
  cases hf : n.open_ with
  | none =>
    rw [hf] at run
    cases run
    exact ⟨⟨rfl, rfl⟩, .inl ⟨n, name, rfl, rfl⟩⟩
  | some f =>
    rw [hf] at run
    dsimp only at run
    split_ifs at run with failed
    · cases run
      obtain ⟨le, ne⟩ := codes.opens f s.drv n flags
      refine ⟨⟨rfl, rfl⟩, .inr ⟨lt_of_le_of_ne le failed, ne, ?_⟩⟩
      change Function.update s.openFiles i .zero = s.openFiles
      rw [← zero]
      exact Function.update_eq_self ..
    · cases run
      refine ⟨⟨rfl, rfl⟩, .inl ⟨_, ?_, rfl, rfl⟩⟩
      rw [keeps.open_]
      exact name

/-- `vfs_open` from a named node. -/
lemma openNode_spec (keeps : KeepsNames D) (codes : ErrorCodes D) (name : n.name ≠ []) (zero : s.openFiles i = .zero)
    (run : openNode D s i n flags = (ret, s')) : Opens s s' i ret := by
  rw [openNode_eq] at run
  cases refused : refusal n flags with
  | some e =>
    rw [refused] at run
    cases run
    obtain rfl | rfl | rfl := refusal_mem refused
    · exact ⟨⟨rfl, rfl⟩, .inr ⟨by decide, by decide, rfl⟩⟩
    · exact ⟨⟨rfl, rfl⟩, .inr ⟨by decide, by decide, rfl⟩⟩
    · exact ⟨⟨rfl, rfl⟩, .inr ⟨by decide, by decide, rfl⟩⟩
  | none =>
    rw [refused] at run
    generalize e : truncate D s n flags = x at run
    obtain ⟨r, t⟩ := x
    obtain ⟨tree, slots, ok, error⟩ := truncate_spec keeps codes e
    cases r with
    | error e =>
      cases run
      obtain ⟨neg, ne⟩ := error _ rfl
      exact ⟨tree, .inr ⟨neg, ne, slots⟩⟩
    | ok m =>
      have named : (openAt m flags).name ≠ [] := by
        change m.name ≠ []
        rw [ok m rfl]
        exact name
      exact (fillSlot_spec keeps codes named ((congrFun slots i).trans zero) run).of_same tree slots

/-- `vfs_open` without `O_CREAT`: the first free slot, or `-EMFILE` when there is none. -/
lemma vfsOpen_spec (keeps : KeepsNames D) (codes : ErrorCodes D) (named : Named s A) (noCreate : flags &&& O_CREAT = 0)
    (zero : ∀ i, (s.openFiles i).name = [] → s.openFiles i = .zero) (run : vfsOpen D s path flags = some (ret, s')) :
    (freeSlot s = none ∧ ret = -EMFILE ∧ s' = s) ∨ ∃ i, freeSlot s = some i ∧ Opens s s' i ret := by
  unfold vfsOpen at run
  cases free : freeSlot s with
  | none =>
    rw [free] at run
    cases run
    exact .inl ⟨rfl, rfl, rfl⟩
  | some i =>
    rw [free] at run
    refine .inr ⟨i, rfl, ?_⟩
    cases look : vfsLookup D s path with
    | none =>
      rw [look] at run
      cases run
    | some r =>
      obtain ⟨r, n, s1⟩ := r
      obtain ⟨name, tree, slots⟩ := vfsLookup_named keeps named look
      rw [look] at run
      dsimp only at run
      by_cases found : r = 0
      · rw [if_pos found, Option.some.injEq] at run
        have closed : s1.openFiles i = .zero := by
          rw [slots]
          obtain ⟨none, -⟩ | ⟨j, some_, -, empty, -⟩ := freeSlot_spec (s := s)
          · cases free.symm.trans none
          · cases free.symm.trans some_
            exact zero i empty
        exact (openNode_spec keeps codes (name found) closed run).of_same tree slots
      · rw [if_neg found, if_pos noCreate] at run
        cases run
        exact ⟨tree, .inr ⟨by decide, by decide, slots⟩⟩

/-! ## The law. -/

/-- What a call of a run does to the table, where `H` are the descriptors open before it: a successful `vfs_open`
    takes the lowest one that is not open, `-EMFILE` means that all are, a failed `vfs_open` leaves every slot as
    it was, and any other call leaves every slot but that of its descriptor. -/
def Law (s s' : State F σ) (H : Set Nat) (ret : Int) : Call → Prop
  | .open_ _ _ =>
    (0 ≤ ret → ∃ i < MAX_OPEN_FILES, ret = i ∧ i ∉ H ∧ (∀ j < i, j ∈ H) ∧
      ∀ j ≠ i, s'.openFiles j = s.openFiles j) ∧
    (ret = -EMFILE → ∀ i < MAX_OPEN_FILES, i ∈ H) ∧
    (ret < 0 → s'.openFiles = s.openFiles)
  | .close fd | .read fd _ _ | .write fd _ _ | .lseek fd _ _ =>
    ∀ i : Nat, (i : Int) ≠ fd → s'.openFiles i = s.openFiles i

lemma Named.same (h : Named s A) (tree : SameTree s s') : Named s' A := by
  have node (p : Nat) : s'.node p = s.node p := by rw [State.node, State.node, tree.nodes]
  refine ⟨tree.root ▸ h.root, fun p hp => ?_, tree.root ▸ h.rootName, fun p hp => ?_⟩
  · rw [node]
    exact h.node p hp
  · rw [node]
    exact h.name p hp

lemma Tracks.closed (t : Tracks s A H) (i : Nat) (empty : (s.openFiles i).name = []) : s.openFiles i = .zero :=
  t.free i fun mem => (t.taken i).mpr mem empty

lemma Tracks.onSlot (t : Tracks s A H) (h : OnSlot s s' fd) : Tracks s' A H := by
  refine ⟨t.named.same h.tree, fun i => ?_, fun i notMem => ?_, t.lt⟩
  · rw [h.names i]
    exact t.taken i
  · rw [h.closed i (not_not.mp (mt (t.taken i).mp notMem))]
    exact t.free i notMem

/-- A closed descriptor leaves the set of those open, and its slot is zero. -/
lemma Tracks.close (t : Tracks s A H) :
    Tracks (vfsClose D s fd).2 A {i ∈ H | (i : Int) ≠ fd} ∧
      ∀ i : Nat, (i : Int) ≠ fd → (vfsClose D s fd).2.openFiles i = s.openFiles i := by
  obtain ⟨tree, ⟨none, slots⟩ | ⟨i, open_, slots⟩⟩ := vfsClose_slots D s fd
  · have same : {i ∈ H | (i : Int) ≠ fd} = H := by
      refine Set.sep_eq_self_iff_mem_true.mpr fun i mem eq => ?_
      have found : openFile s fd = some i := openFile_eq_some.mpr ⟨eq.symm, t.lt i mem, (t.taken i).mpr mem⟩
      cases none.symm.trans found
    rw [same, slots]
    refine ⟨⟨t.named.same tree, fun j => ?_, fun j => ?_, t.lt⟩, fun _ _ => rfl⟩
    · rw [slots]
      exact t.taken j
    · rw [slots]
      exact t.free j
  · obtain ⟨rfl, -, -⟩ := openFile_eq_some.mp open_
    rw [slots]
    refine ⟨⟨t.named.same tree, fun j => ?_, fun j notMem => ?_, fun j mem => t.lt j mem.1⟩, fun j ne => ?_⟩
    · rw [slots]
      by_cases e : j = i
      · subst e
        rw [Function.update_self]
        exact ⟨fun h => absurd rfl h, fun mem => absurd rfl mem.2⟩
      · rw [Function.update_of_ne e]
        exact (t.taken j).trans ⟨fun mem => ⟨mem, by omega⟩, fun mem => mem.1⟩
    · rw [slots]
      by_cases e : j = i
      · subst e
        exact Function.update_self ..
      · rw [Function.update_of_ne e]
        exact t.free j fun mem => notMem ⟨mem, by omega⟩
    · exact Function.update_of_ne (by omega) ..

/-- An opened file takes the lowest descriptor that is not open. -/
lemma Tracks.open_ (t : Tracks s A H) (keeps : KeepsNames D) (codes : ErrorCodes D) (noCreate : flags &&& O_CREAT = 0)
    (run : vfsOpen D s path flags = some (ret, s')) :
    Tracks s' A ((Call.open_ path flags).opened H ret) ∧ Law s s' H ret (.open_ path flags) := by
  obtain ⟨full, rfl, rfl⟩ | ⟨i, free, opens⟩ := vfsOpen_spec keeps codes t.named noCreate t.closed run
  · obtain ⟨-, all⟩ | ⟨i, some_, -⟩ := freeSlot_spec (s := s')
    · exact ⟨t, fun h => absurd h (by decide), fun _ i lt => (t.taken i).mp (all i lt), fun _ => rfl⟩
    · cases full.symm.trans some_
  obtain ⟨none, -⟩ | ⟨i', some_, lt, empty, before⟩ := freeSlot_spec (s := s)
  · cases free.symm.trans none
  cases free.symm.trans some_
  have notMem : i ∉ H := fun mem => (t.taken i).mpr mem empty
  obtain ⟨n, name, rfl, slots⟩ | ⟨neg, ne, slots⟩ := opens.slots
  · have opened : (Call.open_ path flags).opened H (i : Int) = insert i H := by
      rw [Call.opened, if_pos (Int.natCast_nonneg i), Int.toNat_natCast]
    rw [opened]
    refine ⟨⟨t.named.same opens.tree, fun j => ?_, fun j out => ?_, fun j mem => ?_⟩, fun _ => ?_, fun h => ?_,
      fun h => ?_⟩
    · rw [slots]
      by_cases e : j = i
      · subst e
        rw [Function.update_self]
        exact ⟨fun _ => Set.mem_insert .., fun _ => name⟩
      · rw [Function.update_of_ne e, Set.mem_insert_iff]
        exact (t.taken j).trans ⟨.inr, fun mem => mem.resolve_left e⟩
    · rw [Set.mem_insert_iff, not_or] at out
      rw [slots, Function.update_of_ne out.1]
      exact t.free j out.2
    · cases mem with
      | inl e =>
        subst e
        exact lt
      | inr mem => exact t.lt j mem
    · refine ⟨i, lt, rfl, notMem, fun j hj => (t.taken j).mp (before j hj), fun j hj => ?_⟩
      rw [slots]
      exact Function.update_of_ne hj ..
    · exact absurd h (by unfold EMFILE; omega)
    · exact absurd h (by omega)
  · have opened : (Call.open_ path flags).opened H ret = H := if_neg (not_le.mpr neg)
    rw [opened]
    refine ⟨⟨t.named.same opens.tree, fun j => ?_, fun j => ?_, t.lt⟩, fun h => absurd h (not_le.mpr neg),
      fun h => absurd h ne, fun _ => slots⟩
    · rw [slots]
      exact t.taken j
    · rw [slots]
      exact t.free j

/-- One call keeps track and obeys the law. -/
lemma Tracks.step (t : Tracks s A H) (keeps : KeepsNames D) (codes : ErrorCodes D) {c : Call} (noCreate : c.NoCreate)
    (run : c.run D s = some (ret, s')) : Tracks s' A (c.opened H ret) ∧ Law s s' H ret c := by
  cases c with
  | open_ path flags => exact t.open_ keeps codes noCreate run
  | close fd =>
    obtain rfl : (vfsClose D s fd).2 = s' := congrArg Prod.snd (Option.some.inj run)
    exact t.close
  | read fd buf count =>
    cases run
    have slot : OnSlot s (vfsRead D s fd buf count).2.2 fd := vfsRead_slots keeps
    exact ⟨t.onSlot slot, slot.others⟩
  | write fd buf bytes =>
    obtain rfl : (vfsWrite D s fd buf bytes).2 = s' := congrArg Prod.snd (Option.some.inj run)
    have slot : OnSlot s (vfsWrite D s fd buf bytes).2 fd := vfsWrite_slots keeps
    exact ⟨t.onSlot slot, slot.others⟩
  | lseek fd offset whence =>
    obtain rfl : (vfsLseek D s fd offset whence).2 = s' := congrArg Prod.snd (Option.some.inj run)
    have slot : OnSlot s (vfsLseek D s fd offset whence).2 fd := vfsLseek_slots keeps
    exact ⟨t.onSlot slot, slot.others⟩

/-- A run keeps track of what it has opened. -/
lemma Run.tracks (keeps : KeepsNames D) (codes : ErrorCodes D) (named : Named s0 A)
    (zero : ∀ i, s0.openFiles i = .zero) (run : Run D Call.NoCreate s0 s H) : Tracks s A H := by
  induction run with
  | start =>
    refine ⟨named, fun i => ?_, fun i _ => zero i, fun i mem => nomatch mem⟩
    rw [zero i]
    exact ⟨fun h => absurd rfl h, fun mem => nomatch mem⟩
  | step _ noCreate call ih => exact (ih.step keeps codes noCreate call).1

/-- The descriptor-table law, at every call of every run. -/
theorem descriptor_law (keeps : KeepsNames D) (codes : ErrorCodes D) (named : Named s0 A)
    (zero : ∀ i, s0.openFiles i = .zero) (run : Run D Call.NoCreate s0 s H) {c : Call} (noCreate : c.NoCreate)
    (call : c.run D s = some (ret, s')) : Law s s' H ret c :=
  ((run.tracks keeps codes named zero).step keeps codes noCreate call).2

/-! ## A callback that answers. -/

/-- Callbacks that do nothing; `open` returns `ret`. -/
def answering (ret : Int) : Driver Unit Unit where
  read _ d n _ _ := (0, [], n, d)
  write _ d n _ _ := (0, n, d)
  open_ _ d n _ := (ret, n, d)
  close _ d n := (0, n, d)
  readdir _ d n _ := (⟨[], 0, false⟩, n, d)
  finddir _ d _ _ := (-ENOENT, .zero, d)
  lseek _ d n _ _ := (0, n, d)

/-- A lone root directory with an `open` callback. -/
def openable : State Unit Unit where
  nodes _ := none
  buffers _ := []
  oom _ := false
  calls := 0
  vfsRoot := { Node.zero with name := [0x2F], flags := S_IFDIR ||| 0o755, open_ := some () }
  openFiles _ := .zero
  drv := ()

lemma answering_keepsNames : KeepsNames (answering ret) where
  finddir _ _ _ _ := (by decide : -ENOENT ≠ 0)
  read _ _ _ _ _ := rfl
  write _ _ _ _ _ := rfl
  open_ _ _ _ _ := rfl
  lseek _ _ _ _ _ := rfl

lemma openable_named : Named openable ∅ := by
  refine ⟨fun p up => ?_, (fun p hp => nomatch hp), List.cons_ne_nil _ _, (fun p hp => nomatch hp)⟩
  obtain h | h | h := up
  · cases h
  · cases h
  · cases h

/-- Opening `/` while the slots below `i` are taken. -/
lemma open_slash {s : State Unit Unit} (free : freeSlot s = some i) (root : s.vfsRoot = openable.vfsRoot) :
    vfsOpen (answering ret) s [0x2F] 0 =
      some (if ret ≠ 0 then (ret, s.setOpenFile i .zero) else (i, s.setOpenFile i openable.vfsRoot)) := by
  unfold vfsOpen
  rw [free]
  dsimp only
  rw [vfsLookup_slash, root]
  rfl

/-- With `open` callbacks that return 0, `/` is opened at 0 and then at 1. -/
theorem slash_opened_twice : ∃ s s', Run (answering 0) Call.NoCreate openable s {0} ∧
    (Call.open_ [0x2F] 0).run (answering 0) s = some (1, s') ∧ Law s s' {0} 1 (.open_ [0x2F] 0) := by
  have codes : ErrorCodes (answering 0) := by
    refine ⟨fun _ _ _ _ => ?_, fun _ _ _ => ?_⟩
    · exact (by decide : (0 : Int) ≤ 0 ∧ (0 : Int) ≠ -EMFILE)
    · exact (by decide : (0 : Int) ≠ -EMFILE)
  have first : (Call.open_ [0x2F] 0).run (answering 0) openable =
      some (0, openable.setOpenFile 0 openable.vfsRoot) := open_slash (i := 0) rfl rfl
  have second : (Call.open_ [0x2F] 0).run (answering 0) (openable.setOpenFile 0 openable.vfsRoot) =
      some (1, (openable.setOpenFile 0 openable.vfsRoot).setOpenFile 1 openable.vfsRoot) :=
    open_slash (i := 1) (s := openable.setOpenFile 0 openable.vfsRoot) rfl rfl
  have noCreate : (Call.open_ [0x2F] 0).NoCreate := by
    rw [Call.NoCreate]
    rfl
  have run := Run.step (P := Call.NoCreate) .start noCreate first
  have opened : (Call.open_ [0x2F] 0).opened ∅ 0 = {0} := by simp [Call.opened]
  rw [opened] at run
  exact ⟨_, _, run, second,
    descriptor_law answering_keepsNames codes openable_named (fun _ => rfl) run noCreate second⟩

/-- An `open` callback that returns 5 makes `vfs_open` return 5 while every descriptor is closed. -/
theorem callback_value_returned : KeepsNames (answering 5) ∧ Named openable ∅ ∧ (∀ i, openable.openFiles i = .zero) ∧
    ∃ s', (Call.open_ [0x2F] 0).run (answering 5) openable = some (5, s') ∧
      ¬ Law openable s' ∅ 5 (.open_ [0x2F] 0) := by
  refine ⟨answering_keepsNames, openable_named, fun _ => rfl, _, open_slash (i := 0) rfl rfl, fun law => ?_⟩
  obtain ⟨i, -, ret, -, before, -⟩ := law.1 (by decide)
  exact before 0 (by omega)

end RetaOS.Vfs
