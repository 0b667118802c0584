import RetaOS.Vfs.Descriptors
import RetaOS.Vfs.LongPaths
import RetaOS.Lib.Runs
import RetaOS.Lib.Word

/-!
# Descriptors that share a buffer

`vfs_open` copies the node of a file, so that the node in the tree and all descriptors of the file point to one data
buffer. A `Session` is a run of calls on one file in memory, with the content the file has by the writes that
succeeded and the buffers that writes have freed. `Session.Coherent` says that the tree and every descriptor show that
content and no pointer to a freed buffer is left. `session_coherent` proves it for runs whose calls are in place: no
write past the end gets a larger buffer, and no open gets as far as truncating a file with any bytes.
`grown_incoherent` shows what a larger buffer does: the old one is freed, and the node in the tree points to it for
good.
-/

namespace RetaOS.Vfs
open Lib

variable {F σ : Type} {D : Driver F σ} {s s' : State F σ} {n m : Node F} {p d i : Nat} {path : List UInt8}
  {flags buf count : UInt32} {bytes c : List UInt8} {fd ret : Int}

/-! ## Files in memory. -/

/-- A file in memory with its data at `d`, which `vfs_write` lets anyone write to. -/
structure InMemory (n : Node F) (d : Nat) : Prop where
  name : n.name ≠ []
  file : n.flags &&& FT_DIR = 0
  append : n.flags &&& O_APPEND ≠ 0
  read : n.read = none
  write : n.write = none
  data : n.data = some d

/-- The node at some position. -/
def Moved (n m : Node F) : Prop := ∃ v, m = { n with position := v }

/-- The callbacks of a node that opens and seeks call: they move the position only, and `open` returns 0 or an error. -/
structure OnlyMoves (D : Driver F σ) (n : Node F) : Prop where
  opens : ∀ f e flags m, n.open_ = some f → Moved n m →
    (D.open_ f e m flags).1 ≤ 0 ∧ Moved n (D.open_ f e m flags).2.1
  lseek : ∀ f e off whence m, n.lseek = some f → Moved n m → Moved n (D.lseek f e m off whence).2.1

/-- The path leads to the node at `p` as long as the tree stays as it is. -/
def LeadsTo (D : Driver F σ) (s : State F σ) (p : Nat) (path : List UInt8) : Prop :=
  ∀ s', SameTree s s' → lookupOf D s' path = some (0, s.node p)

/-! ## Sessions. -/

/-- The state of a run of calls on one file, with its open descriptors, the buffers that were freed and the content that
    the file should have. -/
structure Session (F σ : Type) where
  state : State F σ
  fds : Set Nat
  freed : Set Nat
  content : List UInt8

/-- The content of a file after a write of `bytes` at `p`, with zeros in the hole before it. -/
def written (old : List UInt8) (p : Nat) (bytes : List UInt8) : List UInt8 :=
  old.take p ++ List.replicate (p - old.length) 0 ++ bytes ++ old.drop (p + bytes.length)

namespace Call

/-- The buffers that a call frees: a write frees the buffer that it replaces. -/
def frees (s s' : State F σ) : Call → Set Nat
  | .write fd _ _ => {d | (s.openFiles fd.toNat).data = some d ∧ (s'.openFiles fd.toNat).data ≠ some d}
  | _ => ∅

/-- The content after a call that returned `ret`. -/
def content (s : State F σ) (ret : Int) (old : List UInt8) : Call → List UInt8
  | .write fd _ bytes => if 0 ≤ ret then written old (s.openFiles fd.toNat).position.toNat bytes else old
  | _ => old

/-- The call opens the file at `p`, or it is on one of its descriptors; a count is a number of 32 bits. -/
def OnFile (D : Driver F σ) (s : State F σ) (p : Nat) (w : Session F σ) : Call → Prop
  | .open_ path _ => LeadsTo D s p path
  | .close fd | .read fd _ _ | .lseek fd _ _ => ∃ i ∈ w.fds, fd = (i : Nat)
  | .write fd _ bytes => (∃ i ∈ w.fds, fd = (i : Nat)) ∧ bytes.length < 2 ^ 32

/-- An open of `n` with these flags does not cut it, or it has no bytes. -/
def Uncut (n : Node F) (flags : UInt32) : Prop :=
  n.size = 0 ∨ n.flags &&& O_TRUNC = 0 ∨ flags &&& O_TRUNC = 0 ∨ flags &&& O_ACCMODE = O_RDONLY

/-- `vfs_open` refuses the file `n` for its permissions, or because it exists. -/
def Denied (n : Node F) (flags : UInt32) : Prop :=
  accessAllowed n (flags &&& O_ACCMODE) = false ∨ flags &&& O_EXCL ≠ 0 ∧ flags &&& O_CREAT ≠ 0

/-- The call leaves the buffer of the file `n` where it is: an open does not cut a file that has any bytes, or it is
    refused before it does, and a write ends inside the file, or there is no buffer to read from or no memory for a
    larger one. -/
def InPlace (n : Node F) (w : Session F σ) : Call → Prop
  | .open_ _ flags => Uncut n flags ∨ Denied n flags ∨ freeSlot w.state = none
  | .write fd buf bytes =>
    let m := w.state.openFiles fd.toNat
    buf = 0 ∨ m.position.toNat + bytes.length ≤ m.size.toNat ∧ bytes.length < 2 ^ 31 ∨
      m.position + UInt32.ofNat bytes.length > m.size ∧ w.state.oom w.state.calls = true
  | _ => True

end Call

namespace Session

variable {w w' : Session F σ} {x : Call}

/-- One call of a session. -/
def next (D : Driver F σ) (w : Session F σ) (x : Call) : Option (Session F σ) :=
  (x.run D w.state).map fun (ret, s') =>
    ⟨s', x.opened w.fds ret, w.freed ∪ x.frees w.state s', x.content w.state ret w.content⟩

/-- A session with a file before its first call. -/
def start (s : State F σ) (c : List UInt8) : Session F σ := ⟨s, ∅, ∅, c⟩

/-- Reads of the descriptor `i` deliver the bytes of `c` behind its position, for sums of 32 bits. -/
def Reads (D : Driver F σ) (s : State F σ) (i : Nat) (c : List UInt8) : Prop :=
  ∀ buf count, buf ≠ 0 → (s.openFiles i).position.toNat + count.toNat < 2 ^ 32 →
    (vfsRead D s i buf count).2.1 = (c.drop (s.openFiles i).position.toNat).take count.toNat

/-- The node in the tree and every descriptor show the content of the file, and no node and no descriptor has a pointer
    to a freed buffer. -/
structure Coherent (D : Driver F σ) (p : Nat) (w : Session F σ) : Prop where
  file : ∃ d, (w.state.node p).data = some d ∧ (w.state.node p).size.toNat = w.content.length ∧
    (w.state.buffers d).take w.content.length = w.content
  reads : ∀ i ∈ w.fds, Reads D w.state i w.content
  alive : ∀ d ∈ w.freed, (∀ q n, w.state.nodes q = some n → n.data ≠ some d) ∧
    ∀ i, (w.state.openFiles i).data ≠ some d

/-- The invariant of calls in place: one buffer, which the node at `p` and all descriptors point to. -/
structure Shared (s : State F σ) (p d : Nat) (w : Session F σ) : Prop where
  tree : SameTree s w.state
  size : (s.node p).size.toNat = w.content.length
  held : (w.state.buffers d).take w.content.length = w.content
  slots : ∀ i ∈ w.fds, i < MAX_OPEN_FILES ∧ Moved (s.node p) (w.state.openFiles i)
  freed : w.freed = ∅

end Session

/-! ## Reading what is shared. -/

lemma SameTree.node (h : SameTree s s') (p : Nat) : s'.node p = s.node p := by
  rw [State.node, State.node, h.nodes]

lemma SameTree.trans {s1 : State F σ} (h : SameTree s s1) (h' : SameTree s1 s') : SameTree s s' :=
  ⟨h'.nodes.trans h.nodes, h'.root.trans h.root⟩

lemma Moved.inMemory (h : Moved n m) (file : InMemory n d) : InMemory m d := by
  obtain ⟨v, rfl⟩ := h
  exact ⟨file.name, file.file, file.append, file.read, file.write, file.data⟩

lemma Moved.size (h : Moved n m) : m.size = n.size := by
  obtain ⟨v, rfl⟩ := h
  rfl

lemma Moved.trans {m' : Node F} (h : Moved n m) (v : UInt32) (h' : m' = { m with position := v }) : Moved n m' := by
  obtain ⟨u, rfl⟩ := h
  exact ⟨v, h'⟩

/-- What `vfs_read` takes from a buffer is what lies behind the position in the file. -/
lemma clampRead_take {b : List UInt8} (size : n.size.toNat = c.length) (held : b.take c.length = c)
    (more : n.position < n.size) (fits : n.position.toNat + count.toNat < 2 ^ 32) :
    (b.drop n.position.toNat).take (clampRead n count).toNat = (c.drop n.position.toNat).take count.toNat := by
  have lt := UInt32.lt_iff_toNat_lt.mp more
  have sum : (n.position + count).toNat = n.position.toNat + count.toNat := toNat_add_of_lt fits
  have clamp : (clampRead n count).toNat = min count.toNat (c.length - n.position.toNat) := by
    unfold clampRead
    split_ifs with h
    · have gt := UInt32.lt_iff_toNat_lt.mp h
      have diff : (n.size - n.position).toNat = n.size.toNat - n.position.toNat :=
        UInt32.toNat_sub_of_le _ _ (UInt32.le_of_lt more)
      rw [diff, size]
      omega
    · have le := UInt32.le_iff_toNat_le.mp (UInt32.not_lt.mp h)
      omega
  have cut : c.drop n.position.toNat = (b.drop n.position.toNat).take (c.length - n.position.toNat) := by
    rw [← List.drop_take, held]
  rw [cut, List.take_take, clamp]

/-- A descriptor that shares the buffer reads the content. -/
lemma reads_of_moved (file : InMemory n d) (size : n.size.toNat = c.length) (held : (s.buffers d).take c.length = c)
    (lt : i < MAX_OPEN_FILES) (moved : Moved n (s.openFiles i)) : Session.Reads D s i c := by
  intro buf count nonnull fits
  have slot := moved.inMemory file
  have open_ : openFile s i = some i := openFile_eq_some.mpr ⟨rfl, lt, slot.name⟩
  rw [← moved.size] at size
  obtain ⟨-, readable, run⟩ | ⟨refused, ret, -, run⟩ := vfsRead_cases D buf count open_
  · rw [run]
    unfold readSlot
    dsimp only
    rw [slot.read, slot.data]
    exact clampRead_take size held readable.more fits
  · rw [run]
    have atEnd : ¬ (s.openFiles i).position < (s.openFiles i).size := by
      intro more
      refine refused ⟨nonnull, slot.file, .inr ?_, more⟩
      rw [slot.data]
      nofun
    have le := UInt32.le_iff_toNat_le.mp (UInt32.not_lt.mp atEnd)
    rw [List.drop_eq_nil_of_le (size ▸ le), List.take_nil]

namespace Session

variable {w w' : Session F σ} {x : Call}

lemma Shared.coherent (h : Shared s p d w) (file : InMemory (s.node p) d) : w.Coherent D p := by
  have node := h.tree.node p
  refine ⟨⟨d, ?_, ?_, h.held⟩, ?_, ?_⟩
  · rw [node]
    exact file.data
  · rw [node]
    exact h.size
  · intro i hi
    obtain ⟨lt, moved⟩ := h.slots i hi
    exact reads_of_moved file h.size h.held lt moved
  · intro e he
    rw [h.freed] at he
    cases he

/-- A call that keeps the tree and the buffers, and moves the file in the slots that are open afterwards. -/
lemma Shared.of_slots (h : Shared s p d w) (tree : SameTree w.state s') (buffers : s'.buffers = w.state.buffers)
    (freed : x.frees w.state s' = ∅) (content : x.content w.state ret w.content = w.content)
    (slots : ∀ i ∈ x.opened w.fds ret, i < MAX_OPEN_FILES ∧ Moved (s.node p) (s'.openFiles i)) :
    Shared s p d ⟨s', x.opened w.fds ret, w.freed ∪ x.frees w.state s', x.content w.state ret w.content⟩ := by
  rw [content, freed, Set.union_empty]
  refine ⟨h.tree.trans tree, h.size, ?_, slots, h.freed⟩
  rw [buffers]
  exact h.held

/-- The slot of a descriptor of the file. -/
lemma Shared.openFile (h : Shared s p d w) (file : InMemory (s.node p) d) (hi : i ∈ w.fds) :
    openFile w.state i = some i := by
  obtain ⟨lt, moved⟩ := h.slots i hi
  exact openFile_eq_some.mpr ⟨rfl, lt, (moved.inMemory file).name⟩

/-- A slot moved within the file, the others as they were. -/
lemma Shared.update (h : Shared s p d w) (moved : Moved (s.node p) m) (slots : s'.openFiles =
    Function.update w.state.openFiles i m) : ∀ j ∈ w.fds, j < MAX_OPEN_FILES ∧ Moved (s.node p) (s'.openFiles j) := by
  intro j hj
  refine ⟨(h.slots j hj).1, ?_⟩
  rw [slots]
  by_cases e : j = i
  · rw [e, Function.update_self]
    exact moved
  · rw [Function.update_of_ne e]
    exact (h.slots j hj).2

end Session

/-! ## Opening. -/

/-- An open in place puts the node in the slot as it is in the tree. -/
lemma truncate_inPlace (file : InMemory n d) (uncut : Call.Uncut n flags) : truncate D s n flags = (.ok n, s) := by
  unfold truncate
  by_cases asks : flags &&& O_TRUNC ≠ 0 ∧ flags &&& O_ACCMODE ≠ O_RDONLY
  · rw [if_pos asks]
    by_cases cuts : n.flags &&& O_TRUNC ≠ 0
    · rw [if_pos cuts]
      obtain empty | no | no | no := uncut
      · have same : { n with size := 0 } = n := by rw [← empty]
        rw [same]
      · exact absurd no cuts
      · exact absurd no asks.1
      · exact absurd no asks.2
    · rw [if_neg cuts]
      cases n
      cases file.write
      rfl
  · rw [if_neg asks]

/-- The end of `vfs_open` fills the slot with the node at some position, or it fails. -/
lemma fillSlot_moved (moves : OnlyMoves D n) (moved : Moved n m) (run : fillSlot D s i m flags = (ret, s')) :
    SameTree s s' ∧ s'.buffers = s.buffers ∧ (∀ j ≠ i, s'.openFiles j = s.openFiles j) ∧
      (0 ≤ ret → ret = i ∧ Moved n (s'.openFiles i)) := by
  have callback : m.open_ = n.open_ := by
    obtain ⟨v, rfl⟩ := moved
    rfl
  unfold fillSlot at run
  cases hf : m.open_ with
  | none =>
    rw [hf] at run
    cases run
    refine ⟨⟨rfl, rfl⟩, rfl, fun j ne => Function.update_of_ne ne _ _, fun _ => ⟨rfl, ?_⟩⟩
    change Moved n (Function.update s.openFiles i m i)
    rw [Function.update_self]
    exact moved
  | some f =>
    obtain ⟨le, moved'⟩ := moves.opens f s.drv flags m (callback ▸ hf) moved
    rw [hf] at run
    dsimp only at run
    split_ifs at run with failed
    · cases run
      refine ⟨⟨rfl, rfl⟩, rfl, fun j ne => Function.update_of_ne ne _ _, fun nonneg => ?_⟩
      exact absurd (le_antisymm le nonneg) failed
    · cases run
      refine ⟨⟨rfl, rfl⟩, rfl, fun j ne => Function.update_of_ne ne _ _, fun _ => ⟨rfl, ?_⟩⟩
      change Moved n (Function.update s.openFiles i _ i)
      rw [Function.update_self]
      exact moved'

/-- The refusals of `vfs_open`. -/
lemma refusal_of_denied (denied : Call.Denied n flags) : refusal n flags ≠ none := by
  intro none
  unfold refusal at none
  split_ifs at none with dir access exists_
  exact denied.elim access exists_

/-- `vfs_open` of the node of a file in memory. -/
lemma openNode_moved (file : InMemory n d) (moves : OnlyMoves D n) (inPlace : Call.Uncut n flags ∨ Call.Denied n flags)
    (run : openNode D s i n flags = (ret, s')) :
    SameTree s s' ∧ s'.buffers = s.buffers ∧ (∀ j ≠ i, s'.openFiles j = s.openFiles j) ∧
      (0 ≤ ret → ret = i ∧ Moved n (s'.openFiles i)) := by
  rw [openNode_eq] at run
  cases refused : refusal n flags with
  | some e =>
    rw [refused] at run
    cases run
    refine ⟨⟨rfl, rfl⟩, rfl, fun _ _ => rfl, fun nonneg => ?_⟩
    obtain rfl | rfl | rfl := refusal_mem refused
    all_goals exact absurd nonneg (by decide)
  | none =>
    have uncut := inPlace.resolve_right fun denied => refusal_of_denied denied refused
    rw [refused, truncate_inPlace file uncut] at run
    exact fillSlot_moved moves ⟨_, rfl⟩ run

namespace Session

variable {w w' : Session F σ} {x : Call}

lemma Shared.open_ (h : Shared s p d w) (file : InMemory (s.node p) d) (moves : OnlyMoves D (s.node p))
    (leads : LeadsTo D s p path) (inPlace : Call.InPlace (s.node p) w (.open_ path flags))
    (run : next D w (.open_ path flags) = some w') : Shared s p d w' := by
  obtain ⟨⟨ret, s'⟩, opens, rfl⟩ := Option.map_eq_some_iff.mp run
  change vfsOpen D w.state path flags = some (ret, s') at opens
  rw [vfsOpen_eq] at opens
  obtain ⟨full, -⟩ | ⟨j, free, lt, empty, -⟩ := freeSlot_spec (s := w.state)
  · rw [full] at opens
    cases opens
    exact h.of_slots ⟨rfl, rfl⟩ rfl rfl rfl h.slots
  · have look := leads w.state h.tree
    obtain ⟨⟨r, n, s1⟩, found, same⟩ := Option.map_eq_some_iff.mp look
    cases same
    obtain ⟨e, rfl⟩ := vfsLookup_state found
    have target : openTarget D w.state path flags = some (.ok (s.node p), { w.state with drv := e }) := by
      rw [openTarget, found]
      rfl
    have room : freeSlot w.state ≠ none := by simp [free]
    have kept : Call.Uncut (s.node p) flags ∨ Call.Denied (s.node p) flags :=
      inPlace.imp_right fun denied => denied.resolve_right room
    rw [free, target] at opens
    obtain ⟨tree, buffers, others, slot⟩ := openNode_moved file moves kept (Option.some.inj opens)
    -- the slot that was free is none of those of the file
    have new : ∀ i ∈ w.fds, i ≠ j := by
      rintro i hi rfl
      exact ((h.slots i hi).2.inMemory file).name empty
    refine h.of_slots ⟨tree.nodes, tree.root⟩ buffers rfl rfl fun i hi => ?_
    by_cases ok : 0 ≤ ret
    · obtain ⟨rfl, moved⟩ := slot ok
      rw [Call.opened, if_pos ok, Int.toNat_natCast] at hi
      obtain rfl | hi := hi
      · exact ⟨lt, moved⟩
      · rw [others i (new i hi)]
        exact h.slots i hi
    · rw [Call.opened, if_neg ok] at hi
      rw [others i (new i hi)]
      exact h.slots i hi

lemma Shared.close (h : Shared s p d w) (run : next D w (.close fd) = some w') : Shared s p d w' := by
  obtain ⟨⟨ret, s'⟩, closes, rfl⟩ := Option.map_eq_some_iff.mp run
  obtain ⟨tree, slots⟩ := vfsClose_slots D w.state fd
  have buffers : (vfsClose D w.state fd).2.buffers = w.state.buffers := by
    unfold vfsClose
    cases Vfs.openFile w.state fd with
    | none => rfl
    | some i =>
      dsimp only
      cases (w.state.openFiles i).close with
      | none => rfl
      | some f => rfl
  have result : vfsClose D w.state fd = (ret, s') := Option.some.inj closes
  rw [result] at tree slots buffers
  refine h.of_slots tree buffers rfl rfl fun i hi => ?_
  obtain ⟨hi, ne⟩ := hi
  obtain ⟨-, same⟩ | ⟨j, open_, same⟩ := slots
  · rw [same]
    exact h.slots i hi
  · obtain ⟨rfl, -, -⟩ := openFile_eq_some.mp open_
    rw [same, Function.update_of_ne (by omega)]
    exact h.slots i hi

lemma Shared.read (h : Shared s p d w) (file : InMemory (s.node p) d) (hi : i ∈ w.fds)
    (run : next D w (.read i buf count) = some w') : Shared s p d w' := by
  obtain ⟨⟨ret, s'⟩, reads, rfl⟩ := Option.map_eq_some_iff.mp run
  have moved := (h.slots i hi).2
  have slot := moved.inMemory file
  cases Option.some.inj reads
  obtain ⟨-, -, e⟩ | ⟨-, r, -, e⟩ := vfsRead_cases D buf count (h.openFile file hi)
  · rw [e, readSlot_data slot.read slot.data]
    exact h.of_slots ⟨rfl, rfl⟩ rfl rfl rfl (h.update (moved.trans _ rfl) rfl)
  · rw [e]
    exact h.of_slots ⟨rfl, rfl⟩ rfl rfl rfl h.slots

lemma Shared.lseek {offset : Int32} {whence : Int} (h : Shared s p d w) (file : InMemory (s.node p) d)
    (moves : OnlyMoves D (s.node p)) (hi : i ∈ w.fds) (run : next D w (.lseek i offset whence) = some w') :
    Shared s p d w' := by
  obtain ⟨⟨ret, s'⟩, seeks, rfl⟩ := Option.map_eq_some_iff.mp run
  have moved := (h.slots i hi).2
  have callback : (w.state.openFiles i).lseek = (s.node p).lseek := by
    obtain ⟨v, e⟩ := moved
    rw [e]
  have open_ := h.openFile file hi
  have result : vfsLseek D w.state i offset whence = (ret, s') := Option.some.inj seeks
  cases hf : (w.state.openFiles i).lseek with
  | none =>
    rw [vfsLseek_plain open_ hf] at result
    cases target : seekTo (w.state.openFiles i) offset whence with
    | none =>
      rw [target] at result
      cases result
      exact h.of_slots ⟨rfl, rfl⟩ rfl rfl rfl h.slots
    | some newPos =>
      rw [target] at result
      dsimp only at result
      split_ifs at result
      · cases result
        exact h.of_slots ⟨rfl, rfl⟩ rfl rfl rfl h.slots
      · cases result
        exact h.of_slots ⟨rfl, rfl⟩ rfl rfl rfl (h.update (moved.trans newPos rfl) rfl)
  | some f =>
    have moved' := moves.lseek f w.state.drv offset whence _ (callback ▸ hf) moved
    unfold vfsLseek at result
    rw [open_] at result
    dsimp only at result
    rw [hf] at result
    cases target : seekTo (w.state.openFiles i) offset whence with
    | none =>
      rw [target] at result
      cases result
      exact h.of_slots ⟨rfl, rfl⟩ rfl rfl rfl h.slots
    | some newPos =>
      rw [target] at result
      dsimp only at result
      split_ifs at result
      · cases result
        exact h.of_slots ⟨rfl, rfl⟩ rfl rfl rfl h.slots
      · cases result
        exact h.of_slots ⟨rfl, rfl⟩ rfl rfl rfl (h.update moved' rfl)

end Session

/-! ## Writing. -/

/-- A write inside the file, in a buffer that holds the content. -/
lemma overwrite_held {b : List UInt8} {k : Nat} (held : b.take c.length = c) (inside : k + bytes.length ≤ c.length) :
    (overwrite b k bytes).take (written c k bytes).length = written c k bytes ∧
      (written c k bytes).length = c.length := by
  have long : c.length ≤ b.length := by
    have len := congrArg List.length held
    rw [List.length_take] at len
    omega
  have front : c.take k = b.take k := by
    rw [← held, List.take_take, min_eq_left (by omega)]
  have back : c.drop (k + bytes.length) = (b.drop (k + bytes.length)).take (c.length - (k + bytes.length)) := by
    rw [← List.drop_take, held]
  have noHole (l : List UInt8) (h : c.length ≤ l.length) : List.replicate (k - l.length) (0 : UInt8) = [] := by
    rw [Nat.sub_eq_zero_of_le (by omega), List.replicate_zero]
  have len : (written c k bytes).length = c.length := by
    rw [written, noHole c le_rfl, List.append_nil, List.length_append, List.length_append, List.length_take,
      List.length_drop]
    omega
  have front_length : (b.take k ++ bytes).length = k + bytes.length := by
    rw [List.length_append, List.length_take, min_eq_left (by omega)]
  refine ⟨?_, len⟩
  rw [len, overwrite, written, noHole b long, noHole c le_rfl, List.append_nil, List.append_nil, front, back,
    List.take_append, front_length, List.take_of_length_le (by rw [front_length]; exact inside)]

/-- A write inside the file returns the count and changes the bytes of the buffer in their place. -/
lemma storeData_inside (inside : (s.openFiles i).position.toNat + bytes.length ≤ (s.openFiles i).size.toNat) :
    storeData s i d bytes = ((UInt32.ofNat bytes.length).toInt32.toInt,
      { s.setOpenFile i { s.openFiles i with position := (s.openFiles i).position + UInt32.ofNat bytes.length } with
        buffers := Function.update s.buffers d
          (overwrite (s.buffers d) (s.openFiles i).position.toNat bytes) }) := by
  have top := (s.openFiles i).size.toNat_lt
  have len : (UInt32.ofNat bytes.length).toNat = bytes.length := toNat_ofNat_lt (by omega)
  have sum : ((s.openFiles i).position + UInt32.ofNat bytes.length).toNat =
      (s.openFiles i).position.toNat + bytes.length := by
    rw [toNat_add_of_lt (by omega), len]
  have fits : ¬ (s.openFiles i).position + UInt32.ofNat bytes.length > (s.openFiles i).size := by
    intro gt
    have lt := UInt32.lt_iff_toNat_lt.mp gt
    omega
  rw [storeData, growTo, if_neg fits]

/-- Without memory for a larger buffer a write changes nothing. -/
lemma storeData_full (grows : (s.openFiles i).position + UInt32.ofNat bytes.length > (s.openFiles i).size)
    (full : s.oom s.calls = true) : storeData s i d bytes = (-ENOMEM, s.tick) := by
  rw [storeData, growTo, if_pos grows, growData, kmalloc_none full]

namespace Session

variable {w w' : Session F σ} {x : Call}

/-- A call that frees nothing and leaves the content is one of a session without changes. -/
lemma Shared.refused (h : Shared s p d w) (tree : SameTree w.state s') (buffers : s'.buffers = w.state.buffers)
    (slots : s'.openFiles = w.state.openFiles) (neg : ret < 0) :
    Shared s p d ⟨s', w.fds, w.freed ∪ Call.frees w.state s' (.write fd buf bytes),
      Call.content w.state ret w.content (.write fd buf bytes)⟩ := by
  have freed : Call.frees w.state s' (.write fd buf bytes) = ∅ := by
    rw [Call.frees, slots]
    exact Set.eq_empty_of_forall_notMem fun e he => he.2 he.1
  refine h.of_slots (x := .write fd buf bytes) tree buffers freed (if_neg (not_le.mpr neg)) fun j hj => ?_
  rw [slots]
  exact h.slots j hj

/-- A write through a descriptor of the file goes to its buffer. -/
lemma Shared.writeSlot (h : Shared s p d w) (file : InMemory (s.node p) d) (hi : i ∈ w.fds) (bytes : List UInt8) :
    writeSlot D w.state i bytes = storeData w.state i d bytes := by
  have slot := (h.slots i hi).2.inMemory file
  unfold Vfs.writeSlot
  dsimp only
  rw [slot.write, slot.data]

lemma Shared.write (h : Shared s p d w) (file : InMemory (s.node p) d) (hi : i ∈ w.fds)
    (inPlace : Call.InPlace (s.node p) w (.write i buf bytes)) (run : next D w (.write i buf bytes) = some w') :
    Shared s p d w' := by
  obtain ⟨⟨ret, s'⟩, writes, rfl⟩ := Option.map_eq_some_iff.mp run
  have result : vfsWrite D w.state i buf bytes = (ret, s') := Option.some.inj writes
  obtain ⟨-, moved⟩ := h.slots i hi
  obtain ⟨nonnull, -, e⟩ | ⟨-, r, neg, e⟩ := vfsWrite_cases D buf bytes (h.openFile file hi)
  · rw [e, h.writeSlot file hi] at result
    obtain null | ⟨inside, small⟩ | ⟨grows, full⟩ := inPlace
    · exact absurd null nonnull
    · rw [Int.toNat_natCast] at inside
      rw [storeData_inside inside] at result
      cases result
      have nonneg : 0 ≤ (UInt32.ofNat bytes.length).toInt32.toInt := by
        rw [toInt_of_lt]
        · exact Int.natCast_nonneg _
        · rwa [toNat_ofNat_lt (by omega)]
      have content : Call.content w.state (UInt32.ofNat bytes.length).toInt32.toInt w.content (.write i buf bytes) =
          written w.content (w.state.openFiles i).position.toNat bytes := if_pos nonneg
      rw [moved.size, h.size] at inside
      obtain ⟨held, len⟩ := overwrite_held h.held inside
      dsimp only
      refine ⟨⟨h.tree.nodes, h.tree.root⟩, ?_, ?_, h.update (moved.trans _ rfl) rfl, ?_⟩
      · rw [content, len]
        exact h.size
      · rw [content]
        change (Function.update w.state.buffers d _ d).take _ = _
        rw [Function.update_self]
        exact held
      · rw [h.freed, Set.empty_union]
        refine Set.eq_empty_of_forall_notMem fun e he => he.2 ?_
        change (Function.update w.state.openFiles i _ i).data = some e
        rw [Function.update_self]
        exact he.1
    · rw [Int.toNat_natCast] at grows
      rw [storeData_full grows full] at result
      cases result
      exact h.refused ⟨rfl, rfl⟩ rfl rfl (by decide)
  · rw [e] at result
    cases result
    exact h.refused ⟨rfl, rfl⟩ rfl rfl neg

/-! ## Runs. -/

/-- One call in place keeps the invariant. -/
theorem Shared.step (h : Shared s p d w) (file : InMemory (s.node p) d) (moves : OnlyMoves D (s.node p))
    (onFile : Call.OnFile D s p w x) (inPlace : Call.InPlace (s.node p) w x) (run : next D w x = some w') :
    Shared s p d w' := by
  cases x with
  | open_ path flags => exact h.open_ file moves onFile inPlace run
  | close fd => exact h.close run
  | read fd buf count =>
    obtain ⟨i, hi, rfl⟩ := onFile
    exact h.read file hi run
  | write fd buf bytes =>
    obtain ⟨⟨i, hi, rfl⟩, -⟩ := onFile
    exact h.write file hi inPlace run
  | lseek fd offset whence =>
    obtain ⟨i, hi, rfl⟩ := onFile
    exact h.lseek file moves hi run

end Session

/-- Calls in place on a file in memory: every state of the run is coherent. -/
theorem session_coherent (D : Driver F σ) (s : State F σ) (p d : Nat) (c : List UInt8)
    (file : InMemory (s.node p) d) (moves : OnlyMoves D (s.node p)) (size : (s.node p).size.toNat = c.length)
    (held : (s.buffers d).take c.length = c) (w : Session F σ)
    (run : Runs (Session.next D) (fun w x => x.OnFile D s p w ∧ x.InPlace (s.node p) w) (.start s c) w) :
    w.Coherent D p := by
  have start : Session.Shared s p d (.start s c) := ⟨⟨rfl, rfl⟩, size, held, nofun, rfl⟩
  have shared := run.invariant start fun w x w' h ok e => h.step file moves ok.1 ok.2 e
  exact shared.coherent file

/-! ## A larger buffer. -/

/-- A write that gets a larger buffer frees the one that the node in the tree points to. -/
theorem grown_incoherent {w w' : Session F σ} (h : Session.Shared s p d w) (file : InMemory (s.node p) d)
    (hi : i ∈ w.fds) (nonnull : buf ≠ 0)
    (grows : (w.state.openFiles i).position + UInt32.ofNat bytes.length > (w.state.openFiles i).size)
    (free : w.state.oom w.state.calls = false) (new : w.state.calls ≠ d)
    (run : Session.next D w (.write i buf bytes) = some w') : ¬ w'.Coherent D p := by
  obtain ⟨⟨ret, s'⟩, writes, rfl⟩ := Option.map_eq_some_iff.mp run
  have result : vfsWrite D w.state i buf bytes = (ret, s') := Option.some.inj writes
  obtain ⟨lt, moved⟩ := h.slots i hi
  have slot := moved.inMemory file
  have node : w.state.nodes p = some (w.state.node p) := by
    cases e : w.state.nodes p with
    | none =>
      have zero : w.state.node p = .zero := by rw [State.node, e, Option.getD_none]
      exact absurd (congrArg Node.name ((h.tree.node p).symm.trans zero)) file.name
    | some n => rw [State.node, e, Option.getD_some]
  obtain ⟨-, -, e⟩ | ⟨refused, -⟩ := vfsWrite_cases D buf bytes (h.openFile file hi)
  · rw [e, h.writeSlot file hi, storeData, growTo, if_pos grows, growData, kmalloc_some free] at result
    cases result
    intro coherent
    refine (coherent.alive d (.inr ⟨slot.data, ?_⟩)).1 p _ node ?_
    · change (Function.update w.state.openFiles i _ i).data ≠ some d
      rw [Function.update_self]
      exact fun same => new (Option.some.inj same)
    · rw [h.tree.node p]
      exact file.data
  · exact absurd ⟨nonnull, slot.file, .inr slot.append⟩ refused

/-- A tree with one file `f` in memory, of the byte `A`. -/
def memoryDir : Node Unit := { Node.zero with name := [0x2F], flags := S_IFDIR, children := some 1 }

def memoryFile : Node Unit :=
  { Node.zero with
    name := [0x66]
    flags := S_IFREG ||| O_APPEND ||| 0o666
    size := 1
    data := some 2
    parent := some 0 }

def memoryState : State Unit Unit :=
  { rooted (fun p => if p = 0 then some memoryDir else if p = 1 then some memoryFile else none) memoryDir with
    buffers := fun _ => [0x41]
    calls := 3 }

/-- A driver without files. -/
def noFiles : Driver Unit Unit := .fixed (fun _ _ => none) fun _ => []

lemma memoryFile_inMemory : InMemory (memoryState.node 1) 2 :=
  ⟨by decide, by decide, by decide, rfl, rfl, rfl⟩

lemma memoryFile_moves : OnlyMoves noFiles (memoryState.node 1) := by
  have node : memoryState.node 1 = memoryFile := rfl
  rw [node]
  refine ⟨fun f e flags m h => ?_, fun f e off whence m h => ?_⟩
  · cases h
  · cases h

lemma memoryFile_leads : LeadsTo noFiles memoryState 1 [0x2F, 0x66] := by
  intro s' same
  have kids : Linked (fun p => (s'.node p).next) (some 1) [1] := by
    refine .cons ?_
    rw [same.node 1]
    exact .nil
  have found : findChild s' memoryDir [0x66] = some (some 1) := by
    refine kids.search_eq.trans ?_
    rw [List.find?_cons_of_pos]
    rw [same.node 1]
    decide
  have child : lookupChild noFiles s' memoryDir [0x66] s'.drv = some (some (memoryState.node 1), s'.drv) := by
    have missing : ¬ -ENOENT = 0 := by decide
    have noCallback : memoryDir.finddir = none := rfl
    simp only [lookupChild, noCallback, if_neg missing, found, Option.map_some, same.node 1]
  have way : course noFiles s' s'.vfsRoot s'.drv (lookupComponents [0x2F, 0x66]) =
      .done 0 (memoryState.node 1) s'.drv := by
    have spelled : lookupComponents [0x2F, 0x66] = [[0x66]] := by decide
    have root : s'.vfsRoot = memoryDir := same.root
    have file : ¬ IsLink (memoryState.node 1) := by decide
    rw [spelled, root, course, if_neg (by decide), if_neg (by decide), child]
    simp only [if_neg file, course]
  rw [lookupOf, course_lookup way]
  rfl

/-- The file opened for reading and writing. -/
def memoryOpened : Session Unit Unit :=
  ⟨memoryState.setOpenFile 0 memoryFile, {0}, ∅, [0x41]⟩

lemma memory_open : Session.next noFiles (.start memoryState [0x41]) (.open_ [0x2F, 0x66] O_RDWR) =
    some memoryOpened := by
  have look := memoryFile_leads memoryState ⟨rfl, rfl⟩
  obtain ⟨⟨r, n, s1⟩, found, same⟩ := Option.map_eq_some_iff.mp look
  cases same
  obtain ⟨e, rfl⟩ := vfsLookup_state found
  have slot : freeSlot memoryState = some 0 := by decide
  have opens : vfsOpen noFiles memoryState [0x2F, 0x66] O_RDWR = some (0, memoryState.setOpenFile 0 memoryFile) := by
    rw [vfsOpen, slot]
    dsimp only
    rw [found]
    rfl
  change (Call.run noFiles memoryState (.open_ [0x2F, 0x66] O_RDWR)).map _ = _
  rw [Call.run, opens, Option.map_some]
  simp only [memoryOpened, Session.start, Call.opened, Call.frees, Call.content, le_refl, if_true, Set.empty_union,
    Int.toNat_zero, insert_empty_eq]

/-- The run that opens the file. -/
lemma memory_opened : Runs (Session.next noFiles)
    (fun w x => x.OnFile noFiles memoryState 1 w ∧ x.InPlace (memoryState.node 1) w)
    (.start memoryState [0x41]) memoryOpened := by
  have onFile : Call.OnFile noFiles memoryState 1 (.start memoryState [0x41]) (.open_ [0x2F, 0x66] O_RDWR) :=
    memoryFile_leads
  have inPlace : Call.InPlace (memoryState.node 1) (.start memoryState [0x41]) (.open_ [0x2F, 0x66] O_RDWR) :=
    .inl (.inr (.inl (by decide)))
  exact .step .refl ⟨onFile, inPlace⟩ memory_open

/-- Any write to descriptor 0 of the file is on it. -/
lemma memory_onFile (short : bytes.length < 2 ^ 32) :
    Call.OnFile noFiles memoryState 1 memoryOpened (.write 0 buf bytes) := ⟨⟨0, rfl, rfl⟩, short⟩

/-- A write of two bytes to the file of one byte. -/
theorem write_frees_shared : ¬ ∀ (D : Driver Unit Unit) (s : State Unit Unit) (p d : Nat) (c : List UInt8),
    InMemory (s.node p) d → OnlyMoves D (s.node p) → (s.node p).size.toNat = c.length →
      (s.buffers d).take c.length = c → ∀ w : Session Unit Unit,
        Runs (Session.next D) (fun w x => x.OnFile D s p w) (.start s c) w → w.Coherent D p := by
  intro claim
  have start : Session.Shared memoryState 1 2 (.start memoryState [0x41]) := ⟨⟨rfl, rfl⟩, rfl, rfl, nofun, rfl⟩
  have shared := memory_opened.invariant start fun w x w' h ok e =>
    h.step memoryFile_inMemory memoryFile_moves ok.1 ok.2 e
  obtain ⟨w, run⟩ : ∃ w, Session.next noFiles memoryOpened (.write 0 1 [0x42, 0x43]) = some w := ⟨_, rfl⟩
  have opened : Runs (Session.next noFiles) (fun w x => x.OnFile noFiles memoryState 1 w)
      (.start memoryState [0x41]) memoryOpened := memory_opened.mono fun _ _ ok => ok.1
  have coherent := claim noFiles memoryState 1 2 [0x41] memoryFile_inMemory memoryFile_moves rfl rfl w
    (opened.step (memory_onFile (by decide)) run)
  exact grown_incoherent (i := 0) shared memoryFile_inMemory rfl (by decide) (by decide) rfl (by decide) run coherent

/-- A write of one byte to it. -/
theorem session_coherent_byte : ∃ w : Session Unit Unit, w.content = [0x42] ∧ w.fds = {0} ∧
    w.Coherent noFiles 1 := by
  obtain ⟨w, run, content, fds⟩ : ∃ w, Session.next noFiles memoryOpened (.write 0 1 [0x42]) = some w ∧
      w.content = [0x42] ∧ w.fds = {0} := ⟨_, rfl, by decide, rfl⟩
  have inPlace : Call.InPlace (memoryState.node 1) memoryOpened (.write 0 1 [0x42]) :=
    .inr (.inl ⟨by decide, by decide⟩)
  exact ⟨w, content, fds, session_coherent noFiles memoryState 1 2 [0x41] memoryFile_inMemory memoryFile_moves rfl rfl w
    (memory_opened.step ⟨memory_onFile (by decide), inPlace⟩ run)⟩

end RetaOS.Vfs
