import RetaOS.Initrd.Defs
import RetaOS.Vfs.Tree

/-!
# The tree of the ramdisk

What the tree building of `mount_initrd` can do, said once. `Ensures` is the run of `ensure_dir` over the
components of a path, with a case for each way a component is dealt with, and `ensureDir_run` shows that
`ensure_dir` always ends with such a run. `Mount` is the invariant of the header walk under any pattern of
allocation failures: the nodes form a tree, and each is a directory or the file of a header in `V`. `Grows`
says what a step leaves alone. The lemmas `Mount.*` carry the invariant through each change of the state, and
`addEntry_run` through one header.
-/

namespace RetaOS.Initrd
open Lib Vfs

variable {s s' s1 : State} {root cur ch dir p q base : Nat} {T T' : Set Nat} {κ κ' : Nat → List Nat}
  {off : UInt32} {V : Set UInt32} {c : List UInt8} {cs : List (List UInt8)}

/-! ## Runs of `ensure_dir`. -/

/-- The components of a path, cut to the length of a name. -/
def components (path : List UInt8) : List (List UInt8) :=
  (tokens isSlash path).map (·.take (VFS_NAME_MAX - 1))

/-- The components that `ensure_dir` goes through. -/
def dirComponents (dirpath : List UInt8) : List (List UInt8) :=
  components (stripDot (dirpath.take (VFS_PATH_MAX - 1)))

/-- A new directory `c` below `cur`. -/
def makeDir (s : State) (cur : Nat) (c : List UInt8) : State :=
  s.tick.attach cur s.calls (dirNode c cur)

/-- The run of `ensure_dir` from `cur` over the components that are left. -/
inductive Ensures : State → Nat → List (List UInt8) → Nat → State → Prop where
  | here {s : State} {cur : Nat} :
    Ensures s cur [] cur s
  | found {s s' : State} {cur ch dir : Nat} {c : List UInt8} {cs : List (List UInt8)} :
    findDir s cur c = some (some ch) →
    Ensures s ch cs dir s' →
    Ensures s cur (c :: cs) dir s'
  | full {s : State} {cur : Nat} {c : List UInt8} {cs : List (List UInt8)} :
    findDir s cur c = some none →
    s.oom s.calls = true →
    Ensures s cur (c :: cs) cur s.tick
  | made {s s' : State} {cur dir : Nat} {c : List UInt8} {cs : List (List UInt8)} :
    findDir s cur c = some none →
    s.oom s.calls = false →
    Ensures (makeDir s cur c) s.calls cs dir s' →
    Ensures s cur (c :: cs) dir s'

/-- In a tree the search for a directory ends at a child that is one. -/
lemma findDir_eq (t : Tree s root T κ) (hc : cur ∈ T) :
    findDir s cur c = some ((κ cur).find? fun p => (s.node p).flags &&& S_IFDIR != 0 && (s.node p).name == c) :=
  t.search_eq hc _

lemma findDir_some (t : Tree s root T κ) (hc : cur ∈ T) (h : findDir s cur c = some (some ch)) :
    ch ∈ κ cur ∧ ch ∈ T ∧ (s.node ch).flags &&& S_IFDIR ≠ 0 ∧ (s.node ch).name = c := by
  rw [findDir_eq t hc, Option.some.injEq] at h
  have mem := List.mem_of_find?_eq_some h
  have test := List.find?_some h
  simp only [Bool.and_eq_true, bne_iff_ne, beq_iff_eq] at test
  exact ⟨mem, (t.kid cur hc ch mem).1, test⟩

/-- A tree with a directory made in it is a tree. -/
lemma Tree.makeDir (t : Tree s root T κ) (hc : cur ∈ T) :
    Tree (makeDir s cur c) root (insert s.calls T) (attachKids κ cur s.calls) :=
  t.tick.attach hc t.lt (Nat.lt_succ_self _) rfl rfl

/-- The loop of `ensure_dir` ends, with a run over the components it has left. -/
lemma ensureBody_run (t : Tree s root T κ) (hc : cur ∈ T) (path : List UInt8) :
    ∃ dir s', loop ensureBody ⟨cur, path, s⟩ = some (dir, s') ∧ Ensures s cur (components path) dir s' := by
  -- each pass takes a name off the path, so the induction is on its length
  induction hn : path.length using Nat.strong_induction_on generalizing path s cur T κ with
  | _ n ih =>
    subst hn
    have skip := @tokens_dropWhile _ isSlash path
    have len := (List.dropWhile_sublist isSlash (l := path)).length_le
    cases e : path.dropWhile isSlash with
    | nil =>
      rw [e, tokens_nil] at skip
      refine ⟨cur, s, loop_done ?_, ?_⟩
      · simp [ensureBody, e]
      · rw [components, ← skip]
        exact .here
    | cons x l =>
      have hx : isSlash x = false := by
        have stop := List.head?_dropWhile_not isSlash path
        simpa [e] using stop
      rw [e, tokens_takeWhile hx] at skip
      rw [e] at len
      rw [components, ← skip, List.map_cons]
      have shorter : ((x :: l).dropWhile (!isSlash ·)).length < path.length := by
        rw [List.dropWhile_cons_of_pos (by simp [hx])]
        have := (List.dropWhile_sublist (!isSlash ·) (l := l)).length_le
        rw [List.length_cons] at len
        omega
      generalize hc' : ((x :: l).takeWhile (!isSlash ·)).take (VFS_NAME_MAX - 1) = c
      cases find : findDir s cur c with
      | none =>
        rw [findDir_eq t hc] at find
        cases find
      | some r =>
        cases r with
        | some ch =>
          obtain ⟨_, hch, _⟩ := findDir_some t hc find
          obtain ⟨dir, s', run, ens⟩ := ih _ shorter t hch _ rfl
          have pass : ensureBody ⟨cur, path, s⟩ =
              .next ⟨ch, (x :: l).dropWhile (!isSlash ·), s⟩ := by
            simp only [ensureBody, e, hc', find, Pass.inner]
          exact ⟨dir, s', (loop_next pass).trans run, .found find ens⟩
        | none =>
          -- the directory is missing and has to be made, for which there may be no memory
          cases oom : s.oom s.calls with
          | true =>
            refine ⟨cur, s.tick, loop_done ?_, .full find oom⟩
            simp only [ensureBody, e, hc', find, Pass.inner, kmalloc_none oom]
          | false =>
            obtain ⟨dir, s', run, ens⟩ := ih _ shorter (Tree.makeDir (c := c) t hc) (.inl rfl) _ rfl
            have pass : ensureBody ⟨cur, path, s⟩ =
                .next ⟨s.calls, (x :: l).dropWhile (!isSlash ·), makeDir s cur c⟩ := by
              simp only [ensureBody, e, hc', find, Pass.inner, kmalloc_some oom]
              rfl
            exact ⟨dir, s', (loop_next pass).trans run, .made find oom ens⟩

/-- `ensure_dir` ends, with a run over the components of its path. -/
theorem ensureDir_run (t : Tree s root T κ) (hb : base ∈ T) (dirpath : List UInt8) :
    ∃ dir s', ensureDir s base dirpath = some (dir, s') ∧ Ensures s base (dirComponents dirpath) dir s' := by
  obtain ⟨dir, s', run, ens⟩ :=
    ensureBody_run t hb ((stripDot (dirpath.take (VFS_PATH_MAX - 1))).rdropWhile isSlash)
  rw [components, tokens_rdropWhile] at ens
  exact ⟨dir, s', run, ens⟩

/-! ## The nodes. -/

/-- A directory as `mount_initrd` makes them, whatever its permissions. -/
structure Dir (n : Node) : Prop where
  flags : n.flags &&& S_IFMT = S_IFDIR
  read : n.read = none
  data : n.data = none
  open_ : n.open_ = some .tarOpen
  close : n.close = some .tarClose
  size : n.size = 0
  lseek : n.lseek = none

/-- The file of the header at `off`, wherever it hangs. -/
structure File (d : Ramdisk) (off : UInt32) (n : Node) : Prop where
  name : n.name = (splitPath (hdrName d.heap.mem (d.gInitrdImg + off))).2
  size : n.size = hdrSize d.heap.mem (d.gInitrdImg + off)
  mode : n.flags = fileFlags (hdrMode d.heap.mem (d.gInitrdImg + off))
  read : n.read = some .tarRead
  open_ : n.open_ = some .tarOpen
  close : n.close = some .tarClose
  leaf : n.children = none
  record : meta? d n = some ⟨hdrSize d.heap.mem (d.gInitrdImg + off), off + 512⟩
  lseek : n.lseek = none

lemma dir_flags : (S_IFDIR ||| 0o755) &&& S_IFMT = S_IFDIR := by decide

lemma dirNode_dir : Dir (dirNode c cur) := ⟨dir_flags, rfl, rfl, rfl, rfl, rfl, rfl⟩

lemma rootNode_dir : Dir rootNode := ⟨dir_flags, rfl, rfl, rfl, rfl, rfl, rfl⟩

lemma Dir.is_dir {n : Node} (h : Dir n) : n.flags &&& FT_DIR ≠ 0 := by
  have mask : S_IFMT &&& FT_DIR = FT_DIR := by decide
  rw [← mask, ← UInt32.and_assoc, h.flags]
  decide

/-- The permission bits of a file do not touch its type. -/
lemma fileFlags_type (v : UInt32) : fileFlags (v &&& 0o777) &&& S_IFMT = S_IFREG := by
  have clear : ∀ x : UInt32, (S_IFREG ||| (x &&& 0o777)) &&& S_IFMT = S_IFREG := by
    intro x
    have zero : (0o777 : UInt32) &&& S_IFMT = 0 := by decide
    rw [or_and_distrib, UInt32.and_assoc, zero, UInt32.and_zero]
    decide
  rw [fileFlags]
  split_ifs
  · exact clear v
  · exact clear 0o644

lemma File.flags {d : Ramdisk} {n : Node} (h : File d off n) : n.flags &&& S_IFMT = S_IFREG := by
  rw [h.mode]
  exact fileFlags_type _

lemma File.not_dir {d : Ramdisk} {n : Node} (h : File d off n) : ¬ Dir n := by
  intro hd
  have both := h.flags.symm.trans hd.flags
  revert both
  decide

/-- The search for a directory passes over files. -/
lemma File.no_flag {d : Ramdisk} {n : Node} (h : File d off n) : ¬ n.flags &&& S_IFDIR ≠ 0 := by
  have mask : S_IFDIR = S_IFMT &&& S_IFDIR := by decide
  rw [mask, ← UInt32.and_assoc, h.flags]
  decide

/-! ## The invariant. -/

/-- The state of the header walk: a tree of directories and of files of headers in `V`. -/
structure Mount (V : Set UInt32) (s : State) (root : Nat) (T : Set Nat) (κ : Nat → List Nat) : Prop where
  tree : Tree s root T κ
  root_dir : Dir (s.node root)
  node : ∀ p ∈ T, Dir (s.node p) ∨ ∃ off ∈ V, File s.drv off (s.node p)
  data : ∀ p ∈ T, ∀ d, (s.node p).data = some d → d < s.calls
  root_name : (s.node root).name ≠ []
  root_next : (s.node root).next = none

lemma Mount.mono {V' : Set UInt32} (m : Mount V s root T κ) (sub : V ⊆ V') : Mount V' s root T κ := by
  refine ⟨m.tree, m.root_dir, ?_, m.data, m.root_name, m.root_next⟩
  intro p hp
  cases m.node p hp with
  | inl h => exact .inl h
  | inr h =>
    obtain ⟨off, hV, h⟩ := h
    exact .inr ⟨off, sub hV, h⟩

/-- A file has no children. -/
lemma Mount.leaf {d : Ramdisk} (m : Mount V s root T κ) (hq : q ∈ T) (h : File d off (s.node q)) : κ q = [] := by
  have links := m.tree.linked q hq
  rw [h.leaf] at links
  exact links.unique .nil

/-- What the header walk leaves alone. -/
structure Grows (s : State) (T : Set Nat) (s' : State) (T' : Set Nat) : Prop where
  sub : T ⊆ T'
  heap : s'.drv.heap = s.drv.heap
  img : s'.drv.gInitrdImg = s.drv.gInitrdImg
  bytes : s'.drv.gInitrdBytes = s.drv.gInitrdBytes
  oom : s'.oom = s.oom
  file : ∀ p ∈ T, ∀ off, File s.drv off (s.node p) → File s'.drv off (s'.node p)

lemma Grows.refl : Grows s T s T := ⟨subset_rfl, rfl, rfl, rfl, rfl, fun _ _ _ h => h⟩

lemma Grows.trans {T1 : Set Nat} (h1 : Grows s T s1 T1) (h2 : Grows s1 T1 s' T') : Grows s T s' T' where
  sub := h1.sub.trans h2.sub
  heap := h2.heap.trans h1.heap
  img := h2.img.trans h1.img
  bytes := h2.bytes.trans h1.bytes
  oom := h2.oom.trans h1.oom
  file p hp off h := h2.file p (h1.sub hp) off (h1.file p hp off h)

lemma Mount.tick (m : Mount V s root T κ) : Mount V s.tick root T κ :=
  ⟨m.tree.tick, m.root_dir, m.node, fun p hp d h => (m.data p hp d h).trans (Nat.lt_succ_self _), m.root_name,
    m.root_next⟩

lemma Grows.tick : Grows s T s.tick T := ⟨subset_rfl, rfl, rfl, rfl, rfl, fun _ _ _ h => h⟩

/-- Directories and files keep their kind when a node is attached. -/
lemma attach_kind {n : Node} (ne : ch ≠ cur) (hd : Dir (s.node cur)) (hq : q ≠ ch) :
    (Dir (s.node q) → Dir ((s.attach cur ch n).node q)) ∧
      ∀ off, File s.drv off (s.node q) → File s.drv off ((s.attach cur ch n).node q) := by
  by_cases e : q = cur
  · subst e
    rw [attach_cur ne]
    exact ⟨fun h => ⟨h.flags, h.read, h.data, h.open_, h.close, h.size, h.lseek⟩, fun off h => absurd hd h.not_dir⟩
  · rw [attach_other e hq]
    exact ⟨id, fun _ => id⟩

lemma attach_name {n : Node} (ne : ch ≠ cur) (hq : q ≠ ch) :
    ((s.attach cur ch n).node q).name = (s.node q).name := by
  by_cases e : q = cur
  · subst e
    rw [attach_cur ne]
  · rw [attach_other e hq]

/-- A directory or file attached to a directory. -/
lemma Mount.attach {n : Node} (m : Mount V s root T κ) (hc : cur ∈ T) (hd : Dir (s.node cur))
    (new : ∀ p ∈ T, p < ch) (lt : ch < s.calls) (parent : n.parent = some cur) (leaf : n.children = none)
    (kind : Dir n ∨ ∃ off ∈ V, File s.drv off n) (data : ∀ d, n.data = some d → d < s.calls) :
    Mount V (s.attach cur ch n) root (insert ch T) (attachKids κ cur ch) ∧
      Grows s T (s.attach cur ch n) (insert ch T) := by
  have ne : ch ≠ cur := (new cur hc).ne'
  have keep := fun q (hq : q ∈ T) => attach_kind (n := n) ne hd (new q hq).ne
  refine ⟨⟨m.tree.attach hc new lt parent leaf, ?_, ?_, ?_, ?_, ?_⟩, ?_⟩
  · exact (keep root m.tree.root_mem).1 m.root_dir
  · intro p hp
    cases hp with
    | inl h =>
      subst h
      rw [attach_new ne]
      cases kind with
      | inl h => exact .inl ⟨h.flags, h.read, h.data, h.open_, h.close, h.size, h.lseek⟩
      | inr h =>
        obtain ⟨off, hV, h⟩ := h
        exact .inr ⟨off, hV, h.name, h.size, h.mode, h.read, h.open_, h.close, h.leaf, h.record, h.lseek⟩
    | inr h =>
      cases m.node p h with
      | inl hp => exact .inl ((keep p h).1 hp)
      | inr hp =>
        obtain ⟨off, hV, hf⟩ := hp
        exact .inr ⟨off, hV, (keep p h).2 off hf⟩
  · intro p hp d e
    cases hp with
    | inl h =>
      subst h
      rw [attach_new ne] at e
      exact data d e
    | inr h =>
      apply m.data p h d
      by_cases hc : p = cur
      · subst hc
        rw [attach_cur ne] at e
        exact e
      · rwa [attach_other hc (new p h).ne] at e
  · rw [attach_name ne (new root m.tree.root_mem).ne]
    exact m.root_name
  · exact (attach_sibling ne (new root m.tree.root_mem).ne).trans m.root_next
  · exact ⟨Set.subset_insert ch T, rfl, rfl, rfl, rfl, fun p hp off h => (keep p hp).2 off h⟩

lemma Mount.makeDir (m : Mount V s root T κ) (hc : cur ∈ T) (hd : Dir (s.node cur)) :
    Mount V (makeDir s cur c) root (insert s.calls T) (attachKids κ cur s.calls) ∧
      Grows s T (makeDir s cur c) (insert s.calls T) := by
  obtain ⟨m', g⟩ := m.tick.attach (n := dirNode c cur) hc hd m.tree.lt (Nat.lt_succ_self _) rfl rfl
    (.inl dirNode_dir) nofun
  exact ⟨m', Grows.tick.trans g⟩

/-- The node that `ensure_dir` makes is a directory. -/
lemma makeDir_dir (t : Tree s root T κ) (hc : cur ∈ T) : Dir ((makeDir s cur c).node s.calls) := by
  rw [makeDir, attach_new (t.lt cur hc).ne']
  exact ⟨dir_flags, rfl, rfl, rfl, rfl, rfl, rfl⟩

/-- The invariant through a run of `ensure_dir`. -/
theorem Ensures.mount (e : Ensures s cur cs dir s') (m : Mount V s root T κ) (hc : cur ∈ T)
    (hd : Dir (s.node cur)) :
    ∃ T' κ', Mount V s' root T' κ' ∧ Grows s T s' T' ∧ dir ∈ T' ∧ Dir (s'.node dir) := by
  induction e generalizing T κ with
  | here => exact ⟨T, κ, m, .refl, hc, hd⟩
  | found find _ ih =>
    obtain ⟨_, hch, flag, _⟩ := findDir_some m.tree hc find
    cases m.node _ hch with
    | inl h => exact ih m hch h
    | inr h =>
      obtain ⟨off, _, hf⟩ := h
      exact absurd flag hf.no_flag
  | full => exact ⟨T, κ, m.tick, .tick, hc, hd⟩
  | @made s s' cur dir c cs _ _ _ ih =>
    obtain ⟨m', g⟩ := m.makeDir (c := c) hc hd
    obtain ⟨T', κ', m', g', hd⟩ := ih m' (.inl rfl) (makeDir_dir m.tree hc)
    exact ⟨T', κ', m', g.trans g', hd⟩

/-! ## Headers. -/

/-- A file record put on the heap. -/
def record (s : State) (data : Nat) (m : TarFileMeta) : State :=
  { s with drv := { s.drv with metas := Function.update s.drv.metas data (some m) } }

/-- The record and the node of a regular file, the node in front of the children of `parent`. -/
def attachFile (s : State) (off : UInt32) (name : List UInt8) (size mode : UInt32) (parent : Nat) : State :=
  (record s.tick.tick (s.calls + 1) ⟨size, off + 512⟩).attach parent s.calls
    (fileNode name size mode parent (s.calls + 1))

/-- The part of `mount_initrd` for a regular file after `ensure_dir`, with a case for each allocation. -/
inductive AddsFile (off : UInt32) (name : List UInt8) (size mode : UInt32) (s : State) (parent : Nat) :
    State → Prop where
  | noNode :
    s.oom s.calls = true →
    AddsFile off name size mode s parent s.tick
  | noMeta :
    s.oom s.calls = false →
    s.oom (s.calls + 1) = true →
    AddsFile off name size mode s parent (s.tick.tick.kfree s.calls)
  | added :
    s.oom s.calls = false →
    s.oom (s.calls + 1) = false →
    AddsFile off name size mode s parent (attachFile s off name size mode parent)

/-- `mount_initrd` gets past a regular file. -/
lemma addFile_run (t : Tree s root T κ) (off : UInt32) (path : List UInt8) (size mode : UInt32) :
    ∃ parent s1 s', addFile s root off path size mode = some s' ∧
      ensureDir s root (splitPath path).1 = some (parent, s1) ∧
      Ensures s root (dirComponents (splitPath path).1) parent s1 ∧
      AddsFile off (splitPath path).2 size mode s1 parent s' := by
  obtain ⟨parent, s1, run, ens⟩ := ensureDir_run t t.root_mem (splitPath path).1
  cases hn : s1.oom s1.calls with
  | true =>
    refine ⟨parent, s1, _, ?_, run, ens, .noNode hn⟩
    simp only [addFile, run, kmalloc_none hn]
  | false =>
    cases hm : s1.oom (s1.calls + 1) with
    | true =>
      refine ⟨parent, s1, _, ?_, run, ens, .noMeta hn hm⟩
      have second : s1.tick.oom s1.tick.calls = true := hm
      simp only [addFile, run, kmalloc_some hn, kmalloc_none second]
    | false =>
      refine ⟨parent, s1, _, ?_, run, ens, .added hn hm⟩
      have second : s1.tick.oom s1.tick.calls = false := hm
      simp only [addFile, run, kmalloc_some hn, kmalloc_some second]
      rfl

/-- A change of the state that keeps the nodes of the tree and their records. -/
lemma Mount.congr (m : Mount V s root T κ) (s' : State) (calls : s.calls ≤ s'.calls) (oom : s'.oom = s.oom)
    (node : ∀ p ∈ T, s'.node p = s.node p) (heap : s'.drv.heap = s.drv.heap)
    (img : s'.drv.gInitrdImg = s.drv.gInitrdImg) (bytes : s'.drv.gInitrdBytes = s.drv.gInitrdBytes)
    (metas : ∀ d < s.calls, s'.drv.metas d = s.drv.metas d) :
    Mount V s' root T κ ∧ Grows s T s' T := by
  have keep : ∀ p ∈ T, ∀ off, File s.drv off (s.node p) → File s'.drv off (s'.node p) := by
    intro p hp off h
    have same : meta? s'.drv (s.node p) = meta? s.drv (s.node p) := by
      unfold meta?
      cases hd : (s.node p).data with
      | none => rfl
      | some d => exact metas d (m.data p hp d hd)
    rw [node p hp]
    refine ⟨?_, ?_, ?_, h.read, h.open_, h.close, h.leaf, ?_, h.lseek⟩
    · rw [heap, img, h.name]
    · rw [heap, img, h.size]
    · rw [heap, img, h.mode]
    · rw [heap, img, same, h.record]
  refine ⟨⟨?_, ?_, ?_, ?_, ?_, ?_⟩, subset_rfl, heap, img, bytes, oom, keep⟩
  · apply m.tree.congr calls
    · intro p hp
      rw [node p hp]
    · intro p hp
      rw [node p hp]
    · intro p hp
      rw [node p hp]
  · rw [node root m.tree.root_mem]
    exact m.root_dir
  · intro p hp
    cases m.node p hp with
    | inl h =>
      rw [node p hp]
      exact .inl h
    | inr h =>
      obtain ⟨off, hV, h⟩ := h
      exact .inr ⟨off, hV, keep p hp off h⟩
  · intro p hp d h
    rw [node p hp] at h
    exact (m.data p hp d h).trans_le calls
  · rw [node root m.tree.root_mem]
    exact m.root_name
  · rw [node root m.tree.root_mem]
    exact m.root_next

section AddFile

variable {parent : Nat} {name : List UInt8} {size mode : UInt32}

/-- A file record put on the heap. -/
lemma Mount.recorded (m : Mount V s root T κ) (r : TarFileMeta) :
    Mount V (record s.tick.tick (s.calls + 1) r) root T κ ∧
      Grows s T (record s.tick.tick (s.calls + 1) r) T := by
  refine m.congr (record s.tick.tick (s.calls + 1) r) (Nat.le_add_right s.calls 2) rfl (fun _ _ => rfl)
    rfl rfl rfl ?_
  intro d hd
  exact Function.update_of_ne (by omega) _ _

/-- A regular file put in the tree. -/
lemma Mount.fileAttached (m : Mount V s root T κ) (hp : parent ∈ T) (hd : Dir (s.node parent)) (hV : off ∈ V)
    (hname : name = (splitPath (hdrName s.drv.heap.mem (s.drv.gInitrdImg + off))).2)
    (hsize : size = hdrSize s.drv.heap.mem (s.drv.gInitrdImg + off))
    (hmode : mode = hdrMode s.drv.heap.mem (s.drv.gInitrdImg + off)) :
    Mount V (attachFile s off name size mode parent) root (insert s.calls T) (attachKids κ parent s.calls) ∧
      Grows s T (attachFile s off name size mode parent) (insert s.calls T) ∧
      File (attachFile s off name size mode parent).drv off
        ((attachFile s off name size mode parent).node s.calls) := by
  obtain ⟨m2, g2⟩ := m.recorded ⟨size, off + 512⟩
  have file : File (record s.tick.tick (s.calls + 1) ⟨size, off + 512⟩).drv off
      (fileNode name size mode parent (s.calls + 1)) := by
    refine ⟨hname, hsize, congrArg fileFlags hmode, rfl, rfl, rfl, rfl, ?_, rfl⟩
    exact (Function.update_self (s.calls + 1) _ _).trans
      (congrArg (fun v => some (TarFileMeta.mk v (off + 512))) hsize)
  obtain ⟨m3, g3⟩ := m2.attach hp hd m.tree.lt (Nat.lt_add_of_pos_right (Nat.succ_pos 1)) rfl rfl
    (.inr ⟨off, hV, file⟩) (by
      intro d e
      cases e
      exact Nat.lt_succ_self _)
  refine ⟨m3, g2.trans g3, ?_⟩
  rw [attachFile, attach_new (m.tree.lt parent hp).ne']
  exact ⟨file.name, file.size, file.mode, file.read, file.open_, file.close, file.leaf, file.record,
    file.lseek⟩

/-- The tree grows from the record of a file on, too. -/
lemma attachFile_grows (t : Tree s root T κ) (hp : parent ∈ T) (hd : Dir (s.node parent))
    (g : Grows s T (attachFile s off name size mode parent) (insert s.calls T)) :
    Grows (record s.tick.tick (s.calls + 1) ⟨size, off + 512⟩) T (attachFile s off name size mode parent)
      (insert s.calls T) := by
  refine ⟨g.sub, rfl, rfl, rfl, rfl, ?_⟩
  intro p hp' off' h
  have recorded : Dir ((record s.tick.tick (s.calls + 1) ⟨size, off + 512⟩).node parent) := hd
  exact (attach_kind (t.lt parent hp).ne' recorded (t.lt p hp').ne).2 off' h

/-- The invariant through the allocations of a regular file, which is in the tree when none fails. -/
lemma AddsFile.mount (a : AddsFile off name size mode s parent s') (m : Mount V s root T κ) (hp : parent ∈ T)
    (hd : Dir (s.node parent)) (hV : off ∈ V)
    (hname : name = (splitPath (hdrName s.drv.heap.mem (s.drv.gInitrdImg + off))).2)
    (hsize : size = hdrSize s.drv.heap.mem (s.drv.gInitrdImg + off))
    (hmode : mode = hdrMode s.drv.heap.mem (s.drv.gInitrdImg + off)) :
    ∃ T' κ', Mount V s' root T' κ' ∧ Grows s T s' T' ∧
      ((∀ k, s.oom k = false) → ∃ q ∈ T', File s'.drv off (s'.node q)) := by
  cases a with
  | noNode full =>
    refine ⟨T, κ, m.tick, .tick, ?_⟩
    intro h
    cases (h s.calls).symm.trans full
  | noMeta _ full =>
    have ne : ∀ p ∈ T, p ≠ s.calls := fun p hp => (m.tree.lt p hp).ne
    obtain ⟨m', g⟩ := m.congr (s.tick.tick.kfree s.calls) (Nat.le_add_right s.calls 2) rfl (by
      intro p hp
      simp [State.node, State.kfree, State.tick, ne p hp]) rfl rfl rfl fun _ _ => rfl
    refine ⟨T, κ, m', g, ?_⟩
    intro h
    cases (h (s.calls + 1)).symm.trans full
  | added =>
    obtain ⟨m', g, file⟩ := m.fileAttached hp hd hV hname hsize hmode
    exact ⟨_, _, m', g, fun _ => ⟨s.calls, .inl rfl, file⟩⟩

end AddFile

/-- New permissions for a directory. -/
def chmod (s : State) (p : Nat) (mode : UInt32) : State :=
  s.setNode p { s.node p with flags := ((s.node p).flags &&& S_IFMT) ||| mode }

/-- New permissions change nothing else. -/
lemma chmod_node (s : State) (p q : Nat) (mode : UInt32) :
    ((chmod s p mode).node q).name = (s.node q).name ∧
      ((chmod s p mode).node q).children = (s.node q).children ∧
      ((chmod s p mode).node q).next = (s.node q).next ∧
      ((chmod s p mode).node q).parent = (s.node q).parent ∧
      ((chmod s p mode).node q).data = (s.node q).data := by
  unfold chmod
  by_cases e : q = p
  · subst e
    rw [node_setNode]
    exact ⟨rfl, rfl, rfl, rfl, rfl⟩
  · rw [node_setNode_ne e]
    exact ⟨rfl, rfl, rfl, rfl, rfl⟩

lemma chmod_dir (hd : Dir (s.node p)) (v : UInt32) (h : Dir (s.node q)) :
    Dir ((chmod s p (v &&& 0o777)).node q) := by
  unfold chmod
  by_cases e : q = p
  · have zero : (0o777 : UInt32) &&& S_IFMT = 0 := by decide
    subst e
    rw [node_setNode]
    refine ⟨?_, hd.read, hd.data, hd.open_, hd.close, hd.size, hd.lseek⟩
    rw [hd.flags, or_and_distrib, UInt32.and_assoc, zero, UInt32.and_zero]
    decide
  · rw [node_setNode_ne e]
    exact h

lemma Mount.chmoded (m : Mount V s root T κ) (hd : Dir (s.node p)) (v : UInt32) :
    Mount V (chmod s p (v &&& 0o777)) root T κ ∧ Grows s T (chmod s p (v &&& 0o777)) T := by
  have links := fun q => chmod_node s p q (v &&& 0o777)
  have files : ∀ q ∈ T, ∀ off, File s.drv off (s.node q) →
      File s.drv off ((chmod s p (v &&& 0o777)).node q) := by
    intro q hq off h
    by_cases e : q = p
    · subst e
      exact absurd hd h.not_dir
    · rw [chmod, node_setNode_ne e]
      exact h
  refine ⟨⟨?_, chmod_dir hd v m.root_dir, ?_, ?_, ?_, ?_⟩, subset_rfl, rfl, rfl, rfl, rfl, files⟩
  · exact m.tree.congr le_rfl (fun q _ => (links q).2.1) (fun q _ => (links q).2.2.1)
      fun q _ => (links q).2.2.2.1
  · intro q hq
    cases m.node q hq with
    | inl h => exact .inl (chmod_dir hd v h)
    | inr h =>
      obtain ⟨off, hV, h⟩ := h
      exact .inr ⟨off, hV, files q hq off h⟩
  · intro q hq d h
    exact m.data q hq d ((links q).2.2.2.2 ▸ h)
  · rw [(links root).1]
    exact m.root_name
  · rw [(links root).2.2.1]
    exact m.root_next

/-- What `mount_initrd` does for the header at `off`, by the type of the entry. -/
inductive AddsEntry (s : State) (root : Nat) (off : UInt32) : State → Prop where
  | file {s1 s' : State} {parent : Nat} :
    isReg (hdrTypeflag s.drv.heap.mem (s.drv.gInitrdImg + off)) = true →
    ensureDir s root (splitPath (hdrName s.drv.heap.mem (s.drv.gInitrdImg + off))).1 = some (parent, s1) →
    Ensures s root (dirComponents (splitPath (hdrName s.drv.heap.mem (s.drv.gInitrdImg + off))).1) parent s1 →
    AddsFile off (splitPath (hdrName s.drv.heap.mem (s.drv.gInitrdImg + off))).2
      (hdrSize s.drv.heap.mem (s.drv.gInitrdImg + off)) (hdrMode s.drv.heap.mem (s.drv.gInitrdImg + off)) s1 parent s' →
    AddsEntry s root off s'
  | dir {s1 : State} {dir : Nat} :
    isReg (hdrTypeflag s.drv.heap.mem (s.drv.gInitrdImg + off)) = false →
    isDir (hdrTypeflag s.drv.heap.mem (s.drv.gInitrdImg + off)) = true →
    Ensures s root (dirComponents (hdrName s.drv.heap.mem (s.drv.gInitrdImg + off))) dir s1 →
    AddsEntry s root off s1
  | chmod {s1 : State} {dir : Nat} :
    isReg (hdrTypeflag s.drv.heap.mem (s.drv.gInitrdImg + off)) = false →
    isDir (hdrTypeflag s.drv.heap.mem (s.drv.gInitrdImg + off)) = true →
    Ensures s root (dirComponents (hdrName s.drv.heap.mem (s.drv.gInitrdImg + off))) dir s1 →
    AddsEntry s root off (chmod s1 dir (hdrMode s.drv.heap.mem (s.drv.gInitrdImg + off)))
  | skip :
    isReg (hdrTypeflag s.drv.heap.mem (s.drv.gInitrdImg + off)) = false →
    isDir (hdrTypeflag s.drv.heap.mem (s.drv.gInitrdImg + off)) = false →
    AddsEntry s root off s

/-- `mount_initrd` gets past every header. -/
theorem addEntry_adds (t : Tree s root T κ) (off : UInt32) :
    ∃ s', addEntry s root off = some s' ∧ AddsEntry s root off s' := by
  cases regular : isReg (hdrTypeflag s.drv.heap.mem (s.drv.gInitrdImg + off)) with
  | true =>
    obtain ⟨parent, s1, s', run, ensured, ens, adds⟩ := addFile_run t off
      (hdrName s.drv.heap.mem (s.drv.gInitrdImg + off)) (hdrSize s.drv.heap.mem (s.drv.gInitrdImg + off))
      (hdrMode s.drv.heap.mem (s.drv.gInitrdImg + off))
    refine ⟨s', ?_, .file regular ensured ens adds⟩
    simp only [addEntry, regular, if_true, run]
  | false =>
    cases directory : isDir (hdrTypeflag s.drv.heap.mem (s.drv.gInitrdImg + off)) with
    | true =>
      obtain ⟨dir, s1, run, ens⟩ :=
        ensureDir_run t t.root_mem (hdrName s.drv.heap.mem (s.drv.gInitrdImg + off))
      simp only [addEntry, regular, directory, Bool.false_eq_true, if_false, if_true, addDirectory, run]
      split_ifs
      · exact ⟨_, rfl, .chmod regular directory ens⟩
      · exact ⟨s1, rfl, .dir regular directory ens⟩
    | false =>
      refine ⟨s, ?_, .skip regular directory⟩
      simp only [addEntry, regular, directory, Bool.false_eq_true, if_false]

/-- The invariant through what `mount_initrd` does for a header: a regular file is in the tree afterwards when no
    allocation fails. -/
theorem addEntry_run (m : Mount V s root T κ) (off : UInt32)
    (hV : isReg (hdrTypeflag s.drv.heap.mem (s.drv.gInitrdImg + off)) = true → off ∈ V) :
    ∃ s' T' κ', addEntry s root off = some s' ∧ Mount V s' root T' κ' ∧ Grows s T s' T' ∧
      (isReg (hdrTypeflag s.drv.heap.mem (s.drv.gInitrdImg + off)) = true → (∀ k, s.oom k = false) →
        ∃ q ∈ T', File s'.drv off (s'.node q)) := by
  obtain ⟨s', run, adds⟩ := addEntry_adds m.tree off
  cases adds with
  | file regular _ ens adds =>
    obtain ⟨T1, κ1, m1, g1, hp, hd⟩ := ens.mount m m.tree.root_mem m.root_dir
    obtain ⟨T2, κ2, m2, g2, file⟩ := adds.mount m1 hp hd (hV regular) (by rw [g1.heap, g1.img])
      (by rw [g1.heap, g1.img]) (by rw [g1.heap, g1.img])
    exact ⟨s', T2, κ2, run, m2, g1.trans g2, fun _ free => file fun k => g1.oom ▸ free k⟩
  | dir other _ ens =>
    obtain ⟨T1, κ1, m1, g1, -, -⟩ := ens.mount m m.tree.root_mem m.root_dir
    exact ⟨s', T1, κ1, run, m1, g1, fun regular => nomatch other.symm.trans regular⟩
  | chmod other _ ens =>
    obtain ⟨T1, κ1, m1, g1, -, hd⟩ := ens.mount m m.tree.root_mem m.root_dir
    obtain ⟨m2, g2⟩ := m1.chmoded hd _
    exact ⟨_, T1, κ1, run, m2, g1.trans g2, fun regular => nomatch other.symm.trans regular⟩
  | skip other =>
    exact ⟨s, T, κ, run, m, .refl, fun regular => nomatch other.symm.trans regular⟩

end RetaOS.Initrd
