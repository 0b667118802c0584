import RetaOS.Initrd.RoundTrip

/-!
# Where a file lands when allocations fail

`ensure_dir` returns the directory it has got to when there is no memory for the next one, and `mount_initrd`
links the file there. `Chain s root l q` says that `q` is reached from `root` through lists of children, over nodes
named `l`. `Placed Q s root T κ π` is the invariant of the mount under any pattern of failures: every file lies
below directories `b` with `Q off b`, for the offset `off` of its header. `Ensures.placed` is the run of `ensure_dir`,
which takes a prefix of its components and takes them all exactly when no call of `kmalloc` fails.
-/

namespace RetaOS.Initrd
open Lib Vfs

variable {s s' s0 s1 : State} {root cur ch dir p q k : Nat} {T T' : Set Nat} {κ : Nat → List Nat}
  {π : Nat → List (List UInt8)} {b cs l : List (List UInt8)} {img bytes off : UInt32} {m : Memory}
  {Q : UInt32 → List (List UInt8) → Prop}

/-! ## Failures. -/

/-- No call of `kmalloc` failed on the way from `s` to `s'`. -/
def NoFailure (s s' : State) : Prop := ∀ k, s.calls ≤ k → k < s'.calls → s.oom k = false

lemma NoFailure.refl : NoFailure s s := fun _ h h' => absurd h (not_le.mpr h')

lemma not_noFailure (full : s.oom s.calls = true) : ¬ NoFailure s s.tick := by
  intro free
  cases (free s.calls le_rfl (Nat.lt_succ_self _)).symm.trans full

/-- A first call that succeeds leaves the others. -/
lemma noFailure_iff (free : s.oom s.calls = false) (calls : s1.calls = s.calls + 1) (oom : s1.oom = s.oom) :
    NoFailure s s' ↔ NoFailure s1 s' := by
  rw [NoFailure, NoFailure, calls, oom]
  constructor
  · intro h k hk
    exact h k (by omega)
  · intro h k hk lt
    cases hk.eq_or_lt with
    | inl e =>
      subst e
      exact free
    | inr later => exact h k later lt

/-! ## Paths in the tree. -/

/-- A node reached from `root` through the lists of children, with the names on the way. -/
inductive Chain (s : State) (root : Nat) : List (List UInt8) → Nat → Prop where
  | root :
    Chain s root [] root
  | child {l : List (List UInt8)} {p q : Nat} {kids : List Nat} :
    Chain s root l p →
    Linked s.sibling (s.node p).children kids →
    q ∈ kids →
    Chain s root (l ++ [(s.node q).name]) q

/-! ## The invariant. -/

/-- The tree of a mount, where `π p` is the path of `p` and every file is where `Q` allows the header at `off`. -/
structure Placed (Q : UInt32 → List (List UInt8) → Prop) (s : State) (root : Nat) (T : Set Nat)
    (κ : Nat → List Nat) (π : Nat → List (List UInt8)) : Prop where
  mount : Mount Set.univ s root T κ
  root_path : π root = []
  path : ∀ p ∈ T, ∀ q ∈ κ p, π q = π p ++ [(s.node q).name]
  file : ∀ q ∈ T, ¬ Dir (s.node q) → ∃ off b, File s.drv off (s.node q) ∧ π q = b ++ [(s.node q).name] ∧ Q off b

/-- A chain of names ends in the tree, at the node with that path. -/
lemma Placed.chain (pl : Placed Q s root T κ π) (c : Chain s root l q) : q ∈ T ∧ π q = l := by
  induction c with
  | root => exact ⟨pl.mount.tree.root_mem, pl.root_path⟩
  | @child l p q kids _ links mem ih =>
    obtain ⟨hp, rfl⟩ := ih
    cases links.unique (pl.mount.tree.linked p hp)
    exact ⟨(pl.mount.tree.kid p hp q mem).1, pl.path p hp q mem⟩

/-- A step that keeps names and directories keeps the paths. -/
lemma Placed.congr (pl : Placed Q s root T κ π) (m : Mount Set.univ s' root T κ) (g : Grows s T s' T)
    (names : ∀ p ∈ T, (s'.node p).name = (s.node p).name)
    (keep : ∀ p ∈ T, Dir (s.node p) → Dir (s'.node p)) : Placed Q s' root T κ π where
  mount := m
  root_path := pl.root_path
  path p hp q hq := by
    rw [names q (pl.mount.tree.kid p hp q hq).1]
    exact pl.path p hp q hq
  file q hq notDir := by
    obtain ⟨off, b, file, path, place⟩ := pl.file q hq fun h => notDir (keep q hq h)
    exact ⟨off, b, g.file q hq off file, names q hq ▸ path, place⟩

lemma Placed.tick (pl : Placed Q s root T κ π) : Placed Q s.tick root T κ π :=
  pl.congr pl.mount.tick .tick (fun _ _ => rfl) fun _ _ h => h

/-- A new node in front of the children of `cur`, a directory or a file that may lie there. -/
lemma Placed.attach {n : Node} (pl : Placed Q s root T κ π) (hc : cur ∈ T) (hd : Dir (s.node cur))
    (new : ∀ p ∈ T, p < ch) (m : Mount Set.univ (s.attach cur ch n) root (insert ch T) (attachKids κ cur ch))
    (g : Grows s T (s.attach cur ch n) (insert ch T))
    (kind : ¬ Dir ((s.attach cur ch n).node ch) →
      ∃ off, File s.drv off ((s.attach cur ch n).node ch) ∧ Q off (π cur)) :
    Placed Q (s.attach cur ch n) root (insert ch T) (attachKids κ cur ch)
      (Function.update π ch (π cur ++ [n.name])) := by
  have tree := pl.mount.tree
  have cc : ch ≠ cur := (new cur hc).ne'
  refine ⟨m, ?_, path_attach hc new tree pl.path, ?_⟩
  · rw [Function.update_of_ne (new root tree.root_mem).ne]
    exact pl.root_path
  · intro q hq notDir
    cases hq with
    | inl hq =>
      subst hq
      obtain ⟨off, file, place⟩ := kind notDir
      refine ⟨off, π cur, file, ?_, place⟩
      rw [Function.update_self, attach_new cc]
    | inr hq =>
      have ne := (new q hq).ne
      obtain ⟨off, b, file, path, place⟩ := pl.file q hq fun h => notDir ((attach_kind cc hd ne).1 h)
      refine ⟨off, b, g.file q hq off file, ?_, place⟩
      rw [Function.update_of_ne ne, attach_name cc ne]
      exact path

/-- A directory made for one component. -/
lemma Placed.newDir {c : List UInt8} (pl : Placed Q s root T κ π) (hc : cur ∈ T) (hd : Dir (s.node cur))
    (short : c.length ≤ VFS_NAME_MAX - 1) :
    Placed Q (makeDir s cur c) root (insert s.calls T) (attachKids κ cur s.calls)
      (Function.update π s.calls (π cur ++ [c])) := by
  obtain ⟨m, g⟩ := pl.mount.makeDir (c := c) hc hd
  have name : (dirNode c cur).name = c := List.take_of_length_le short
  have new : Dir ((makeDir s cur c).node s.calls) := makeDir_dir pl.mount.tree hc
  have step := pl.tick.attach (n := dirNode c cur) hc hd pl.mount.tree.lt m
    ⟨g.sub, g.heap, g.img, g.bytes, g.oom, g.file⟩ fun notDir => absurd new notDir
  rwa [name] at step

/-- `ensure_dir` gets as far as a prefix of its components, and to the end exactly when no allocation fails. -/
theorem Ensures.placed (e : Ensures s cur cs dir s') (pl : Placed Q s root T κ π) (hc : cur ∈ T)
    (hd : Dir (s.node cur)) (short : ∀ c ∈ cs, c.length ≤ VFS_NAME_MAX - 1) :
    ∃ T' κ' π' taken, Placed Q s' root T' κ' π' ∧ Grows s T s' T' ∧ dir ∈ T' ∧ Dir (s'.node dir) ∧
      π' dir = π cur ++ taken ∧ taken <+: cs ∧ (taken = cs ↔ NoFailure s s') := by
  induction e generalizing T κ π with
  | here =>
    refine ⟨T, κ, π, [], pl, .refl, hc, hd, (List.append_nil _).symm, List.prefix_refl _, ?_⟩
    exact iff_of_true rfl .refl
  | @found s s' cur ch dir c cs find _ ih =>
    obtain ⟨mem, hch, flag, name⟩ := findDir_some pl.mount.tree hc find
    have path : π ch = π cur ++ [c] := by rw [pl.path cur hc ch mem, name]
    cases pl.mount.node ch hch with
    | inr h =>
      obtain ⟨off, _, file⟩ := h
      exact absurd flag file.no_flag
    | inl h =>
      obtain ⟨T', κ', π', taken, pl', g, hT, hd', at_, pre, full⟩ :=
        ih pl hch h fun c' hc' => short c' (List.mem_cons_of_mem c hc')
      refine ⟨T', κ', π', c :: taken, pl', g, hT, hd', ?_, (List.prefix_cons_inj c).mpr pre, ?_⟩
      · rw [at_, path, List.append_assoc, List.singleton_append]
      · rw [← full, List.cons.injEq, eq_self_iff_true, true_and]
  | @full s cur c cs _ full =>
    refine ⟨T, κ, π, [], pl.tick, .tick, hc, hd, (List.append_nil _).symm, List.nil_prefix, ?_⟩
    exact iff_of_false (List.cons_ne_nil c cs).symm (not_noFailure full)
  | @made s s' cur dir c cs find free _ ih =>
    obtain ⟨_, g⟩ := pl.mount.makeDir (c := c) hc hd
    have new : Dir ((makeDir s cur c).node s.calls) := makeDir_dir pl.mount.tree hc
    obtain ⟨T', κ', π', taken, pl', g', hT, hd', at_, pre, full⟩ :=
      ih (pl.newDir hc hd (short c List.mem_cons_self)) (.inl rfl) new
        fun c' hc' => short c' (List.mem_cons_of_mem c hc')
    refine ⟨T', κ', π', c :: taken, pl', g.trans g', hT, hd', ?_, (List.prefix_cons_inj c).mpr pre, ?_⟩
    · rw [at_, Function.update_self, List.append_assoc, List.singleton_append]
    · have rest : NoFailure s s' ↔ NoFailure (makeDir s cur c) s' := noFailure_iff free rfl rfl
      rw [rest, ← full, List.cons.injEq, eq_self_iff_true, true_and]

/-! ## Files and permissions. -/

/-- A regular file lies in the directory that `ensure_dir` returned, if it is put in the tree. -/
lemma AddsFile.placed {parent : Nat} {name : List UInt8} {size mode : UInt32}
    (a : AddsFile off name size mode s parent s') (pl : Placed Q s root T κ π) (hp : parent ∈ T)
    (hd : Dir (s.node parent)) (place : Q off (π parent))
    (hname : name = (splitPath (hdrName s.drv.heap.mem (s.drv.gInitrdImg + off))).2)
    (hsize : size = hdrSize s.drv.heap.mem (s.drv.gInitrdImg + off))
    (hmode : mode = hdrMode s.drv.heap.mem (s.drv.gInitrdImg + off)) :
    ∃ T' κ' π', Placed Q s' root T' κ' π' ∧ Grows s T s' T' := by
  cases a with
  | noNode => exact ⟨T, κ, π, pl.tick, .tick⟩
  | noMeta =>
    have same : ∀ p ∈ T, (s.tick.tick.kfree s.calls).node p = s.node p := by
      intro p hp
      simp [State.node, State.kfree, State.tick, (pl.mount.tree.lt p hp).ne]
    obtain ⟨m, g⟩ := pl.mount.congr (s.tick.tick.kfree s.calls) (Nat.le_add_right s.calls 2) rfl same rfl rfl rfl
      fun _ _ => rfl
    exact ⟨T, κ, π, pl.congr m g (fun p hp => by rw [same p hp]) fun p hp h => by rwa [same p hp], g⟩
  | added =>
    obtain ⟨m2, g2⟩ := pl.mount.recorded ⟨size, off + 512⟩
    obtain ⟨m3, g3, file⟩ := pl.mount.fileAttached hp hd (Set.mem_univ off) hname hsize hmode
    have recorded : Placed Q (record s.tick.tick (s.calls + 1) ⟨size, off + 512⟩) root T κ π :=
      pl.congr m2 g2 (fun _ _ => rfl) fun _ _ h => h
    have grown := attachFile_grows pl.mount.tree hp hd g3
    exact ⟨_, _, _, recorded.attach hp hd pl.mount.tree.lt m3 grown fun _ => ⟨off, file, place⟩, g3⟩

/-- New permissions for a directory. -/
lemma Placed.chmoded (pl : Placed Q s root T κ π) (hd : Dir (s.node p)) (v : UInt32) :
    Placed Q (chmod s p (v &&& 0o777)) root T κ π ∧ Grows s T (chmod s p (v &&& 0o777)) T := by
  obtain ⟨m, g⟩ := pl.mount.chmoded hd v
  exact ⟨pl.congr m g (fun q _ => (chmod_node s p q _).1) fun q _ h => chmod_dir hd v h, g⟩

/-! ## The walk. -/

/-- Where the file of the header at `off` may lie: below a prefix of its directories, and below all of them exactly
    when no allocation of `ensure_dir` fails. The loop comes to the header in the state `s1`. -/
def Lands (m : Memory) (img : UInt32) (root : Nat) (s0 : State) (off : UInt32) (b : List (List UInt8)) : Prop :=
  ∃ k s1 parent s2, Passes (mountBody root) (0, s0) k (off, s1) ∧
    ensureDir s1 root (splitPath (hdrName m (img + off))).1 = some (parent, s2) ∧
    b <+: dirComponents (splitPath (hdrName m (img + off))).1 ∧
    (b = dirComponents (splitPath (hdrName m (img + off))).1 ↔ NoFailure s1 s2)

/-- One header of the walk. -/
theorem addEntry_placed (pl : Placed (Lands m img root s0) s root T κ π) (hm : s.drv.heap.mem = m)
    (himg : s.drv.gInitrdImg = img) (ps : Passes (mountBody root) (0, s0) k (off, s)) :
    ∃ s' T' κ' π', addEntry s root off = some s' ∧ Placed (Lands m img root s0) s' root T' κ' π' ∧
      Grows s T s' T' := by
  subst hm himg
  obtain ⟨s', run, adds⟩ := addEntry_adds pl.mount.tree off
  cases adds with
  | file _ ensured ens adds =>
    obtain ⟨T1, κ1, π1, taken, pl1, g1, hp, hd, at_, pre, full⟩ := ens.placed pl pl.mount.tree.root_mem
      pl.mount.root_dir (components_short _)
    rw [pl.root_path, List.nil_append] at at_
    obtain ⟨T2, κ2, π2, pl2, g2⟩ := adds.placed pl1 hp hd ⟨k, s, _, _, ps, ensured, at_ ▸ pre, at_ ▸ full⟩
      (by rw [g1.heap, g1.img]) (by rw [g1.heap, g1.img]) (by rw [g1.heap, g1.img])
    exact ⟨s', T2, κ2, π2, run, pl2, g1.trans g2⟩
  | dir _ _ ens =>
    obtain ⟨T1, κ1, π1, taken, pl1, g1, -⟩ := ens.placed pl pl.mount.tree.root_mem pl.mount.root_dir
      (components_short _)
    exact ⟨_, T1, κ1, π1, run, pl1, g1⟩
  | chmod _ _ ens =>
    obtain ⟨T1, κ1, π1, taken, pl1, g1, -, hd, -⟩ := ens.placed pl pl.mount.tree.root_mem pl.mount.root_dir
      (components_short _)
    obtain ⟨pl2, g2⟩ := pl1.chmoded hd _
    exact ⟨_, T1, κ1, π1, run, pl2, g1.trans g2⟩
  | skip => exact ⟨s, T, κ, π, run, pl, .refl⟩

/-- The header walk keeps the invariant. -/
theorem Placed.passes (pl : Placed (Lands m img root s0) s0 root T κ π) (hm : s0.drv.heap.mem = m)
    (himg : s0.drv.gInitrdImg = img) (ps : Passes (mountBody root) (0, s0) k (off, s)) :
    ∃ T' κ' π', Placed (Lands m img root s0) s root T' κ' π' ∧ s.drv.heap.mem = m ∧ s.drv.gInitrdImg = img := by
  generalize e : (off, s) = x at ps
  induction ps generalizing off s with
  | refl =>
    cases e
    exact ⟨T, κ, π, pl, hm, himg⟩
  | @step k x1 x2 ps1 pass ih =>
    obtain ⟨off1, s1⟩ := x1
    obtain ⟨T1, κ1, π1, pl1, hm1, himg1⟩ := ih rfl
    obtain ⟨s2, T2, κ2, π2, run, pl2, g⟩ := addEntry_placed pl1 hm1 himg1 ps1
    simp only [mountBody, run, Pass.inner] at pass
    split_ifs at pass
    cases e.trans (Pass.next.inj pass).symm
    exact ⟨T2, κ2, π2, pl2, (congrArg _ g.heap).trans hm1, g.img.trans himg1⟩

/-- The root directory alone has no file in a wrong place. -/
lemma placed_empty (m : Mount Set.univ s root {root} fun _ => []) (hd : Dir (s.node root)) :
    Placed Q s root {root} (fun _ => []) fun _ => [] where
  mount := m
  root_path := rfl
  path _ _ _ hq := nomatch hq
  file q hq notDir := by
    cases hq
    exact absurd hd notDir

/-- The name string of a header stands for a path: it fits in a node, does not end in a slash, and has no component
    `.` or `..` behind one `./`. -/
structure NamesPath (m : Memory) (hdr : UInt32) (path : List (List UInt8)) : Prop where
  ne : hdrName m hdr ≠ []
  short : (hdrName m hdr).length ≤ 255
  noSlash : ∀ b ∈ (hdrName m hdr).getLast?, isSlash b = false
  plain : ∀ c ∈ tokens isSlash (stripDot (hdrName m hdr)), isDots c = false
  path_eq : path = tokens isSlash (stripDot (hdrName m hdr))

/-- The header of a file of an archive stands for the path of the file. -/
lemma EntryAt.namesPath {hdr : UInt32} {f : TarFile} (h : EntryAt m hdr (.file f)) : NamesPath m hdr f.name.path := by
  have name : Initrd.hdrName m hdr = f.name.bytes := h.hdrName
  refine ⟨?_, ?_, ?_, ?_, ?_⟩
  all_goals rw [name]
  · exact f.name.ne
  · exact f.name.short.trans (by decide)
  · exact f.noSlash
  · exact f.name.plain
  · rfl

lemma NamesPath.split {hdr : UInt32} {path : List (List UInt8)} (h : NamesPath m hdr path) :
    path.dropLast = dirComponents (splitPath (hdrName m hdr)).1 ∧
      path.getLastD [] = (splitPath (hdrName m hdr)).2 := by
  rw [h.path_eq, splitPath_path h.ne h.short h.noSlash h.plain, List.dropLast_concat, List.getLastD_concat]
  exact ⟨rfl, rfl⟩

/-- However allocations fail, a file of a mounted tree hangs below a prefix of the directories of its entry: below
    all of them exactly when no allocation for them failed. -/
theorem mountInitrd_places (s s' : State) (img bytes : UInt32) (mount : mountInitrd s img bytes = some (0, s')) :
    ∃ root s0, mountRoot s img bytes = (some root, s0) ∧ s'.vfsRoot = s'.node root ∧
      ∀ l q, Chain s' root l q → (s'.node q).flags &&& S_IFMT = S_IFREG →
        ∃ k off s1 parent s2, Passes (mountBody root) (0, s0) k (off, s1) ∧ File s'.drv off (s'.node q) ∧
          ensureDir s1 root (splitPath (hdrName s.drv.heap.mem (img + off))).1 = some (parent, s2) ∧
          ∀ path, NamesPath s.drv.heap.mem (img + off) path →
            ∃ b, l = b ++ [path.getLastD []] ∧ b <+: path.dropLast ∧ (b = path.dropLast ↔ NoFailure s1 s2) := by
  obtain ⟨_, root, s0, s1, start, run, rfl⟩ := mountInitrd_inv mount
  obtain ⟨w, _⟩ := mountRoot_walk start
  have empty : Placed (Lands s.drv.heap.mem img root s0) s0 root {root} (fun _ => []) fun _ => [] :=
    placed_empty (w.mount.mono (Set.subset_univ _)) w.mount.root_dir
  obtain ⟨n, ⟨off, s2⟩, ps, stop⟩ := loop_exit run
  obtain ⟨T, κ, π, pl, hm, himg⟩ := empty.passes w.heap w.base ps
  have last : s1 = s2 := by
    simp only [mountBody] at stop
    split_ifs at stop
    · exact (Pass.done.inj stop).symm
    · cases h : addEntry s2 root off with
      | none =>
        rw [h] at stop
        cases stop
      | some s3 =>
        rw [h] at stop
        cases stop
    · exact (Pass.done.inj stop).symm
  subst last
  refine ⟨root, s0, start, rfl, ?_⟩
  intro l q chain reg
  obtain ⟨m, g⟩ := pl.mount.congr (vfsSetRoot s1 root) le_rfl rfl (fun _ _ => rfl) rfl rfl rfl fun _ _ => rfl
  have pl' := pl.congr m g (fun _ _ => rfl) fun _ _ h => h
  obtain ⟨hq, rfl⟩ := pl'.chain chain
  have notDir : ¬ Dir ((vfsSetRoot s1 root).node q) := by
    intro h
    have both := reg.symm.trans h.flags
    revert both
    decide
  obtain ⟨off, b, file, at_, k, s3, parent, s4, ps, ensured, pre, full⟩ := pl'.file q hq notDir
  refine ⟨k, off, s3, parent, s4, ps, file, ensured, ?_⟩
  intro path names
  obtain ⟨dirs, base⟩ := names.split
  have name := file.name
  change _ = (splitPath (hdrName s1.drv.heap.mem (s1.drv.gInitrdImg + off))).2 at name
  rw [hm, himg, ← base] at name
  rw [dirs]
  exact ⟨b, name ▸ at_, pre, full⟩

/-! ## A file in the wrong place. -/

/-- An archive of one empty file `d/f`. -/
def nestedArchive : Memory := imageAt [0x64, 0x2F, 0x66]

def nestedEntry : TarEntry :=
  .file { oneByteFile with
    name := ⟨[0x64, 0x2F, 0x66], by decide, by decide, by simp, by decide⟩
    payload := []
    noSlash := by simp [isSlash]
    short := by decide }

lemma nestedArchive_header : EntryAt nestedArchive 0x1000 nestedEntry := by
  refine ⟨by decide, by decide, ?_, ?_, by decide, by decide, rfl⟩
  · exact ⟨[], List.replicate 8 0, by decide, nofun, rfl, by simp⟩
  · exact ⟨[], List.replicate 12 0, by decide, nofun, rfl, by simp⟩

lemma nestedArchive_image : Image nestedArchive 0x1000 512 [nestedEntry] := by
  refine ⟨by decide, by decide, ?_, ?_⟩
  · have rest : Archive nestedArchive 0x1000 512 512 [] := .endImage (by decide) (by decide)
    exact .entry nestedArchive_header (by decide) (by decide) rest
  · intro f hf e he
    cases List.mem_singleton.mp hf
    cases List.mem_singleton.mp he
    decide

/-- The kernel before the mount, with no memory for the second node. -/
def noSecondNode : State := { freshState nestedArchive with oom := fun k => k == 1 }

/-- `noSecondNode` with the root directory. -/
def nestedRoot : State := (setImage noSecondNode 0x1000 512).tick.setNode 0 rootNode

/-- The root directory with `f` in it. -/
def misplaced : State := attachFile nestedRoot.tick 0 [0x66] 0 0 0

lemma nestedRoot_start : mountRoot noSecondNode 0x1000 512 = (some 0, nestedRoot) := mountRoot_some rfl 0x1000 512

/-- There is no memory for `d`, and `f` is put in the root directory. -/
lemma addEntry_nested : addEntry nestedRoot 0 0 = some misplaced := by
  obtain ⟨w, _⟩ := mountRoot_walk nestedRoot_start
  obtain ⟨s', run, adds⟩ := addEntry_adds w.mount.tree 0
  rw [run]
  have regular : isReg (hdrTypeflag nestedArchive (0x1000 + 0)) = true := by decide
  have name : hdrName nestedRoot.drv.heap.mem (nestedRoot.drv.gInitrdImg + 0) = [0x64, 0x2F, 0x66] :=
    nestedArchive_header.hdrName
  have size : hdrSize nestedRoot.drv.heap.mem (nestedRoot.drv.gInitrdImg + 0) = 0 := nestedArchive_header.hdrSize
  have mode : hdrMode nestedRoot.drv.heap.mem (nestedRoot.drv.gInitrdImg + 0) = 0 := nestedArchive_header.hdrMode
  have dirs : dirComponents (splitPath [0x64, 0x2F, 0x66]).1 = [[0x64]] := by decide
  have base : (splitPath [0x64, 0x2F, 0x66]).2 = [0x66] := by decide
  cases adds with
  | file _ _ ens adds =>
    rw [name, dirs] at ens
    rw [name, size, mode, base] at adds
    cases ens with
    | found find =>
      obtain ⟨mem, _⟩ := findDir_some w.mount.tree w.mount.tree.root_mem find
      cases mem
    | made _ free => cases free
    | full =>
      cases adds with
      | noNode full => cases full
      | noMeta _ full => cases full
      | added => rfl
  | dir other => cases other.symm.trans regular
  | chmod other => cases other.symm.trans regular
  | skip other => cases other.symm.trans regular

/-- The one pass of the header walk. -/
lemma nested_pass : mountBody 0 (0, nestedRoot) = .next (512, misplaced) := by
  have named : nestedArchive (0x1000 + 0) ≠ 0 := by decide
  have step : (0 : UInt32) + advance (hdrSize nestedArchive (0x1000 + 0)) = 512 := by decide
  have more : (0 : UInt32) + 512 ≤ nestedRoot.drv.gInitrdBytes := by decide
  rw [mountBody, if_pos more]
  refine (if_neg named).trans ?_
  rw [addEntry_nested, Pass.inner, ← step]
  rfl

lemma nested_last : mountBody 0 (512, misplaced) = .done misplaced := by
  have full : ¬ (512 : UInt32) + 512 ≤ misplaced.drv.gInitrdBytes := by decide
  rw [mountBody, if_neg full]

lemma mountInitrd_nested : mountInitrd noSecondNode 0x1000 512 = some (0, vfsSetRoot misplaced 0) := by
  rw [mountInitrd_loop (by decide) (by decide) nestedRoot_start, (loop_next nested_pass).trans (loop_done nested_last)]
  rfl

/-- The walk meets the one header in its first pass. -/
lemma nested_passes {off : UInt32} (ps : Passes (mountBody 0) (0, nestedRoot) k (off, s)) (first : off = 0) :
    s = nestedRoot := by
  have one : Passes (mountBody 0) (0, nestedRoot) 1 (512, misplaced) := .step .refl nested_pass
  rcases Nat.lt_trichotomy k 1 with none | rfl | more
  · obtain rfl : k = 0 := by omega
    cases ps
    rfl
  · cases ps.det one
    exact absurd first (by decide)
  · obtain ⟨x, x', ps', next⟩ := ps.cut more
    cases ps'.det one
    cases nested_last.symm.trans next

lemma misplaced_chain : Chain (vfsSetRoot misplaced 0) 0 [[0x66]] 2 := by
  have kids : Linked (vfsSetRoot misplaced 0).sibling ((vfsSetRoot misplaced 0).node 0).children [2] := .cons .nil
  exact .child .root kids List.mem_cons_self

/-- The file `d/f` hangs below the root directory, and an allocation for `d` has failed. -/
theorem mountInitrd_places_nested :
    mountInitrd noSecondNode 0x1000 512 = some (0, vfsSetRoot misplaced 0) ∧
      mountRoot noSecondNode 0x1000 512 = (some 0, nestedRoot) ∧ Chain (vfsSetRoot misplaced 0) 0 [[0x66]] 2 ∧
      NamesPath nestedArchive 0x1000 [[0x64], [0x66]] ∧
      ∃ parent s2, ensureDir nestedRoot 0 [0x64] = some (parent, s2) ∧ ¬ NoFailure nestedRoot s2 := by
  obtain ⟨root, s0, start, -, places⟩ := mountInitrd_places noSecondNode (vfsSetRoot misplaced 0) 0x1000 512
    mountInitrd_nested
  cases start.symm.trans nestedRoot_start
  obtain ⟨k, off, s1, parent, s2, ps, file, ensured, at_⟩ := places [[0x66]] 2 misplaced_chain (fileFlags_type 0)
  have first : off = 0 := by
    have known : meta? (vfsSetRoot misplaced 0).drv ((vfsSetRoot misplaced 0).node 2) = some ⟨0, 0 + 512⟩ := rfl
    have data := congrArg TarFileMeta.dataOff (Option.some.inj (file.record.symm.trans known))
    exact (UInt32.add_left_inj 512).mp data
  cases nested_passes ps first
  subst first
  have names : NamesPath nestedArchive 0x1000 [[0x64], [0x66]] := nestedArchive_header.namesPath
  have dirs : (splitPath (hdrName nestedArchive (0x1000 + 0))).1 = [0x64] := by
    rw [show hdrName nestedArchive (0x1000 + 0) = [0x64, 0x2F, 0x66] from nestedArchive_header.hdrName]
    decide
  refine ⟨mountInitrd_nested, nestedRoot_start, misplaced_chain, names, parent, s2, ?_, fun free => ?_⟩
  · rw [← dirs]
    exact ensured
  · obtain ⟨b, path, -, full⟩ := at_ _ names
    have whole := full.mpr free
    rw [whole] at path
    revert path
    decide

/-- The archive of `d/f`, mounted when there is no memory for `d`, shows `f` in the root directory. -/
theorem file_misplaced : ¬ ∀ (s : State) (img bytes : UInt32) (es : List TarEntry),
    Image s.drv.heap.mem img bytes es → ∀ s' root s0, mountRoot s img bytes = (some root, s0) →
      mountInitrd s img bytes = some (0, s') → ∀ l q, Chain s' root l q → (s'.node q).flags &&& S_IFMT = S_IFREG →
        ∃ off f, TarEntry.file f ∈ es ∧ EntryAt s.drv.heap.mem (img + off) (.file f) ∧ File s'.drv off (s'.node q) ∧
          l = f.name.path := by
  intro claim
  obtain ⟨off, f, mem, _, _, path⟩ := claim noSecondNode 0x1000 512 [nestedEntry] nestedArchive_image
    (vfsSetRoot misplaced 0) 0 nestedRoot nestedRoot_start mountInitrd_nested [[0x66]] 2 misplaced_chain
    (fileFlags_type 0)
  cases List.mem_singleton.mp mem
  revert path
  decide

end RetaOS.Initrd
