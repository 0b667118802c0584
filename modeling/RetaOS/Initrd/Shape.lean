import RetaOS.Initrd.Placement
import Mathlib.Data.List.Nodup

/-!
# The shape of the mounted tree

However allocations fail, `mount_initrd` builds a tree: every node is once in the list of children of its parent, files
have no children, and the directories in one list have distinct names (`WellFormed`). So a component leads to one
directory, and it goes on leading there while the tree grows. `Leads s cur cs dir` says that the components `cs` lead
from `cur` to `dir` through directories that are there, and where they do, `ensure_dir` makes nothing. They do so for
good after a call of `ensure_dir` in which no allocation failed.
-/

namespace RetaOS.Initrd
open Lib Vfs

variable {s s' s1 s2 : State} {root cur ch dir dir' p q base : Nat} {T T' T1 : Set Nat} {κ κ' κ1 : Nat → List Nat}
  {off : UInt32} {c : List UInt8} {cs : List (List UInt8)}

/-- A well-formed tree below `root`, over the nodes reached through lists of children. -/
structure WellFormed (s : State) (root : Nat) : Prop where
  lists : ∀ l p, Chain s root l p → ∃ kids, Linked s.sibling (s.node p).children kids
  once : ∀ l q, Chain s root l q → q ≠ root → ∃ l' p kids, Chain s root l' p ∧ (s.node q).parent = some p ∧
    Linked s.sibling (s.node p).children kids ∧ kids.count q = 1
  only : ∀ l p kids q, Chain s root l p → Linked s.sibling (s.node p).children kids → q ∈ kids →
    q ≠ root ∧ (s.node q).parent = some p
  climbs : ∀ l q, Chain s root l q →
    ∃ n, (fun p : Option Nat => p.bind fun p => (s.node p).parent)^[n] (some q) = some root
  top : (s.node root).parent = none
  leaf : ∀ l q, Chain s root l q → (s.node q).flags &&& S_IFMT = S_IFREG → (s.node q).children = none
  names : ∀ l p kids, Chain s root l p → Linked s.sibling (s.node p).children kids → ∀ q ∈ kids, ∀ q' ∈ kids,
    (s.node q).flags &&& S_IFMT = S_IFDIR → (s.node q').flags &&& S_IFMT = S_IFDIR →
    (s.node q).name = (s.node q').name → q = q'

/-- The directory part that `mount_initrd` calls `ensure_dir` with for a header, if it does. -/
def ensuredPath (m : Memory) (hdr : UInt32) : Option (List UInt8) :=
  if isReg (hdrTypeflag m hdr) then some (splitPath (hdrName m hdr)).1
  else if isDir (hdrTypeflag m hdr) then some (hdrName m hdr)
  else none

/-! ## The invariant. -/

/-- The tree of the walk, where the directories below one node have distinct names. -/
structure Shaped (s : State) (root : Nat) (T : Set Nat) (κ : Nat → List Nat) : Prop where
  mount : Mount Set.univ s root T κ
  names : ∀ p ∈ T, ∀ q ∈ κ p, ∀ q' ∈ κ p, Dir (s.node q) → Dir (s.node q') → (s.node q).name = (s.node q').name → q = q'

/-- The tree has grown: its nodes are still where they were, under the same names. -/
structure Extends (s : State) (T : Set Nat) (κ : Nat → List Nat) (s' : State) (T' : Set Nat) (κ' : Nat → List Nat) :
    Prop where
  grows : Grows s T s' T'
  kids : ∀ p ∈ T, ∀ q ∈ κ p, q ∈ κ' p
  dirs : ∀ p ∈ T, Dir (s.node p) → Dir (s'.node p)
  name : ∀ p ∈ T, (s'.node p).name = (s.node p).name

lemma Extends.refl : Extends s T κ s T κ := ⟨.refl, fun _ _ _ h => h, fun _ _ h => h, fun _ _ => rfl⟩

lemma Extends.trans (h1 : Extends s T κ s1 T1 κ1) (h2 : Extends s1 T1 κ1 s' T' κ') : Extends s T κ s' T' κ' where
  grows := h1.grows.trans h2.grows
  kids p hp q hq := h2.kids p (h1.grows.sub hp) q (h1.kids p hp q hq)
  dirs p hp h := h2.dirs p (h1.grows.sub hp) (h1.dirs p hp h)
  name p hp := (h2.name p (h1.grows.sub hp)).trans (h1.name p hp)

/-- A child with the directory flag is a directory. -/
lemma Shaped.is_dir (sh : Shaped s root T κ) (hp : p ∈ T) (flag : (s.node p).flags &&& S_IFDIR ≠ 0) :
    Dir (s.node p) := by
  obtain dir | ⟨off, -, file⟩ := sh.mount.node p hp
  · exact dir
  · exact absurd flag file.no_flag

/-- The search for a directory finds the one child that is it. -/
lemma Shaped.findDir_iff (sh : Shaped s root T κ) (hc : cur ∈ T) :
    findDir s cur c = some (some ch) ↔ ch ∈ κ cur ∧ Dir (s.node ch) ∧ (s.node ch).name = c := by
  constructor
  · intro find
    obtain ⟨mem, hch, flag, name⟩ := findDir_some sh.mount.tree hc find
    exact ⟨mem, sh.is_dir hch flag, name⟩
  · rintro ⟨mem, dir, name⟩
    cases find : findDir s cur c with
    | none =>
      rw [findDir_eq sh.mount.tree hc] at find
      cases find
    | some r =>
      cases r with
      | none =>
        rw [findDir_eq sh.mount.tree hc, Option.some.injEq, List.find?_eq_none] at find
        have test : ¬ ((s.node ch).flags &&& S_IFDIR != 0 && (s.node ch).name == c) = true := find ch mem
        have flag : (s.node ch).flags &&& S_IFDIR ≠ 0 := dir.is_dir
        exact absurd (by simp [flag, name]) test
      | some ch' =>
        obtain ⟨mem', hch', flag', name'⟩ := findDir_some sh.mount.tree hc find
        rw [sh.names cur hc ch mem ch' mem' dir (sh.is_dir hch' flag') (name.trans name'.symm)]

/-- A step that keeps the links, the names and the directories. -/
lemma Shaped.congr (sh : Shaped s root T κ) (m : Mount Set.univ s' root T κ) (g : Grows s T s' T)
    (name : ∀ p ∈ T, (s'.node p).name = (s.node p).name)
    (dirs : ∀ p ∈ T, Dir (s'.node p) ↔ Dir (s.node p)) : Shaped s' root T κ ∧ Extends s T κ s' T κ := by
  refine ⟨⟨m, fun p hp q hq q' hq' d d' eq => ?_⟩, g, fun _ _ _ h => h, fun p hp => (dirs p hp).mpr, name⟩
  have hT := (sh.mount.tree.kid p hp q hq).1
  have hT' := (sh.mount.tree.kid p hp q' hq').1
  rw [name q hT, name q' hT'] at eq
  exact sh.names p hp q hq q' hq' ((dirs q hT).mp d) ((dirs q' hT').mp d') eq

lemma Shaped.tick (sh : Shaped s root T κ) : Shaped s.tick root T κ ∧ Extends s T κ s.tick T κ :=
  sh.congr sh.mount.tick .tick (fun _ _ => rfl) fun _ _ => .rfl

/-- A new node in front of the children of `cur`; if it is a directory, no other one there has its name. -/
lemma Shaped.attach {n : Node} (sh : Shaped s root T κ) (hc : cur ∈ T) (hd : Dir (s.node cur)) (new : ∀ p ∈ T, p < ch)
    (m : Mount Set.univ (s.attach cur ch n) root (insert ch T) (attachKids κ cur ch))
    (g : Grows s T (s.attach cur ch n) (insert ch T))
    (fresh : Dir ((s.attach cur ch n).node ch) → ∀ q ∈ κ cur, Dir (s.node q) → (s.node q).name ≠ n.name) :
    Shaped (s.attach cur ch n) root (insert ch T) (attachKids κ cur ch) ∧
      Extends s T κ (s.attach cur ch n) (insert ch T) (attachKids κ cur ch) := by
  have cc : ch ≠ cur := (new cur hc).ne'
  have name (p) (hp : p ∈ T) : ((s.attach cur ch n).node p).name = (s.node p).name := attach_name cc (new p hp).ne
  have dirs (p) (hp : p ∈ T) (d : Dir (s.node p)) : Dir ((s.attach cur ch n).node p) :=
    (attach_kind cc hd (new p hp).ne).1 d
  -- a child from before that is a directory now was one
  have back (p) (hp : p ∈ T) (d : Dir ((s.attach cur ch n).node p)) : Dir (s.node p) := by
    obtain dir | ⟨off, -, file⟩ := sh.mount.node p hp
    · exact dir
    · exact absurd d (g.file p hp off file).not_dir
  have other (q) (hq : q ∈ κ cur) (hT : q ∈ T) (d : Dir ((s.attach cur ch n).node ch))
      (d' : Dir ((s.attach cur ch n).node q)) :
      ((s.attach cur ch n).node ch).name ≠ ((s.attach cur ch n).node q).name := by
    rw [name q hT, attach_new cc]
    exact (fresh d q hq (back q hT d')).symm
  refine ⟨⟨m, fun p hp q hq q' hq' d d' eq => ?_⟩, g, fun p hp q hq => ?_, dirs, name⟩
  · rw [mem_attachKids cc] at hq hq'
    obtain ⟨rfl, rfl⟩ | ⟨old, hq⟩ := hq
    · obtain ⟨-, rfl⟩ | ⟨-, hq'⟩ := hq'
      · rfl
      · exact absurd eq (other q' hq' (sh.mount.tree.kid p hc q' hq').1 d d')
    · have hp : p ∈ T := hp.resolve_left old
      have hT := (sh.mount.tree.kid p hp q hq).1
      obtain ⟨rfl, rfl⟩ | ⟨-, hq'⟩ := hq'
      · exact absurd eq.symm (other q hq hT d' d)
      · have hT' := (sh.mount.tree.kid p hp q' hq').1
        rw [name q hT, name q' hT'] at eq
        exact sh.names p hp q hq q' hq' (back q hT d) (back q' hT' d') eq
  · exact (mem_attachKids cc).mpr (.inr ⟨(new p hp).ne, hq⟩)

/-- A chain of names stays in the tree. -/
lemma Shaped.mem (sh : Shaped s root T κ) {l : List (List UInt8)} (chain : Chain s root l q) : q ∈ T := by
  induction chain with
  | root => exact sh.mount.tree.root_mem
  | child _ links mem ih =>
    cases links.unique (sh.mount.tree.linked _ ih)
    exact (sh.mount.tree.kid _ ih _ mem).1

/-- A tree in shape is well formed. -/
theorem Shaped.wellFormed (sh : Shaped s root T κ) : WellFormed s root := by
  have linked (l p) (chain : Chain s root l p) := sh.mount.tree.linked p (sh.mem chain)
  have parent (l p q) (chain : Chain s root l p) (mem : q ∈ κ p) := (sh.mount.tree.kid p (sh.mem chain) q mem).2.2
  refine ⟨fun l p chain => ⟨κ p, linked l p chain⟩, ?_, ?_, ?_, sh.mount.tree.top, ?_, ?_⟩
  · intro l q chain ne
    cases chain with
    | root => exact absurd rfl ne
    | @child l p q kids chain links mem =>
      cases links.unique (linked l p chain)
      exact ⟨l, p, κ p, chain, parent l p q chain mem, links, List.count_eq_one_of_mem links.nodup mem⟩
  · intro l p kids q chain links mem
    cases links.unique (linked l p chain)
    have up := parent l p q chain mem
    refine ⟨?_, up⟩
    rintro rfl
    cases up.symm.trans sh.mount.tree.top
  · intro l q chain
    induction chain with
    | root => exact ⟨0, rfl⟩
    | @child l p q kids chain links mem ih =>
      cases links.unique (linked l p chain)
      obtain ⟨n, ih⟩ := ih
      refine ⟨n + 1, ?_⟩
      rw [Function.iterate_succ_apply, Option.bind_some, parent l p q chain mem, ih]
  · intro l q chain regular
    obtain dir | ⟨off, -, file⟩ := sh.mount.node q (sh.mem chain)
    · cases regular.symm.trans dir.flags
    · exact file.leaf
  · intro l p kids chain links q mem q' mem' flags flags' eq
    cases links.unique (linked l p chain)
    have dir (q) (mem : q ∈ κ p) (flags : (s.node q).flags &&& S_IFMT = S_IFDIR) : Dir (s.node q) := by
      obtain dir | ⟨off, -, file⟩ := sh.mount.node q (sh.mount.tree.kid p (sh.mem chain) q mem).1
      · exact dir
      · cases flags.symm.trans file.flags
    exact sh.names p (sh.mem chain) q mem q' mem' (dir q mem flags) (dir q' mem' flags') eq

/-! ## Paths that are there. -/

/-- Components that lead through directories that are there. -/
inductive Leads (s : State) : Nat → List (List UInt8) → Nat → Prop where
  | here {cur : Nat} :
    Leads s cur [] cur
  | step {cur ch dir : Nat} {c : List UInt8} {cs : List (List UInt8)} :
    findDir s cur c = some (some ch) →
    Leads s ch cs dir →
    Leads s cur (c :: cs) dir

/-- Two runs of `ensure_dir` from the same state are the same. -/
lemma Ensures.unique (e : Ensures s cur cs dir s') (e' : Ensures s cur cs dir' s1) : dir' = dir ∧ s1 = s' := by
  induction e with
  | here =>
    cases e'
    exact ⟨rfl, rfl⟩
  | found find _ ih =>
    cases e' with
    | found find' e' =>
      cases find.symm.trans find'
      exact ih e'
    | full missing => cases find.symm.trans missing
    | made missing => cases find.symm.trans missing
  | full missing full =>
    cases e' with
    | found find => cases missing.symm.trans find
    | full => exact ⟨rfl, rfl⟩
    | made _ free => cases full.symm.trans free
  | made missing free _ ih =>
    cases e' with
    | found find => cases missing.symm.trans find
    | full _ full => cases full.symm.trans free
    | made _ _ e' => exact ih e'

/-- Where they lead, `ensure_dir` makes nothing. -/
lemma Leads.ensures (lead : Leads s cur cs dir) : Ensures s cur cs dir s := by
  induction lead with
  | here => exact .here
  | step find _ ih => exact .found find ih

lemma Leads.ensureDir {path : List UInt8} (lead : Leads s base (dirComponents path) dir) (t : Tree s root T κ)
    (hb : base ∈ T) : ensureDir s base path = some (dir, s) := by
  obtain ⟨dir', s', run, e⟩ := ensureDir_run t hb path
  obtain ⟨rfl, rfl⟩ := lead.ensures.unique e
  exact run

/-- A component goes on leading to the same directory. -/
lemma Shaped.findDir_extends (sh : Shaped s root T κ) (hc : cur ∈ T) (e : Extends s T κ s' T' κ')
    (sh' : Shaped s' root T' κ') (find : findDir s cur c = some (some ch)) : findDir s' cur c = some (some ch) := by
  obtain ⟨mem, dir, name⟩ := (sh.findDir_iff hc).mp find
  have hch := (sh.mount.tree.kid cur hc ch mem).1
  refine (sh'.findDir_iff (e.grows.sub hc)).mpr ⟨e.kids cur hc ch mem, e.dirs ch hch dir, ?_⟩
  rw [e.name ch hch, name]

/-- And so do many. -/
lemma Leads.extends_ (lead : Leads s cur cs dir) (sh : Shaped s root T κ) (hc : cur ∈ T) (e : Extends s T κ s' T' κ')
    (sh' : Shaped s' root T' κ') : Leads s' cur cs dir := by
  induction lead with
  | here => exact .here
  | step find _ ih =>
    have hch := (findDir_some sh.mount.tree hc find).2.1
    exact .step (sh.findDir_extends hc e sh' find) (ih hch)

/-! ## The steps of the walk. -/

/-- A directory made for a component that there is none for. -/
lemma Shaped.makeDir (sh : Shaped s root T κ) (hc : cur ∈ T) (hd : Dir (s.node cur))
    (short : c.length ≤ VFS_NAME_MAX - 1) (missing : findDir s cur c = some none) :
    Shaped (makeDir s cur c) root (insert s.calls T) (attachKids κ cur s.calls) ∧
      Extends s T κ (makeDir s cur c) (insert s.calls T) (attachKids κ cur s.calls) := by
  obtain ⟨m, g⟩ := sh.mount.makeDir (c := c) hc hd
  have name : (dirNode c cur).name = c := List.take_of_length_le short
  have fresh (q) (mem : q ∈ κ cur) (dir : Dir (s.node q)) : (s.node q).name ≠ (dirNode c cur).name := by
    rw [name]
    intro eq
    cases missing.symm.trans ((sh.findDir_iff hc).mpr ⟨mem, dir, eq⟩)
  obtain ⟨sh1, e1⟩ := sh.tick
  obtain ⟨sh2, e2⟩ := sh1.attach (n := dirNode c cur) hc hd sh.mount.tree.lt m
    ⟨g.sub, g.heap, g.img, g.bytes, g.oom, g.file⟩ fun _ => fresh
  exact ⟨sh2, e1.trans e2⟩

/-- The component leads to it. -/
lemma Shaped.makeDir_find (sh : Shaped s root T κ) (hc : cur ∈ T) (hd : Dir (s.node cur))
    (short : c.length ≤ VFS_NAME_MAX - 1) (missing : findDir s cur c = some none) :
    findDir (Initrd.makeDir s cur c) cur c = some (some s.calls) := by
  obtain ⟨sh', e⟩ := sh.makeDir hc hd short missing
  refine (sh'.findDir_iff (e.grows.sub hc)).mpr ⟨?_, makeDir_dir sh.mount.tree hc, ?_⟩
  · rw [attachKids_cur]
    exact List.mem_cons_self
  · rw [Initrd.makeDir, attach_new (sh.mount.tree.lt cur hc).ne']
    have name : (dirNode c cur).name = c := List.take_of_length_le short
    exact name

/-- A run of `ensure_dir` keeps the shape, and its components lead to the directory when no allocation fails. -/
lemma Ensures.shaped (e : Ensures s cur cs dir s') (sh : Shaped s root T κ) (hc : cur ∈ T) (hd : Dir (s.node cur))
    (short : ∀ c ∈ cs, c.length ≤ VFS_NAME_MAX - 1) :
    ∃ T' κ', Shaped s' root T' κ' ∧ Extends s T κ s' T' κ' ∧ dir ∈ T' ∧ Dir (s'.node dir) ∧
      (NoFailure s s' → Leads s' cur cs dir) := by
  induction e generalizing T κ with
  | here => exact ⟨T, κ, sh, .refl, hc, hd, fun _ => .here⟩
  | found find _ ih =>
    obtain ⟨-, hch, flag, -⟩ := findDir_some sh.mount.tree hc find
    obtain ⟨T', κ', sh', e', hT, hd', lead⟩ :=
      ih sh hch (sh.is_dir hch flag) fun c h => short c (List.mem_cons_of_mem _ h)
    exact ⟨T', κ', sh', e', hT, hd', fun free => .step (sh.findDir_extends hc e' sh' find) (lead free)⟩
  | full _ full =>
    obtain ⟨sh', e'⟩ := sh.tick
    exact ⟨T, κ, sh', e', hc, hd, fun free => absurd free (not_noFailure full)⟩
  | @made s s' cur dir c cs missing free _ ih =>
    have shortc := short c List.mem_cons_self
    obtain ⟨sh1, e1⟩ := sh.makeDir hc hd shortc missing
    obtain ⟨T', κ', sh', e', hT, hd', lead⟩ := ih sh1 (.inl rfl) (makeDir_dir sh.mount.tree hc)
      fun c h => short c (List.mem_cons_of_mem _ h)
    refine ⟨T', κ', sh', e1.trans e', hT, hd', fun free' => ?_⟩
    have find := sh.makeDir_find hc hd shortc missing
    have rest : NoFailure s s' ↔ NoFailure (Initrd.makeDir s cur c) s' := noFailure_iff free rfl rfl
    exact .step (sh1.findDir_extends (e1.grows.sub hc) e' sh' find) (lead (rest.mp free'))

/-- So does a regular file. -/
lemma AddsFile.shaped {parent : Nat} {name : List UInt8} {size mode : UInt32}
    (a : AddsFile off name size mode s parent s') (sh : Shaped s root T κ) (hp : parent ∈ T) (hd : Dir (s.node parent))
    (hname : name = (splitPath (hdrName s.drv.heap.mem (s.drv.gInitrdImg + off))).2)
    (hsize : size = hdrSize s.drv.heap.mem (s.drv.gInitrdImg + off))
    (hmode : mode = hdrMode s.drv.heap.mem (s.drv.gInitrdImg + off)) :
    ∃ T' κ', Shaped s' root T' κ' ∧ Extends s T κ s' T' κ' := by
  cases a with
  | noNode => exact ⟨T, κ, sh.tick⟩
  | noMeta =>
    have same : ∀ p ∈ T, (s.tick.tick.kfree s.calls).node p = s.node p := by
      intro p hp
      simp [State.node, State.kfree, State.tick, (sh.mount.tree.lt p hp).ne]
    obtain ⟨m, g⟩ := sh.mount.congr (s.tick.tick.kfree s.calls) (Nat.le_add_right s.calls 2) rfl same rfl rfl rfl
      fun _ _ => rfl
    exact ⟨T, κ, sh.congr m g (fun p hp => by rw [same p hp]) fun p hp => by rw [same p hp]⟩
  | added =>
    obtain ⟨m2, g2⟩ := sh.mount.recorded ⟨size, off + 512⟩
    obtain ⟨m3, g3, file⟩ := sh.mount.fileAttached hp hd (Set.mem_univ off) hname hsize hmode
    obtain ⟨sh2, e2⟩ := sh.congr m2 g2 (fun _ _ => rfl) fun _ _ => .rfl
    have grown := attachFile_grows sh.mount.tree hp hd g3
    obtain ⟨sh3, e3⟩ := sh2.attach hp hd sh.mount.tree.lt m3 grown fun dir => absurd dir file.not_dir
    exact ⟨_, _, sh3, e2.trans e3⟩

/-- And new permissions for a directory. -/
lemma Shaped.chmoded (sh : Shaped s root T κ) (hd : Dir (s.node p)) (v : UInt32) :
    Shaped (chmod s p (v &&& 0o777)) root T κ ∧ Extends s T κ (chmod s p (v &&& 0o777)) T κ := by
  obtain ⟨m, g⟩ := sh.mount.chmoded hd v
  refine sh.congr m g (fun q _ => (chmod_node s p q _).1) fun q hq => ⟨fun dir => ?_, chmod_dir hd v⟩
  obtain old | ⟨off, -, file⟩ := sh.mount.node q hq
  · exact old
  · exact absurd dir (g.file q hq off file).not_dir

/-! ## The walk. -/

/-- The call of `ensure_dir` for a header. -/
lemma Ensures.call {path : List UInt8} (ens : Ensures s root (dirComponents path) dir s1) (sh : Shaped s root T κ) :
    ∃ T1 κ1, Shaped s1 root T1 κ1 ∧ Extends s T κ s1 T1 κ1 ∧ dir ∈ T1 ∧ Dir (s1.node dir) ∧
      ∀ dir' s2, ensureDir s root path = some (dir', s2) → NoFailure s s2 →
        Leads s1 root (dirComponents path) dir' := by
  have top := sh.mount.tree.root_mem
  obtain ⟨T1, κ1, sh1, e1, hT, hd, lead⟩ := ens.shaped sh top sh.mount.root_dir (components_short _)
  refine ⟨T1, κ1, sh1, e1, hT, hd, fun dir' s2 run free => ?_⟩
  obtain ⟨dir'', s2', run', ens'⟩ := ensureDir_run sh.mount.tree top path
  cases run.symm.trans run'
  obtain ⟨rfl, rfl⟩ := ens.unique ens'
  exact lead free

/-- One header of the walk: when no allocation of its call of `ensure_dir` fails, the path leads to the directory
    afterwards. -/
theorem addEntry_shaped (sh : Shaped s root T κ) (off : UInt32) :
    ∃ s' T' κ', addEntry s root off = some s' ∧ Shaped s' root T' κ' ∧ Extends s T κ s' T' κ' ∧
      ∀ path dir s2, ensuredPath s.drv.heap.mem (s.drv.gInitrdImg + off) = some path →
        ensureDir s root path = some (dir, s2) → NoFailure s s2 → Leads s' root (dirComponents path) dir := by
  obtain ⟨s', run, adds⟩ := addEntry_adds sh.mount.tree off
  cases adds with
  | file regular _ ens adds =>
    obtain ⟨T1, κ1, sh1, e1, hp, hd, lead⟩ := ens.call sh
    obtain ⟨T2, κ2, sh2, e2⟩ := adds.shaped sh1 hp hd (by rw [e1.grows.heap, e1.grows.img])
      (by rw [e1.grows.heap, e1.grows.img]) (by rw [e1.grows.heap, e1.grows.img])
    refine ⟨s', T2, κ2, run, sh2, e1.trans e2, fun path dir s2 at_ call free => ?_⟩
    rw [ensuredPath, if_pos regular] at at_
    cases at_
    exact (lead dir s2 call free).extends_ sh1 sh1.mount.tree.root_mem e2 sh2
  | dir other directory ens =>
    obtain ⟨T1, κ1, sh1, e1, -, -, lead⟩ := ens.call sh
    refine ⟨s', T1, κ1, run, sh1, e1, fun path dir s2 at_ call free => ?_⟩
    rw [ensuredPath, other, directory] at at_
    cases at_
    exact lead dir s2 call free
  | chmod other directory ens =>
    obtain ⟨T1, κ1, sh1, e1, -, hd, lead⟩ := ens.call sh
    obtain ⟨sh2, e2⟩ := sh1.chmoded hd _
    refine ⟨_, T1, κ1, run, sh2, e1.trans e2, fun path dir s2 at_ call free => ?_⟩
    rw [ensuredPath, other, directory] at at_
    cases at_
    exact (lead dir s2 call free).extends_ sh1 sh1.mount.tree.root_mem e2 sh2
  | skip other other' =>
    refine ⟨s, T, κ, run, sh, .refl, fun path dir s2 at_ _ _ => ?_⟩
    rw [ensuredPath, other, other'] at at_
    cases at_

variable {m : Memory} {img off' : UInt32} {s0 s3 : State} {k j : Nat}

/-- What holds after `k` headers: the tree is in shape, and the paths of the headers before lead where they led when
    `ensure_dir` was called for them. -/
structure Grown (m : Memory) (img : UInt32) (root : Nat) (s0 : State) (k : Nat) (s : State) (T : Set Nat)
    (κ : Nat → List Nat) : Prop where
  shaped : Shaped s root T κ
  heap : s.drv.heap.mem = m
  base : s.drv.gInitrdImg = img
  paths : ∀ j < k, ∀ off s1 path dir s2, Passes (mountBody root) (0, s0) j (off, s1) →
    ensuredPath m (img + off) = some path → ensureDir s1 root path = some (dir, s2) → NoFailure s1 s2 →
      Leads s root (dirComponents path) dir

/-- The header walk keeps that. -/
theorem Grown.passes (start : Grown m img root s0 0 s0 T κ) (ps : Passes (mountBody root) (0, s0) k (off, s)) :
    ∃ T' κ', Grown m img root s0 k s T' κ' := by
  generalize e : (off, s) = x at ps
  induction ps generalizing off s with
  | refl =>
    cases e
    exact ⟨T, κ, start⟩
  | @step k x1 x2 ps1 pass ih =>
    obtain ⟨off1, s1⟩ := x1
    obtain ⟨T1, κ1, sh1, rfl, rfl, paths⟩ := ih rfl
    obtain ⟨s2, T2, κ2, run, sh2, e2, lead⟩ := addEntry_shaped sh1 off1
    simp only [mountBody, run, Pass.inner] at pass
    split_ifs at pass
    cases e.trans (Pass.next.inj pass).symm
    refine ⟨T2, κ2, sh2, congrArg _ e2.grows.heap, e2.grows.img, fun j lt off s path dir s' ps at_ call free => ?_⟩
    rcases Nat.lt_succ_iff_lt_or_eq.mp lt with before | rfl
    · exact (paths j before off s path dir s' ps at_ call free).extends_ sh1 sh1.mount.tree.root_mem e2 sh2
    · cases ps.det ps1
      exact lead path dir s' at_ call free

/-- For every image whose header walk ends, and however allocations fail behind that of the root, `mount_initrd` builds
    a well-formed tree. A path that `ensure_dir` has gone through without a failed allocation leads to the same
    directory when it is called again, with nothing made: at once, and for the path of a header in the rest of the walk.
    -/
theorem mountInitrd_wellFormed (s : State) (img bytes : UInt32) (himg : img ≠ 0) (hb : 512 ≤ bytes)
    (free : s.oom s.calls = false) (ends : loop (headerBody s.drv.heap.mem img bytes) 0 ≠ none) :
    ∃ root s0 s', mountRoot s img bytes = (some root, s0) ∧ mountInitrd s img bytes = some (0, s') ∧
      s'.vfsRoot = s'.node root ∧ WellFormed s' root ∧
      ∀ k off s1 path dir s2, Passes (mountBody root) (0, s0) k (off, s1) → ensureDir s1 root path = some (dir, s2) →
        NoFailure s1 s2 → ensureDir s2 root path = some (dir, s2) ∧
          (ensuredPath s.drv.heap.mem (img + off) = some path → ∀ j > k, ∀ off' s3,
            Passes (mountBody root) (0, s0) j (off', s3) → ensureDir s3 root path = some (dir, s3)) := by
  have start := mountRoot_some free img bytes
  obtain ⟨w, -⟩ := mountRoot_walk start
  generalize (setImage s img bytes).tick.setNode s.calls rootNode = s0 at start w
  have first : Grown s.drv.heap.mem img s.calls s0 0 s0 {s.calls} (fun _ => []) :=
    ⟨⟨w.mount.mono (Set.subset_univ _), fun _ _ _ mem => nomatch mem⟩, w.heap, w.base, nofun⟩
  obtain ⟨last, run⟩ := Option.ne_none_iff_exists'.mp ends
  obtain ⟨n, off, ps, stop⟩ := loop_exit run
  obtain ⟨s1, T1, κ1, ps1, w1, -⟩ := w.reach ps
  obtain ⟨T2, κ2, kept⟩ := first.passes ps1
  have mount := mountInitrd_loop himg hb start
  rw [ps1.loop_eq, loop_done (w1.done stop)] at mount
  refine ⟨s.calls, s0, _, start, mount, rfl, ?_, fun k off s1 path dir s2 ps call free => ⟨?_, ?_⟩⟩
  · obtain ⟨m, g⟩ := kept.shaped.mount.congr (vfsSetRoot s1 s.calls) le_rfl rfl (fun _ _ => rfl) rfl rfl rfl
      fun _ _ => rfl
    exact (kept.shaped.congr m g (fun _ _ => rfl) fun _ _ => .rfl).1.wellFormed
  · obtain ⟨T, κ, kept⟩ := first.passes ps
    have top := kept.shaped.mount.tree.root_mem
    obtain ⟨dir', s2', run', ens⟩ := ensureDir_run kept.shaped.mount.tree top path
    cases call.symm.trans run'
    obtain ⟨T', κ', sh', e', -, -, lead⟩ := ens.call kept.shaped
    exact (lead dir s2 call free).ensureDir sh'.mount.tree (e'.grows.sub top)
  · intro at_ j lt off' s3 ps'
    obtain ⟨T, κ, kept⟩ := first.passes ps'
    have lead := kept.paths k lt off s1 path dir s2 ps at_ call free
    exact lead.ensureDir kept.shaped.mount.tree kept.shaped.mount.tree.root_mem

/-- The archive of one file, mounted with no memory for its node. -/
theorem mountInitrd_wellFormed_oneByte :
    ∃ root s', mountInitrd { freshState oneByteArchive with oom := fun k => k != 0 } 0x1000 1536 = some (0, s') ∧
      WellFormed s' root := by
  have ends : loop (headerBody oneByteArchive 0x1000 1536) 0 ≠ none := by
    rw [loop_next (oneByteArchive_next (by decide)), loop_done oneByteArchive_done]
    exact Option.some_ne_none _
  obtain ⟨root, s0, s', -, mount, -, shape, -⟩ := mountInitrd_wellFormed
    { freshState oneByteArchive with oom := fun k => k != 0 } 0x1000 1536 (by decide) (by decide) rfl ends
  exact ⟨root, s', mount, shape⟩

end RetaOS.Initrd
