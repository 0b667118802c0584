import RetaOS.Initrd.Defs
import RetaOS.Fat.Driver
import RetaOS.Vfs.Frame

/-!
# Three ways to list a directory

`vfs_readdir`, `vfs_read_dir` and `vfs_list` choose differently between the `readdir` callback of a directory and its
list of children: the first takes the callback if there is one, the second the callback or nothing, the third the
children. The position of the first is kept in the directory, that of the second in a static variable that is never
reset. Each way is an iterator or a loop, and what it lists is determined on the three kinds of directories;
`listings_agree_iff` says when the three lists are the same.
-/

namespace RetaOS.Vfs
open Lib

variable {F σ : Type} {D : Driver F σ} {s s' : State F σ} {path : List UInt8} {n : Node F} {drv : σ}

/-! ## The functions. -/

/-- The static variables of `vfs_read_dir`. -/
structure ReadDir where
  entry : Dirent
  index : UInt32

/-- `vfs_read_dir`: its variables, with the entry that it returns the address of. -/
def vfsReadDir (D : Driver F σ) (st : ReadDir) (dir : Node F) (drv : σ) : ReadDir × Node F × σ :=
  if dir.flags &&& FT_DIR = 0 then ({ st with entry := { st.entry with name := [] } }, dir, drv)
  else
    match dir.readdir with
    | some f =>
      let (entry, dir, drv) := D.readdir f drv dir st.index
      (⟨entry, st.index + 1⟩, dir, drv)
    | none => ({ st with entry := { st.entry with name := [] } }, dir, drv)

/-- The entry that is made of a child. -/
def entryOf (s : State F σ) (p : Nat) : Dirent :=
  ⟨(s.node p).name.take (VFS_NAME_MAX - 1), (s.node p).size, (s.node p).flags &&& FT_DIR != 0⟩

/-- One pass of the loop of `vfs_list`, over `child` and the entries written. -/
def listBody (s : State F σ) (maxEntries : Int) :
    Option Nat × List Dirent → Pass (Option Nat × List Dirent) (List Dirent)
  | (none, entries) => .done entries
  | (some child, entries) =>
    if entries.length < maxEntries then
      if (s.node child).name = [] then .next ((s.node child).next, entries)
      else .next ((s.node child).next, entries ++ [entryOf s child])
    else .done entries

/-- `vfs_list`: the value returned and the entries written. -/
def vfsList (D : Driver F σ) (s : State F σ) (path : List UInt8) (maxEntries : Int) :
    Option (Int × List Dirent × State F σ) :=
  if maxEntries ≤ 0 then some (-EINVAL, [], s)
  else
    match vfsLookup D s path with
    | none => none
    | some (ret, dir, s) =>
      if ret ≠ 0 then some (ret, [], s)
      else if dir.flags &&& FT_DIR = 0 then some (-ENOTDIR, [], s)
      else
        match loop (listBody s maxEntries) (dir.children, []) with
        | none => none
        | some entries => some (entries.length, entries, s)

/-! ## The listings. -/

/-- A call of `vfs_readdir` on a directory that is open. -/
def readdirNext (D : Driver F σ) (s : State F σ) : Node F × σ → Option Dirent × Node F × σ
  | (dir, drv) => vfsReaddir D s dir drv

/-- The entries of `vfs_opendir`, and of `vfs_readdir` until it returns `NULL`. -/
def readdirAll (D : Driver F σ) (s : State F σ) (path : List UInt8) : Option (List Dirent) :=
  match vfsOpendir D s path with
  | none => none
  | some (ret, dir, s) => if ret = 0 then (collect (readdirNext D s) (dir, s.drv)).map Prod.fst else some []

/-- A call of `vfs_read_dir`, which ends a listing with an empty name. -/
def readDirNext (D : Driver F σ) : ReadDir × Node F × σ → Option Dirent × ReadDir × Node F × σ
  | (st, dir, drv) =>
    let (st, dir, drv) := vfsReadDir D st dir drv
    (if st.entry.name = [] then none else some st.entry, st, dir, drv)

/-- The entries of `vfs_read_dir` on the node at a path, until it returns an empty name. -/
def readDirAll (D : Driver F σ) (s : State F σ) (path : List UInt8) (st : ReadDir) : Option (List Dirent) :=
  match vfsLookup D s path with
  | none => none
  | some (ret, dir, s) => if ret = 0 then (collect (readDirNext D) (st, dir, s.drv)).map Prod.fst else some []

/-- `vfs_list` writes these entries whenever there is room for enough of them. -/
def ListsAll (D : Driver F σ) (s : State F σ) (path : List UInt8) (l : List Dirent) : Prop :=
  ∃ k : Int, ∀ maxEntries ≥ k, ∃ ret s', vfsList D s path maxEntries = some (ret, l, s')

/-- A listing apart from `"."` and `".."`. -/
def undotted (l : List Dirent) : List Dirent := l.filter fun e => !isDots e.name

/-- The three ways to list a directory end and agree, from any values of the static variables. -/
def Agree (D : Driver F σ) (s : State F σ) (path : List UInt8) (st : ReadDir) : Prop :=
  ∃ a b c, readdirAll D s path = some a ∧ readDirAll D s path st = some b ∧ ListsAll D s path c ∧
    undotted a = undotted b ∧ undotted b = undotted c

lemma isDots_take (name : List UInt8) : isDots (name.take (VFS_NAME_MAX - 1)) = isDots name := by
  match name with
  | [] => rfl
  | [_] => rfl
  | [_, _] => rfl
  | x :: y :: z :: rest => simp [isDots, VFS_NAME_MAX]

/-- Nothing is left of a listing exactly when it holds the two names only. -/
lemma undotted_nil {l : List Dirent} : undotted l = [] ↔ ∀ e ∈ l, isDots e.name = true := by
  simp [undotted, List.filter_eq_nil_iff]

/-- The listing of `vfs_readdir` in terms of what it gives. -/
lemma readdirAll_iff {l : List Dirent} (look : vfsLookup D s path = some (0, n, s')) (dir : n.flags &&& FT_DIR ≠ 0) :
    readdirAll D s path = some l ↔ ∃ c', Yields (readdirNext D s') ({ n with position := 0 }, s'.drv) l c' := by
  have open_ : vfsOpendir D s path = some (0, { n with position := 0 }, s') := by simp [vfsOpendir, look, dir]
  rw [readdirAll, open_]
  simp only [↓reduceIte, Option.map_eq_some_iff]
  constructor
  · rintro ⟨⟨l, c'⟩, run, rfl⟩
    exact ⟨c', collect_iff.mp run⟩
  · rintro ⟨c', yields⟩
    exact ⟨(l, c'), collect_iff.mpr yields, rfl⟩

/-- `vfs_read_dir` lists nothing of a node that is no directory, and of one whose callback gives nothing or is not
    there. -/
lemma readDirAll_empty {st : ReadDir} (look : vfsLookup D s path = some (0, n, s'))
    (empty : n.flags &&& FT_DIR = 0 ∨ n.readdir = none ∨
      ∃ f, n.readdir = some f ∧ (D.readdir f s'.drv n st.index).1.name = []) : readDirAll D s path st = some [] := by
  have ends : (readDirNext D (st, n, s'.drv)).1 = none := by
    simp only [readDirNext, ite_eq_left_iff, reduceCtorEq, imp_false, not_not, vfsReadDir]
    rcases empty with regular | memory | ⟨f, callback, nothing⟩
    · rw [if_pos regular]
    · rw [memory]
      split_ifs <;> rfl
    · rw [callback]
      split_ifs
      · rfl
      · exact nothing
  rw [readDirAll, look]
  simp only [↓reduceIte, Option.map_eq_some_iff]
  exact ⟨([], _), collect_iff.mpr (.nil (Prod.ext ends rfl)), rfl⟩

/-! ## The list of children. -/

/-- The children of a directory are a list that ends. -/
def Children (s : State F σ) (n : Node F) (ps : List Nat) : Prop := Linked (fun p => (s.node p).next) n.children ps

/-- A list that skipping gets to the end of. -/
lemma skipChildren_none {p : Option Nat} {k : Nat} (h : skipChildren s k p = none) :
    ∃ ps, Linked (fun p => (s.node p).next) p ps ∧ ps.length ≤ k := by
  induction k generalizing p with
  | zero =>
    obtain rfl : p = none := h
    exact ⟨[], .nil, le_rfl⟩
  | succ k ih =>
    cases p with
    | none => exact ⟨[], .nil, Nat.zero_le _⟩
    | some q =>
      obtain ⟨ps, chain, le⟩ := ih h
      exact ⟨q :: ps, .cons chain, Nat.succ_le_succ le⟩

/-- `vfs_readdir` of a directory without a callback. -/
lemma readdirNext_children (dir : n.flags &&& FT_DIR ≠ 0) (memory : n.readdir = none) :
    readdirNext D s (n, drv) =
      match skipChildren s n.position.toNat n.children with
      | none => (none, n, drv)
      | some p => (some (entryOf s p), { n with position := n.position + 1 }, drv) := by
  rw [readdirNext, vfsReaddir, if_neg dir, memory]
  rfl

/-- Without a callback `vfs_readdir` lists all children. -/
lemma yields_children (D : Driver F σ) (drv : σ) {ps : List Nat} (dir : n.flags &&& FT_DIR ≠ 0)
    (memory : n.readdir = none)
    (chain : Children s n ps) (few : ps.length < 2 ^ 32) : ∃ c',
      Yields (readdirNext D s) ({ n with position := 0 }, drv) (ps.map (entryOf s)) c' ∧ c'.2 = drv := by
  -- from position `i` on, by induction on the children that are left
  have rest : ∀ k i : Nat, k + i = ps.length → ∃ c', Yields (readdirNext D s)
      ({ n with position := UInt32.ofNat i }, drv) ((ps.drop i).map (entryOf s)) c' ∧ c'.2 = drv := by
    intro k
    induction k with
    | zero =>
      intro i eq
      refine ⟨({ n with position := UInt32.ofNat i }, drv), ?_, rfl⟩
      rw [List.drop_eq_nil_of_le (by omega), List.map_nil]
      apply Yields.nil
      rw [readdirNext_children (n := { n with position := UInt32.ofNat i }) dir memory, toNat_ofNat_lt (by omega),
        skipChildren_eq chain, List.getElem?_eq_none (by omega)]
    | succ k ih =>
      intro i eq
      obtain ⟨c', yields, same⟩ := ih (i + 1) (by omega)
      refine ⟨c', ?_, same⟩
      rw [List.drop_eq_getElem_cons (show i < ps.length by omega), List.map_cons]
      refine .cons ?_ yields
      rw [readdirNext_children (n := { n with position := UInt32.ofNat i }) dir memory, toNat_ofNat_lt (by omega),
        skipChildren_eq chain, List.getElem?_eq_getElem (show i < ps.length by omega), UInt32.ofNat_add]
      rfl
  exact rest ps.length 0 rfl

/-- A listing of `vfs_readdir` without a callback that ends has got to the end of the children. -/
lemma children_of_yields {l : List Dirent} {c c' : Node F × σ} (yields : Yields (readdirNext D s) c l c')
    (dir : c.1.flags &&& FT_DIR ≠ 0) (memory : c.1.readdir = none) :
    ∃ ps, Children s c.1 ps ∧ ps.length < 2 ^ 32 := by
  induction yields with
  | @nil c c' ended =>
    obtain ⟨n, drv⟩ := c
    rw [readdirNext_children dir memory] at ended
    cases skip : skipChildren s n.position.toNat n.children with
    | none =>
      obtain ⟨ps, chain, le⟩ := skipChildren_none skip
      have lt := n.position.toNat_lt
      exact ⟨ps, chain, by omega⟩
    | some p => simp [skip] at ended
  | @cons c c₁ c' b l more _ ih =>
    obtain ⟨n, drv⟩ := c
    rw [readdirNext_children dir memory] at more
    cases skip : skipChildren s n.position.toNat n.children with
    | none => simp [skip] at more
    | some p =>
      simp only [skip, Prod.mk.injEq] at more
      obtain ⟨-, rfl⟩ := more
      exact ih dir memory

/-! ## `vfs_list`. -/

/-- What `vfs_list` writes of a list of children. -/
def listed (s : State F σ) (ps : List Nat) : List Dirent :=
  (ps.filter fun p => (s.node p).name != []).map (entryOf s)

/-- With room for all of them the loop of `vfs_list` writes all children that have a name. -/
lemma listBody_linked {p : Option Nat} {ps : List Nat} {acc : List Dirent} {maxEntries : Int}
    (chain : Linked (fun p => (s.node p).next) p ps) (room : (acc.length + ps.length : Int) ≤ maxEntries) :
    loop (listBody s maxEntries) (p, acc) = some (acc ++ listed s ps) := by
  induction chain generalizing acc with
  | nil =>
    have pass : listBody s maxEntries (none, acc) = .done acc := rfl
    rw [loop_done pass, listed]
    simp
  | @cons p ps chain ih =>
    rw [List.length_cons] at room
    have more : (acc.length : Int) < maxEntries := by omega
    by_cases empty : (s.node p).name = []
    · have pass : listBody s maxEntries (some p, acc) = .next ((s.node p).next, acc) := by
        simp only [listBody, if_pos more, if_pos empty]
      rw [loop_next pass, ih (by omega), listed, listed, List.filter_cons_of_neg (by simp [empty])]
    · have pass : listBody s maxEntries (some p, acc) = .next ((s.node p).next, acc ++ [entryOf s p]) := by
        simp only [listBody, if_pos more, if_neg empty]
      rw [loop_next pass, ih (by simp only [List.length_append, List.length_singleton]; omega), listed, listed,
        List.filter_cons_of_pos (by simp [empty])]
      simp

/-- A loop of `vfs_list` that ends with room left has got to the end of the children. -/
lemma linked_of_listBody {p : Option Nat} {acc l : List Dirent} {maxEntries : Int}
    (run : loop (listBody s maxEntries) (p, acc) = some l) (room : (l.length : Int) < maxEntries) :
    ∃ ps, Linked (fun p => (s.node p).next) p ps := by
  refine loop_back (P := fun t => ∃ ps, Linked (fun p => (s.node p).next) t.1 ps) (Q := fun r => r = l)
    (fun t t' pass behind => ?_) (fun t r pass eq => ?_) run rfl
  · obtain ⟨q, entries⟩ := t
    obtain ⟨ps, chain⟩ := behind
    cases q with
    | none => cases pass
    | some q =>
      simp only [listBody] at pass
      split_ifs at pass
      · cases pass
        exact ⟨q :: ps, .cons chain⟩
      · cases pass
        exact ⟨q :: ps, .cons chain⟩
  · obtain ⟨q, entries⟩ := t
    subst eq
    cases q with
    | none => exact ⟨[], .nil⟩
    | some q =>
      simp only [listBody] at pass
      split_ifs at pass with more
      cases pass
      exact absurd room more

/-- `vfs_list` of a directory. -/
lemma vfsList_dir {maxEntries : Int} (look : vfsLookup D s path = some (0, n, s')) (dir : n.flags &&& FT_DIR ≠ 0)
    (pos : 0 < maxEntries) : vfsList D s path maxEntries =
      (loop (listBody s' maxEntries) (n.children, [])).map fun l => ((l.length : Int), l, s') := by
  rw [vfsList, if_neg (Int.not_le.mpr pos), look]
  dsimp only
  rw [if_neg (not_not.mpr rfl), if_neg dir]
  cases loop (listBody s' maxEntries) (n.children, []) with
  | none => rfl
  | some l => rfl

/-- `vfs_list` lists a directory whose children end, and these are the children that have a name. -/
lemma listsAll_iff {l : List Dirent} (look : vfsLookup D s path = some (0, n, s')) (dir : n.flags &&& FT_DIR ≠ 0) :
    ListsAll D s path l ↔ ∃ ps, Children s' n ps ∧ l = listed s' ps := by
  constructor
  · rintro ⟨k, all⟩
    obtain ⟨ret, s'', run⟩ := all (max k (l.length + 1)) (by omega)
    rw [vfsList_dir look dir (by omega), Option.map_eq_some_iff] at run
    obtain ⟨l', run, eq⟩ := run
    cases eq
    obtain ⟨ps, chain⟩ := linked_of_listBody run (by omega)
    -- with room for all of them as well
    obtain ⟨ret, s'', run⟩ := all (max k (max 1 ps.length)) (by omega)
    rw [vfsList_dir look dir (by omega), listBody_linked chain (by simp only [List.length_nil]; omega)] at run
    cases run
    exact ⟨ps, chain, rfl⟩
  · rintro ⟨ps, chain, rfl⟩
    refine ⟨max 1 ps.length, fun maxEntries ge => ⟨(listed s' ps).length, s', ?_⟩⟩
    rw [vfsList_dir look dir (by omega), listBody_linked chain (by simp only [List.length_nil]; omega)]
    rfl

/-! ## When they agree. -/

/-- A directory created in memory: `vfs_read_dir` lists nothing of it, the others its children. -/
lemma agree_memory_iff {st : ReadDir} (look : vfsLookup D s path = some (0, n, s')) (dir : n.flags &&& FT_DIR ≠ 0)
    (memory : n.readdir = none) : Agree D s path st ↔
      ∃ ps, Children s' n ps ∧ ps.length < 2 ^ 32 ∧ ∀ p ∈ ps, isDots (s'.node p).name = true := by
  have nothing : readDirAll D s path st = some [] := readDirAll_empty look (.inr (.inl memory))
  constructor
  · rintro ⟨a, b, c, first, second, -, same, -⟩
    cases nothing.symm.trans second
    obtain ⟨c', yields⟩ := (readdirAll_iff look dir).mp first
    obtain ⟨ps, chain, few⟩ := children_of_yields yields dir memory
    obtain ⟨c'', all, -⟩ := yields_children D s'.drv dir memory chain few
    obtain ⟨rfl, -⟩ := yields.unique all
    refine ⟨ps, chain, few, fun p mem => ?_⟩
    have dots := undotted_nil.mp same _ (List.mem_map_of_mem mem)
    exact (isDots_take _).symm.trans dots
  · rintro ⟨ps, chain, few, dots⟩
    obtain ⟨c', yields, -⟩ := yields_children D s'.drv dir memory chain few
    have some_ : undotted (ps.map (entryOf s')) = [] := by
      refine undotted_nil.mpr fun e mem => ?_
      obtain ⟨p, child, rfl⟩ := List.mem_map.mp mem
      exact (isDots_take _).trans (dots p child)
    have named : undotted (listed s' ps) = [] := by
      refine undotted_nil.mpr fun e mem => ?_
      obtain ⟨p, child, rfl⟩ := List.mem_map.mp mem
      exact (isDots_take _).trans (dots p (List.mem_of_mem_filter child))
    exact ⟨_, _, _, (readdirAll_iff look dir).mpr ⟨c', yields⟩, nothing, (listsAll_iff look dir).mpr ⟨ps, chain, rfl⟩,
      some_, named.symm⟩

/-- A directory of the initial ramdisk: only `vfs_list` lists its children. -/
lemma agree_initrd_iff {s s' : Initrd.State} {n : Initrd.Node} {st : ReadDir}
    (look : vfsLookup Initrd.tarDriver s path = some (0, n, s')) (dir : n.flags &&& FT_DIR ≠ 0)
    (tar : n.readdir = some .tarReaddir) : Agree Initrd.tarDriver s path st ↔
      ∃ ps, Children s' n ps ∧ ∀ p ∈ ps, (s'.node p).name = [] ∨ isDots (s'.node p).name = true := by
  have second : readDirAll Initrd.tarDriver s path st = some [] := readDirAll_empty look (.inr (.inr ⟨_, tar, rfl⟩))
  have first : readdirAll Initrd.tarDriver s path = some [] := by
    have ends : readdirNext Initrd.tarDriver s' ({ n with position := 0 }, s'.drv) =
        (none, { n with position := 0 }, s'.drv) := by
      rw [readdirNext, vfsReaddir, if_neg dir, tar]
      rfl
    exact (readdirAll_iff look dir).mpr ⟨_, .nil ends⟩
  have dotted {ps : List Nat} : undotted (listed s' ps) = [] ↔
      ∀ p ∈ ps, (s'.node p).name = [] ∨ isDots (s'.node p).name = true := by
    rw [undotted_nil]
    constructor
    · intro dots p mem
      by_cases empty : (s'.node p).name = []
      · exact .inl empty
      · have listed_ : entryOf s' p ∈ listed s' ps :=
          List.mem_map_of_mem (List.mem_filter.mpr ⟨mem, by simpa using empty⟩)
        exact .inr ((isDots_take _).symm.trans (dots _ listed_))
    · intro dots e mem
      obtain ⟨p, child, rfl⟩ := List.mem_map.mp mem
      obtain ⟨child, named⟩ := List.mem_filter.mp child
      exact (isDots_take _).trans ((dots p child).resolve_left (by simpa using named))
  constructor
  · rintro ⟨a, b, c, run, run', all, -, same⟩
    cases second.symm.trans run'
    obtain ⟨ps, chain, rfl⟩ := (listsAll_iff look dir).mp all
    exact ⟨ps, chain, dotted.mp same.symm⟩
  · rintro ⟨ps, chain, dots⟩
    exact ⟨_, _, _, first, second, (listsAll_iff look dir).mpr ⟨ps, chain, rfl⟩, rfl, (dotted.mpr dots).symm⟩

/-- A node without the flag of directories: nothing is listed. -/
lemma agree_flagless {st : ReadDir} (look : vfsLookup D s path = some (0, n, s')) (regular : n.flags &&& FT_DIR = 0) :
    Agree D s path st := by
  refine ⟨[], [], [], ?_, readDirAll_empty look (.inl regular), ⟨1, fun maxEntries ge => ⟨-ENOTDIR, s', ?_⟩⟩, rfl, rfl⟩
  · have refused : vfsOpendir D s path = some (-ENOTDIR, n, s') := by simp [vfsOpendir, look, regular]
    rw [readdirAll, refused]
    rfl
  · have pos : ¬ maxEntries ≤ 0 := by omega
    simp [vfsList, pos, look, regular]

/-- The three ways to list a directory agree exactly when, in memory or on the initial ramdisk, it has no child but for
    `"."` and `".."`. The directories of a FAT32 volume lack the flag of directories, and nothing is listed of them. -/
theorem listings_agree_iff (D : Driver F σ) (s s' : State F σ) (n : Node F) (r r' : Initrd.State) (d : Initrd.Node)
    (v v' : Fat.State) (c : Fat.Node) (path : List UInt8) (st : ReadDir) :
    (vfsLookup D s path = some (0, n, s') → n.flags &&& FT_DIR ≠ 0 → n.readdir = none →
      (Agree D s path st ↔
        ∃ ps, Children s' n ps ∧ ps.length < 2 ^ 32 ∧ ∀ p ∈ ps, isDots (s'.node p).name = true)) ∧
    (vfsLookup Initrd.tarDriver r path = some (0, d, r') → d.flags &&& FT_DIR ≠ 0 → d.readdir = some .tarReaddir →
      (Agree Initrd.tarDriver r path st ↔
        ∃ ps, Children r' d ps ∧ ∀ p ∈ ps, (r'.node p).name = [] ∨ isDots (r'.node p).name = true)) ∧
    (vfsLookup Fat.fat32Driver v path = some (0, c, v') → c.flags = Fat.VFS_DIRECTORY →
      Agree Fat.fat32Driver v path st) := by
  refine ⟨agree_memory_iff, agree_initrd_iff, fun look flags => agree_flagless look ?_⟩
  rw [flags]
  decide

/-- A root directory whose one child is `.`, with or without the callback of the initial ramdisk. -/
def dotDirectory (readdir : Option Initrd.TarFn) : Initrd.State where
  nodes _ := some (Initrd.dirNode [0x2E] 0)
  buffers _ := []
  oom _ := false
  calls := 2
  vfsRoot := { Initrd.rootNode with readdir, children := some 1 }
  openFiles _ := .zero
  drv := ⟨⟨fun _ => 0, 0, 0, 0, 0, false⟩, 0xC0000000, 1024, fun _ => none⟩

/-- The root node of a FAT32 volume. -/
def fatDirectory : Fat.State where
  nodes _ := none
  buffers _ := []
  oom _ := false
  calls := 0
  vfsRoot := Fat.fatNode [0x2F] 0 true 0xC000000C
  openFiles _ := .zero
  drv := ⟨⟨fun _ => none, ⟨fun _ => 0, 0, 0, 0, 0, false⟩, Fat.bootSector [], 0, 0, 0, 0, false⟩, 0, 0, false⟩

/-- The three lists are the same on that directory, in memory and in a ramdisk, and on the root of a FAT32 volume. -/
theorem listings_agree_iff_dot :
    Agree Initrd.tarDriver (dotDirectory none) [0x2F] ⟨⟨[], 0, false⟩, 0⟩ ∧
    Agree Initrd.tarDriver (dotDirectory (some .tarReaddir)) [0x2F] ⟨⟨[], 0, false⟩, 0⟩ ∧
    Agree Fat.fat32Driver fatDirectory [0x2F] ⟨⟨[], 0, false⟩, 0⟩ := by
  obtain ⟨memory, -, fat⟩ := listings_agree_iff Initrd.tarDriver (dotDirectory none) (dotDirectory none)
    (dotDirectory none).vfsRoot (dotDirectory none) (dotDirectory none) .zero fatDirectory fatDirectory
    fatDirectory.vfsRoot [0x2F] ⟨⟨[], 0, false⟩, 0⟩
  obtain ⟨-, ramdisk, -⟩ := listings_agree_iff Initrd.tarDriver (dotDirectory none) (dotDirectory none) .zero
    (dotDirectory (some .tarReaddir)) (dotDirectory (some .tarReaddir)) (dotDirectory (some .tarReaddir)).vfsRoot
    fatDirectory fatDirectory .zero [0x2F] ⟨⟨[], 0, false⟩, 0⟩
  have chain (readdir : Option Initrd.TarFn) :
      Children (dotDirectory readdir) (dotDirectory readdir).vfsRoot [1] := .cons .nil
  refine ⟨(memory vfsLookup_slash (by decide) rfl).mpr ⟨[1], chain none, by decide, fun p mem => rfl⟩,
    (ramdisk vfsLookup_slash (by decide) rfl).mpr ⟨[1], chain _, fun p mem => .inr rfl⟩, fat vfsLookup_slash rfl⟩

/-- An initial ramdisk whose root directory holds one empty file. -/
def oneFileArchive : Initrd.State where
  nodes _ := some (Initrd.fileNode [0x61] 0 0 0 2)
  buffers _ := []
  oom _ := false
  calls := 3
  vfsRoot := { Initrd.rootNode with children := some 1 }
  openFiles _ := .zero
  drv := ⟨⟨fun _ => 0, 0, 0, 0, 0, false⟩, 0xC0000000, 1024, fun _ => some ⟨0, 512⟩⟩

/-- `vfs_list` lists the file and `vfs_readdir` nothing. -/
theorem listings_disagree : ListsAll Initrd.tarDriver oneFileArchive [0x2F] [⟨[0x61], 0, false⟩] ∧
    readDirAll Initrd.tarDriver oneFileArchive [0x2F] ⟨⟨[], 0, false⟩, 0⟩ = some [] ∧
    ¬ Agree Initrd.tarDriver oneFileArchive [0x2F] ⟨⟨[], 0, false⟩, 0⟩ := by
  have look : vfsLookup Initrd.tarDriver oneFileArchive [0x2F] = some (0, oneFileArchive.vfsRoot, oneFileArchive) :=
    vfsLookup_slash
  have chain : Children oneFileArchive oneFileArchive.vfsRoot [1] := .cons .nil
  have dir : oneFileArchive.vfsRoot.flags &&& FT_DIR ≠ 0 := by decide
  refine ⟨(listsAll_iff look dir).mpr ⟨[1], chain, rfl⟩, readDirAll_empty look (.inr (.inr ⟨_, rfl, rfl⟩)),
    fun agree => ?_⟩
  obtain ⟨ps, chain', dots⟩ := (agree_initrd_iff look dir rfl).mp agree
  obtain rfl := chain.unique chain'
  exact absurd (dots 1 (by simp)) (by decide)

end RetaOS.Vfs
