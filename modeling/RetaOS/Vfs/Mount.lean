import RetaOS.Vfs.Remove

/-!
# Mounts

`vfs_mount` installs a file system only for the path `"/"`, by a copy of its root node to the root of the
namespace. For any other existing directory it copies the root node to a local variable, and for a missing one
it makes do with `vfs_mkdir`; both can return 0. `mounted_iff` says for which calls the promise of `vfs_mount`
holds: that a return of 0 means the file system is found at the path, and any other return that no lookup has
changed.
-/

namespace RetaOS.Vfs
open Lib

variable {F σ : Type} {D : Driver F σ} {s s' s'' : State F σ} {A : Set Nat} {Same : σ → σ → Prop}
  {n fs : Node F} {path dir : List UInt8} {ret : Int} {d : σ} {fsRoot : Nat}

/-- The two nodes have the same operations. -/
structure SameOps (n n' : Node F) : Prop where
  read : n.read = n'.read
  write : n.write = n'.write
  open_ : n.open_ = n'.open_
  close : n.close = n'.close
  readdir : n.readdir = n'.readdir
  finddir : n.finddir = n'.finddir
  lseek : n.lseek = n'.lseek

/-- The path leads to a node with the operations and the children of `fs`, and longer paths go on from it. -/
def Installed (D : Driver F σ) (s : State F σ) (path : List UInt8) (fs : Node F) : Prop :=
  ∃ n, lookupOf D s path = some (0, n) ∧ SameOps n fs ∧ n.children = fs.children ∧
    ∀ rest, path.length + 1 + rest.length < VFS_PATH_MAX →
      lookupOf D s (path ++ 0x2F :: rest) = lookupFrom D s n rest

/-- What `vfs_mount` promises for a path and the root node of a file system. -/
structure MountKept (D : Driver F σ) (s : State F σ) (path : List UInt8) (fsRoot : Nat) : Prop where
  success : ∀ s', vfsMount D s path fsRoot = some (0, s') → Installed D s' path (s.node fsRoot)
  error : ∀ ret s', vfsMount D s path fsRoot = some (ret, s') → ret ≠ 0 →
    ∀ q, lookupOf D s' q = lookupOf D s q

/-- The directory part of the path, when it has one, leads to a directory. -/
def ParentFound (D : Driver F σ) (s : State F σ) (path : List UInt8) : Prop :=
  match rsplit isSlash path with
  | none | some ([], _) => True
  | some (dir, _) => dir.length < VFS_PATH_MAX ∧ ∃ n, lookupOf D s dir = some (0, n) ∧ isDirectory n.flags = true

/-- What the `open` callback of the mounted root makes of it. -/
def openRoot (D : Driver F σ) (fs : Node F) (d : σ) : Int × Node F × σ :=
  match fs.open_ with
  | none => (0, fs, d)
  | some f => D.open_ f d fs 0

/-- The condition for a mount point that is a directory; `d` is the driver state after its lookup. -/
def DirectoryHolds (D : Driver F σ) (s : State F σ) (path : List UInt8) (fs : Node F) (d : σ) : Prop :=
  if path = [0x2F] then
    if (openRoot D fs d).1 = 0 then SameOps (openRoot D fs d).2.1 fs ∧ (openRoot D fs d).2.1.children = fs.children
    else (openRoot D fs d).2.1 = s.vfsRoot
  else (openRoot D fs d).1 = 0 → Installed D s path fs

/-- The calls for which the promise holds: nothing is mounted, a missing mount point is not created, the root is
    mounted and its `open` callback keeps operations and children or fails and gives the old root, or the path
    leads to what is mounted already. -/
def MountHolds (D : Driver F σ) (s : State F σ) (path : List UInt8) (fsRoot : Nat) : Prop :=
  (s.node fsRoot).name ≠ [] → ∀ ret n s1, vfsLookup D s path = some (ret, n, s1) →
    if ret ≠ 0 then ¬ (ParentFound D s path ∧ Accepts D s path)
    else isDirectory n.flags = true → DirectoryHolds D s path (s.node fsRoot) s1.drv

/-! ## Lookups below a mount point. -/

lemma SameOps.refl (n : Node F) : SameOps n n := ⟨rfl, rfl, rfl, rfl, rfl, rfl, rfl⟩

/-- A separator in front changes nothing for `strtok_r`. -/
lemma strtokR_slash (rest : List UInt8) : strtokR isSlash (0x2F :: rest) = strtokR isSlash rest := by
  rw [strtokR, strtokR, List.dropWhile_cons_of_pos rfl]

/-- Longer paths go on from the root. -/
lemma lookupOf_root (rest : List UInt8) (len : 2 + rest.length < VFS_PATH_MAX) :
    lookupOf D s (0x2F :: 0x2F :: rest) = lookupFrom D s s.vfsRoot rest := by
  have all : (0x2F :: 0x2F :: rest).take (VFS_PATH_MAX - 1) = 0x2F :: 0x2F :: rest := by
    apply List.take_of_length_le
    rw [List.length_cons, List.length_cons]
    omega
  have start : lookupStart s (0x2F :: 0x2F :: rest) s.drv =
      ⟨s.vfsRoot, (strtokR isSlash rest).1, (strtokR isSlash rest).2, s.drv⟩ := by
    rw [lookupStart, if_neg (by simp), all]
    change (⟨_, (strtokR isSlash (0x2F :: rest)).1, (strtokR isSlash (0x2F :: rest)).2, _⟩ : Lookup F σ) = _
    rw [strtokR_slash]
  rw [lookupOf_eq, start, lookupFrom]

/-- What is installed stays installed through changes that lookup does not see. -/
lemma installed_kept (st : Steady D A Same) (cl : Closed s A) (k : Kept A Same s s') :
    Installed D s' path fs ↔ Installed D s path fs := by
  unfold Installed
  refine exists_congr fun n => ?_
  rw [lookupOf_kept st cl k]
  refine and_congr_right fun found => and_congr_right fun _ => and_congr_right fun _ => ?_
  obtain ⟨t, look⟩ := lookupOf_eq_some.mp found
  have inside : Inside A n := (vfsLookup_drv st cl look).2.1
  refine forall_congr' fun rest => ?_
  rw [lookupOf_kept st cl k, lookupFrom_kept st cl k inside]

/-! ## Missing mount points. -/

/-- Acceptance depends on what lookup sees and on the room left. -/
lemma accepts_kept (st : Steady D A Same) (cl : Closed s A) (k : Kept A Same s s') (calls : s'.calls = s.calls)
    (oom : s'.oom = s.oom) : Accepts D s' path ↔ Accepts D s path := by
  constructor
  · rintro ⟨nonempty, room, parent, missing⟩
    simp only [lookupOf_kept st cl k, calls, oom] at room parent missing
    exact ⟨nonempty, room, parent, missing⟩
  · rintro ⟨nonempty, room, parent, missing⟩
    refine ⟨nonempty, ?_, ?_, ?_⟩
    · rwa [calls, oom]
    · simpa only [lookupOf_kept st cl k] using parent
    · simpa only [lookupOf_kept st cl k] using missing

/-- What `vfs_mkdir` can do after a change that lookup does not see. -/
lemma vfsMkdir_spec (st : Steady D A Same) (cl : Closed s A) (k : Kept A Same s s') (calls : s'.calls = s.calls)
    (oom : s'.oom = s.oom) (path : List UInt8) :
    (∀ ret s'', vfsMkdir D s' path = some (ret, s'') → Kept A Same s s'') ∧
    ((∃ s'', vfsMkdir D s' path = some (0, s'')) ↔ Accepts D s path) := by
  have cl' := cl.kept k calls.ge
  constructor
  · intro ret s'' run
    exact k.trans st (Make.mkdir.kept st cl' run)
  · rw [← accepts_kept st cl k calls oom]
    exact Make.mkdir.accepts st cl'

/-- What the creation of a missing mount point can do. -/
lemma mountMissing_spec (st : Steady D A Same) (cl : Closed s A) (k : Kept A Same s s') (calls : s'.calls = s.calls)
    (oom : s'.oom = s.oom) (path : List UInt8) :
    (∀ ret s'', mountMissing D s' path = some (ret, s'') → Kept A Same s s'') ∧
    ((∃ s'', mountMissing D s' path = some (0, s'')) ↔ ParentFound D s path ∧ Accepts D s path) := by
  unfold mountMissing ParentFound
  cases cut : rsplit isSlash path with
  | none =>
    simp only [true_and]
    exact vfsMkdir_spec st cl k calls oom path
  | some parts =>
    obtain ⟨dir, name⟩ := parts
    -- without a slash, or with one at the start only, the parent is the root and is not looked up
    cases dir with
    | nil =>
      simp only [true_and]
      exact vfsMkdir_spec st cl k calls oom path
    | cons c cs =>
      dsimp only
      by_cases long : (c :: cs).length ≥ VFS_PATH_MAX
      · rw [if_pos long]
        refine ⟨fun ret s'' run => ?_, iff_of_false ?_ ?_⟩
        · cases run
          exact k
        · rintro ⟨s'', run⟩
          cases run
        · rintro ⟨⟨short, -⟩, -⟩
          exact absurd short (not_lt.mpr long)
      · rw [if_neg long, ← lookupOf_kept st cl k (c :: cs), lookupOf]
        cases look : vfsLookup D s' (c :: cs) with
        | none =>
          dsimp only [Option.map_none]
          refine ⟨?_, iff_of_false ?_ ?_⟩
          · rintro ret s'' ⟨⟩
          · rintro ⟨s'', ⟨⟩⟩
          · rintro ⟨⟨-, n, ⟨⟩, -⟩, -⟩
        | some r =>
          obtain ⟨ret, n, t⟩ := r
          obtain ⟨-, kt, callst, oomt⟩ := k.lookup st cl calls.ge look
          -- the parent has been looked up; `vfs_mkdir` decides, unless it is missing or no directory
          obtain ⟨kept, zero⟩ := vfsMkdir_spec st cl kt (callst.trans calls) (oomt.trans oom) path
          dsimp only
          split_ifs with bad notDir
          · refine ⟨fun ret s'' run => ?_, iff_of_false ?_ ?_⟩
            · cases run
              exact kt
            · rintro ⟨s'', run⟩
              cases run
              exact bad rfl
            · rintro ⟨⟨-, n', found, -⟩, -⟩
              cases found
              exact bad rfl
          · refine ⟨fun ret s'' run => ?_, iff_of_false ?_ ?_⟩
            · cases run
              exact kt
            · rintro ⟨s'', run⟩
              cases run
            · rintro ⟨⟨-, n', found, isDir⟩, -⟩
              cases found
              rw [notDir] at isDir
              cases isDir
          · rw [zero, iff_and_self]
            refine ⟨kept, fun _ => ⟨not_le.mp long, n, ?_, Bool.not_eq_false _ ▸ notDir⟩⟩
            rw [not_not.mp bad]
            rfl

/-! ## The promise. -/

/-- The state after the `open` callback: the namespace has changed for the path `"/"` only. -/
def mountedState (D : Driver F σ) (s : State F σ) (path : List UInt8) (fs : Node F) : State F σ :=
  if path = [0x2F] then { s with vfsRoot := (openRoot D fs s.drv).2.1, drv := (openRoot D fs s.drv).2.2 }
  else { s with drv := (openRoot D fs s.drv).2.2 }

/-- A mount point that is a directory. -/
lemma vfsMount_directory {s1 : State F σ} (named : (s.node fsRoot).name ≠ [])
    (look : vfsLookup D s path = some (0, n, s1)) (isDir : isDirectory n.flags = true) :
    vfsMount D s path fsRoot =
      some ((openRoot D (s.node fsRoot) s1.drv).1, mountedState D s1 path (s.node fsRoot)) := by
  obtain ⟨d, rfl⟩ := vfsLookup_state look
  have same : State.node { s with drv := d } fsRoot = s.node fsRoot := rfl
  unfold vfsMount mountedState openRoot
  rw [if_neg named, look]
  dsimp only
  rw [if_neg (not_not.mpr rfl), isDir, if_neg (by decide)]
  split_ifs with slash
  · rw [vfsSetRoot, same]
    dsimp only
    cases (s.node fsRoot).open_ with
    | none => rfl
    | some f => rfl
  · rw [same]
    cases (s.node fsRoot).open_ with
    | none => rfl
    | some f => rfl

/-- A call that returns keeps the promise when what it returns does. -/
lemma mountKept_of_run (run : vfsMount D s path fsRoot = some (ret, s')) :
    MountKept D s path fsRoot ↔ (ret = 0 → Installed D s' path (s.node fsRoot)) ∧
      (ret ≠ 0 → ∀ q, lookupOf D s' q = lookupOf D s q) := by
  constructor
  · intro kept
    refine ⟨?_, kept.error ret s' run⟩
    rintro rfl
    exact kept.success s' run
  · rintro ⟨success, error⟩
    constructor
    · intro t run'
      cases run.symm.trans run'
      exact success rfl
    · intro r t run' ne
      cases run.symm.trans run'
      exact error ne

/-- The condition once the lookup of the mount point has returned. -/
lemma mountHolds_of_look {s1 : State F σ} (named : (s.node fsRoot).name ≠ [])
    (look : vfsLookup D s path = some (ret, n, s1)) :
    MountHolds D s path fsRoot ↔ if ret ≠ 0 then ¬ (ParentFound D s path ∧ Accepts D s path)
      else isDirectory n.flags = true → DirectoryHolds D s path (s.node fsRoot) s1.drv := by
  constructor
  · exact fun holds => holds named ret n s1 look
  · intro holds _ r m t look'
    cases look.symm.trans look'
    exact holds

/-- What `"/"` leads to after a mount there. -/
lemma installed_root {fs : Node F} : Installed D s [0x2F] fs ↔
    SameOps s.vfsRoot fs ∧ s.vfsRoot.children = fs.children := by
  constructor
  · rintro ⟨n, found, ops, children, -⟩
    rw [lookupOf_slash] at found
    cases found
    exact ⟨ops, children⟩
  · rintro ⟨ops, children⟩
    exact ⟨s.vfsRoot, lookupOf_slash, ops, children, fun rest len => lookupOf_root rest len⟩

section Callbacks
variable (st : Steady D A Same) (opens : ∀ f d n flags, Same d (D.open_ f d n flags).2.2) (cl : Closed s A)

include st opens in
/-- An `open` callback leaves the driver in a state that is the same for lookups. -/
lemma openRoot_drv (fs : Node F) (d : σ) : Same d (openRoot D fs d).2.2 := by
  unfold openRoot
  cases fs.open_ with
  | none => exact st.refl d
  | some f => exact opens f d fs 0

include st opens in
/-- A mount that leaves the root as it was is a change that lookup does not see. -/
lemma mountedState_kept {s1 : State F σ} (k : Kept A Same s s1) (fs : Node F)
    (root : path = [0x2F] → (openRoot D fs s1.drv).2.1 = s.vfsRoot) : Kept A Same s (mountedState D s1 path fs) := by
  have drv := st.trans k.drv (openRoot_drv st opens fs s1.drv)
  unfold mountedState
  split_ifs with slash
  · exact { root := root slash, node := k.node, drv := drv }
  · exact { root := k.root, node := k.node, drv := drv }

include st cl in
/-- A missing mount point keeps the promise exactly when it is not created. -/
lemma missing_kept_iff {s1 : State F σ} (named : (s.node fsRoot).name ≠ [])
    (look : vfsLookup D s path = some (ret, n, s1)) (bad : ret ≠ 0) :
    MountKept D s path fsRoot ↔ ¬ (ParentFound D s path ∧ Accepts D s path) := by
  obtain ⟨eq, -, k⟩ := vfsLookup_drv st cl look
  dsimp only at eq k
  have calls : s1.calls = s.calls := by rw [eq]
  have oom : s1.oom = s.oom := by rw [eq]
  obtain ⟨spec, zero⟩ := mountMissing_spec st cl k calls oom path
  have run : vfsMount D s path fsRoot = mountMissing D s1 path := by
    rw [vfsMount, if_neg named, look]
    exact if_pos bad
  rw [← zero]
  constructor
  · rintro kept ⟨s', made⟩
    obtain ⟨m, found, -⟩ := kept.success s' (run.trans made)
    rw [lookupOf_kept st cl (spec 0 s' made), lookupOf, look] at found
    cases found
    exact bad rfl
  · intro none
    constructor
    · intro s' made
      exact absurd ⟨s', run.symm.trans made⟩ none
    · intro r s' made _ q
      exact lookupOf_kept st cl (spec r s' (run.symm.trans made)) q

include st opens cl in
/-- A mount point that is a directory: at `"/"` the root is replaced, elsewhere nothing that lookup sees. -/
lemma directory_kept_iff {s1 : State F σ} (k : Kept A Same s s1) (fs : Node F) :
    ((openRoot D fs s1.drv).1 = 0 → Installed D (mountedState D s1 path fs) path fs) ∧
        ((openRoot D fs s1.drv).1 ≠ 0 → ∀ q, lookupOf D (mountedState D s1 path fs) q = lookupOf D s q) ↔
      DirectoryHolds D s path fs s1.drv := by
  unfold DirectoryHolds
  split_ifs with slash zero
  · have root : Installed D (mountedState D s1 path fs) path fs ↔
        SameOps (openRoot D fs s1.drv).2.1 fs ∧ (openRoot D fs s1.drv).2.1.children = fs.children := by
      rw [slash, installed_root, mountedState, if_pos rfl]
    rw [root]
    exact ⟨fun h => h.1 zero, fun h => ⟨fun _ => h, fun ne => absurd zero ne⟩⟩
  · constructor
    · rintro ⟨-, error⟩
      have same := error zero [0x2F]
      rw [lookupOf_slash, lookupOf_slash, mountedState, if_pos slash] at same
      exact (Prod.mk.inj (Option.some.inj same)).2
    · intro same
      refine ⟨fun h => absurd h zero, fun _ q => ?_⟩
      exact lookupOf_kept st cl (mountedState_kept st opens k fs fun _ => same) q
  · have same := mountedState_kept st opens k fs fun h => absurd h slash
    rw [installed_kept st cl same]
    exact ⟨And.left, fun h => ⟨h, fun _ q => lookupOf_kept st cl same q⟩⟩

include st opens cl in
/-- `vfs_mount` keeps its promise exactly for the calls of `MountHolds`. -/
theorem mounted_iff : MountKept D s path fsRoot ↔ MountHolds D s path fsRoot := by
  by_cases named : (s.node fsRoot).name = []
  · have run : vfsMount D s path fsRoot = some (-EINVAL, s) := if_pos named
    rw [mountKept_of_run run]
    exact iff_of_true ⟨fun no => absurd no (by decide), fun _ _ => rfl⟩ fun ne => absurd named ne
  cases look : vfsLookup D s path with
  | none =>
    have run : vfsMount D s path fsRoot = none := by
      rw [vfsMount, if_neg named, look]
    have never (r : Int × State F σ) : vfsMount D s path fsRoot ≠ some r := by
      rw [run]
      nofun
    refine iff_of_true ⟨fun s' h => absurd h (never _), fun ret s' h => absurd h (never _)⟩ ?_
    intro _ ret n s1 look'
    cases look.symm.trans look'
  | some r =>
    obtain ⟨ret, n, s1⟩ := r
    have k : Kept A Same s s1 := (vfsLookup_drv st cl look).2.2
    rw [mountHolds_of_look named look]
    split_ifs with bad
    · exact missing_kept_iff st cl named look bad
    rw [not_not] at bad
    subst bad
    cases isDir : isDirectory n.flags with
    | false =>
      have run : vfsMount D s path fsRoot = some (-ENOTDIR, s1) := by
        rw [vfsMount, if_neg named, look]
        exact if_pos isDir
      rw [mountKept_of_run run]
      refine iff_of_true ⟨fun no => absurd no (by decide), fun _ q => lookupOf_kept st cl k q⟩ ?_
      exact fun no => nomatch no
    | true =>
      rw [mountKept_of_run (vfsMount_directory named look isDir), directory_kept_iff st opens cl k]
      exact ⟨fun holds _ => holds, fun holds => holds rfl⟩

end Callbacks

/-- A mount at `"/"` keeps the promise. -/
theorem mounted_at_root : MountKept noCallbacks rootOnly [0x2F] 0 := by
  refine (mounted_iff noCallbacks_steady (fun f => nomatch f) rootOnly_closed).mpr fun _ ret n s1 look => ?_
  have start : lookupOf noCallbacks rootOnly [0x2F] = some (ret, n) := lookupOf_eq_some.mpr ⟨s1, look⟩
  rw [lookupOf_slash] at start
  cases start
  rw [if_neg (by decide)]
  intro _
  have opened : openRoot noCallbacks (rootOnly.node 0) s1.drv = (0, rootOnly.node 0, s1.drv) := rfl
  rw [DirectoryHolds, if_pos rfl, opened, if_pos rfl]
  exact ⟨SameOps.refl _, rfl⟩

/-- The directory `mnt`. -/
def mnt : Node Empty := { Node.zero with name := [0x6D, 0x6E, 0x74], flags := S_IFDIR ||| 0o755 }

/-- A tree with the empty directory `mnt`, and apart from it the root node of a file system with a child. -/
def twoTrees : State Empty Unit :=
  (oneChild mnt).setNode 2 { Node.zero with name := [0x2F], flags := S_IFDIR ||| 0o755, children := some 3 }

/-- `vfs_mount("/mnt", ...)` returns 0, and `/mnt` is still the empty directory. -/
theorem mount_lost : vfsMount noCallbacks twoTrees [0x2F, 0x6D, 0x6E, 0x74] 2 = some (0, twoTrees) ∧
    ¬ Installed noCallbacks twoTrees [0x2F, 0x6D, 0x6E, 0x74] (twoTrees.node 2) := by
  have tree : Tree twoTrees 0 {1, 0} (attachKids (fun _ => []) 0 1) := by
    have apart : ∀ p ∈ ({1, 0} : Set Nat), twoTrees.node p = (oneChild mnt).node p := by
      intro p hp
      refine node_setNode_ne ?_
      obtain rfl | rfl := hp
      · decide
      · decide
    refine (oneChild_tree mnt).congr le_rfl ?_ ?_ ?_
    · exact fun p hp => congrArg Node.children (apart p hp)
    · exact fun p hp => congrArg Node.next (apart p hp)
    · exact fun p hp => congrArg Node.parent (apart p hp)
  have plain : Plain noCallbacks twoTrees {1, 0} := by
    refine ⟨fun p hp => ?_, fun p hp f => nomatch f⟩
    obtain rfl | rfl := hp
    · decide
    · decide
  have look : vfsLookup noCallbacks twoTrees [0x2F, 0x6D, 0x6E, 0x74] = some (0, twoTrees.node 1, twoTrees) := by
    rw [vfsLookup_eq tree plain rfl]
    rfl
  constructor
  · rw [vfsMount_directory (by decide) look (by decide)]
    rfl
  · rintro ⟨n, found, -, children, -⟩
    rw [lookupOf, look] at found
    cases found
    exact absurd children (by decide)

end RetaOS.Vfs
