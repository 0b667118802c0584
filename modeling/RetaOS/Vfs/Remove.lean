import RetaOS.Vfs.Create

/-!
# Removal of nodes

`vfs_remove` and `vfs_rmdir` look their node up into a local variable and then look for that variable among the
children of the parent: a pointer into the tree is compared with the address of the copy. The two are never
equal, so no call returns 0 and none changes the tree (`Unlink.result`). `unlinked_iff` says when the promise of
the two calls holds nevertheless.
-/

namespace RetaOS.Vfs
open Lib

/-- The calls that remove nodes. -/
inductive Unlink where
  | remove
  | rmdir

/-- The value a call returns, and the state it leaves. -/
def Unlink.run {F σ : Type} (D : Driver F σ) (s : State F σ) (path : List UInt8) : Unlink → Option (Int × State F σ)
  | .remove => vfsRemove D s path
  | .rmdir => vfsRmdir D s path

variable {F σ : Type} {D : Driver F σ} {s s' t : State F σ} {root q : Nat} {T : Set Nat} {κ : Nat → List Nat}
  {n dir : Node F} {path : List UInt8} {ret : Int} {d d' : σ} {call : Unlink} {l : Link}

/-- The tree is as it was. -/
def Unchanged (s s' : State F σ) : Prop := s'.nodes = s.nodes ∧ s'.vfsRoot = s.vfsRoot

/-- `q` was taken out of the list of its parent, and all other nodes are the same but for that list. -/
structure Removed (s s' : State F σ) (root : Nat) (T : Set Nat) (κ : Nat → List Nat) (q : Nat) : Prop where
  tree : Tree s' root (T \ {q}) fun p => (κ p).erase q
  others : ∀ p ∈ T, p ≠ q → ∃ children next, s'.node p = { s.node p with children, next }

/-- The path names the node `q` of the tree, a directory or not, which has a parent. -/
structure Names (D : Driver F σ) (s : State F σ) (T : Set Nat) (path : List UInt8) (q : Nat) (isDir : Bool) :
    Prop where
  mem : q ∈ T
  found : lookupOf D s path = some (0, s.node q)
  isDir : isDirectory (s.node q).flags = isDir
  parent : (s.node q).parent ≠ none

/-- What the two calls promise for a path: `vfs_remove` takes out the node it names that is no directory,
    `vfs_rmdir` refuses a directory with a child and takes out one without, and errors leave the tree alone. -/
structure UnlinkKept (D : Driver F σ) (s : State F σ) (root : Nat) (T : Set Nat) (κ : Nat → List Nat)
    (path : List UInt8) : Prop where
  remove : ∀ q, Names D s T path q false → ∃ s', vfsRemove D s path = some (0, s') ∧ Removed s s' root T κ q
  occupied : ∀ q, Names D s T path q true → κ q ≠ [] → ∃ s', vfsRmdir D s path = some (-ENOTEMPTY, s')
  rmdir : ∀ q, Names D s T path q true → κ q = [] →
    ∃ s', vfsRmdir D s path = some (0, s') ∧ Removed s s' root T κ q
  error : ∀ (call : Unlink) ret s', call.run D s path = some (ret, s') → ret ≠ 0 → Unchanged s s'

/-- Reading the directory on yields an entry other than `.` and `..`. -/
inductive Reports (D : Driver F σ) (s : State F σ) : Node F → σ → Prop where
  | entry {dir d e dir' d'} :
    vfsReaddir D s dir d = (some e, dir', d') →
    isDots e.name = false →
    Reports D s dir d
  | dots {dir d e dir' d'} :
    vfsReaddir D s dir d = (some e, dir', d') →
    isDots e.name = true →
    Reports D s dir' d' →
    Reports D s dir d

/-- `vfs_opendir` of the path, after a first lookup of it, gives a directory that reports an entry. -/
def OpensOccupied (D : Driver F σ) (s : State F σ) (path : List UInt8) : Prop :=
  path ≠ [] ∧ ∃ r n s1 dir s2, vfsLookup D s path = some (r, n, s1) ∧ vfsOpendir D s1 path = some (0, dir, s2) ∧
    Reports D s2 dir s2.drv

/-! ## No call unlinks a node. -/

/-- The loop over `child_ptr` never meets the local variable. -/
lemma unlinkBody_result (run : loop (unlinkBody s) l = some (ret, s')) : ret = -ENOENT ∧ s' = s := by
  refine loop_rule (I := fun _ => True) (Q := fun r : Int × State F σ => r.1 = -ENOENT ∧ r.2 = s) ?_ trivial run
  intro l _
  unfold unlinkBody
  split
  · exact .done ⟨rfl, rfl⟩
  · rw [if_neg nofun]
    exact .next trivial

/-- Over a list of children that ends the loop ends, with an error. -/
lemma unlinkBody_ends {xs : List Nat} (lk : Linked s.sibling (s.link l) xs) :
    loop (unlinkBody s) l = some (-ENOENT, s) := by
  generalize first : s.link l = p at lk
  induction lk generalizing l with
  | nil =>
    apply loop_done
    rw [unlinkBody, first]
  | @cons p xs _ ih =>
    have pass : unlinkBody s l = .next (.next p) := by
      rw [unlinkBody, first]
      exact if_neg nofun
    rw [loop_next pass]
    exact ih rfl

lemma unlinkNode_result (run : unlinkNode D s n = some (ret, s')) :
    ret = -ENOENT ∧ ∃ d, s' = { s with drv := d } := by
  unfold unlinkNode at run
  dsimp only at run
  split at run
  · cases run
    exact ⟨rfl, _, rfl⟩
  · obtain ⟨rfl, rfl⟩ := unlinkBody_result run
    exact ⟨rfl, _, rfl⟩

lemma vfsOpendir_state (run : vfsOpendir D s path = some (ret, n, t)) : ∃ d, t = { s with drv := d } := by
  unfold vfsOpendir at run
  split at run
  · cases run
  · rename_i look
    split_ifs at run
    · cases run
      exact vfsLookup_state look
    · cases run
      exact vfsLookup_state look
    · cases run
      exact vfsLookup_state look

/-- No call returns 0 or changes anything but the driver state. -/
theorem Unlink.result (call : Unlink) (run : call.run D s path = some (ret, s')) :
    ret ≠ 0 ∧ ∃ d, s' = { s with drv := d } := by
  have missing : -ENOENT ≠ 0 := by decide
  cases call with
  | remove =>
    change vfsRemove D s path = _ at run
    unfold vfsRemove at run
    split_ifs at run
    · cases run
      exact ⟨by decide, s.drv, rfl⟩
    · split at run
      · cases run
      · rename_i look
        obtain ⟨d, rfl⟩ := vfsLookup_state look
        split_ifs at run with bad
        · cases run
          exact ⟨bad, d, rfl⟩
        · cases run
          exact ⟨by decide, d, rfl⟩
        · obtain ⟨rfl, d', rfl⟩ := unlinkNode_result run
          exact ⟨missing, d', rfl⟩
  | rmdir =>
    change vfsRmdir D s path = _ at run
    unfold vfsRmdir at run
    split_ifs at run
    · cases run
      exact ⟨by decide, s.drv, rfl⟩
    · split at run
      · cases run
      · rename_i look
        obtain ⟨d, rfl⟩ := vfsLookup_state look
        split_ifs at run with bad
        · cases run
          exact ⟨bad, d, rfl⟩
        · cases run
          exact ⟨by decide, d, rfl⟩
        · split at run
          · cases run
          · rename_i open_
            obtain ⟨d', rfl⟩ := vfsOpendir_state open_
            split_ifs at run
            · cases run
              exact ⟨by decide, d', rfl⟩
            · split at run
              · cases run
              · split_ifs at run
                · cases run
                  exact ⟨by decide, _, rfl⟩
                · obtain ⟨rfl, d'', rfl⟩ := unlinkNode_result run
                  exact ⟨missing, d'', rfl⟩

/-! ## Empty directories. -/

/-- The loop of `vfs_rmdir` finds an entry when the directory reports one. -/
lemma entriesBody_reports : (∃ d', loop (entriesBody D s) (dir, d) = some (true, d')) ↔ Reports D s dir d := by
  constructor
  · rintro ⟨d', run⟩
    refine loop_back (P := fun x : Node F × σ => Reports D s x.1 x.2) (Q := fun r : Bool × σ => r.1 = true)
      ?_ ?_ run rfl
    · rintro ⟨dir, d⟩ ⟨dir', d'⟩ pass reports
      unfold entriesBody at pass
      dsimp only at pass
      split at pass
      · cases pass
      · rename_i read
        split_ifs at pass with dots
        cases pass
        exact .dots read dots reports
    · rintro ⟨dir, d⟩ ⟨b, d'⟩ done rfl
      unfold entriesBody at done
      dsimp only at done
      split at done
      · cases done
      · rename_i read
        split_ifs at done with dots
        exact .entry read (Bool.eq_false_iff.mpr dots)
  · intro reports
    induction reports with
    | @entry dir d e dir' d' read dots =>
      refine ⟨d', loop_done ?_⟩
      simp [entriesBody, read, dots]
    | @dots dir d e dir' d' read dots _ ih =>
      have pass : entriesBody D s (dir, d) = .next (dir', d') := by simp [entriesBody, read, dots]
      rw [loop_next pass]
      exact ih

/-- A `readdir` callback that gives empty entries, as `tar_readdir` does, hides all children. -/
lemma not_reports_of_silent {f : F} (hf : dir.readdir = some f) (silent : ∀ d n i, (D.readdir f d n i).1.name = []) :
    ¬ Reports D s dir d := by
  have read : ∀ e dir' d', vfsReaddir D s dir d ≠ (some e, dir', d') := by
    intro e dir' d' read
    unfold vfsReaddir at read
    split_ifs at read
    · cases read
    · rw [hf] at read
      dsimp only at read
      rw [if_pos (silent _ _ _)] at read
      cases read
  intro reports
  cases reports with
  | entry h => exact read _ _ _ h
  | dots h => exact read _ _ _ h

/-- The next entry of a directory without a `readdir` callback. -/
lemma vfsReaddir_children {l : List Nat} (isDir : dir.flags &&& FT_DIR ≠ 0) (list : dir.readdir = none)
    (lk : Linked s.sibling dir.children l) : vfsReaddir D s dir d = match l[dir.position.toNat]? with
      | none => (none, dir, d)
      | some p => (some ⟨(s.node p).name.take (VFS_NAME_MAX - 1), (s.node p).size, (s.node p).flags &&& FT_DIR != 0⟩,
          { dir with position := dir.position + 1 }, d) := by
  have walk := skipChildren_eq lk dir.position.toNat
  rw [vfsReaddir, if_neg isDir, list]
  generalize l[dir.position.toNat]? = r at walk
  subst walk
  rfl

/-- The entry of a child is not one of `.` and `..`. -/
def Listed (s : State F σ) (l : List Nat) (i : Nat) : Prop :=
  ∃ p, l[i]? = some p ∧ isDots ((s.node p).name.take (VFS_NAME_MAX - 1)) = false

/-- The position after a child that is in the list. -/
lemma next_position {l : List Nat} {pos : UInt32} {p : Nat} (len : l.length < 2 ^ 32)
    (at_ : l[pos.toNat]? = some p) : (pos + 1).toNat = pos.toNat + 1 := by
  have lt := (List.getElem?_eq_some_iff.mp at_).1
  rw [UInt32.toNat_add]
  change (_ + 1) % 2 ^ 32 = _
  omega

/-- A directory without a `readdir` callback reports an entry when a child has another name than `.` and `..`. -/
lemma reports_children {l : List Nat} (isDir : dir.flags &&& FT_DIR ≠ 0) (list : dir.readdir = none)
    (lk : Linked s.sibling dir.children l) (len : l.length < 2 ^ 32) :
    Reports D s dir d ↔ ∃ i, dir.position.toNat ≤ i ∧ Listed s l i := by
  constructor
  · intro reports
    induction reports with
    | entry read dots =>
      rw [vfsReaddir_children isDir list lk] at read
      split at read
      · cases read
      · rename_i p at_
        cases read
        exact ⟨_, le_rfl, p, at_, dots⟩
    | dots read dots _ ih =>
      rw [vfsReaddir_children isDir list lk] at read
      split at read
      · cases read
      · rename_i p at_
        cases read
        obtain ⟨i, le, h⟩ := ih isDir list lk
        rw [next_position len at_] at le
        exact ⟨i, by omega, h⟩
  · rintro ⟨i, le, h⟩
    -- by induction on the number of entries before the one with another name
    obtain ⟨k, rfl⟩ := Nat.exists_eq_add_of_le le
    clear le
    induction k generalizing dir with
    | zero =>
      obtain ⟨p, at_, dots⟩ := h
      have read := vfsReaddir_children (D := D) (d := d) isDir list lk
      rw [Nat.add_zero] at at_
      rw [at_] at read
      exact .entry read dots
    | succ k ih =>
      obtain ⟨q, there, -⟩ := id h
      have lt := (List.getElem?_eq_some_iff.mp there).1
      obtain ⟨p, at_⟩ : ∃ p, l[dir.position.toNat]? = some p :=
        ⟨_, List.getElem?_eq_getElem (by omega)⟩
      have read := vfsReaddir_children (D := D) (d := d) isDir list lk
      rw [at_] at read
      cases dots : isDots ((s.node p).name.take (VFS_NAME_MAX - 1)) with
      | false => exact .entry read dots
      | true =>
        refine .dots read dots (ih isDir list lk ?_)
        dsimp only
        rw [next_position len at_, Nat.add_right_comm]
        exact h

/-- `vfs_rmdir` of a directory answers `-ENOTEMPTY` when opening and reading it reports an entry. -/
lemma vfsRmdir_occupied (found : lookupOf D s path = some (0, n)) (isDir : isDirectory n.flags = true) :
    (∃ s', vfsRmdir D s path = some (-ENOTEMPTY, s')) ↔ OpensOccupied D s path := by
  obtain ⟨s1, look⟩ := lookupOf_eq_some.mp found
  unfold vfsRmdir OpensOccupied
  split_ifs with empty
  · refine iff_of_false ?_ fun h => h.1 empty
    rintro ⟨s', run⟩
    exact absurd (congrArg Prod.fst (Option.some.inj run)) (show ¬ -EINVAL = -ENOTEMPTY by decide)
  rw [look]
  dsimp only
  rw [if_neg (not_not.mpr rfl), if_neg (by rw [isDir]; exact nofun)]
  constructor
  · rintro ⟨s', run⟩
    refine ⟨empty, 0, n, s1, ?_⟩
    split at run
    · cases run
    rename_i r dir s2 opened
    split_ifs at run with ok
    · exact absurd (congrArg Prod.fst (Option.some.inj run)) (show ¬ -EIO_ = -ENOTEMPTY by decide)
    rw [not_not] at ok
    split at run
    · cases run
    rename_i has d' entries
    split_ifs at run with true
    · subst ok
      refine ⟨dir, s2, rfl, opened, entriesBody_reports.mp ⟨d', ?_⟩⟩
      rw [entries, true]
    · exact absurd (unlinkNode_result run).1 (by decide)
  · rintro ⟨-, r, n', s1', dir, s2, look', opened, reports⟩
    cases look'
    obtain ⟨d', entries⟩ := entriesBody_reports.mpr reports
    rw [opened]
    dsimp only
    rw [if_neg (not_not.mpr rfl), entries]
    exact ⟨_, rfl⟩

/-- The promise of `vfs_remove` and `vfs_rmdir` holds for a path exactly when it names no node with a parent, or
    names a directory with a child and opening and reading it reports an entry. -/
theorem unlinked_iff (D : Driver F σ) (s : State F σ) (root : Nat) (T : Set Nat) (κ : Nat → List Nat)
    (path : List UInt8) : UnlinkKept D s root T κ path ↔
      ∀ q isDir, Names D s T path q isDir → isDir = true ∧ κ q ≠ [] ∧ OpensOccupied D s path := by
  constructor
  · intro kept q isDir names
    cases isDir with
    | false =>
      obtain ⟨s', run, -⟩ := kept.remove q names
      exact absurd rfl (Unlink.remove.result run).1
    | true =>
      by_cases empty : κ q = []
      · obtain ⟨s', run, -⟩ := kept.rmdir q names empty
        exact absurd rfl (Unlink.rmdir.result run).1
      · exact ⟨rfl, empty, (vfsRmdir_occupied names.found names.isDir).mp (kept.occupied q names empty)⟩
  · intro cond
    constructor
    · intro q names
      exact nomatch (cond q false names).1
    · intro q names _
      exact (vfsRmdir_occupied names.found names.isDir).mpr (cond q true names).2.2
    · intro q names empty
      exact absurd empty (cond q true names).2.1
    · intro call ret s' run _
      obtain ⟨-, d, rfl⟩ := call.result run
      exact ⟨rfl, rfl⟩

/-! ## A file below the root. -/

/-- A root directory with one child. -/
def oneChild (n : Node Empty) : State Empty Unit :=
  vfsSetRoot (rootOnly.tick.attach 0 1 { n with parent := some 0, children := none }) 0

lemma oneChild_tree (n : Node Empty) : Tree (oneChild n) 0 {1, 0} (attachKids (fun _ => []) 0 1) := by
  have single : Tree rootOnly 0 {0} fun _ => [] := .single (by decide) rfl rfl
  have grown : Tree (rootOnly.tick.attach 0 1 { n with parent := some 0, children := none }) 0 _ _ :=
    single.tick.attach rfl (fun p hp => by cases hp; decide) (by decide) rfl rfl
  exact grown.congr le_rfl (fun _ _ => rfl) (fun _ _ => rfl) fun _ _ => rfl

/-- The file `a`. -/
def fileA : Node Empty := { Node.zero with name := [0x61], flags := S_IFREG ||| 0o644 }

/-- `vfs_remove("/a")` does not find the file that `/a` leads to. -/
theorem remove_fails : lookupOf noCallbacks (oneChild fileA) [0x2F, 0x61] = some (0, (oneChild fileA).node 1) ∧
    vfsRemove noCallbacks (oneChild fileA) [0x2F, 0x61] = some (-ENOENT, oneChild fileA) := by
  have tree := oneChild_tree fileA
  have plain : Plain noCallbacks (oneChild fileA) {1, 0} := by
    refine ⟨fun p hp => ?_, fun p hp f => nomatch f⟩
    obtain rfl | rfl := hp
    · decide
    · decide
  have look : vfsLookup noCallbacks (oneChild fileA) [0x2F, 0x61] =
      some (0, (oneChild fileA).node 1, oneChild fileA) := by
    rw [vfsLookup_eq tree plain rfl]
    rfl
  refine ⟨by rw [lookupOf, look]; rfl, ?_⟩
  have file : isDirectory ((oneChild fileA).node 1).flags = false := by decide
  rw [vfsRemove, if_neg (by decide), look]
  dsimp only
  rw [if_neg (not_not.mpr rfl), file, if_neg (by decide)]
  have children : Linked (oneChild fileA).sibling ((oneChild fileA).link (.children 0)) [1] :=
    tree.linked 0 (.inr rfl)
  exact unlinkBody_ends children

end RetaOS.Vfs
