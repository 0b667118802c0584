import RetaOS.Initrd.RoundTrip

/-!
# Path resolution on the ramdisk

On a mounted ramdisk `vfs_lookup` is path resolution from the root: the path is split at its slashes, empty
components are dropped, `.` stays, `..` goes to the parent and any other component to the first child of that name.
The copy of the root in `vfs_root` and the node it was copied from are equal, so it does not matter which of the
two a walk goes on from.
-/

namespace RetaOS.Initrd
open Lib Vfs

variable {s0 s : State} {img bytes : UInt32}

/-- A file name: no slash in it, and not empty, `.` or `..`. -/
structure Ordinary (name : List UInt8) : Prop where
  ne : name ≠ []
  noSlash : ∀ c ∈ name, isSlash c = false
  dot : name ≠ [0x2E]
  dotdot : name ≠ [0x2E, 0x2E]

/-- The last component of a longer path. -/
lemma tokens_snoc {path name : List UInt8} (ne : name ≠ []) (noSlash : ∀ c ∈ name, isSlash c = false) :
    tokens isSlash (path ++ 0x2F :: name) = tokens isSlash path ++ [name] := by
  rw [tokens_append_cons _ _ rfl, tokens_of_free noSlash ne]

/-- Lookup on a mounted ramdisk resolves paths, and `..` undoes the component before it. -/
theorem lookup_resolves (mount : mountInitrd s0 img bytes = some (0, s)) :
    ∃ root T κ, Tree s root T κ ∧ s.vfsRoot = s.node root ∧
      (∀ path : List UInt8, path.length < VFS_PATH_MAX →
        vfsLookup tarDriver s path = some (match Vfs.resolve s κ root (tokens isSlash path) with
          | none => (-ENOENT, s.vfsRoot, s)
          | some p => (0, s.node p, s))) ∧
      ∀ path name : List UInt8, Ordinary name → (path ++ 0x2F :: name ++ [0x2F, 0x2E, 0x2E]).length < VFS_PATH_MAX →
        (∃ n t, vfsLookup tarDriver s (path ++ 0x2F :: name) = some (0, n, t)) →
        vfsLookup tarDriver s (path ++ 0x2F :: name ++ [0x2F, 0x2E, 0x2E]) = vfsLookup tarDriver s path := by
  obtain ⟨⟨root, T, κ, t⟩, -⟩ := mountInitrd_mounted mount
  have tree := t.mount.tree
  have look : ∀ path : List UInt8, path.length < VFS_PATH_MAX →
      vfsLookup tarDriver s path = some (match Vfs.resolve s κ root (tokens isSlash path) with
        | none => (-ENOENT, s.vfsRoot, s)
        | some p => (0, s.node p, s)) := by
    intro path short
    have found := vfsLookup_eq tree t.mount.plain t.root_eq path
    rw [lookupComponents, List.take_of_length_le (Nat.le_sub_one_of_lt short)] at found
    exact found
  refine ⟨root, T, κ, tree, t.root_eq, look, ?_⟩
  rintro path name plain short ⟨n, u, found⟩
  have up : tokens isSlash (path ++ 0x2F :: name ++ [0x2F, 0x2E, 0x2E]) =
      tokens isSlash path ++ [name] ++ [[0x2E, 0x2E]] := by
    rw [tokens_snoc (List.cons_ne_nil _ _) (by simp [isSlash]), tokens_snoc plain.ne plain.noSlash]
  rw [List.length_append] at short
  have lt : (path ++ 0x2F :: name).length < VFS_PATH_MAX := by omega
  have lt' : path.length < VFS_PATH_MAX := by
    rw [List.length_append] at lt
    omega
  rw [look _ lt, tokens_snoc plain.ne plain.noSlash] at found
  cases at_ : Vfs.resolve s κ root (tokens isSlash path ++ [name]) with
  | none =>
    rw [at_] at found
    cases found
  | some q =>
    have back := tree.resolve_back tree.root_mem plain.dot plain.dotdot at_
    rw [look _ (by rwa [List.length_append]), look _ lt', up, back]

set_option maxRecDepth 4000 in
/-- On the ramdisk of one file, the path of the file leads to it, and `..` behind it back to the root. -/
theorem lookup_resolves_oneByte : ∃ s root κ p, mountInitrd (freshState oneByteArchive) 0x1000 1536 = some (0, s) ∧
    Vfs.resolve s κ root [[0x61]] = some p ∧ (s.node p).name = [0x61] ∧
    vfsLookup tarDriver s [0x2F, 0x61] = some (0, s.node p, s) ∧
    vfsLookup tarDriver s [0x2F, 0x61, 0x2F, 0x2E, 0x2E] = some (0, s.node root, s) := by
  obtain ⟨s, n, mount, file, -, named⟩ := oneByteArchive_lookup
  obtain ⟨root, T, κ, -, -, look, back⟩ := lookup_resolves mount
  have single : tokens isSlash [0x2F, 0x61] = [[0x61]] := by decide
  have empty : tokens isSlash [] = [] := rfl
  have found := look [0x2F, 0x61] (by decide)
  have top := look [] (by decide)
  rw [single, file] at found
  rw [empty] at top
  cases at_ : Vfs.resolve s κ root [[0x61]] with
  | none =>
    rw [at_] at found
    cases found
  | some p =>
    rw [at_] at found
    cases found
    have up := back [] [0x61] ⟨by decide, by decide, by decide, by decide⟩ (by decide) ⟨_, s, file⟩
    exact ⟨s, root, κ, p, mount, at_, named, file, up.trans top⟩

end RetaOS.Initrd
