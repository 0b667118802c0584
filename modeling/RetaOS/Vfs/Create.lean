import RetaOS.Vfs.Frame
import RetaOS.Vfs.Lookup

/-!
# Creation of nodes

`vfs_create` looks the parent directory up into a node of its own, links the new node into that copy and frees
the copy. The tree is left as it was: `vfsCreate_kept` says that every lookup gives the same result before and
after, whatever the call returns, and `created_found_iff` that a call that returns 0 is never followed by a
lookup that finds the new node.
-/

namespace RetaOS.Vfs
open Lib

/-- The calls that create nodes. -/
inductive Make where
  | create (flags : UInt32)
  | mkdir

/-- The value a call returns, and the state it leaves. -/
def Make.run {F σ : Type} (D : Driver F σ) (s : State F σ) (path : List UInt8) : Make → Option (Int × State F σ)
  | .create flags => vfsCreate D s path flags
  | .mkdir => vfsMkdir D s path

/-- The flags of the node that a call makes. -/
def Make.flags : Make → UInt32
  | .create flags => flags
  | .mkdir => S_IFDIR ||| 0o755

variable {F σ : Type} {D : Driver F σ} {s s' s'' : State F σ} {A : Set Nat} {Same : σ → σ → Prop}
  {n : Node F} {p q : Nat} {path dir : List UInt8} {ret : Int} {flags : UInt32} {make : Make}

/-- Whenever the call returns 0, the path leads to a node with its last component as name and with the flags
    asked for, and every path that does not go on from it leads where it did. -/
def CreatedFound (D : Driver F σ) (s : State F σ) (path : List UInt8) (make : Make) : Prop :=
  ∀ s', make.run D s path = some (0, s') →
    (∃ n, lookupOf D s' path = some (0, n) ∧ n.name = baseName path ∧ n.flags = make.flags) ∧
      ∀ q, ¬ tokens isSlash path <+: tokens isSlash q → lookupOf D s' q = lookupOf D s q

/-- The calls that return 0: the parent of the path leads to a directory, the path itself leads nowhere, and
    `kmalloc` has room for the copy of the parent and for the new node. -/
structure Accepts (D : Driver F σ) (s : State F σ) (path : List UInt8) : Prop where
  nonempty : path ≠ []
  room : s.oom s.calls = false ∧ s.oom (s.calls + 1) = false
  parent : ∃ dir n, parentPath path = some dir ∧ lookupOf D s dir = some (0, n) ∧ n.flags &&& FT_DIR ≠ 0
  missing : ∃ ret n, lookupOf D s path = some (ret, n) ∧ ret ≠ 0

/-! ## Changes that lookup does not see. -/

lemma Kept.tick (k : Kept A Same s s') : Kept A Same s s'.tick := ⟨k.root, k.node, k.drv⟩

/-- A node outside `A` may be overwritten. -/
lemma Kept.setNode (k : Kept A Same s s') (hp : p ∉ A) (n : Node F) : Kept A Same s (s'.setNode p n) := by
  refine ⟨k.root, fun q hq => ?_, k.drv⟩
  rw [node_setNode_ne (ne_of_mem_of_not_mem hq hp)]
  exact k.node q hq

/-- A node outside `A` may be freed. -/
lemma Kept.kfree (k : Kept A Same s s') (hp : p ∉ A) : Kept A Same s (s'.kfree p) := by
  refine ⟨k.root, fun q hq => ?_, k.drv⟩
  have ne : q ≠ p := ne_of_mem_of_not_mem hq hp
  rw [← k.node q hq]
  simp [State.node, State.kfree, ne]

lemma Closed.kept (cl : Closed s A) (k : Kept A Same s s') (le : s.calls ≤ s'.calls) : Closed s' A := by
  refine ⟨k.root ▸ cl.root, fun p hp => ?_, fun p hp => (cl.lt p hp).trans_le le⟩
  rw [k.node p hp]
  exact cl.node p hp

/-- A lookup after such changes finds what it would have found before, and is such a change itself. -/
lemma Kept.lookup (st : Steady D A Same) (cl : Closed s A) (k : Kept A Same s s') (le : s.calls ≤ s'.calls)
    (look : vfsLookup D s' path = some (ret, n, s'')) :
    lookupOf D s path = some (ret, n) ∧ Kept A Same s s'' ∧ s''.calls = s'.calls ∧ s''.oom = s'.oom := by
  obtain ⟨eq, -, k'⟩ := vfsLookup_drv st (cl.kept k le) look
  dsimp only at eq k'
  refine ⟨?_, k.trans st k', ?_, ?_⟩
  · rw [← lookupOf_kept st cl k, lookupOf, look]
    rfl
  · rw [eq]
  · rw [eq]

/-- Pointers from the nodes of a tree stay in it. -/
lemma Tree.closed {root : Nat} {T : Set Nat} {κ : Nat → List Nat} (t : Tree s root T κ)
    (hr : s.vfsRoot = s.node root) (last : (s.node root).next = none) : Closed s T := by
  have inside : ∀ p ∈ T, Inside T (s.node p) := by
    intro p hp q up
    obtain parent | children | next := up
    · have mem := t.parent_mem hp
      rw [parent] at mem
      exact mem
    · exact (t.kid p hp q ((t.linked p hp).head_mem children)).1
    · by_cases e : p = root
      · subst e
        cases last.symm.trans next
      · obtain ⟨r, hr, hk⟩ := t.up p hp e
        exact (t.kid r hr q ((t.linked r hr).next_mem hk next)).1
  refine ⟨?_, inside, t.lt⟩
  rw [hr]
  exact inside root t.root_mem

/-! ## `vfs_create`. -/

/-- What a call of `vfs_create` can do. -/
lemma vfsCreate_spec (st : Steady D A Same) (cl : Closed s A) (run : vfsCreate D s path flags = some (ret, s')) :
    Kept A Same s s' ∧ (ret = 0 → Accepts D s path) := by
  have fresh : ∀ p, s.calls ≤ p → p ∉ A := fun p le hp => absurd (cl.lt p hp) (by omega)
  have hp := fresh s.calls le_rfl
  unfold vfsCreate at run
  split_ifs at run with empty
  · cases run
    exact ⟨.refl st, fun h => absurd h (by decide)⟩
  split at run
  · cases run
    exact ⟨.refl st, fun h => absurd h (by decide)⟩
  rename_i dir hdir
  cases oom : s.oom s.calls with
  | true =>
    rw [kmalloc_none oom] at run
    cases run
    exact ⟨(Kept.refl st).tick, fun h => absurd h (by decide)⟩
  | false =>
    rw [kmalloc_some oom] at run
    dsimp only at run
    split at run
    · cases run
    rename_i r n s1 look
    obtain ⟨found, k1, calls1, oom1⟩ := (Kept.refl st).tick.lookup st cl (Nat.le_succ _) look
    -- the block for the parent is filled, and freed on every way out
    have k2 : Kept A Same s (s1.setNode s.calls n) := k1.setNode hp n
    split_ifs at run with ok isDir
    · cases run
      exact ⟨k2.kfree hp, fun h => absurd h ok⟩
    · cases run
      exact ⟨k2.kfree hp, fun h => absurd h (by decide)⟩
    split at run
    · cases run
    -- the parent is there; now for the path itself
    rename_i r' x s3 look'
    obtain ⟨found', k3, calls3, oom3⟩ := k2.lookup st cl (calls1 ▸ Nat.le_succ _) look'
    have next : s3.calls = s.calls + 1 := calls3.trans calls1
    have hp' := fresh (s.calls + 1) (Nat.le_succ _)
    split_ifs at run with there
    · cases run
      exact ⟨k3.kfree hp, fun h => absurd h (by decide)⟩
    cases oom' : s.oom (s.calls + 1) with
    | true =>
      have full : s3.oom s3.calls = true := by
        rw [oom3, next]
        exact (congrFun oom1 _).trans oom'
      rw [vfsCreateNode, kmalloc_none full] at run
      cases run
      exact ⟨k3.tick.kfree hp, fun h => absurd h (by decide)⟩
    | false =>
      have room : s3.oom s3.calls = false := by
        rw [oom3, next]
        exact (congrFun oom1 _).trans oom'
      rw [vfsCreateNode, kmalloc_some room, next] at run
      cases run
      refine ⟨((((k3.tick.setNode hp' _).setNode hp' _).setNode hp _).kfree hp), fun _ => ?_⟩
      refine ⟨empty, ⟨oom, oom'⟩, ⟨dir, n, hdir, ?_, isDir⟩, r', x, found', there⟩
      rw [not_not.mp ok] at found
      exact found

lemma vfsCreateNode_frame {name : List UInt8} :
    (vfsCreateNode s name flags).2.openFiles = s.openFiles ∧ s.calls ≤ (vfsCreateNode s name flags).2.calls := by
  unfold vfsCreateNode
  cases oom : s.oom s.calls with
  | true =>
    rw [kmalloc_none oom]
    exact ⟨rfl, Nat.le_succ _⟩
  | false =>
    rw [kmalloc_some oom]
    exact ⟨rfl, Nat.le_succ _⟩

/-- `vfs_create` leaves the descriptors alone, and returns 0 or an error. -/
lemma vfsCreate_frame (run : vfsCreate D s path flags = some (ret, s')) :
    s'.openFiles = s.openFiles ∧ s.calls ≤ s'.calls ∧ (ret = 0 ∨ ret < 0) := by
  unfold vfsCreate at run
  split_ifs at run
  · cases run
    exact ⟨rfl, le_rfl, .inr (by decide)⟩
  split at run
  · cases run
    exact ⟨rfl, le_rfl, .inr (by decide)⟩
  cases oom : s.oom s.calls with
  | true =>
    rw [kmalloc_none oom] at run
    cases run
    exact ⟨rfl, Nat.le_succ _, .inr (by decide)⟩
  | false =>
    rw [kmalloc_some oom] at run
    dsimp only at run
    split at run
    · cases run
    rename_i r n s1 look
    have sign := vfsLookup_ret look
    obtain ⟨d, rfl⟩ := vfsLookup_state look
    split_ifs at run
    · cases run
      exact ⟨rfl, Nat.le_succ _, sign⟩
    · cases run
      exact ⟨rfl, Nat.le_succ _, .inr (by decide)⟩
    split at run
    · cases run
    rename_i r' x s3 look'
    obtain ⟨d', rfl⟩ := vfsLookup_state look'
    split_ifs at run
    · cases run
      exact ⟨rfl, Nat.le_succ _, .inr (by decide)⟩
    generalize e : vfsCreateNode _ _ _ = made at run
    obtain ⟨slots, calls⟩ := e ▸ vfsCreateNode_frame
    obtain ⟨node, s4⟩ := made
    have le : s.calls ≤ s4.calls := (Nat.le_succ _).trans calls
    cases node with
    | none =>
      cases run
      exact ⟨slots, le, .inr (by decide)⟩
    | some node =>
      cases run
      exact ⟨slots, le, .inl rfl⟩

/-- A call that is accepted returns 0. -/
lemma Accepts.run (st : Steady D A Same) (cl : Closed s A) (acc : Accepts D s path) :
    ∃ s', vfsCreate D s path flags = some (0, s') := by
  obtain ⟨nonempty, ⟨oom, oom'⟩, ⟨dir, n, hdir, found, isDir⟩, r', x, found', there⟩ := acc
  have fresh : ∀ p, s.calls ≤ p → p ∉ A := fun p le hp => absurd (cl.lt p hp) (by omega)
  have hp := fresh s.calls le_rfl
  have k0 : Kept A Same s s.tick := (Kept.refl st).tick
  rw [← lookupOf_kept st cl k0, lookupOf_eq_some] at found
  obtain ⟨s1, look⟩ := found
  obtain ⟨-, k1, calls1, oom1⟩ := k0.lookup st cl (Nat.le_succ _) look
  have k2 : Kept A Same s (s1.setNode s.calls n) := k1.setNode hp n
  rw [← lookupOf_kept st cl k2, lookupOf_eq_some] at found'
  obtain ⟨s3, look'⟩ := found'
  obtain ⟨-, k3, calls3, oom3⟩ := k2.lookup st cl (calls1 ▸ Nat.le_succ _) look'
  have room : s3.oom s3.calls = false := by
    rw [oom3, calls3]
    change s1.oom s1.calls = false
    rw [oom1, calls1]
    exact oom'
  unfold vfsCreate
  rw [if_neg nonempty, hdir]
  dsimp only
  rw [kmalloc_some oom]
  dsimp only
  rw [look]
  dsimp only
  rw [if_neg (not_not.mpr rfl), if_neg isDir, look']
  dsimp only
  rw [if_neg there, vfsCreateNode, kmalloc_some room]
  exact ⟨_, rfl⟩

/-- The creation in `vfs_open` leaves the descriptors alone, and fails with an error. -/
lemma openCreate_frame {r : Except Int (Node F)} (run : openCreate D s path = some (r, s')) :
    s'.openFiles = s.openFiles ∧ ∀ e, r = .error e → e < 0 := by
  have fails {e : Int} (neg : e < 0) (e' : Int) (h : Except.error (α := Node F) e = .error e') : e' < 0 := by
    cases h
    exact neg
  unfold openCreate at run
  cases hdir : parentPath path with
  | none =>
    rw [hdir] at run
    cases run
    exact ⟨rfl, fails (by decide)⟩
  | some dir =>
    rw [hdir] at run
    dsimp only at run
    split at run
    · cases run
    rename_i r1 parent s1 look
    obtain ⟨d, rfl⟩ := vfsLookup_state look
    split_ifs at run
    · cases run
      exact ⟨rfl, fails (by decide)⟩
    · cases run
      exact ⟨rfl, fails (by decide)⟩
    · cases run
      exact ⟨rfl, fails (by decide)⟩
    split at run
    · cases run
    rename_i r2 s2 create
    obtain ⟨slots, -, sign⟩ := vfsCreate_frame create
    split_ifs at run with ok
    · cases run
      exact ⟨slots, fails (sign.resolve_left ok)⟩
    split at run
    · cases run
    rename_i r3 n s3 again
    have sign := vfsLookup_ret again
    obtain ⟨d', rfl⟩ := vfsLookup_state again
    split_ifs at run with found
    · cases run
      exact ⟨slots, fails (sign.resolve_left found)⟩
    · cases run
      exact ⟨slots, fun e h => nomatch h⟩

/-- `vfs_open` with `O_CREAT` never opens a file that lookup does not find: it creates a node that no path leads to,
    and fails. -/
lemma openCreate_fails (st : Steady D A Same) (cl : Closed s A)
    (missing : ∃ ret n, lookupOf D s path = some (ret, n) ∧ ret ≠ 0) {r : Except Int (Node F)}
    (run : openCreate D s path = some (r, s')) :
    (∃ e < 0, r = .error e) ∧ Kept A Same s s' ∧ s.calls ≤ s'.calls ∧ s'.openFiles = s.openFiles := by
  obtain ⟨slots, error⟩ := openCreate_frame run
  have fails (e : Int) (h : r = .error e) : ∃ e < 0, r = .error e := ⟨e, error e h, h⟩
  unfold openCreate at run
  cases hdir : parentPath path with
  | none =>
    rw [hdir] at run
    cases run
    exact ⟨fails _ rfl, .refl st, le_rfl, slots⟩
  | some dir =>
    rw [hdir] at run
    dsimp only at run
    split at run
    · cases run
    rename_i r1 parent s1 look
    obtain ⟨-, k1, calls1, -⟩ := (Kept.refl st).lookup st cl le_rfl look
    obtain ⟨d, rfl⟩ := vfsLookup_state look
    split_ifs at run
    · cases run
      exact ⟨fails _ rfl, k1, le_rfl, slots⟩
    · cases run
      exact ⟨fails _ rfl, k1, le_rfl, slots⟩
    · cases run
      exact ⟨fails _ rfl, k1, le_rfl, slots⟩
    split at run
    · cases run
    rename_i r2 s2 create
    obtain ⟨-, le, -⟩ := vfsCreate_frame create
    have k2 := k1.trans st (vfsCreate_spec st (cl.kept k1 le_rfl) create).1
    split_ifs at run
    · cases run
      exact ⟨fails _ rfl, k2, le, slots⟩
    split at run
    · cases run
    rename_i r3 n s3 again
    obtain ⟨found, k3, -, -⟩ := k2.lookup st cl le again
    obtain ⟨d', rfl⟩ := vfsLookup_state again
    obtain ⟨ret, n', lost, ne⟩ := missing
    cases found.symm.trans lost
    rw [if_pos ne] at run
    cases run
    exact ⟨fails _ rfl, k3, le, slots⟩

/-- The calls change nothing that lookup sees. -/
lemma Make.kept (make : Make) (st : Steady D A Same) (cl : Closed s A) (run : make.run D s path = some (ret, s')) :
    Kept A Same s s' := by
  cases make with
  | create flags => exact (vfsCreate_spec st cl run).1
  | mkdir =>
    change vfsMkdir D s path = _ at run
    unfold vfsMkdir at run
    split_ifs at run
    · cases run
      exact .refl st
    · exact (vfsCreate_spec st cl run).1

/-- The calls that return 0 are those that are accepted. -/
lemma Make.accepts (make : Make) (st : Steady D A Same) (cl : Closed s A) :
    (∃ s', make.run D s path = some (0, s')) ↔ Accepts D s path := by
  have create (flags : UInt32) : (∃ s', vfsCreate D s path flags = some (0, s')) ↔ Accepts D s path := by
    constructor
    · rintro ⟨s', run⟩
      exact (vfsCreate_spec st cl run).2 rfl
    · exact fun acc => acc.run st cl
  cases make with
  | create flags => exact create flags
  | mkdir =>
    rw [← create (S_IFDIR ||| 0o755)]
    change (∃ s', vfsMkdir D s path = _) ↔ _
    unfold vfsMkdir
    split_ifs with empty
    · constructor
      · rintro ⟨s', run⟩
        cases run
      · rintro ⟨s', run⟩
        rw [vfsCreate, if_pos empty] at run
        cases run
    · exact Iff.rfl

/-- A call that returns 0 leaves a path that still leads nowhere. -/
lemma Make.still_missing (st : Steady D A Same) (cl : Closed s A) (run : make.run D s path = some (0, s')) :
    ∃ ret n, lookupOf D s' path = some (ret, n) ∧ ret ≠ 0 := by
  rw [lookupOf_kept st cl (make.kept st cl run)]
  exact ((make.accepts st cl).mp ⟨s', run⟩).missing

/-- `vfs_create` and `vfs_mkdir` keep their promise exactly when they do not accept the call. -/
theorem created_found_iff (st : Steady D A Same) (cl : Closed s A) :
    CreatedFound D s path make ↔ ¬ Accepts D s path := by
  rw [← make.accepts st cl]
  constructor
  · rintro found ⟨s', run⟩
    obtain ⟨⟨n, look, -⟩, -⟩ := found s' run
    obtain ⟨ret, n', look', ne⟩ := Make.still_missing st cl run
    cases look.symm.trans look'
    exact ne rfl
  · intro none s' run
    exact absurd ⟨s', run⟩ none

/-- Whatever a call returns, every path leads where it did. -/
theorem vfsCreate_kept (st : Steady D A Same) (cl : Closed s A) (run : make.run D s path = some (ret, s'))
    (q : List UInt8) : lookupOf D s' q = lookupOf D s q :=
  lookupOf_kept st cl (make.kept st cl run) q

/-! ## A tree that is only a root. -/

/-- The driver of a tree without callbacks. -/
def noCallbacks : Driver Empty Unit where
  read := nofun
  write := nofun
  open_ := nofun
  close := nofun
  readdir := nofun
  finddir := nofun
  lseek := nofun

/-- A root directory without children. -/
def rootOnly : State Empty Unit where
  nodes p := if p = 0 then some { Node.zero with name := [0x2F], flags := S_IFDIR ||| 0o755 } else none
  buffers _ := []
  oom _ := false
  calls := 1
  vfsRoot := { Node.zero with name := [0x2F], flags := S_IFDIR ||| 0o755 }
  openFiles _ := .zero
  drv := ()

lemma noCallbacks_steady : Steady noCallbacks A Eq where
  refl _ := rfl
  symm := Eq.symm
  trans := Eq.trans
  finddir := nofun
  inside := nofun
  read := nofun

lemma rootOnly_closed : Closed rootOnly ∅ := by
  refine ⟨fun p up => ?_, nofun, nofun⟩
  obtain h | h | h := up
  · cases h
  · cases h
  · cases h

lemma rootOnly_lookup (path : List UInt8) : vfsLookup noCallbacks rootOnly path =
    some (match resolve rootOnly (fun _ => []) 0 (lookupComponents path) with
      | none => (-ENOENT, rootOnly.vfsRoot, rootOnly)
      | some p => (0, rootOnly.node p, rootOnly)) := by
  have tree : Tree rootOnly 0 {0} fun _ => [] := .single (by decide) rfl rfl
  refine vfsLookup_eq tree ⟨fun p hp => ?_, fun p hp f => nomatch f⟩ rfl path
  cases hp
  decide

/-- A name below the root can be created. -/
lemma rootOnly_accepts {name : List UInt8} (hdir : parentPath (0x2F :: name) = some [0x2F])
    (missing : resolve rootOnly (fun _ => []) 0 (lookupComponents (0x2F :: name)) = none) :
    Accepts noCallbacks rootOnly (0x2F :: name) := by
  refine ⟨List.cons_ne_nil _ _, ⟨rfl, rfl⟩, ⟨_, rootOnly.node 0, hdir, ?_, by decide⟩, -ENOENT, rootOnly.vfsRoot, ?_,
    by decide⟩
  · rw [lookupOf, rootOnly_lookup]
    rfl
  · rw [lookupOf, rootOnly_lookup, missing]
    rfl

/-- After `vfs_mkdir("/tmp")` below a lone root, `/tmp` is not found. -/
theorem mkdir_tmp_lost : ¬ CreatedFound noCallbacks rootOnly [0x2F, 0x74, 0x6D, 0x70] .mkdir := by
  rw [created_found_iff noCallbacks_steady rootOnly_closed, not_not]
  exact rootOnly_accepts (by decide) (by decide)

/-- `vfs_create("/a", 0666)` below a lone root returns 0, and `/a` is not found. -/
theorem create_lost : ∃ s', vfsCreate noCallbacks rootOnly [0x2F, 0x61] 0o666 = some (0, s') ∧
    ∀ n, lookupOf noCallbacks s' [0x2F, 0x61] ≠ some (0, n) := by
  have acc : Accepts noCallbacks rootOnly [0x2F, 0x61] := rootOnly_accepts (by decide) (by decide)
  obtain ⟨s', run⟩ := (Make.create 0o666).accepts noCallbacks_steady rootOnly_closed |>.mpr acc
  refine ⟨s', run, fun n look => ?_⟩
  obtain ⟨ret, n', look', ne⟩ := Make.still_missing noCallbacks_steady rootOnly_closed run
  cases look.symm.trans look'
  exact ne rfl

end RetaOS.Vfs
