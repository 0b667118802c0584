import RetaOS.Initrd.Tree
import RetaOS.Vfs.Lookup
import RetaOS.Lib.PathMap
import Mathlib.Data.List.Find

/-!
# The tree as a name space

The tree that `mount_initrd` builds refines a `PathMap`: `Decoded s root T κ π G` says that a directory with
path `π p` has, for each name, exactly the first child that the name space `G` asks for below that path, so
that lookup in the list of children and reading the name space agree although older files of a name stay in
the list. `Decoded.attach` is the step for a new node; `Ensures.decoded` shows that `ensure_dir` makes the directories
on a path, and `Decoded.resolve` that resolution in the tree reads the name space.
-/

namespace RetaOS.Initrd
open Lib Vfs

variable {s s' : State} {root cur ch dir p q : Nat} {T T' : Set Nat} {κ : Nat → List Nat}
  {π : Nat → List (List UInt8)} {G : List (List UInt8) → Option (Entry (List UInt8))}
  {A : PathMap (List UInt8) (List UInt8)} {c payload : List UInt8} {b cs : List (List UInt8)} {off : UInt32}

/-! ## Contents. -/

/-- The header at `hdr` is followed by a payload that anyone may read. -/
structure Payload (m : Memory) (hdr : UInt32) (payload : List UInt8) : Prop where
  size : (hdrSize m hdr).toNat = payload.length
  bytes : m.loadBytes (hdr + 512) payload.length = payload
  readable : fileFlags (hdrMode m hdr) &&& 0o444 ≠ 0

/-- A node is the file of a header with a payload. -/
def Holds (d : Ramdisk) (n : Node) (payload : List UInt8) : Prop :=
  ∃ off, File d off n ∧ Payload d.heap.mem (d.gInitrdImg + off) payload

/-- The child found under a name is what the name space has there. -/
def Shows (s : State) : Option Nat → Option (Entry (List UInt8)) → Prop
  | none, none => True
  | some q, some .dir => Dir (s.node q)
  | some q, some (.file payload) => Holds s.drv (s.node q) payload
  | _, _ => False

/-- The tree holds the name space `G`, where `π p` is the path of `p`. -/
structure Decoded (s : State) (root : Nat) (T : Set Nat) (κ : Nat → List Nat)
    (π : Nat → List (List UInt8)) (G : List (List UInt8) → Option (Entry (List UInt8))) : Prop where
  mount : Mount Set.univ s root T κ
  root_path : π root = []
  path : ∀ p ∈ T, ∀ q ∈ κ p, π q = π p ++ [(s.node q).name]
  dir : ∀ p ∈ T, Dir (s.node p) → G (π p) = some .dir
  inj : ∀ p ∈ T, ∀ q ∈ T, Dir (s.node p) → Dir (s.node q) → π p = π q → p = q
  kid : ∀ p ∈ T, Dir (s.node p) → ∀ c, Shows s (child s κ p c) (G (π p ++ [c]))

/-! ## Steps that keep the name space. -/

/-- Children are looked up by their names. -/
lemma child_congr (names : ∀ q ∈ κ p, (s'.node q).name = (s.node q).name) (c : List UInt8) :
    child s' κ p c = child s κ p c := by
  apply List.find?_congr
  intro q hq
  rw [names q hq]

lemma Holds.grows (g : Grows s T s' T') (hp : p ∈ T) (h : Holds s.drv (s.node p) payload) :
    Holds s'.drv (s'.node p) payload := by
  obtain ⟨off, file, load⟩ := h
  refine ⟨off, g.file p hp off file, ?_⟩
  rw [g.heap, g.img]
  exact load

/-- A node is a directory after a step exactly when it was one before. -/
lemma Mount.dir_iff {V : Set UInt32} (m : Mount V s root T κ) (g : Grows s T s' T') (hp : p ∈ T)
    (keep : Dir (s.node p) → Dir (s'.node p)) : Dir (s'.node p) ↔ Dir (s.node p) := by
  refine ⟨?_, keep⟩
  intro h
  cases m.node p hp with
  | inl h => exact h
  | inr hf =>
    obtain ⟨off, _, hf⟩ := hf
    exact absurd h (g.file p hp off hf).not_dir

lemma Shows.grows {r : Option Nat} {e : Option (Entry (List UInt8))} (g : Grows s T s' T')
    (keep : ∀ p ∈ T, Dir (s.node p) → Dir (s'.node p)) (hT : ∀ q, r = some q → q ∈ T)
    (h : Shows s r e) : Shows s' r e := by
  cases r with
  | none => cases e with
    | none => trivial
    | some e => cases h
  | some q =>
    cases e with
    | none => cases h
    | some e =>
      cases e with
      | dir => exact keep q (hT q rfl) h
      | file payload => exact Holds.grows g (hT q rfl) h

/-- A step that keeps names and directories keeps the name space. -/
lemma Decoded.congr (dec : Decoded s root T κ π G) (m : Mount Set.univ s' root T κ) (g : Grows s T s' T)
    (names : ∀ p ∈ T, (s'.node p).name = (s.node p).name)
    (keep : ∀ p ∈ T, Dir (s.node p) → Dir (s'.node p)) : Decoded s' root T κ π G where
  mount := m
  root_path := dec.root_path
  path p hp q hq := by
    rw [names q (dec.mount.tree.kid p hp q hq).1]
    exact dec.path p hp q hq
  dir p hp h := dec.dir p hp ((dec.mount.dir_iff g hp (keep p hp)).mp h)
  inj p hp q hq h h' :=
    dec.inj p hp q hq ((dec.mount.dir_iff g hp (keep p hp)).mp h) ((dec.mount.dir_iff g hq (keep q hq)).mp h')
  kid p hp h c := by
    rw [child_congr fun q hq => names q (dec.mount.tree.kid p hp q hq).1]
    apply (dec.kid p hp ((dec.mount.dir_iff g hp (keep p hp)).mp h) c).grows g keep
    intro q e
    exact (dec.mount.tree.child_mem hp e).2.1

/-! ## A new node. -/

section Attach
variable {n : Node} (hc : cur ∈ T) (new : ∀ p ∈ T, p < ch) (t : Tree s root T κ)
include hc new

/-- The new node has no children. -/
lemma child_attach_new (c : List UInt8) : child (s.attach cur ch n) (attachKids κ cur ch) ch c = none := by
  rw [child, attachKids_new (new cur hc).ne']
  rfl

include t

/-- The new node is found first in the directory it is attached to. -/
lemma child_attach_cur (c : List UInt8) :
    child (s.attach cur ch n) (attachKids κ cur ch) cur c = if n.name = c then some ch else child s κ cur c := by
  have cc : ch ≠ cur := (new cur hc).ne'
  have names : ∀ q ∈ κ cur, ((s.attach cur ch n).node q).name = (s.node q).name :=
    fun q hq => attach_name cc (new q (t.kid cur hc q hq).1).ne
  have name : ((s.attach cur ch n).node ch).name = n.name := by rw [attach_new cc]
  rw [child, attachKids_cur, List.find?_cons, name]
  split_ifs with found
  · rw [found, beq_self_eq_true]
  · rw [beq_false_of_ne found]
    exact child_congr names c

/-- The other directories have the children they had. -/
lemma child_attach_other (hp : p ∈ T) (hpc : p ≠ cur) (c : List UInt8) :
    child (s.attach cur ch n) (attachKids κ cur ch) p c = child s κ p c := by
  rw [child, attachKids_other hpc (new p hp).ne]
  exact child_congr (fun q hq => attach_name (new cur hc).ne' (new q (t.kid p hp q hq).1).ne) c

/-- Every node has the path of its parent and its own name behind it. -/
lemma path_attach (path : ∀ p ∈ T, ∀ q ∈ κ p, π q = π p ++ [(s.node q).name]) :
    ∀ p ∈ insert ch T, ∀ q ∈ attachKids κ cur ch p, Function.update π ch (π cur ++ [n.name]) q =
      Function.update π ch (π cur ++ [n.name]) p ++ [((s.attach cur ch n).node q).name] := by
  have cc : ch ≠ cur := (new cur hc).ne'
  intro p hp q hq
  cases (mem_attachKids cc).mp hq with
  | inl h =>
    obtain ⟨rfl, rfl⟩ := h
    rw [Function.update_self, Function.update_of_ne cc.symm, attach_new cc]
  | inr h =>
    obtain ⟨ne, hq⟩ := h
    have hp : p ∈ T := hp.resolve_left ne
    have neq : q ≠ ch := (new q (t.kid p hp q hq).1).ne
    rw [Function.update_of_ne ne, Function.update_of_ne neq, attach_name cc neq]
    exact path p hp q hq

end Attach

/-- A new node in front of the children of `cur` shows under its name, and nothing else changes. -/
theorem Decoded.attach {n : Node} {e : Entry (List UInt8)} (dec : Decoded s root T κ π G) (hc : cur ∈ T)
    (hd : Dir (s.node cur)) (new : ∀ p ∈ T, p < ch)
    (m : Mount Set.univ (s.attach cur ch n) root (insert ch T) (attachKids κ cur ch))
    (g : Grows s T (s.attach cur ch n) (insert ch T)) (free : G (π cur ++ [n.name]) ≠ some .dir)
    (leaf : ∀ c, G (π cur ++ [n.name] ++ [c]) = none)
    (shows_ : Shows (s.attach cur ch n) (some ch) (some e))
    (isDir : Dir ((s.attach cur ch n).node ch) → e = .dir) :
    Decoded (s.attach cur ch n) root (insert ch T) (attachKids κ cur ch)
      (Function.update π ch (π cur ++ [n.name])) (Function.update G (π cur ++ [n.name]) (some e)) := by
  have tree := dec.mount.tree
  have keep : ∀ p ∈ T, Dir (s.node p) → Dir ((s.attach cur ch n).node p) :=
    fun p hp => (attach_kind (new cur hc).ne' hd (new p hp).ne).1
  have dirs := fun p (hp : p ∈ T) => dec.mount.dir_iff g hp (keep p hp)
  have oldPath : ∀ p ∈ T, Function.update π ch (π cur ++ [n.name]) p = π p :=
    fun p hp => Function.update_of_ne (new p hp).ne _ _
  have newPath : Function.update π ch (π cur ++ [n.name]) ch = π cur ++ [n.name] := Function.update_self _ _ _
  -- a directory of the tree has another path than the new node
  have other : ∀ p ∈ T, Dir (s.node p) → π p ≠ π cur ++ [n.name] := by
    intro p hp h e
    exact free (e ▸ dec.dir p hp h)
  refine ⟨m, ?_, path_attach hc new tree dec.path, ?_, ?_, ?_⟩
  · rw [oldPath root tree.root_mem]
    exact dec.root_path
  · intro p hp h
    cases hp with
    | inl hp =>
      subst hp
      rw [newPath, Function.update_self, isDir h]
    | inr hp =>
      have h := (dirs p hp).mp h
      rw [oldPath p hp, Function.update_of_ne (other p hp h)]
      exact dec.dir p hp h
  · intro p hp q hq h h' eq
    cases hp with
    | inl hp =>
      subst hp
      cases hq with
      | inl hq => exact hq.symm
      | inr hq =>
        rw [newPath, oldPath q hq] at eq
        exact absurd eq.symm (other q hq ((dirs q hq).mp h'))
    | inr hp =>
      cases hq with
      | inl hq =>
        subst hq
        rw [newPath, oldPath p hp] at eq
        exact absurd eq (other p hp ((dirs p hp).mp h))
      | inr hq =>
        rw [oldPath p hp, oldPath q hq] at eq
        exact dec.inj p hp q hq ((dirs p hp).mp h) ((dirs q hq).mp h') eq
  · intro p hp h c
    cases hp with
    | inl hp =>
      subst hp
      have ext : π cur ++ [n.name] ++ [c] ≠ π cur ++ [n.name] := by simp
      rw [child_attach_new hc new, newPath, Function.update_of_ne ext, leaf]
      trivial
    | inr hp =>
      have h := (dirs p hp).mp h
      have old : Shows (s.attach cur ch n) (child s κ p c) (G (π p ++ [c])) :=
        (dec.kid p hp h c).grows g keep fun q e => (tree.child_mem hp e).2.1
      rw [oldPath p hp]
      by_cases hpc : p = cur
      · subst hpc
        rw [child_attach_cur hc new tree]
        split_ifs with hn
        · subst hn
          rw [Function.update_self]
          exact shows_
        · have ext : π p ++ [c] ≠ π p ++ [n.name] := by simpa using fun e => hn e.symm
          rw [Function.update_of_ne ext]
          exact old
      · have ext : π p ++ [c] ≠ π cur ++ [n.name] := by
          intro e
          have eq : π p = π cur := (List.append_inj' e rfl).1
          exact hpc (dec.inj p hp cur hc h hd eq)
        rw [child_attach_other hc new tree hp hpc, Function.update_of_ne ext]
        exact old

/-! ## Directories. -/

/-- A directory found or made for one component. -/
lemma Decoded.newDir (dec : Decoded s root T κ π (A.mkdirs b).get) (hc : cur ∈ T) (hd : Dir (s.node cur))
    (hb : π cur = b) (short : c.length ≤ VFS_NAME_MAX - 1) (free : b ++ [c] ∉ (A.mkdirs b).dirs) :
    Decoded (makeDir s cur c) root (insert s.calls T) (attachKids κ cur s.calls)
      (Function.update π s.calls (b ++ [c])) (A.mkdirs (b ++ [c])).get := by
  obtain ⟨m, g⟩ := dec.mount.makeDir (c := c) hc hd
  have name : (dirNode c cur).name = c := List.take_of_length_le short
  have new : Dir ((makeDir s cur c).node s.calls) := makeDir_dir dec.mount.tree hc
  have ticked : Decoded s.tick root T κ π (A.mkdirs b).get :=
    dec.congr dec.mount.tick .tick (fun _ _ => rfl) fun _ _ h => h
  have step := ticked.attach (n := dirNode c cur) (e := .dir) hc hd dec.mount.tree.lt m
    ⟨g.sub, g.heap, g.img, g.bytes, g.oom, g.file⟩ ?_ ?_ new fun _ => rfl
  · rw [name, hb, ← PathMap.mkdirs_snoc_get] at step
    exact step
  · rw [name, hb]
    exact fun h => free (PathMap.get_dir.mp h)
  · intro c'
    rw [name, hb]
    exact PathMap.get_below free (List.cons_ne_nil c' [])

/-- `ensure_dir` makes the directories on a path. -/
theorem Ensures.decoded (e : Ensures s cur cs dir s') (dec : Decoded s root T κ π (A.mkdirs b).get)
    (hc : cur ∈ T) (hd : Dir (s.node cur)) (hb : π cur = b) (free : ∀ k, s.oom k = false)
    (short : ∀ c ∈ cs, c.length ≤ VFS_NAME_MAX - 1) :
    ∃ T' κ' π', Decoded s' root T' κ' π' (A.mkdirs (b ++ cs)).get ∧ Grows s T s' T' ∧ dir ∈ T' ∧
      Dir (s'.node dir) ∧ π' dir = b ++ cs := by
  induction e generalizing T κ π b with
  | here =>
    rw [List.append_nil]
    exact ⟨T, κ, π, dec, .refl, hc, hd, hb⟩
  | @found s s' cur ch dir c cs find _ ih =>
    obtain ⟨mem, hch, flag, name⟩ := findDir_some dec.mount.tree hc find
    have path : π ch = b ++ [c] := by rw [dec.path cur hc ch mem, hb, name]
    cases dec.mount.node ch hch with
    | inr h =>
      obtain ⟨off, _, file⟩ := h
      exact absurd flag file.no_flag
    | inl h =>
      have there : b ++ [c] ∈ (A.mkdirs b).dirs := by
        rw [← PathMap.get_dir, ← path]
        exact dec.dir ch hch h
      rw [← PathMap.mkdirs_snoc_mem there] at dec
      have run := ih dec hch h path free fun c' hc' => short c' (List.mem_cons_of_mem c hc')
      rwa [List.append_assoc, List.singleton_append] at run
  | @full s cur c cs _ full => cases (free s.calls).symm.trans full
  | @made s s' cur dir c cs find _ _ ih =>
    have absent : b ++ [c] ∉ (A.mkdirs b).dirs := by
      intro h
      have shown := dec.kid cur hc hd c
      rw [hb, PathMap.get_dir.mpr h] at shown
      cases hq : child s κ cur c with
      | none =>
        rw [hq] at shown
        exact shown
      | some q =>
        rw [hq] at shown
        obtain ⟨mem, hqT, name⟩ := dec.mount.tree.child_mem hc hq
        rw [findDir_eq dec.mount.tree hc, Option.some.injEq, List.find?_eq_none] at find
        apply find q mem
        simp only [name, beq_self_eq_true, Bool.and_true, bne_iff_ne]
        exact Dir.is_dir shown
    have step := dec.newDir hc hd hb (short c List.mem_cons_self) absent
    obtain ⟨_, g⟩ := dec.mount.makeDir (c := c) hc hd
    have new : Dir ((makeDir s cur c).node s.calls) := makeDir_dir dec.mount.tree hc
    obtain ⟨T', κ', π', dec', g', hdir, hd', path⟩ := ih step (.inl rfl) new (Function.update_self _ _ _) free
      fun c' hc' => short c' (List.mem_cons_of_mem c hc')
    rw [List.append_assoc, List.singleton_append] at dec' path
    exact ⟨T', κ', π', dec', g.trans g', hdir, hd', path⟩

/-- The components that `ensure_dir` goes through fit in a name. -/
lemma components_short (path : List UInt8) : ∀ c ∈ components path, c.length ≤ VFS_NAME_MAX - 1 := by
  intro c hc
  obtain ⟨t, _, rfl⟩ := List.mem_map.mp hc
  exact List.length_take_le _ _

/-! ## Files and permissions. -/

/-- A regular file is written in the name space. -/
lemma AddsFile.decoded {parent : Nat} {name : List UInt8} {size mode : UInt32} {d : List (List UInt8)}
    (a : AddsFile off name size mode s parent s') (dec : Decoded s root T κ π (A.mkdirs d).get)
    (hp : parent ∈ T) (hd : Dir (s.node parent)) (path : π parent = d) (free : ∀ k, s.oom k = false)
    (hname : name = (splitPath (hdrName s.drv.heap.mem (s.drv.gInitrdImg + off))).2)
    (hsize : size = hdrSize s.drv.heap.mem (s.drv.gInitrdImg + off))
    (hmode : mode = hdrMode s.drv.heap.mem (s.drv.gInitrdImg + off))
    (load : Payload s.drv.heap.mem (s.drv.gInitrdImg + off) payload)
    (noDir : d ++ [name] ∉ (A.mkdirs d).dirs) :
    ∃ T' κ' π', Decoded s' root T' κ' π' (A.put d name payload).get ∧ Grows s T s' T' := by
  cases a with
  | noNode full => cases (free s.calls).symm.trans full
  | noMeta _ full => cases (free (s.calls + 1)).symm.trans full
  | added =>
    obtain ⟨m2, g2⟩ := dec.mount.recorded ⟨size, off + 512⟩
    obtain ⟨m3, g3, file⟩ := dec.mount.fileAttached hp hd (Set.mem_univ off) hname hsize hmode
    have recorded : Decoded (record s.tick.tick (s.calls + 1) ⟨size, off + 512⟩) root T κ π (A.mkdirs d).get :=
      dec.congr m2 g2 (fun _ _ => rfl) fun _ _ h => h
    have grown := attachFile_grows dec.mount.tree hp hd g3
    have step := recorded.attach (n := fileNode name size mode parent (s.calls + 1)) (e := .file payload) hp hd
      dec.mount.tree.lt m3 grown ?_ ?_ ?_ ?_
    · have put : Function.update (A.mkdirs d).get (π parent ++ [name]) (some (.file payload)) =
          (A.put d name payload).get := by rw [path, PathMap.put_get noDir]
      exact ⟨_, _, _, put ▸ step, g3⟩
    · rw [path]
      exact fun h => noDir (PathMap.get_dir.mp h)
    · intro c
      rw [path]
      exact PathMap.get_below noDir (List.cons_ne_nil c [])
    · exact ⟨off, file, load⟩
    · intro h
      exact absurd h file.not_dir

/-- New permissions for a directory. -/
lemma Decoded.chmoded (dec : Decoded s root T κ π G) (hd : Dir (s.node p)) (v : UInt32) :
    Decoded (chmod s p (v &&& 0o777)) root T κ π G ∧ Grows s T (chmod s p (v &&& 0o777)) T := by
  obtain ⟨m, g⟩ := dec.mount.chmoded hd v
  exact ⟨dec.congr m g (fun q _ => (chmod_node s p q _).1) fun q _ h => chmod_dir hd v h, g⟩

/-! ## Resolution. -/

/-- The components `.` and `..`. -/
def isDots (c : List UInt8) : Bool := c == [0x2E] || c == [0x2E, 0x2E]

/-- What resolution over a tree finds is what the name space has. -/
theorem Decoded.resolve (dec : Decoded s root T κ π A.get) (hp : p ∈ T) (hd : Dir (s.node p))
    (plain : ∀ c ∈ cs, isDots c = false) : Shows s (resolve s κ p cs) (A.get (π p ++ cs)) := by
  induction cs generalizing p with
  | nil =>
    rw [List.append_nil, dec.dir p hp hd]
    exact hd
  | cons c cs ih =>
    have dots := plain c List.mem_cons_self
    simp only [isDots, Bool.or_eq_false_iff, beq_eq_false_iff_ne] at dots
    have shown := dec.kid p hp hd c
    rw [Vfs.resolve, if_neg dots.1, if_neg dots.2, List.append_cons]
    cases hq : child s κ p c with
    | none =>
      rw [hq] at shown
      cases e : A.get (π p ++ [c]) with
      | some e' =>
        rw [e] at shown
        exact shown.elim
      | none =>
        have absent : π p ++ [c] ∉ A.dirs := by
          rw [← PathMap.get_dir, e]
          rintro ⟨⟩
        by_cases ne : cs = []
        · subst ne
          rw [List.append_nil, e]
          trivial
        · rw [PathMap.get_below absent ne]
          trivial
    | some q =>
      obtain ⟨mem, hqT, name⟩ := dec.mount.tree.child_mem hp hq
      have path : π q = π p ++ [c] := by rw [dec.path p hp q mem, name]
      rw [hq] at shown
      cases e : A.get (π p ++ [c]) with
      | none =>
        rw [e] at shown
        exact shown.elim
      | some e' =>
        rw [e] at shown
        cases e' with
        | dir =>
          rw [← path]
          exact ih hqT shown fun c' hc' => plain c' (List.mem_cons_of_mem c hc')
        | file payload =>
          by_cases ne : cs = []
          · subst ne
            rw [List.append_nil, e]
            exact shown
          · have noDir : π p ++ [c] ∉ A.dirs := by
              rw [← PathMap.get_dir, e]
              rintro ⟨⟩
            -- the file has no children for the components that are left
            obtain ⟨off, file, _⟩ := shown
            obtain ⟨c', cs', rfl⟩ := List.exists_cons_of_ne_nil ne
            have dots' := plain c' (List.mem_cons_of_mem c List.mem_cons_self)
            simp only [isDots, Bool.or_eq_false_iff, beq_eq_false_iff_ne] at dots'
            have none : child s κ q c' = none := by
              rw [child, dec.mount.leaf hqT file]
              rfl
            simp only [Vfs.resolve, if_neg dots'.1, if_neg dots'.2, none, PathMap.get_below noDir ne]
            trivial

end RetaOS.Initrd
