import RetaOS.Initrd.Archive
import RetaOS.Initrd.Read
import RetaOS.Initrd.Bounds

/-!
# Decoding undoes encoding

`mount_initrd` on the image of an archive builds the name space of its entries: `addEntry_decoded` is the step
for one entry and `Archive.run` the walk, by induction over the archive, from the root directory alone.
`mountInitrd_decoded` adds the beginning and the end.
-/

namespace RetaOS.Initrd
open Lib Vfs

variable {s s' : State} {root : Nat} {T T' : Set Nat} {κ : Nat → List Nat} {π : Nat → List (List UInt8)}
  {A : PathMap (List UInt8) (List UInt8)} {m : Memory} {img bytes off : UInt32} {e : TarEntry} {f : TarFile}
  {es : List TarEntry}

/-! ## One entry. -/

/-- What an entry does to the name space. -/
def TarEntry.item : TarEntry → PathMap.Item (List UInt8) (List UInt8)
  | .dir d => .dir d.name.path
  | .file f => .file f.name.path.dropLast (f.name.path.getLastD []) f.payload

lemma TarEntry.item_parent : e.item.parent = e.parent := by
  cases e with
  | dir d => rfl
  | file f => rfl

/-- The path of a file is the directory it lies in and its last component. -/
lemma TarFile.path_eq : f.name.path = f.name.path.dropLast ++ [f.name.path.getLastD []] := by
  rw [f.split, List.dropLast_concat, List.getLastD_concat]

lemma TarFile.base_ne : f.name.path.getLastD [] ≠ [] := by
  have mem : f.name.path.getLastD [] ∈ f.name.path := by
    rw [f.split, List.getLastD_concat]
    exact List.mem_append_right _ List.mem_cons_self
  exact (mem_tokens mem).1

/-- The permissions that a file gets let anyone read it. -/
lemma TarFile.fileFlags_readable (f : TarFile) : fileFlags (f.mode &&& 0o777) &&& 0o444 ≠ 0 := by
  rw [fileFlags]
  split_ifs with h
  · have keep : (0o777 : UInt32) &&& 0o444 = 0o444 := by decide
    rw [or_and_distrib, UInt32.and_assoc, keep]
    cases f.readable with
    | inl zero => exact absurd zero h
    | inr read =>
      have none : S_IFREG &&& 0o444 = 0 := by decide
      rw [none, UInt32.zero_or]
      exact read
  · decide

lemma EntryAt.load {hdr : UInt32} (h : EntryAt m hdr (.file f)) : Payload m hdr f.payload := by
  have short := f.short
  refine ⟨?_, h.payload, ?_⟩
  · rw [h.hdrSize]
    exact toNat_ofNat_lt (by
      change f.payload.length < _
      omega)
  · rw [h.hdrMode]
    exact f.fileFlags_readable

/-- What `mount_initrd` does for the header of an entry is what the entry does to the name space. -/
theorem addEntry_decoded (dec : Decoded s root T κ π A.get) (free : ∀ k, s.oom k = false)
    (h : EntryAt s.drv.heap.mem (s.drv.gInitrdImg + off) e)
    (noDir : ∀ f, e = .file f → f.name.path ∉ (A.mkdirs e.parent).dirs) :
    ∃ s' T' κ' π', addEntry s root off = some s' ∧ Decoded s' root T' κ' π' (A.add e.item).get ∧
      Grows s T s' T' := by
  have start : Decoded s root T κ π (A.mkdirs []).get := by rwa [PathMap.mkdirs_root]
  have flag := h.typeflag
  have name := h.hdrName
  obtain ⟨s', run, adds⟩ := addEntry_adds dec.mount.tree off
  cases e with
  | dir d =>
    have notFile : isReg (hdrTypeflag s.drv.heap.mem (s.drv.gInitrdImg + off)) = false := by
      rw [hdrTypeflag, List.mem_singleton.mp flag]
      rfl
    have isDirectory : isDir (hdrTypeflag s.drv.heap.mem (s.drv.gInitrdImg + off)) = true := by
      rw [hdrTypeflag, List.mem_singleton.mp flag]
      rfl
    have components : dirComponents (hdrName s.drv.heap.mem (s.drv.gInitrdImg + off)) = d.name.path := by
      rw [name]
      exact d.name.components
    cases adds with
    | file regular => cases notFile.symm.trans regular
    | dir _ _ ens =>
      obtain ⟨T1, κ1, π1, dec1, g1, -, -, -⟩ := ens.decoded start dec.mount.tree.root_mem dec.mount.root_dir
        dec.root_path free (components_short _)
      rw [List.nil_append, components] at dec1
      exact ⟨_, T1, κ1, π1, run, dec1, g1⟩
    | chmod _ _ ens =>
      obtain ⟨T1, κ1, π1, dec1, g1, -, hd, -⟩ := ens.decoded start dec.mount.tree.root_mem dec.mount.root_dir
        dec.root_path free (components_short _)
      rw [List.nil_append, components] at dec1
      obtain ⟨dec2, g2⟩ := dec1.chmoded hd _
      exact ⟨_, T1, κ1, π1, run, dec2, g1.trans g2⟩
    | skip _ other => cases other.symm.trans isDirectory
  | file f =>
    have isFile : isReg (hdrTypeflag s.drv.heap.mem (s.drv.gInitrdImg + off)) = true := by
      rw [hdrTypeflag]
      cases List.mem_pair.mp flag with
      | inl e =>
        rw [e]
        rfl
      | inr e =>
        rw [e]
        rfl
    cases adds with
    | file _ _ ens adds =>
      -- the directories of the path are made first, then the node is linked in the last one
      have path := f.split
      have absent := noDir f rfl
      obtain ⟨T1, κ1, π1, dec1, g1, hp, hd, at_⟩ := ens.decoded start dec.mount.tree.root_mem dec.mount.root_dir
        dec.root_path free (components_short _)
      rw [List.nil_append] at dec1 at_
      have place : f.name.path.dropLast = dirComponents (splitPath f.name.bytes).1 ∧
          f.name.path.getLastD [] = (splitPath f.name.bytes).2 := by
        rw [path, List.dropLast_concat, List.getLastD_concat]
        exact ⟨rfl, rfl⟩
      rw [TarEntry.parent, place.1, path] at absent
      rw [name] at dec1 at_ adds
      obtain ⟨T2, κ2, π2, dec2, g2⟩ := adds.decoded dec1 hp hd at_ (fun k => g1.oom ▸ free k)
        (by rw [g1.heap, g1.img, name]) (by rw [g1.heap, g1.img]) (by rw [g1.heap, g1.img])
        (by
          rw [g1.heap, g1.img]
          exact h.load) absent
      refine ⟨s', T2, κ2, π2, run, ?_, g1.trans g2⟩
      rw [TarEntry.item, PathMap.add, place.1, place.2]
      exact dec2
    | dir other => cases other.symm.trans isFile
    | chmod other => cases other.symm.trans isFile
    | skip other => cases other.symm.trans isFile

/-! ## The walk. -/

/-- No file of the archive has the path of one of its directories. -/
def NoClash (es : List TarEntry) : Prop :=
  ∀ f, TarEntry.file f ∈ es → ∀ e ∈ es, ¬ f.name.path <+: e.parent

lemma add_512 (h : off.toNat + 512 < 2 ^ 32) : (off + 512).toNat = off.toNat + 512 := toNat_add_of_lt h

/-- There is room for a header. -/
lemma add_512_le (h : off.toNat + 512 ≤ bytes.toNat) : off + 512 ≤ bytes := by
  rw [UInt32.le_iff_toNat_le, add_512 (h.trans_lt bytes.toNat_lt)]
  exact h

/-- The header walk steps to the next entry. -/
lemma advance_entry {n : Nat} {off' : UInt32} (short : n < 2 ^ 31)
    (next : off'.toNat = off.toNat + 512 + (n + 511) / 512 * 512) : off + advance (UInt32.ofNat n) = off' := by
  have len : (UInt32.ofNat n).toNat = n := toNat_ofNat_lt (by omega)
  have sum : (UInt32.ofNat n + 511).toNat = n + 511 := by
    rw [toNat_add_of_lt, len]
    · rfl
    · rw [len]
      change n + 511 < _
      omega
  have round : ((UInt32.ofNat n + 511) &&& ~~~511).toNat = _ :=
    toNat_and_not_mask (UInt32.ofNat n + 511) (k := 9) (by decide)
  have top := off'.toNat_lt
  apply UInt32.toNat_inj.mp
  rw [toNat_advance, advanceNat, round, sum, roundDown]
  omega

lemma TarEntry.short (e : TarEntry) : e.payload.length < 2 ^ 31 := by
  cases e with
  | dir d =>
    change 0 < 2 ^ 31
    omega
  | file f => exact f.short

/-- The header walk of an archive carries out its entries. -/
theorem Archive.run (ar : Archive m img bytes off es) (dec : Decoded s root T κ π A.get)
    (hm : s.drv.heap.mem = m) (himg : s.drv.gInitrdImg = img) (hb : s.drv.gInitrdBytes = bytes)
    (free : ∀ k, s.oom k = false) (apart : ∀ f, TarEntry.file f ∈ es → f.name.path ∉ A.dirs)
    (noClash : NoClash es) :
    ∃ s' T' κ' π', loop (mountBody root) (off, s) = some s' ∧
      Decoded s' root T' κ' π' (A.build (es.map TarEntry.item)).get ∧ Grows s T s' T' := by
  induction ar generalizing s T κ π A with
  | @endMark off room stop =>
    refine ⟨s, T, κ, π, loop_done ?_, dec, .refl⟩
    subst hm himg hb
    have more : off + 512 ≤ s.drv.gInitrdBytes := add_512_le room
    simp only [mountBody, if_pos more, if_pos stop]
  | @endImage off full fits =>
    refine ⟨s, T, κ, π, loop_done ?_, dec, .refl⟩
    subst hm himg hb
    have full : ¬ off + 512 ≤ s.drv.gInitrdBytes := by
      rw [UInt32.le_iff_toNat_le, add_512 fits]
      omega
    simp only [mountBody, if_neg full]
  | @entry off off' e es h room next _ ih =>
    subst hm himg hb
    have more : off + 512 ≤ s.drv.gInitrdBytes := add_512_le (by omega)
    have noDir : ∀ f, e = .file f → f.name.path ∉ (A.mkdirs e.parent).dirs := by
      intro f eq hf
      have mem : TarEntry.file f ∈ e :: es := eq ▸ List.mem_cons_self
      cases hf with
      | inl hf => exact apart f mem hf
      | inr hf => exact noClash f mem e List.mem_cons_self hf
    obtain ⟨s1, T1, κ1, π1, run, dec1, g1⟩ := addEntry_decoded dec free h noDir
    have pass : mountBody root (off, s) = .next (off', s1) := by
      simp only [mountBody, if_pos more, if_neg h.named, run, Pass.inner, h.hdrSize, advance_entry e.short next]
    have later : ∀ f, TarEntry.file f ∈ es → f.name.path ∉ (A.add e.item).dirs := by
      intro f mem hf
      rw [PathMap.mem_add_dirs, TarEntry.item_parent] at hf
      cases hf with
      | inl hf => exact apart f (List.mem_cons_of_mem e mem) hf
      | inr hf => exact noClash f (List.mem_cons_of_mem e mem) e List.mem_cons_self hf
    obtain ⟨s2, T2, κ2, π2, rest, dec2, g2⟩ := ih dec1 (congrArg _ g1.heap) g1.img g1.bytes
      (fun k => g1.oom ▸ free k) later
      fun f mem e' he' => noClash f (List.mem_cons_of_mem e mem) e' (List.mem_cons_of_mem e he')
    exact ⟨s2, T2, κ2, π2, (loop_next pass).trans rest, dec2, g1.trans g2⟩

/-! ## The mounted archive. -/

/-- A ustar image of a list of entries. -/
structure Image (m : Memory) (img bytes : UInt32) (es : List TarEntry) : Prop where
  valid : img ≠ 0
  room : 512 ≤ bytes
  entries : Archive m img bytes 0 es
  noClash : NoClash es

/-- The root directory alone is the empty name space. -/
lemma decoded_empty (m : Mount Set.univ s root {root} fun _ => []) :
    Decoded s root {root} (fun _ => []) (fun _ => []) (PathMap.empty : PathMap (List UInt8) (List UInt8)).get where
  mount := m
  root_path := rfl
  path _ _ _ hq := nomatch hq
  dir _ _ _ := PathMap.get_dir.mpr rfl
  inj p hp q hq _ _ _ := by
    cases hp
    cases hq
    rfl
  kid _ _ _ c := by
    have none : (PathMap.empty : PathMap (List UInt8) (List UInt8)).get ([] ++ [c]) = none :=
      PathMap.get_build_none (l := []) (List.cons_ne_nil c []) nofun nofun
    rw [none]
    trivial

/-- `mount_initrd` on an image builds the name space of its entries. -/
theorem mountInitrd_decoded (im : Image s.drv.heap.mem img bytes es) (free : ∀ k, s.oom k = false) :
    ∃ s' root T κ π, mountInitrd s img bytes = some (0, s') ∧
      Decoded s' root T κ π (PathMap.empty.build (es.map TarEntry.item)).get ∧
      s'.vfsRoot = s'.node root ∧ s'.drv.gInitrdImg ≠ 0 ∧ s'.drv.heap = s.drv.heap := by
  have start := mountRoot_some (free s.calls) img bytes
  obtain ⟨w, oom⟩ := mountRoot_walk start
  have heap : ((setImage s img bytes).tick.setNode s.calls rootNode).drv.heap = s.drv.heap := rfl
  generalize (setImage s img bytes).tick.setNode s.calls rootNode = s0 at start w oom heap
  have apart : ∀ f, TarEntry.file f ∈ es → f.name.path ∉ (PathMap.empty : PathMap (List UInt8) (List UInt8)).dirs := by
    intro f _ h
    have path := h.symm.trans f.split
    simp at path
  obtain ⟨s1, T, κ, π, run, dec, g⟩ := im.entries.run (decoded_empty (w.mount.mono (Set.subset_univ _))) w.heap w.base
    w.size (fun k => oom ▸ free k) apart im.noClash
  obtain ⟨mount, grows⟩ := dec.mount.congr (vfsSetRoot s1 s.calls) le_rfl rfl (fun _ _ => rfl) rfl rfl rfl
    fun _ _ => rfl
  refine ⟨vfsSetRoot s1 s.calls, s.calls, T, κ, π, ?_, ?_, rfl, ?_, ?_⟩
  · rw [mountInitrd_loop im.valid im.room start, run]
    rfl
  · exact dec.congr mount grows (fun _ _ => rfl) fun _ _ h => h
  · change s1.drv.gInitrdImg ≠ 0
    rw [g.img, w.base]
    exact im.valid
  · exact g.heap.trans heap

/-- The name space does not depend on the descriptors. -/
lemma Decoded.table (dec : Decoded s root T κ π A.get) (table : Nat → Node) :
    Decoded { s with openFiles := table } root T κ π A.get := by
  obtain ⟨mount, grows⟩ := dec.mount.congr { s with openFiles := table } le_rfl rfl (fun _ _ => rfl) rfl rfl rfl
    fun _ _ => rfl
  exact dec.congr mount grows (fun _ _ => rfl) fun _ _ h => h

/-! ## Lookup. -/

/-- A mounted tree has no symbolic links, and its `finddir` callbacks find nothing. -/
lemma Mount.plain {V : Set UInt32} (m : Mount V s root T κ) : Plain tarDriver s T := by
  constructor
  · intro p hp link
    cases m.node p hp with
    | inl h =>
      have both := h.flags.symm.trans link
      revert both
      decide
    | inr h =>
      obtain ⟨off, _, h⟩ := h
      have both := h.flags.symm.trans link
      revert both
      decide
  · intro p hp f _ d c
    exact ⟨-ENOTDIR, .zero, rfl, by decide⟩

/-- The path that a string names, up to slashes and components `.`. -/
def pathOf (path : List UInt8) : List (List UInt8) := (tokens isSlash path).filter (· != [0x2E])

/-- Lookup in a mounted tree reads the name space. -/
lemma Decoded.lookup {path : List UInt8} (dec : Decoded s root T κ π A.get) (hr : s.vfsRoot = s.node root)
    (short : path.length < VFS_PATH_MAX) (plain : ∀ c ∈ pathOf path, isDots c = false) :
    Shows s (Vfs.resolve s κ root (pathOf path)) (A.get (pathOf path)) ∧
      vfsLookup tarDriver s path = some (match Vfs.resolve s κ root (pathOf path) with
        | none => (-ENOENT, s.vfsRoot, s)
        | some p => (0, s.node p, s)) := by
  have shown := dec.resolve dec.mount.tree.root_mem dec.mount.root_dir plain
  rw [dec.root_path, List.nil_append] at shown
  have whole : path.take (VFS_PATH_MAX - 1) = path := List.take_of_length_le (Nat.le_sub_one_of_lt short)
  have dots : Vfs.resolve s κ root (pathOf path) = Vfs.resolve s κ root (tokens isSlash path) := resolve_dots
  refine ⟨shown, ?_⟩
  have look := vfsLookup_eq dec.mount.tree dec.mount.plain hr path
  rw [lookupComponents, whole, ← dots] at look
  exact look

/-- A path of a file is found, under its last component. -/
lemma Decoded.lookup_file {path c payload : List UInt8} {d : List (List UInt8)} (dec : Decoded s root T κ π A.get)
    (hr : s.vfsRoot = s.node root) (short : path.length < VFS_PATH_MAX) (at_ : pathOf path = d ++ [c])
    (plain : ∀ c ∈ pathOf path, isDots c = false) (held : A.get (d ++ [c]) = some (.file payload)) :
    ∃ n, vfsLookup tarDriver s path = some (0, n, s) ∧ Holds s.drv n payload ∧ n.name = c := by
  obtain ⟨shown, look⟩ := dec.lookup hr short plain
  rw [at_] at shown look plain
  rw [held] at shown
  cases found : Vfs.resolve s κ root (d ++ [c]) with
  | none =>
    rw [found] at shown
    cases shown
  | some q =>
    rw [found] at shown look
    have dots := plain c (List.mem_append_right _ List.mem_cons_self)
    simp only [isDots, Bool.or_eq_false_iff, beq_eq_false_iff_ne] at dots
    exact ⟨s.node q, look, shown, resolve_name dots.1 dots.2 found⟩

/-- A path that holds nothing is not found. -/
lemma Decoded.lookup_none {path : List UInt8} (dec : Decoded s root T κ π A.get) (hr : s.vfsRoot = s.node root)
    (short : path.length < VFS_PATH_MAX) (plain : ∀ c ∈ pathOf path, isDots c = false)
    (none : A.get (pathOf path) = none) : vfsLookup tarDriver s path = some (-ENOENT, s.vfsRoot, s) := by
  obtain ⟨shown, look⟩ := dec.lookup hr short plain
  rw [none] at shown
  cases found : Vfs.resolve s κ root (pathOf path) with
  | none =>
    rw [found] at look
    exact look
  | some q =>
    rw [found] at shown
    cases shown

/-! ## The round trip. -/

/-- The name space of the entries holds the payload of the last entry of a file path. -/
lemma get_last (es1 es2 : List TarEntry) (noClash : NoClash (es1 ++ .file f :: es2))
    (last : ∀ g, TarEntry.file g ∈ es2 → g.name.path ≠ f.name.path) :
    ((PathMap.empty : PathMap (List UInt8) (List UInt8)).build
      ((es1 ++ .file f :: es2).map TarEntry.item)).get f.name.path = some (.file f.payload) := by
  have mem : TarEntry.file f ∈ es1 ++ .file f :: es2 := List.mem_append_right _ List.mem_cons_self
  have noDir : f.name.path ∉ ((PathMap.empty : PathMap (List UInt8) (List UInt8)).build
      ((es1 ++ .file f :: es2).map TarEntry.item)).dirs := by
    rw [PathMap.dirs_build, not_or]
    constructor
    · intro h
      have path := h.symm.trans f.split
      simp at path
    · intro h
      obtain ⟨i, hi, pre⟩ := h
      obtain ⟨e, he, rfl⟩ := List.mem_map.mp hi
      rw [TarEntry.item_parent] at pre
      exact noClash f mem e he pre
  rw [List.map_append, List.map_cons] at noDir ⊢
  rw [f.path_eq] at noDir ⊢
  apply PathMap.get_build_file noDir
  intro i hi g hg
  obtain ⟨e, he, rfl⟩ := List.mem_map.mp hi
  cases e with
  | dir d => cases hg
  | file g' =>
    cases hg
    rw [← g'.path_eq, ← f.path_eq]
    exact last g' he

/-- A path that no entry has or lies below holds nothing. -/
lemma get_absent {q : List (List UInt8)} (ne : q ≠ []) (absent : ∀ e ∈ es, ¬ q <+: e.name.path) :
    ((PathMap.empty : PathMap (List UInt8) (List UInt8)).build (es.map TarEntry.item)).get q = none := by
  apply PathMap.get_build_none ne
  · intro i hi pre
    obtain ⟨e, he, rfl⟩ := List.mem_map.mp hi
    rw [TarEntry.item_parent] at pre
    cases e with
    | dir d => exact absent _ he pre
    | file f => exact absent _ he (pre.trans (List.dropLast_prefix _))
  · intro i hi g hg
    obtain ⟨e, he, rfl⟩ := List.mem_map.mp hi
    cases e with
    | dir d => cases hg
    | file f =>
      cases hg
      intro eq
      apply absent _ he
      rw [← eq, ← f.path_eq]
      exact List.prefix_refl _

/-- Every file of the archive can be opened under its path while a descriptor is free, and reads to its end
    deliver the payload of the last entry of that path. -/
def ServesFiles (s : State) (es : List TarEntry) : Prop :=
  ∀ es1 f es2, es = es1 ++ .file f :: es2 → (∀ g, TarEntry.file g ∈ es2 → g.name.path ≠ f.name.path) →
    ∀ path : List UInt8, path.length < VFS_PATH_MAX → pathOf path = f.name.path →
      ∀ table fd, freeSlot { s with openFiles := table } = some fd →
        ∃ s1, vfsOpen tarDriver { s with openFiles := table } path O_RDONLY = some ((fd : Int), s1) ∧
          ∀ buf counts, buf ≠ 0 → f.payload.length ≤ (counts.map UInt32.toNat).sum →
            ∃ s2, readMany s1 fd buf counts = (f.payload, s2) ∧
              ∀ count, vfsRead tarDriver s2 fd buf count = (0, [], s2)

/-- An absolute path without components `.` and `..` that no entry has and that is no ancestor directory of one. -/
structure Absent (es : List TarEntry) (path : List UInt8) : Prop where
  absolute : path.head? = some 0x2F
  short : path.length < VFS_PATH_MAX
  plain : ∀ c ∈ tokens isSlash path, isDots c = false
  noEntry : ∀ e ∈ es, ¬ tokens isSlash path <+: e.name.path

/-- Lookup of a path ends in `-ENOENT`. -/
def NotFound (s : State) (path : List UInt8) : Prop :=
  ∃ n s', vfsLookup tarDriver s path = some (-ENOENT, n, s')

/-- A path without components `.` names its tokens. -/
lemma pathOf_plain {path : List UInt8} (plain : ∀ c ∈ tokens isSlash path, isDots c = false) :
    pathOf path = tokens isSlash path := by
  apply List.filter_eq_self.mpr
  intro c hc
  have dots := plain c hc
  simp only [isDots, Bool.or_eq_false_iff, beq_eq_false_iff_ne] at dots
  simpa using dots.1

/-- Decoding undoes encoding: the files of an archive are served, and other paths than the root are not found. -/
theorem mountInitrd_roundTrip (s : State) (img bytes : UInt32) (es : List TarEntry)
    (im : Image s.drv.heap.mem img bytes es) (free : ∀ k, s.oom k = false) :
    ∃ s', mountInitrd s img bytes = some (0, s') ∧ ServesFiles s' es ∧
      ∀ path, Absent es path → tokens isSlash path ≠ [] → NotFound s' path := by
  obtain ⟨s', root, T, κ, π, run, dec, hr, himg, _⟩ := mountInitrd_decoded im free
  refine ⟨s', run, ?_, ?_⟩
  · intro es1 f es2 eq last path short named table fd slot
    subst eq
    have held := get_last _ _ im.noClash last
    have dec1 := dec.table table
    rw [f.path_eq] at held named
    obtain ⟨n, look, holds, name⟩ := dec1.lookup_file hr short named (named ▸ f.path_eq ▸ f.name.plain) held
    obtain ⟨s1, opens, o1, drv1⟩ := vfsOpen_file look holds (name ▸ f.base_ne) slot
    refine ⟨s1, opens, ?_⟩
    intro buf counts hbuf enough
    obtain ⟨s2, reads, o2, _⟩ := readMany_opened o1 (drv1 ▸ himg) f.short hbuf counts
    rw [List.drop_zero, List.take_of_length_le enough] at reads o2
    rw [Nat.zero_add] at o2
    exact ⟨s2, reads, o2.atEnd hbuf⟩
  · intro path absent ne
    refine ⟨s'.vfsRoot, s', ?_⟩
    have names := pathOf_plain absent.plain
    apply dec.lookup_none hr absent.short
    · rw [names]
      exact absent.plain
    · rw [names]
      exact get_absent ne absent.noEntry

/-- A file `a` with the byte `B`. -/
def oneByteFile : TarFile :=
  ⟨⟨[0x61], by decide, by decide, by simp, by decide⟩, 0, [0x42], by simp [isSlash], by decide, by decide⟩

/-- The archive of that file. -/
def oneByteEntry : TarEntry := .file oneByteFile

lemma oneByteArchive_image : Image oneByteArchive 0x1000 1536 [oneByteEntry] := by
  refine ⟨by decide, by decide, ?_, ?_⟩
  · have header : EntryAt oneByteArchive (0x1000 + 0) oneByteEntry := by
      refine ⟨by decide, by decide, ?_, ?_, by decide, by decide +kernel, by decide +kernel⟩
      · exact ⟨[], List.replicate 8 0, by decide, nofun, rfl, by simp⟩
      · exact ⟨List.replicate 10 0 ++ [1], [0], by decide, by decide, by decide, by simp⟩
    have rest : Archive oneByteArchive 0x1000 1536 1024 [] := .endMark (by decide) (by decide +kernel)
    exact .entry header (by decide) (by decide) rest
  · intro f hf e he
    cases List.mem_singleton.mp hf
    cases List.mem_singleton.mp he
    decide

/-- The file of a mounted image that holds it alone. -/
lemma oneByteEntry_lookup (im : Image s.drv.heap.mem img bytes [oneByteEntry]) (free : ∀ k, s.oom k = false) :
    ∃ s1 n, mountInitrd s img bytes = some (0, s1) ∧ vfsLookup tarDriver s1 [0x2F, 0x61] = some (0, n, s1) ∧
      Holds s1.drv n [0x42] ∧ n.name = [0x61] ∧ s1.drv.heap = s.drv.heap := by
  obtain ⟨s1, root, T, κ, π, mount, dec, hr, -, heap⟩ := mountInitrd_decoded im free
  have held := get_last [] [] im.noClash nofun
  have name : pathOf [0x2F, 0x61] = [] ++ [[0x61]] := by decide
  obtain ⟨n, look, holds, named⟩ := dec.lookup_file hr (by decide) name (by rw [name]; decide) held
  exact ⟨s1, n, mount, look, holds, named, heap⟩

/-- The file of the mounted archive. -/
lemma oneByteArchive_lookup : ∃ s1 n, mountInitrd (freshState oneByteArchive) 0x1000 1536 = some (0, s1) ∧
    vfsLookup tarDriver s1 [0x2F, 0x61] = some (0, n, s1) ∧ Holds s1.drv n [0x42] ∧ n.name = [0x61] := by
  have free : ∀ k, (freshState oneByteArchive).oom k = false := fun _ => rfl
  obtain ⟨s1, n, mount, look, holds, named, -⟩ := oneByteEntry_lookup oneByteArchive_image free
  exact ⟨s1, n, mount, look, holds, named⟩

/-- The archive of one file is served. -/
theorem roundTrip_oneByte :
    ∃ s', mountInitrd (freshState oneByteArchive) 0x1000 1536 = some (0, s') ∧ ServesFiles s' [oneByteEntry] ∧
      ∀ path, Absent [oneByteEntry] path → tokens isSlash path ≠ [] → NotFound s' path :=
  mountInitrd_roundTrip (freshState oneByteArchive) 0x1000 1536 [oneByteEntry] oneByteArchive_image fun _ => rfl

/-- The empty archive has no entry, and still its root is found. -/
theorem root_found : ¬ ∀ (s : State) (img bytes : UInt32) (es : List TarEntry), Image s.drv.heap.mem img bytes es →
    (∀ k, s.oom k = false) → ∃ s', mountInitrd s img bytes = some (0, s') ∧ ServesFiles s' es ∧
      ∀ path, Absent es path → NotFound s' path := by
  intro claim
  have image : Image (fun _ => 0) 0x1000 1024 [] := ⟨by decide, by decide, .endMark (by decide) rfl, nofun⟩
  obtain ⟨s', _, _, missing⟩ := claim (freshState fun _ => 0) 0x1000 1024 [] image fun _ => rfl
  have none : tokens isSlash [0x2F] = [] := tokens_cons (b := []) rfl
  obtain ⟨n, s2, look⟩ := missing [0x2F] ⟨rfl, by decide, by rw [none]; nofun, nofun⟩
  have found : loop (lookupBody tarDriver s') (lookupStart s' [0x2F] s'.drv) = some (0, s'.vfsRoot, s'.drv) :=
    loop_done rfl
  rw [vfsLookup, found] at look
  cases look

end RetaOS.Initrd
