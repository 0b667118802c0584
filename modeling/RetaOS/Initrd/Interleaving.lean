import RetaOS.Initrd.Positions

/-!
# Interleaved descriptors

`Serves` is the invariant that every slot opened in a run holds its handle, kept by every call, and
`positions_exact` says what reads and seeks do in every state of every run, and what the opened paths give access
to.
-/

namespace RetaOS.Initrd
open Lib Vfs

variable {s s' s0 s1 : State} {d : Ramdisk} {n : Node} {root : Nat} {T : Set Nat} {κ : Nat → List Nat}
  {V : Set UInt32} {path : List UInt8} {flags : UInt32} {tr : List Event} {e : Event} {fd : Nat} {h : Handle}

/-- Every slot opened in a run holds its handle, and the tree is as it was mounted. -/
structure Serves (s1 : State) (T : Set Nat) (tr : List Event) (s : State) : Prop where
  tree : Kept T Eq s1 s
  calls : s1.calls ≤ s.calls
  slot : ∀ fd h, history s1 fd tr = some h → Stands s1 T s fd h
  found : ∀ e ∈ tr, ∀ path flags, e.call = .open_ path flags → 0 ≤ e.ret →
    ∃ n, lookupOf tarDriver s1 path = some (0, n)

section Tree
variable (m : Mount V s1 root T κ) (himg : s1.drv.gInitrdImg ≠ 0)
  (short : ∀ p ∈ T, (s1.node p).size.toNat < 2 ^ 31)

/-! ## Opening. -/

/-- The mode bits of a file are no open flags. -/
lemma fileFlags_trunc (v : UInt32) : fileFlags (v &&& 0o777) &&& O_TRUNC = 0 := by
  have clear : ∀ x : UInt32, (S_IFREG ||| (x &&& 0o777)) &&& O_TRUNC = 0 := by
    intro x
    have zero : (0o777 : UInt32) &&& O_TRUNC = 0 := by decide
    rw [or_and_distrib, UInt32.and_assoc, zero, UInt32.and_zero]
    decide
  rw [fileFlags]
  split_ifs
  · exact clear v
  · exact clear 0o644

/-- A directory is refused when it would be truncated. -/
lemma refusal_dir (hd : Dir n) (write : flags &&& O_ACCMODE ≠ O_RDONLY) : refusal n flags = some (-EISDIR) :=
  if_pos ⟨hd.is_dir, write⟩

omit himg short in
include m in
/-- The truncation of `vfs_open` leaves a node of the tree as it is, or fails. -/
lemma truncate_tar {p : Nat} (hp : p ∈ T) (ok : refusal (s1.node p) flags = none) :
    truncate tarDriver s (s1.node p) flags = (.ok (s1.node p), s) ∨
      ∃ e < 0, truncate tarDriver s (s1.node p) flags = (.error e, s) := by
  unfold truncate
  split_ifs with asked trunc
  · cases m.node p hp with
    | inl hd => cases ok.symm.trans (refusal_dir hd asked.2)
    | inr hf =>
      obtain ⟨off, -, file⟩ := hf
      rw [file.mode] at trunc
      exact absurd (fileFlags_trunc _) trunc
  · cases (s1.node p).write with
    | none => exact .inl rfl
    | some f => exact .inr ⟨-ENOTDIR, by decide, rfl⟩
  · exact .inl rfl

omit himg short in
include m in
/-- `vfs_open` from a node of the tree. -/
lemma openNode_tar {p i : Nat} (hp : p ∈ T) {ret : Int}
    (run : openNode tarDriver s i (s1.node p) flags = (ret, s')) :
    (ret < 0 ∧ s' = s) ∨ (ret = i ∧ s' = s.setOpenFile i (openAt (s1.node p) flags)) := by
  rw [openNode_eq] at run
  cases refused : refusal (s1.node p) flags with
  | some e =>
    rw [refused] at run
    cases run
    obtain rfl | rfl | rfl := refusal_mem refused
    · exact .inl ⟨by decide, rfl⟩
    · exact .inl ⟨by decide, rfl⟩
    · exact .inl ⟨by decide, rfl⟩
  | none =>
    rw [refused] at run
    obtain kept | ⟨e, neg, fails⟩ := truncate_tar (s := s) m hp refused
    · have callback : (openAt (s1.node p) flags).open_ = some .tarOpen := by
        cases m.node p hp with
        | inl hd => exact hd.open_
        | inr hf =>
          obtain ⟨off, -, file⟩ := hf
          exact file.open_
      rw [kept] at run
      dsimp only at run
      rw [fillSlot, callback] at run
      cases run
      exact .inr ⟨rfl, rfl⟩
    · rw [fails] at run
      cases run
      exact .inl ⟨neg, rfl⟩

variable (hr : s1.vfsRoot = s1.node root)

omit himg short in
include m hr in
/-- Lookup finds a named node of the tree or fails, in every state that keeps the tree. -/
lemma lookup_tar (k : Kept T Eq s1 s) (le : s1.calls ≤ s.calls) (path : List UInt8) :
    ∃ ret n, lookupOf tarDriver s1 path = some (ret, n) ∧ vfsLookup tarDriver s path = some (ret, n, s) ∧
      ((ret = 0 ∧ ∃ p ∈ T, (s1.node p).name ≠ [] ∧ n = s1.node p) ∨ ret < 0) := by
  have cl := m.tree.closed hr m.root_next
  have first := vfsLookup_eq m.tree m.plain hr path
  obtain ⟨ret, n, look, result⟩ : ∃ ret n, vfsLookup tarDriver s1 path = some (ret, n, s1) ∧
      ((ret = 0 ∧ ∃ p ∈ T, (s1.node p).name ≠ [] ∧ n = s1.node p) ∨ ret < 0) := by
    cases found : Vfs.resolve s1 κ root (lookupComponents path) with
    | none =>
      rw [found] at first
      exact ⟨_, _, first, .inr (by decide)⟩
    | some p =>
      rw [found] at first
      have through := m.tree.resolve_through .root (fun c hc => (mem_tokens hc).1) found
      exact ⟨_, _, first, .inl ⟨rfl, p, through.mem m.tree, through.named m.root_name, rfl⟩⟩
  have known : lookupOf tarDriver s1 path = some (ret, n) := lookupOf_eq_some.mpr ⟨s1, look⟩
  refine ⟨ret, n, known, ?_, result⟩
  obtain ⟨t, again⟩ := lookupOf_eq_some.mp ((lookupOf_kept tarDriver_steady cl k path).trans known)
  have drv := (k.lookup tarDriver_steady cl le again).2.1.drv
  obtain ⟨d, rfl⟩ := vfsLookup_state again
  have same : d = s.drv := drv.symm.trans k.drv
  rw [again, same]

omit himg short in
include m hr in
/-- What `vfs_open` does: it fails and leaves the descriptors and the tree alone, or it puts the node that the path
    leads to in a slot. -/
lemma vfsOpen_tar (k : Kept T Eq s1 s) (le : s1.calls ≤ s.calls) {ret : Int}
    (run : vfsOpen tarDriver s path flags = some (ret, s')) :
    (ret < 0 ∧ s'.openFiles = s.openFiles ∧ Kept T Eq s1 s' ∧ s.calls ≤ s'.calls) ∨
      ∃ i p, i < MAX_OPEN_FILES ∧ p ∈ T ∧ (s1.node p).name ≠ [] ∧
        lookupOf tarDriver s1 path = some (0, s1.node p) ∧ ret = (i : Nat) ∧
          s' = s.setOpenFile i (openAt (s1.node p) flags) := by
  have cl := m.tree.closed hr m.root_next
  rw [vfsOpen_eq] at run
  cases free : freeSlot s with
  | none =>
    rw [free] at run
    cases run
    exact .inl ⟨by decide, rfl, k, le_rfl⟩
  | some i =>
    have lt : i < MAX_OPEN_FILES := List.mem_range.mp (List.mem_of_find?_eq_some free)
    obtain ⟨r, n, known, look, ⟨rfl, p, hp, name, rfl⟩ | neg⟩ := lookup_tar m hr k le path
    · rw [free, openTarget, look] at run
      dsimp only at run
      rw [if_pos rfl] at run
      obtain ⟨neg, rfl⟩ | ⟨rfl, rfl⟩ := openNode_tar m hp (Option.some.inj run)
      · exact .inl ⟨neg, rfl, k, le_rfl⟩
      · exact .inr ⟨i, p, lt, hp, name, known, rfl, rfl⟩
    · have missing : ¬ r = 0 := by omega
      rw [free, openTarget, look] at run
      dsimp only at run
      rw [if_neg missing] at run
      split_ifs at run
      · cases run
        exact .inl ⟨by decide, rfl, k, le_rfl⟩
      · cases e : openCreate tarDriver s path with
        | none =>
          rw [e] at run
          cases run
        | some x =>
          obtain ⟨x, t⟩ := x
          have lost : lookupOf tarDriver s path = some (r, n) := lookupOf_eq_some.mpr ⟨s, look⟩
          obtain ⟨⟨e', neg', rfl⟩, k', le', slots⟩ :=
            openCreate_fails tarDriver_steady (cl.kept k le) ⟨r, n, lost, missing⟩ e
          rw [e] at run
          cases run
          exact .inl ⟨neg', slots, k.trans tarDriver_steady k', le'⟩

/-! ## Runs. -/

omit m himg short hr in
/-- The slots of other descriptors stay as they are. -/
lemma Serves.oneSlot (sv : Serves s1 T tr s) {fd' : Int} (one : OneSlot s s' fd')
    (noOpen : ∀ path flags, e.call ≠ .open_ path flags)
    (own : ∀ i : Nat, e.own i = ((i : Int) == fd'))
    (slot : ∀ i : Nat, (i : Int) = fd' → ∀ h, e.next s1 (history s1 i tr) = some h → Stands s1 T s' i h) :
    Serves s1 T (tr ++ [e]) s' := by
  obtain ⟨table, rfl, others⟩ := one
  refine ⟨⟨sv.tree.root, sv.tree.node, sv.tree.drv⟩, sv.calls, fun i h hist => ?_, fun x hx path flags call ok => ?_⟩
  · rw [history_step, own] at hist
    by_cases same : (i : Int) = fd'
    · rw [if_pos (beq_iff_eq.mpr same)] at hist
      exact slot i same h hist
    · rw [if_neg (by simpa using same)] at hist
      exact (sv.slot i h hist).congr (others i same)
  · cases List.mem_append.mp hx with
    | inl old => exact sv.found x old path flags call ok
    | inr new =>
      cases List.mem_singleton.mp new
      exact absurd call (noOpen path flags)

omit himg in
include m short hr in
/-- An open fills a slot with a new handle on its file, or keeps the slots of the run. -/
lemma Serves.opens (sv : Serves s1 T tr s) {path : List UInt8} {flags : UInt32} {ret : Int}
    (run : vfsOpen tarDriver s path flags = some (ret, s')) :
    Serves s1 T (tr ++ [⟨.open_ path flags, ret⟩]) s' := by
  obtain ⟨neg, slots, kept, le⟩ | ⟨i, p, lt, hp, name, found, rfl, rfl⟩ := vfsOpen_tar m hr sv.tree sv.calls run
  · refine ⟨kept, sv.calls.trans le, fun j h hist => ?_, fun x hx path' flags' call ok => ?_⟩
    · have other : ¬ (Event.own j ⟨.open_ path flags, ret⟩ = true) := by
        simp only [Event.own, beq_iff_eq]
        omega
      rw [history_step, if_neg other] at hist
      exact (sv.slot j h hist).congr (congrFun slots j)
    · cases List.mem_append.mp hx with
      | inl old => exact sv.found x old path' flags' call ok
      | inr new =>
        cases List.mem_singleton.mp new
        exact absurd ok (not_le.mpr neg)
  · refine ⟨⟨sv.tree.root, sv.tree.node, sv.tree.drv⟩, sv.calls, fun j h hist => ?_,
      fun x hx path' flags' call ok => ?_⟩
    · rw [history_step] at hist
      by_cases e : j = i
      · subst e
        rw [if_pos (by simp [Event.own])] at hist
        cases hist
        have size := kindOf_size m hp
        refine ⟨lt, ⟨p, hp, name, ?_, (openAt (s1.node p) flags).position, ?_, openFiles_setOpenFile⟩, ?_⟩
        · rw [opened, found]
        · rw [opened, found, openAt]
          dsimp only
          split_ifs
          · exact size.symm
          · rfl
        · rw [opened, found]
          dsimp only
          split_ifs
          · rw [size]
            exact short p hp
          · decide
      · have other : ¬ (Event.own j ⟨.open_ path flags, (i : Int)⟩ = true) := by
          simp only [Event.own, beq_iff_eq]
          omega
        rw [if_neg other] at hist
        exact (sv.slot j h hist).congr (Function.update_of_ne e ..)
    · cases List.mem_append.mp hx with
      | inl old => exact sv.found x old path' flags' call ok
      | inr new =>
        cases List.mem_singleton.mp new
        cases call
        exact ⟨_, found⟩

include m himg short hr in
/-- Every call keeps the slots of a run. -/
lemma Serves.step (sv : Serves s1 T tr s) {c : Call} (reads : Reads c) {ret : Int}
    (run : c.run tarDriver s = some (ret, s')) : Serves s1 T (tr ++ [⟨c, ret⟩]) s' := by
  cases c with
  | open_ path flags => exact sv.opens m short hr run
  | close fd =>
    obtain rfl : (vfsClose tarDriver s fd).2 = s' := congrArg Prod.snd (Option.some.inj run)
    exact sv.oneSlot vfsClose_oneSlot (fun _ _ h => nomatch h) (fun i => Bool.beq_comm ..)
      fun i same h hist => nomatch hist
  | read fd buf count =>
    cases run
    refine sv.oneSlot vfsRead_oneSlot (fun _ _ h => nomatch h) (fun i => Bool.beq_comm ..) fun i same h hist => ?_
    obtain ⟨h', before, rfl⟩ := Option.map_eq_some_iff.mp hist
    subst same
    exact ((sv.slot i h' before).read m himg short sv.tree.drv.symm buf count).1
  | lseek fd offset whence =>
    obtain rfl : (vfsLseek tarDriver s fd offset whence).2 = s' := congrArg Prod.snd (Option.some.inj run)
    refine sv.oneSlot vfsLseek_oneSlot (fun _ _ h => nomatch h) (fun i => Bool.beq_comm ..) fun i same h hist => ?_
    obtain ⟨h', before, rfl⟩ := Option.map_eq_some_iff.mp hist
    subst same
    exact ((sv.slot i h' before).lseek m short offset whence).2
  | write fd buf bytes => cases reads

include m himg short hr in
/-- In every state of a run every slot that was opened holds its handle. -/
lemma Trace.serves (run : Trace s1 tr s) : Serves s1 T tr s := by
  induction run with
  | start => exact ⟨.refl tarDriver_steady, le_rfl, (fun _ _ hist => nomatch hist), fun _ hx => nomatch hx⟩
  | step _ reads call ih => exact ih.step m himg short hr reads call

end Tree

/-! ## Exact positions. -/

/-- What reads and seeks do with a descriptor that stands for `h`. -/
structure Exact (s : State) (fd : Nat) (h : Handle) : Prop where
  position : (s.openFiles fd).position.toNat = h.pos
  read : ∀ content, h.kind = .file content → ∀ buf count, buf ≠ 0 →
    (vfsRead tarDriver s fd buf count).1 = ((content.drop h.pos).take count.toNat).length ∧
      (vfsRead tarDriver s fd buf count).2.1 = (content.drop h.pos).take count.toNat ∧
      ((vfsRead tarDriver s fd buf count).2.2.openFiles fd).position.toNat =
        h.pos + ((content.drop h.pos).take count.toNat).length
  lseek : ∀ offset whence, (vfsLseek tarDriver s fd offset whence).1 = h.seekRet offset whence ∧
    ((vfsLseek tarDriver s fd offset whence).2.openFiles fd).position.toNat = (h.seek offset whence).pos

/-- A path of the tree of an image leads to a node, and gives access to a directory or to the payload of one of the
    files of the image, from its start or with `O_APPEND` from its end. -/
structure Gives (m : Memory) (img bytes : UInt32) (s : State) (path : List UInt8) (flags : UInt32) : Prop where
  found : ∃ n, lookupOf tarDriver s path = some (0, n)
  kind : (opened s path flags).kind = .dir ∨ ∃ off ∈ Files m img bytes, (opened s path flags).kind =
    .file (m.loadBytes (img + off + 512) (hdrSize m (img + off)).toNat)
  pos : (opened s path flags).pos = if flags &&& O_APPEND ≠ 0 then (opened s path flags).kind.size else 0

lemma Stands.position (st : Stands s1 T s fd h) : (s.openFiles fd).position.toNat = h.pos := by
  obtain ⟨p, -, -, -, v, pos, holds⟩ := st.node
  rw [holds]
  exact pos

/-- A path that leads to a node gives access to what the image has there. -/
lemma Mounted.gives {m : Memory} {img bytes : UInt32} (t : Mounted m img bytes s1 root T κ)
    (found : ∃ n, lookupOf tarDriver s1 path = some (0, n)) (flags : UInt32) : Gives m img bytes s1 path flags := by
  obtain ⟨n, known⟩ := found
  obtain ⟨ret, n', known', -, ⟨-, p, hp, -, rfl⟩ | neg⟩ :=
    lookup_tar t.mount t.root_eq (Kept.refl tarDriver_steady) le_rfl path
  · cases known.symm.trans known'
    refine ⟨⟨_, known⟩, ?_, ?_⟩
    · rw [opened, known]
      cases t.mount.node p hp with
      | inl hd => exact .inl (kindOf_dir hd)
      | inr hf =>
        obtain ⟨off, hoff, file⟩ := hf
        refine .inr ⟨off, hoff, (kindOf_file file).trans ?_⟩
        rw [file.contents_eq, t.heap, t.base]
    · rw [opened, known]
  · cases known.symm.trans known'
    exact absurd neg (lt_irrefl _)

/-- The sizes of the nodes of a mounted tree are those of its files. -/
lemma Mounted.short {m : Memory} {img bytes : UInt32} (t : Mounted m img bytes s1 root T κ)
    (sizes : ∀ off ∈ Files m img bytes, (hdrSize m (img + off)).toNat < 2 ^ 31) :
    ∀ p ∈ T, (s1.node p).size.toNat < 2 ^ 31 := by
  intro p hp
  cases t.mount.node p hp with
  | inl hd =>
    rw [hd.size]
    decide
  | inr hf =>
    obtain ⟨off, hoff, file⟩ := hf
    rw [file.size, t.heap, t.base]
    exact sizes off hoff

/-- In every state of every run over a mounted tree of files below `2 ^ 31` bytes, each descriptor reads and seeks
    exactly at a position that depends on its own calls only. -/
theorem positions_exact {img bytes : UInt32} (mount : mountInitrd s0 img bytes = some (0, s1))
    (sizes : ∀ off ∈ Files s0.drv.heap.mem img bytes, (hdrSize s0.drv.heap.mem (img + off)).toNat < 2 ^ 31)
    (run : Trace s1 tr s) (fd : Nat) :
    (∀ h, history s1 fd tr = some h → Exact s fd h) ∧
      history s1 fd (tr.filter (·.own fd)) = history s1 fd tr ∧
        ∀ path flags, ⟨.open_ path flags, (fd : Int)⟩ ∈ tr → Gives s0.drv.heap.mem img bytes s1 path flags := by
  obtain ⟨⟨root, T, κ, t⟩, -⟩ := mountInitrd_mounted mount
  have himg : s1.drv.gInitrdImg ≠ 0 := by
    rw [t.base]
    exact t.valid
  have short := t.short sizes
  have sv := run.serves t.mount himg short t.root_eq
  refine ⟨fun h hist => ?_, history_own, fun path flags mem =>
    t.gives (sv.found _ mem path flags rfl (Int.natCast_nonneg fd)) flags⟩
  have st := sv.slot fd h hist
  have drv := sv.tree.drv.symm
  refine ⟨st.position, fun content file buf count nonnull => ?_, fun offset whence => ?_⟩
  · obtain ⟨after, delivers⟩ := st.read t.mount himg short drv buf count
    obtain ⟨ret, data⟩ := delivers content file nonnull
    have bytes : h.bytes count = (content.drop h.pos).take count.toNat := by rw [Handle.bytes, file]
    rw [bytes] at ret data
    refine ⟨ret, data, ?_⟩
    rw [after.position, Handle.read, if_neg nonnull, bytes]
  · obtain ⟨ret, after⟩ := st.lseek t.mount short offset whence
    exact ⟨ret, after.position⟩

/-- The file of an archive, opened and read to its end. -/
theorem positions_exact_oneByte : ∃ s1 s tr, mountInitrd (freshState oneByteArchive) 0x1000 1536 = some (0, s1) ∧
    Trace s1 tr s ∧ history s1 0 tr = some ⟨.file [0x42], 1⟩ ∧ Exact s 0 ⟨.file [0x42], 1⟩ := by
  obtain ⟨s1, n, mount, look, holds, named⟩ := oneByteArchive_lookup
  have slot : freeSlot s1 = some 0 := by
    unfold freeSlot
    rw [mountInitrd_slots mount]
    rfl
  obtain ⟨s2, opens, -⟩ := vfsOpen_file look holds (named ▸ List.cons_ne_nil _ _) slot
  have first : Trace s1 ([] ++ [⟨.open_ [0x2F, 0x61] O_RDONLY, 0⟩]) s2 := .step .start trivial opens
  have run := Trace.step (c := .read 0 1 1) first trivial rfl
  have start : opened s1 [0x2F, 0x61] O_RDONLY = ⟨.file [0x42], 0⟩ := by
    have known : lookupOf tarDriver s1 [0x2F, 0x61] = some (0, n) := lookupOf_eq_some.mpr ⟨s1, look⟩
    have content : contents s1.drv n = [0x42] := holds.contents_eq
    obtain ⟨off, file, -⟩ := holds
    rw [opened, known]
    dsimp only
    rw [kindOf_file file, content]
    rfl
  have hist : history s1 0 ([] ++ [⟨.open_ [0x2F, 0x61] O_RDONLY, 0⟩] ++
      [⟨.read 0 1 1, (vfsRead tarDriver s2 0 1 1).1⟩]) = some ⟨.file [0x42], 1⟩ := by
    change some ((opened s1 [0x2F, 0x61] O_RDONLY).read 1 1) = _
    rw [start]
    rfl
  have sizes : ∀ off ∈ Files (freshState oneByteArchive).drv.heap.mem 0x1000 1536,
      (hdrSize (freshState oneByteArchive).drv.heap.mem (0x1000 + off)).toNat < 2 ^ 31 := by
    intro off hoff
    change (hdrSize oneByteArchive (0x1000 + off)).toNat < _
    rw [oneByteArchive_size (by decide) hoff]
    decide
  exact ⟨s1, _, _, mount, run, hist, (positions_exact mount sizes run 0).1 _ hist⟩

end RetaOS.Initrd
