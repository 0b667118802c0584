import RetaOS.Initrd.Tree

/-!
# The header walk

The order in which `mount_initrd` meets the headers of an image does not depend on the tree it builds:
`headerBody` is the walk over the offsets alone, and `Header m img bytes k off` says that the `k`th header it
meets is at `off`. `Walk` ties the two together: the loop of `mount_initrd` is at `off` after `k` passes
exactly when `headerBody` is, with the invariant `Mount` and every regular file met so far in the tree. The
step past a header is taken modulo `2 ^ 32`, and `walkEnds_iff` says for which images the walk makes progress.
-/

namespace RetaOS.Initrd
open Lib Vfs

variable {s s' s0 s1 : State} {root k : Nat} {T T' : Set Nat} {κ κ' : Nat → List Nat} {m : Memory}
  {img bytes off off' : UInt32} {V : Set UInt32}

/-- The header walk of `mount_initrd` over `off` alone. -/
def headerBody (m : Memory) (img bytes off : UInt32) : Pass UInt32 UInt32 :=
  if off + 512 ≤ bytes ∧ m (img + off) ≠ 0 then .next (off + advance (hdrSize m (img + off))) else .done off

/-- The `k`th header that the walk meets is at `off`. -/
structure Header (m : Memory) (img bytes : UInt32) (k : Nat) (off : UInt32) : Prop where
  passes : Passes (headerBody m img bytes) 0 k off
  room : off + 512 ≤ bytes
  named : m (img + off) ≠ 0

/-- The headers of regular files that the walk meets. -/
def Files (m : Memory) (img bytes : UInt32) : Set UInt32 :=
  {off | ∃ k, Header m img bytes k off ∧ isReg (hdrTypeflag m (img + off)) = true}

lemma headerBody_next (h : headerBody m img bytes off = .next off') :
    off + 512 ≤ bytes ∧ m (img + off) ≠ 0 ∧ off' = off + advance (hdrSize m (img + off)) := by
  unfold headerBody at h
  split_ifs at h with c
  exact ⟨c.1, c.2, (Pass.next.inj h).symm⟩

lemma Header.next (h : Header m img bytes k off) :
    headerBody m img bytes off = .next (off + advance (hdrSize m (img + off))) := by
  rw [headerBody, if_pos ⟨h.room, h.named⟩]

/-! ## The walk and the tree. -/

/-- The state of the loop of `mount_initrd` at `off`, on the way from the state `s0` it starts in. -/
structure Walk (m : Memory) (img bytes : UInt32) (s0 : State) (root : Nat) (off : UInt32) (s : State)
    (T : Set Nat) (κ : Nat → List Nat) : Prop where
  mount : Mount (Files m img bytes) s root T κ
  heap : s.drv.heap.mem = m
  base : s.drv.gInitrdImg = img
  size : s.drv.gInitrdBytes = bytes
  oom : s.oom = s0.oom

/-- One pass of the loop of `mount_initrd` at a header. -/
lemma Walk.step (w : Walk m img bytes s0 root off s T κ) (h : Header m img bytes k off) :
    ∃ s' T' κ', mountBody root (off, s) = .next (off + advance (hdrSize m (img + off)), s') ∧
      Walk m img bytes s0 root (off + advance (hdrSize m (img + off))) s' T' κ' ∧ Grows s T s' T' ∧
      (isReg (hdrTypeflag m (img + off)) = true → (∀ k, s0.oom k = false) →
        ∃ q ∈ T', File s'.drv off (s'.node q)) := by
  obtain ⟨mount, rfl, rfl, rfl, oom⟩ := w
  obtain ⟨s', T', κ', run, mount', g, file⟩ := addEntry_run mount off fun hr => ⟨k, h, hr⟩
  refine ⟨s', T', κ', ?_, ⟨mount', congrArg _ g.heap, g.img, g.bytes, g.oom.trans oom⟩, g, ?_⟩
  · simp only [mountBody, if_pos h.room, if_neg h.named, run, Pass.inner]
  · intro hr free
    exact file hr fun k => oom ▸ free k

/-- The loop of `mount_initrd` ends where the walk does. -/
lemma Walk.done (w : Walk m img bytes s0 root off s T κ) (h : headerBody m img bytes off = .done off') :
    mountBody root (off, s) = .done s := by
  obtain ⟨mount, rfl, rfl, rfl, oom⟩ := w
  unfold headerBody at h
  split_ifs at h with c
  unfold mountBody
  by_cases room : off + 512 ≤ s.drv.gInitrdBytes
  · have stop : s.drv.heap.mem (s.drv.gInitrdImg + off) = 0 := by
      by_contra ne
      exact c ⟨room, ne⟩
    simp only [if_pos room, if_pos stop]
  · simp only [if_neg room]

/-- The loop reaches every offset of the walk, with the regular files met before in the tree. -/
theorem Walk.reach (w : Walk m img bytes s0 root 0 s0 T κ) (ps : Passes (headerBody m img bytes) 0 k off) :
    ∃ s T' κ', Passes (mountBody root) (0, s0) k (off, s) ∧ Walk m img bytes s0 root off s T' κ' ∧
      ((∀ k, s0.oom k = false) → ∀ j < k, ∀ o, Header m img bytes j o →
        isReg (hdrTypeflag m (img + o)) = true → ∃ q ∈ T', File s.drv o (s.node q)) := by
  induction k generalizing off with
  | zero =>
    cases ps
    exact ⟨s0, T, κ, .refl, w, fun _ _ h => absurd h (Nat.not_lt_zero _)⟩
  | succ k ih =>
    obtain ⟨off1, hps, hb⟩ := ps.last
    obtain ⟨s1, T1, κ1, ps1, w1, files⟩ := ih hps
    obtain ⟨room, named, rfl⟩ := headerBody_next hb
    obtain ⟨s2, T2, κ2, pass, w2, g, file⟩ := w1.step ⟨hps, room, named⟩
    refine ⟨s2, T2, κ2, .step ps1 pass, w2, ?_⟩
    intro free j hj o hd hr
    by_cases e : j = k
    · subst e
      cases hd.passes.det hps
      exact file hr free
    · obtain ⟨q, hq, hf⟩ := files free j (by omega) o hd hr
      exact ⟨q, g.sub hq, g.file q hq o hf⟩

/-- The loop is only ever at offsets of the walk. -/
theorem Walk.passes (w : Walk m img bytes s0 root 0 s0 T κ)
    (ps : Passes (mountBody root) (0, s0) k (off, s)) :
    Passes (headerBody m img bytes) 0 k off ∧ ∃ T' κ', Walk m img bytes s0 root off s T' κ' := by
  generalize e : (off, s) = x at ps
  induction ps generalizing off s with
  | refl =>
    cases e
    exact ⟨.refl, T, κ, w⟩
  | @step k x1 x2 ps1 pass ih =>
    obtain ⟨off1, s1⟩ := x1
    obtain ⟨ps, T1, κ1, w1⟩ := ih rfl
    cases hb : headerBody m img bytes off1 with
    | done o =>
      cases (w1.done hb).symm.trans pass
    | next o =>
      obtain ⟨room, named, rfl⟩ := headerBody_next hb
      obtain ⟨s2, T2, κ2, pass', w2, _⟩ := w1.step ⟨ps, room, named⟩
      cases e.trans (Pass.next.inj (pass.symm.trans pass'))
      exact ⟨.step ps hb, T2, κ2, w2⟩

lemma mountRoot_none (h : s.oom s.calls = true) (img bytes : UInt32) :
    mountRoot s img bytes = (none, (setImage s img bytes).tick) := by
  have full : (setImage s img bytes).oom (setImage s img bytes).calls = true := h
  rw [mountRoot, kmalloc_none full]

lemma mountRoot_some (h : s.oom s.calls = false) (img bytes : UInt32) :
    mountRoot s img bytes = (some s.calls, (setImage s img bytes).tick.setNode s.calls rootNode) := by
  have free : (setImage s img bytes).oom (setImage s img bytes).calls = false := h
  rw [mountRoot, kmalloc_some free]
  rfl

/-- The loop of `mount_initrd` starts with a root directory only. -/
lemma mountRoot_walk (h : mountRoot s img bytes = (some root, s0)) :
    Walk s.drv.heap.mem img bytes s0 root 0 s0 {root} (fun _ => []) ∧ s0.oom = s.oom := by
  cases hn : s.oom s.calls with
  | true =>
    rw [mountRoot_none hn] at h
    cases h
  | false =>
    rw [mountRoot_some hn] at h
    cases h
    refine ⟨⟨⟨?_, ?_, ?_, ?_, ?_, ?_⟩, rfl, rfl, rfl, rfl⟩, rfl⟩
    · apply Tree.single (Nat.lt_succ_self _)
      · rw [node_setNode]
        rfl
      · rw [node_setNode]
        rfl
    · rw [node_setNode]
      exact rootNode_dir
    · intro p hp
      cases hp
      rw [node_setNode]
      exact .inl rootNode_dir
    · intro p hp d e
      cases hp
      rw [node_setNode] at e
      cases e
    · rw [node_setNode]
      exact List.cons_ne_nil _ _
    · rw [node_setNode]
      rfl

/-- `mount_initrd` past its checks and the allocation of the root. -/
lemma mountInitrd_loop (himg : img ≠ 0) (hb : 512 ≤ bytes) (start : mountRoot s img bytes = (some root, s0)) :
    mountInitrd s img bytes = (loop (mountBody root) (0, s0)).map fun s => (0, vfsSetRoot s root) := by
  have valid : ¬ (img = 0 ∨ bytes < 512) := by
    intro h
    cases h with
    | inl h => exact himg h
    | inr h => exact absurd h (UInt32.not_lt.mpr hb)
  simp only [mountInitrd, if_neg valid, start]
  cases loop (mountBody root) (0, s0) with
  | none => rfl
  | some _ => rfl

/-- A mount that returns 0 passes its checks, has a root directory and ends its walk. -/
lemma mountInitrd_inv (h : mountInitrd s img bytes = some (0, s')) :
    img ≠ 0 ∧ ∃ root s0 s1, mountRoot s img bytes = (some root, s0) ∧ loop (mountBody root) (0, s0) = some s1 ∧
      s' = vfsSetRoot s1 root := by
  have h0 := h
  unfold mountInitrd at h
  split_ifs at h with valid
  · cases h
  rw [not_or, UInt32.not_lt] at valid
  refine ⟨valid.1, ?_⟩
  cases start : mountRoot s img bytes with
  | mk r s0 =>
    cases r with
    | none =>
      rw [start] at h
      cases h
    | some root =>
      rw [mountInitrd_loop valid.1 valid.2 start] at h0
      cases run : loop (mountBody root) (0, s0) with
      | none =>
        rw [run] at h0
        cases h0
      | some s1 =>
        rw [run] at h0
        cases h0
        exact ⟨root, s0, s1, rfl, run, rfl⟩

/-! ## The descriptors. -/

/-- `ensure_dir` leaves the descriptors alone. -/
lemma ensureDir_slots {base dir : Nat} {dirpath : List UInt8} (run : ensureDir s base dirpath = some (dir, s')) :
    s'.openFiles = s.openFiles := by
  refine loop_rule (I := fun st => st.state.openFiles = s.openFiles)
    (Q := fun r : Nat × State => r.2.openFiles = s.openFiles) ?_ rfl run
  intro st same
  unfold ensureBody
  split
  · exact .done same
  · refine .inner same fun ch _ => ?_
    cases ch with
    | some ch => exact .next same
    | none =>
      cases oom : st.state.oom st.state.calls with
      | true =>
        rw [kmalloc_none oom]
        exact .done same
      | false =>
        rw [kmalloc_some oom]
        exact .next same

lemma addFile_slots {off size mode : UInt32} {path : List UInt8} (run : addFile s root off path size mode = some s') :
    s'.openFiles = s.openFiles := by
  unfold addFile at run
  dsimp only at run
  split at run
  · cases run
  rename_i parent s2 ensured
  have same := ensureDir_slots ensured
  cases oom : s2.oom s2.calls with
  | true =>
    rw [kmalloc_none oom] at run
    cases run
    exact same
  | false =>
    rw [kmalloc_some oom] at run
    dsimp only at run
    cases oom' : s2.tick.oom s2.tick.calls with
    | true =>
      rw [kmalloc_none oom'] at run
      cases run
      exact same
    | false =>
      rw [kmalloc_some oom'] at run
      cases run
      exact same

lemma addEntry_slots {off : UInt32} (run : addEntry s root off = some s') : s'.openFiles = s.openFiles := by
  unfold addEntry at run
  dsimp only at run
  split_ifs at run
  · exact addFile_slots run
  · unfold addDirectory at run
    split at run
    · cases run
    rename_i dir s2 ensured
    have same := ensureDir_slots ensured
    dsimp only at run
    split_ifs at run
    · cases run
      exact same
    · cases run
      exact same
  · cases run
    rfl

/-- `mount_initrd` leaves the descriptors alone. -/
lemma mountInitrd_slots {img bytes : UInt32} {ret : Int} (run : mountInitrd s img bytes = some (ret, s')) :
    s'.openFiles = s.openFiles := by
  unfold mountInitrd at run
  split_ifs at run
  · cases run
    rfl
  cases oom : s.oom s.calls with
  | true =>
    rw [mountRoot_none oom] at run
    cases run
    rfl
  | false =>
    rw [mountRoot_some oom] at run
    dsimp only at run
    split at run
    · cases run
    rename_i s2 ends
    cases run
    change s2.openFiles = s.openFiles
    refine loop_rule (I := fun x : UInt32 × State => x.2.openFiles = s.openFiles)
      (Q := fun r : State => r.openFiles = s.openFiles) ?_ rfl ends
    rintro ⟨off, t⟩ same
    unfold mountBody
    dsimp only
    split_ifs
    · exact .done same
    · exact .inner same fun t2 added => .next ((addEntry_slots added).trans same)
    · exact .done same

/-! ## Progress. -/

/-- The step past a header of a file of `size` bytes, without the addition to `off` wrapping. -/
def advanceNat (size : UInt32) : Nat := 512 + ((size + 511) &&& ~~~511).toNat

lemma advanceNat_bounds (size : UInt32) : 512 ≤ advanceNat size ∧ advanceNat size ≤ 2 ^ 32 := by
  have round : ((size + 511) &&& ~~~511).toNat = _ := toNat_and_not_mask (size + 511) (k := 9) (by decide)
  have low := (size + 511).toNat_lt
  rw [advanceNat, round, roundDown]
  omega

lemma toNat_advance (size : UInt32) : (off + advance size).toNat = (off.toNat + advanceNat size) % 2 ^ 32 := by
  rw [advance, UInt32.toNat_add, UInt32.toNat_add, advanceNat, Nat.add_mod_mod]
  rfl

/-- The step past a header is forward unless the sum reaches `2 ^ 32`. -/
lemma lt_advance_iff (size : UInt32) :
    off < off + advance size ↔ off.toNat + advanceNat size < 2 ^ 32 := by
  have bounds := advanceNat_bounds size
  have lt := off.toNat_lt
  rw [UInt32.lt_iff_toNat_lt, toNat_advance]
  omega

/-- No step past a header of the image reaches `2 ^ 32`. -/
def NoWrap (m : Memory) (img bytes : UInt32) : Prop :=
  ∀ k off, Header m img bytes k off → off.toNat + advanceNat (hdrSize m (img + off)) < 2 ^ 32

/-- Without a wrap every header takes at least 512 bytes of the image. -/
lemma NoWrap.passes (nw : NoWrap m img bytes) (ps : Passes (headerBody m img bytes) 0 k off) :
    512 * k ≤ off.toNat ∧ 512 * k ≤ bytes.toNat := by
  induction k generalizing off with
  | zero => omega
  | succ k ih =>
    obtain ⟨off1, ps1, hb⟩ := ps.last
    obtain ⟨le, _⟩ := ih ps1
    obtain ⟨room, named, rfl⟩ := headerBody_next hb
    have fits := nw k off1 ⟨ps1, room, named⟩
    have bounds := advanceNat_bounds (hdrSize m (img + off1))
    have sum : (off1 + 512).toNat = off1.toNat + 512 := toNat_add_of_lt (by
      rw [show (512 : UInt32).toNat = 512 from rfl]
      omega)
    rw [UInt32.le_iff_toNat_le, sum] at room
    rw [toNat_advance, Nat.mod_eq_of_lt fits]
    omega

/-- What is asked of `mount_initrd` on an image: it returns, every pass of its header walk moves `off` forward,
    and the walk meets at most one header for each 512 bytes of the image. -/
structure WalkEnds (s : State) (img bytes : UInt32) : Prop where
  returns : mountInitrd s img bytes ≠ none
  forward : ∀ root s0 k off s1 off' s2, mountRoot s img bytes = (some root, s0) →
    Passes (mountBody root) (0, s0) k (off, s1) → mountBody root (off, s1) = .next (off', s2) → off < off'
  headers : ∀ root s0 k off s1, mountRoot s img bytes = (some root, s0) →
    Passes (mountBody root) (0, s0) k (off, s1) → k ≤ bytes.toNat / 512

/-- The header walk ends as it should exactly when no step past a header wraps round. -/
theorem walkEnds_iff (img bytes : UInt32) (himg : img ≠ 0) (hb : 512 ≤ bytes) (free : s.oom s.calls = false) :
    WalkEnds s img bytes ↔ NoWrap s.drv.heap.mem img bytes := by
  have start := mountRoot_some free img bytes
  obtain ⟨w, _⟩ := mountRoot_walk start
  generalize (setImage s img bytes).tick.setNode s.calls rootNode = s0 at start w
  constructor
  · intro ends k off hd
    obtain ⟨s1, T1, κ1, ps, w1, _⟩ := w.reach hd.passes
    obtain ⟨s2, _, _, pass, _⟩ := w1.step hd
    exact (lt_advance_iff _).mp (ends.forward _ _ _ _ _ _ _ start ps pass)
  · intro nw
    have forward : ∀ k off s1 off' s2, Passes (mountBody s.calls) (0, s0) k (off, s1) →
        mountBody s.calls (off, s1) = .next (off', s2) → off < off' := by
      intro k off s1 off' s2 ps pass
      obtain ⟨hps, T1, κ1, w1⟩ := w.passes ps
      obtain ⟨hps', _⟩ := w.passes (.step ps pass)
      obtain ⟨off1, hps1, hb⟩ := hps'.last
      cases hps.det hps1
      obtain ⟨room, named, rfl⟩ := headerBody_next hb
      exact (lt_advance_iff _).mpr (nw k off ⟨hps, room, named⟩)
    refine ⟨?_, ?_, ?_⟩
    · have ends : ∃ s1, loop (mountBody s.calls) (0, s0) = some s1 ∧ True := by
        apply loop_variant (I := fun x => ∃ k, Passes (mountBody s.calls) (0, s0) k x)
          (fun x => 2 ^ 32 - x.1.toNat)
        · intro x x' h pass
          obtain ⟨k, ps⟩ := h
          have lt := UInt32.lt_iff_toNat_lt.mp (forward k _ _ _ _ ps pass)
          have := x'.1.toNat_lt
          exact ⟨⟨k + 1, .step ps pass⟩, by omega⟩
        · exact fun _ _ _ _ => trivial
        · exact ⟨0, .refl⟩
      obtain ⟨s1, done, _⟩ := ends
      rw [mountInitrd_loop himg hb start, done]
      nofun
    · intro root s0' k off s1 off' s2 h
      cases start.symm.trans h
      exact forward k off s1 off' s2
    · intro root s0' k off s1 h ps
      cases start.symm.trans h
      have := (nw.passes (w.passes ps).1).2
      omega

/-- A header whose step is zero is met again and again. -/
theorem mountInitrd_diverges (himg : img ≠ 0) (hb : 512 ≤ bytes) (free : s.oom s.calls = false)
    (hd : Header s.drv.heap.mem img bytes k off)
    (still : advance (hdrSize s.drv.heap.mem (img + off)) = 0) : mountInitrd s img bytes = none := by
  have start := mountRoot_some free img bytes
  obtain ⟨w, _⟩ := mountRoot_walk start
  generalize (setImage s img bytes).tick.setNode s.calls rootNode = s0 at start w
  obtain ⟨s1, T1, κ1, ps, w1, _⟩ := w.reach hd.passes
  have never : loop (mountBody s.calls) (0, s0) = none := by
    rw [ps.loop_eq]
    apply loop_diverges (I := fun x => x.1 = off ∧ ∃ T κ, Walk s.drv.heap.mem img bytes s0 s.calls off x.2 T κ)
    · intro x h
      obtain ⟨off', s2⟩ := x
      obtain ⟨rfl, T2, κ2, w2⟩ := h
      obtain ⟨s3, T3, κ3, pass, w3, _⟩ := w2.step hd
      rw [still, UInt32.add_zero] at pass w3
      exact ⟨(off', s3), pass, rfl, T3, κ3, w3⟩
    · exact ⟨rfl, T1, κ1, w1⟩
  rw [mountInitrd_loop himg hb start, never]
  rfl

/-- The kernel before a mount, with nothing allocated yet and no allocation to fail. -/
def freshState (m : Memory) : State where
  nodes _ := none
  buffers _ := []
  oom _ := false
  calls := 0
  vfsRoot := .zero
  openFiles _ := .zero
  drv := ⟨⟨m, 0, 0, 0, 0, false⟩, 0, 0, fun _ => none⟩

/-- A memory with a list of bytes at `0x1000`. -/
def imageAt (bytes : List UInt8) : Memory := fun x => bytes.getD (x - 0x1000).toNat 0

/-- A header named `a` with the size field `37777777000`. -/
def stuckHeader : List UInt8 :=
  0x61 :: List.replicate 123 0 ++ [0x33, 0x37, 0x37, 0x37, 0x37, 0x37, 0x37, 0x37, 0x30, 0x30, 0x30]

/-- An image of 512 bytes that `mount_initrd` never gets past. -/
theorem walk_stands_still : ¬ ∀ (s : State) (img bytes : UInt32), img ≠ 0 → 512 ≤ bytes → WalkEnds s img bytes := by
  intro ends
  apply (ends (freshState (imageAt stuckHeader)) 0x1000 512 (by decide) (by decide)).returns
  have first : Header (imageAt stuckHeader) 0x1000 512 0 0 := ⟨.refl, by decide, by decide⟩
  exact mountInitrd_diverges (by decide) (by decide) rfl first (by decide)

/-- An archive of one file `a` with the single byte `B`; 512 bytes of it are the header alone. -/
def oneByteArchive : Memory :=
  imageAt (0x61 :: List.replicate 123 0 ++ List.replicate 10 0x30 ++ [0x31] ++ List.replicate 377 0 ++ [0x42])

lemma oneByteArchive_next (h : 512 ≤ bytes) : headerBody oneByteArchive 0x1000 bytes 0 = .next 1024 := by
  have named : oneByteArchive (0x1000 + 0) ≠ 0 := by decide
  have step : (0 : UInt32) + advance (hdrSize oneByteArchive (0x1000 + 0)) = 1024 := by decide
  rw [headerBody, if_pos ⟨h, named⟩, step]

lemma oneByteArchive_done : headerBody oneByteArchive 0x1000 bytes 1024 = .done 1024 := by
  have nameless : oneByteArchive (0x1000 + 1024) = 0 := by decide +kernel
  rw [headerBody, if_neg (fun h => h.2 nameless)]

/-- The walk of the archive meets its one header. -/
lemma oneByteArchive_header (h : 512 ≤ bytes) (hd : Header oneByteArchive 0x1000 bytes k off) : off = 0 := by
  have ps : Passes (headerBody oneByteArchive 0x1000 bytes) 0 1 1024 := .step .refl (oneByteArchive_next h)
  have first := hd.passes.lt_exit hd.next ps oneByteArchive_done
  have zero : k = 0 := by omega
  subst zero
  cases hd.passes
  rfl

lemma oneByteArchive_size (h : 512 ≤ bytes) (hoff : off ∈ Files oneByteArchive 0x1000 bytes) :
    hdrSize oneByteArchive (0x1000 + off) = 1 := by
  obtain ⟨k, hd, -⟩ := hoff
  rw [oneByteArchive_header h hd]
  decide

/-- The walk of the archive meets its header and ends. -/
theorem walkEnds_oneByte :
    WalkEnds (freshState oneByteArchive) 0x1000 1536 ∧ Header oneByteArchive 0x1000 1536 0 0 := by
  refine ⟨(walkEnds_iff 0x1000 1536 (by decide) (by decide) rfl).mpr fun k off hd => ?_, .refl, by decide, by decide⟩
  cases oneByteArchive_header (by decide) hd
  decide

end RetaOS.Initrd
