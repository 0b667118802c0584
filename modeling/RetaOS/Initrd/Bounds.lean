import RetaOS.Initrd.Walk

/-!
# Reads inside the image

Which images `tar_read` stays inside of. A file node records the size that its header gives, and nothing
compares it with the length of the image. `tarCopy_file` computes the copy that `tar_read` makes for the file of a
header, `Mounted` collects what is known of the tree that `mount_initrd` leaves, and `readsSafe_iff` says
that all reads stay inside exactly when the header walk never ends or every payload lies in the image.
-/

namespace RetaOS.Initrd
open Lib Vfs

variable {s s' s0 : State} {root q k : Nat} {m : Memory} {img bytes off : UInt32} {d : Ramdisk} {n : Node}

/-! ## The copy of a read. -/

/-- The copy that a read makes below the end of its file. -/
lemma tarCopy_lt {r : TarFileMeta} {offset : UInt32} (hr : meta? d n = some r) (himg : d.gInitrdImg ≠ 0)
    (lt : offset < r.size) (count : UInt32) :
    tarCopy d n offset count =
      .copy (d.gInitrdImg + r.dataOff + offset)
        (if count < r.size - offset then count else r.size - offset) := by
  simp only [tarCopy, hr, if_neg himg, if_neg (UInt32.not_le.mpr lt)]

/-- The end of the file. -/
lemma tarCopy_ge {r : TarFileMeta} {offset : UInt32} (hr : meta? d n = some r) (himg : d.gInitrdImg ≠ 0)
    (ge : r.size ≤ offset) (count : UInt32) : tarCopy d n offset count = .ret 0 := by
  simp only [tarCopy, hr, if_neg himg, if_pos ge]

/-- A read copies what is asked for, or what is left of its file. -/
lemma toRead_toNat {size offset : UInt32} (lt : offset < size) (count : UInt32) :
    (if count < size - offset then count else size - offset).toNat =
      min count.toNat (size.toNat - offset.toNat) := by
  have rest := UInt32.toNat_sub_of_le size offset (UInt32.le_of_lt lt)
  split_ifs with h
  · rw [UInt32.lt_iff_toNat_lt, rest] at h
    omega
  · rw [UInt32.lt_iff_toNat_lt, rest] at h
    rw [rest]
    omega

/-! ## The mounted tree. -/

/-- The tree that `mount_initrd` leaves. -/
structure Mounted (m : Memory) (img bytes : UInt32) (s : State) (root : Nat) (T : Set Nat)
    (κ : Nat → List Nat) : Prop where
  mount : Mount (Files m img bytes) s root T κ
  root_eq : s.vfsRoot = s.node root
  heap : s.drv.heap.mem = m
  base : s.drv.gInitrdImg = img
  size : s.drv.gInitrdBytes = bytes
  valid : img ≠ 0

/-- A mount that returns 0 leaves a tree of the directories and files of its headers, and its walk ended. -/
theorem mountInitrd_mounted (h : mountInitrd s img bytes = some (0, s')) :
    (∃ root T κ, Mounted s.drv.heap.mem img bytes s' root T κ) ∧
      loop (headerBody s.drv.heap.mem img bytes) 0 ≠ none := by
  obtain ⟨valid, root, s0, s1, start, run, rfl⟩ := mountInitrd_inv h
  obtain ⟨w, _⟩ := mountRoot_walk start
  obtain ⟨k, ⟨off, s2⟩, ps, stop⟩ := loop_exit run
  obtain ⟨hps, T, κ, w1⟩ := w.passes ps
  cases hb : headerBody s.drv.heap.mem img bytes off with
  | next o =>
    obtain ⟨room, named, rfl⟩ := headerBody_next hb
    obtain ⟨_, _, _, pass, _⟩ := w1.step ⟨hps, room, named⟩
    cases pass.symm.trans stop
  | done o =>
    cases (w1.done hb).symm.trans stop
    refine ⟨⟨root, T, κ, ?_, rfl, w1.heap, w1.base, w1.size, valid⟩, ?_⟩
    · obtain ⟨mount, _⟩ := w1.mount.congr (vfsSetRoot _ root) le_rfl rfl (fun _ _ => rfl) rfl rfl rfl
        fun _ _ => rfl
      exact mount
    · rw [hps.loop_eq, loop_done hb]
      nofun

/-- A regular file of a mounted tree is the file of a header. -/
lemma Mounted.file {T : Set Nat} {κ : Nat → List Nat} (t : Mounted m img bytes s root T κ) (hq : Reach s q)
    (reg : (s.node q).flags &&& S_IFMT = S_IFREG) :
    ∃ off ∈ Files m img bytes, File s.drv off (s.node q) := by
  obtain ⟨p, hp, hk⟩ := t.mount.tree.of_reach (by rw [t.root_eq]) hq
  cases t.mount.node q (t.mount.tree.kid p hp q hk).1 with
  | inl h =>
    have ne : S_IFDIR ≠ S_IFREG := by decide
    exact absurd (h.flags.symm.trans reg) ne
  | inr h => exact h

/-! ## Reads. -/

/-- Every byte that `tar_read` copies lies in `[img, img + bytes)`. -/
def ReadsInside (d : Ramdisk) (n : Node) (offset count img bytes : UInt32) : Prop :=
  match tarCopy d n offset count with
  | .ret _ => True
  | .copy src len => ∀ i < len.toNat, (src + UInt32.ofNat i - img).toNat < bytes.toNat

/-- All reads of files of an image stay inside it: for every state before the mount, so for every pattern of
    allocation failures, every file of the tree, and whatever is in memory by the time of the read. -/
def ReadsSafe (m : Memory) (img bytes : UInt32) : Prop :=
  ∀ s s' : State, s.drv.heap.mem = m → mountInitrd s img bytes = some (0, s') →
    ∀ q, Reach s' q → (s'.node q).flags &&& S_IFMT = S_IFREG →
      ∀ heap offset count, ReadsInside { s'.drv with heap } (s'.node q) offset count img bytes

/-- Every regular file that the walk meets has its payload in the image. -/
def PayloadsInside (m : Memory) (img bytes : UInt32) : Prop :=
  ∀ off ∈ Files m img bytes, hdrSize m (img + off) = 0 ∨
    (off + 512).toNat + (hdrSize m (img + off)).toNat ≤ bytes.toNat

/-- The offset in the image of a byte that is copied. -/
lemma copy_offset (a b : UInt32) (i : Nat) :
    img + a + b + UInt32.ofNat i - img = a + b + UInt32.ofNat i := by
  grind

/-- Reads of a file whose payload lies in the image stay inside it. -/
lemma readsInside_file {r : TarFileMeta} (hr : meta? d n = some r) (hd : d.gInitrdImg = img) (himg : img ≠ 0)
    (fits : r.size = 0 ∨ r.dataOff.toNat + r.size.toNat ≤ bytes.toNat) (offset count : UInt32) :
    ReadsInside d n offset count img bytes := by
  subst hd
  by_cases lt : offset < r.size
  · rw [ReadsInside, tarCopy_lt hr himg lt]
    intro i hi
    rw [toRead_toNat lt] at hi
    have top := bytes.toNat_lt
    rw [UInt32.lt_iff_toNat_lt] at lt
    cases fits with
    | inl zero =>
      rw [zero] at lt
      cases lt
    | inr fits =>
      rw [copy_offset, toNat_add_ofNat, toNat_add_of_lt]
      · omega
      · omega
      · rw [toNat_add_of_lt (by omega)]
        omega
  · rw [ReadsInside, tarCopy_ge hr himg (UInt32.not_lt.mp lt)]
    trivial

/-- A file whose payload runs past the image is read outside it. -/
lemma fits_of_readsInside {r : TarFileMeta} (hr : meta? d n = some r) (hd : d.gInitrdImg = img)
    (himg : img ≠ 0) (data : r.dataOff ≤ bytes)
    (h : ReadsInside d n (bytes - r.dataOff) 1 img bytes) :
    r.size = 0 ∨ r.dataOff.toNat + r.size.toNat ≤ bytes.toNat := by
  subst hd
  by_contra out
  have data := UInt32.le_iff_toNat_le.mp data
  have rest := UInt32.toNat_sub_of_le bytes r.dataOff (UInt32.le_iff_toNat_le.mpr data)
  have lt : bytes - r.dataOff < r.size := by
    rw [UInt32.lt_iff_toNat_lt, rest]
    omega
  rw [ReadsInside, tarCopy_lt hr himg lt] at h
  -- the first byte copied is the one behind the image
  have first := h 0 (by
    have left := UInt32.toNat_sub_of_le r.size _ (UInt32.le_of_lt lt)
    rw [UInt32.lt_iff_toNat_lt] at lt
    split_ifs
    · decide
    · omega)
  have whole : r.dataOff + (bytes - r.dataOff) + UInt32.ofNat 0 = bytes := by
    rw [show UInt32.ofNat 0 = 0 from rfl]
    grind
  rw [copy_offset, whole] at first
  exact lt_irrefl _ first

/-- Once the walk ends, safe reads mean that the payloads lie in the image. -/
lemma payloadsInside_of_readsSafe {x : UInt32} (himg : img ≠ 0) (hb : 512 ≤ bytes)
    (run : loop (headerBody m img bytes) 0 = some x) (safe : ReadsSafe m img bytes) :
    PayloadsInside m img bytes := by
  intro off hoff
  obtain ⟨k, hd, reg⟩ := hoff
  obtain ⟨n, o, ps, stop⟩ := loop_exit run
  have lt := hd.passes.lt_exit hd.next ps stop
  -- no allocation fails in this state, so the file of the header is in the tree
  have start := mountRoot_some (s := freshState m) rfl img bytes
  obtain ⟨w, oom⟩ := mountRoot_walk start
  generalize (freshState m).calls = root at start w oom
  generalize (setImage _ _ _).tick.setNode _ _ = s0 at start w oom
  have free : ∀ k, s0.oom k = false := by
    intro k
    rw [oom]
    rfl
  obtain ⟨s1, T, κ, ps1, w1, files⟩ := w.reach ps
  have ends : loop (mountBody root) (0, s0) = some s1 := ps1.loop_eq.trans (loop_done (w1.done stop))
  have mount : mountInitrd (freshState m) img bytes = some (0, vfsSetRoot s1 root) := by
    rw [mountInitrd_loop himg hb start, ends]
    rfl
  obtain ⟨q, hq, file⟩ := files free k lt off hd reg
  have ne : q ≠ root := by
    intro e
    subst e
    exact file.not_dir w1.mount.root_dir
  have tree : Tree (vfsSetRoot s1 root) root T κ :=
    w1.mount.tree.congr le_rfl (fun _ _ => rfl) (fun _ _ => rfl) fun _ _ => rfl
  have inside := safe (freshState m) _ rfl mount q (tree.reach rfl hq ne) file.flags s1.drv.heap
    (bytes - (off + 512)) 1
  have record := file.record
  rw [w1.heap, w1.base] at record
  exact fits_of_readsInside record w1.base himg hd.room inside

/-- The reads of an image stay inside it exactly when its header walk never ends, so that there is no tree, or
    every payload lies in it. -/
theorem readsSafe_iff (m : Memory) (img bytes : UInt32) (himg : img ≠ 0) (hb : 512 ≤ bytes) :
    ReadsSafe m img bytes ↔ loop (headerBody m img bytes) 0 = none ∨ PayloadsInside m img bytes := by
  constructor
  · intro safe
    cases run : loop (headerBody m img bytes) 0 with
    | none => exact .inl rfl
    | some x => exact .inr (payloadsInside_of_readsSafe himg hb run safe)
  · intro h s s' hm mount q hq reg heap offset count
    subst hm
    obtain ⟨⟨root, T, κ, t⟩, ends⟩ := mountInitrd_mounted mount
    cases h with
    | inl never => exact absurd never ends
    | inr fits =>
      obtain ⟨off, hoff, file⟩ := t.file hq reg
      have record := file.record
      rw [t.heap, t.base] at record
      exact readsInside_file record t.base t.valid (fits off hoff) offset count

/-- The header of a file of one byte at the end of the image is enough to read past it. -/
theorem reads_outside : ¬ ∀ (m : Memory) (img bytes : UInt32), img ≠ 0 → 512 ≤ bytes → ReadsSafe m img bytes := by
  intro safe
  have run : loop (headerBody oneByteArchive 0x1000 512) 0 = some 1024 :=
    (loop_next (oneByteArchive_next (by decide))).trans (loop_done oneByteArchive_done)
  have inside := payloadsInside_of_readsSafe (by decide) (by decide) run
    (safe oneByteArchive 0x1000 512 (by decide) (by decide))
  have fits := inside 0 ⟨0, ⟨.refl, by decide, by decide⟩, by decide⟩
  revert fits
  decide

/-- The whole archive is read inside. -/
theorem readsSafe_oneByte : ReadsSafe oneByteArchive 0x1000 1536 := by
  apply (readsSafe_iff oneByteArchive 0x1000 1536 (by decide) (by decide)).mpr
  right
  intro off hoff
  obtain ⟨k, hd, _⟩ := hoff
  cases oneByteArchive_header (by decide) hd
  right
  decide

end RetaOS.Initrd
