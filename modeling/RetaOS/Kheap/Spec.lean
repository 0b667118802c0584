import RetaOS.Kheap.Header

/-!
# What the heap operations do to the block list

`Valid s l` is the heap invariant: the header list of `s` is the list of blocks `l`, which tiles the region
`kheap_init` set up and has no two free neighbours. Each operation has one specification over `Valid`:
`kmalloc_spec` (first fit, split or not; `NULL` when no block fits), `kfree_spec` (the block set free and
the list coalesced), and those of `krealloc` and `kcalloc`, which combine the two.

The growth path of `kmalloc` never succeeds by having room, since `kheap_max` lies below the end of the
initial block. It succeeds exactly for the requests `Wraps`, whose 32-bit sum comes out below `kheap_max`;
the specifications leave those requests out.
-/

namespace RetaOS.Kheap
open Lib

/-- The heap invariant: `l` is the block list of `s`. -/
structure Valid (s : Heap) (l : List Block) : Prop where
  inited : s.kheapInited = true
  start : s.kheapStart = KHEAP_START
  limit : s.kheapEnd.toNat = 0xC0100000
  max : s.kheapMax.toNat = 0xC00FFFFF
  linked : Linked s.mem s.firstBlock l 0
  tiled : Tiled 12 0xC0000000 l 0xC0100000
  coalesced : Coalesced l
  sized : ∀ b ∈ l, 0 < b.size

/-- The requests whose page-rounded sum with `kheap_end` wraps to a value the limit check lets through. -/
def Wraps (n : UInt32) : Prop := 0x3FEFEFF5 ≤ n.toNat ∧ n.toNat ≤ 0xFFFFEFF4

instance (n : UInt32) : Decidable (Wraps n) := inferInstanceAs (Decidable (_ ∧ _))

/-- A free block of at least `n` bytes. -/
def Fits (n : UInt32) (b : Block) : Prop := b.used = false ∧ n.toNat ≤ b.size

instance (n : UInt32) (b : Block) : Decidable (Fits n b) := inferInstanceAs (Decidable (_ ∧ _))

/-- The size `kmalloc` looks for: at least that of a pointer. -/
def request (n : UInt32) : UInt32 := if n < 4 then 4 else n

/-- What a `kmalloc` of `n` bytes makes of the block it takes. -/
def take (n : UInt32) (b : Block) : List Block :=
  if n.toNat + 16 < b.size then b.split 12 n.toNat else [{ b with used := true }]

variable {s : Heap} {m m' : Memory} {p q : UInt32} {l l1 l2 : List Block} {b c : Block} {n : UInt32}

lemma kheapInit_of_inited (inited : s.kheapInited = true) : kheapInit s = s := if_pos inited

/-- A heap is set up once. -/
lemma kheapInit_kheapInit : kheapInit (kheapInit s) = kheapInit s := by
  apply kheapInit_of_inited
  rw [kheapInit]
  split
  · assumption
  · rfl

/-- `kmalloc` sets the heap up itself. -/
lemma kmalloc_kheapInit : kmalloc (kheapInit s) n = kmalloc s n := by
  rw [kmalloc, kheapInit_kheapInit, ← kmalloc]

lemma request_toNat : (request n).toNat = max 4 n.toNat := by
  rw [request]
  split
  · rename_i lt
    rw [UInt32.lt_iff_toNat_lt] at lt
    change n.toNat < 4 at lt
    change 4 = max 4 n.toNat
    omega
  · rename_i nlt
    rw [UInt32.lt_iff_toNat_lt] at nlt
    change ¬ n.toNat < 4 at nlt
    omega

/-- A request wraps exactly when the size it is raised to does. -/
lemma wraps_request : Wraps (request n) ↔ Wraps n := by
  rw [Wraps, Wraps, request_toNat]
  omega

/-! ## The walk of `kmalloc`. -/

/-- The walk stops at the first block that fits, or reaches the end of the list. -/
lemma search_spec (prev : UInt32) (lk : Linked m p l 0) :
    (∃ l1 b l2 q, l = l1 ++ b :: l2 ∧ Fits n b ∧ Linked m p l1 q ∧ Linked m q (b :: l2) 0 ∧
      loop (searchBody m n) (p, prev) = some (.fit q) ∧ ∀ c ∈ l1, ¬ Fits n c) ∨
    ((∀ b ∈ l, ¬ Fits n b) ∧ ∃ q, loop (searchBody m n) (p, prev) = some (.exhausted q)) := by
  induction l generalizing p prev with
  | nil =>
    cases lk
    exact .inr ⟨by simp, prev, loop_done (by simp [searchBody])⟩
  | cons b l ih =>
    obtain ⟨hd, lk'⟩ := lk
    by_cases fit : Fits n b
    · refine .inl ⟨[], b, l, p, rfl, fit, rfl, ⟨hd, lk'⟩, loop_done ?_, by simp⟩
      have le : n ≤ size m p := by
        rw [UInt32.le_iff_toNat_le, hd.size]
        exact fit.2
      simp [searchBody, hd.ne_null, hd.free fit.1, le]
    · have pass : searchBody m n (p, prev) = .next (next m p, p) := by
        have no : ¬ (used m p = 0 ∧ size m p ≥ n) := by
          rintro ⟨free, le⟩
          refine fit ⟨?_, ?_⟩
          · rw [← Bool.not_eq_true, ← hd.used]
            exact not_not.mpr free
          · rw [ge_iff_le, UInt32.le_iff_toNat_le, hd.size] at le
            exact le
        simp only [searchBody, hd.ne_null, no, ↓reduceIte]
      -- the block is passed, and with it as the last one the walk goes on
      rw [loop_next pass]
      rcases ih p lk' with ⟨l1, c, l2, q, eq, fitc, h1, h2, run, before⟩ | ⟨none, q, run⟩
      · exact .inl ⟨b :: l1, c, l2, q, by rw [eq]; rfl, fitc, ⟨hd, h1⟩, h2, run, by simpa using ⟨fit, before⟩⟩
      · exact .inr ⟨by simpa using ⟨fit, none⟩, q, run⟩

/-- The limit check of the growth path fails exactly for the requests that do not wrap. -/
lemma grow_fails (limit : s.kheapEnd.toNat = 0xC0100000) (max : s.kheapMax.toNat = 0xC00FFFFF) :
    s.kheapEnd + alignUp (n + sizeofBlock) KHEAP_ALIGN > s.kheapMax ↔ ¬ Wraps n := by
  have mask := toNat_and_not_mask (n + sizeofBlock + KHEAP_ALIGN - 1) (k := 12) (by decide)
  have lt := n.toNat_lt
  change (alignUp (n + sizeofBlock) KHEAP_ALIGN).toNat = _ at mask
  rw [roundDown, UInt32.toNat_sub, UInt32.toNat_add, UInt32.toNat_add] at mask
  change _ = (4294967296 - 1 + ((n.toNat + 12) % 4294967296 + 4096) % 4294967296) % 4294967296 /
    4096 * 4096 at mask
  rw [gt_iff_lt, UInt32.lt_iff_toNat_lt, UInt32.toNat_add, max, limit, mask, Wraps]
  omega

/-- Past the last block a request that does not wrap yields `NULL`. -/
lemma growHeap_null (v : Valid s l) (nw : ¬ Wraps n) (prev : UInt32) : growHeap s prev n = (0, s) := by
  rw [growHeap, if_pos ((grow_fails v.limit v.max).mpr nw)]

/-- Past the last block a request that wraps yields the address after `kheap_end`. -/
lemma growHeap_wraps (v : Valid s l) (w : Wraps n) (prev : UInt32) :
    (growHeap s prev n).1 = s.kheapEnd + sizeofBlock := by
  have below : ¬ s.kheapEnd + alignUp (n + sizeofBlock) KHEAP_ALIGN > s.kheapMax := by
    rw [grow_fails v.limit v.max]
    exact not_not.mpr w
  simp only [growHeap, if_neg below]

/-! ## `kmalloc`. -/

/-- The memory after a `kmalloc` of `n` bytes has taken the block at `p`. -/
def taken (m : Memory) (p n : UInt32) : Memory := setUsed (splitBlock m p n) p 1

/-- When `kmalloc` splits a block. -/
lemma split_iff (hd : Header m p b) (hi : b.limit 12 ≤ 0xC0100000) (fit : n.toNat ≤ b.size) :
    size m p > n + sizeofBlock + 4 ↔ n.toNat + 16 < b.size := by
  have lim : b.addr + 12 + b.size ≤ 0xC0100000 := hi
  have sum : (n + sizeofBlock + 4).toNat = n.toNat + 16 := by
    rw [UInt32.toNat_add, UInt32.toNat_add]
    change ((n.toNat + 12) % 2 ^ 32 + 4) % 2 ^ 32 = n.toNat + 16
    omega
  rw [gt_iff_lt, UInt32.lt_iff_toNat_lt, sum, hd.size]

/-- The address of the header behind `n` bytes of payload. -/
lemma behind_toNat (h : p.toNat + 12 + n.toNat < 2 ^ 32) :
    (p + sizeofBlock + n).toNat = p.toNat + 12 + n.toNat := by
  have h12 : (p + sizeofBlock).toNat = p.toNat + 12 := toNat_add_ofNat (n := 12) (by omega)
  rw [toNat_add_of_lt (by omega), h12]

/-- Taking a block writes inside it only. -/
lemma taken_frame (hd : Header m p b) (hi : b.limit 12 ≤ 0xC0100000) (fit : n.toNat ≤ b.size)
    {x : UInt32} (out : x.toNat < b.addr ∨ b.limit 12 ≤ x.toNat) : taken m p n x = m x := by
  have lim : b.addr + 12 + b.size ≤ 0xC0100000 := hi
  have out' : x.toNat < b.addr ∨ b.addr + 12 + b.size ≤ x.toNat := out
  have addr := hd.addr
  have fits := hd.fits
  rw [taken, frame_setUsed fits x (by omega), splitBlock]
  split
  · rename_i split
    rw [split_iff hd hi fit] at split
    have eq := behind_toNat (p := p) (n := n) (by omega)
    rw [frame_setNext fits x (by omega), frame_setSize fits x (by omega),
      frame_setNext (by omega) x (by omega), frame_setUsed (by omega) x (by omega),
      frame_setSize (by omega) x (by omega)]
  · rfl

/-- A taken block is replaced in the list by what `take` makes of it. -/
lemma taken_linked (hd : Header m p b) (hi : b.limit 12 ≤ 0xC0100000) (fit : n.toNat ≤ b.size) :
    Linked (taken m p n) p (take n b) (next m p) := by
  have lim : b.addr + 12 + b.size ≤ 0xC0100000 := hi
  have addr := hd.addr
  have fits := hd.fits
  by_cases split : n.toNat + 16 < b.size
  · rw [take, if_pos split, Block.split]
    rw [← split_iff hd hi fit] at split
    rw [taken, splitBlock, if_pos split]
    dsimp only
    rw [split_iff hd hi fit] at split
    have eq := behind_toNat (p := p) (n := n) (by omega)
    generalize hq : p + sizeofBlock + n = q at eq ⊢
    have fits' : q.toNat + 12 ≤ 2 ^ 32 := by omega
    have rest : (size m p - n - sizeofBlock).toNat = b.size - n.toNat - 12 := by
      have h1 : (size m p - n).toNat = b.size - n.toNat := by
        rw [UInt32.toNat_sub_of_le _ _ (by rw [UInt32.le_iff_toNat_le, hd.size]; exact fit), hd.size]
      have h12 : sizeofBlock.toNat = 12 := rfl
      rw [UInt32.toNat_sub_of_le _ _ (by rw [UInt32.le_iff_toNat_le, h1, h12]; omega), h1, h12]
    -- the stores into the new header, then those into the old one
    have f1 : Frame q m (setUsed (setSize m q (size m p - n - sizeofBlock)) q 0) :=
      (frame_setSize fits').trans (frame_setUsed fits')
    generalize hm2 : setUsed (setSize m q (size m p - n - sizeofBlock)) q 0 = m2 at f1 ⊢
    have next2 : next m2 p = next m p := (f1.sameHeader (by omega)).next fits
    rw [next2]
    have size2 : size m2 q = size m p - n - sizeofBlock := by
      rw [← hm2, size_setUsed fits', size_setSize]
    have used2 : used m2 q = 0 := by rw [← hm2, used_setUsed]
    have f3 : ∀ m, Frame p m (setUsed (setNext (setSize m p n) p q) p 1) := fun m =>
      ((frame_setSize fits).trans (frame_setNext fits)).trans (frame_setUsed fits)
    have keep := (f3 (setNext m2 q (next m p))).sameHeader (q := q) (by omega)
    have pos : q ≠ 0 := by
      rintro rfl
      change 0 = _ at eq
      omega
    refine ⟨⟨hd.ne_null, addr, fits, ?_, ?_⟩, ?_⟩
    · rw [size_setUsed fits, size_setNext fits, size_setSize]
    · rw [used_setUsed]
      simp
    · rw [next_setUsed fits, next_setNext]
      refine ⟨⟨pos, by rw [eq, addr], fits', ?_, ?_⟩, ?_⟩
      · rw [keep.size fits', size_setNext fits', size2, rest]
      · rw [keep.used fits', used_setNext fits', used2]
        simp
      · rw [keep.next fits', next_setNext]
        rfl
  · rw [take, if_neg split]
    rw [← split_iff hd hi fit] at split
    rw [taken, splitBlock, if_neg split]
    refine ⟨⟨hd.ne_null, addr, fits, ?_, ?_⟩, next_setUsed fits⟩
    · rw [size_setUsed fits, hd.size]
    · rw [used_setUsed]
      simp

/-- Every block of a valid heap ends in its region. -/
lemma Valid.bounds (v : Valid s l) (mem : b ∈ l) : 0xC0000000 ≤ b.addr ∧ b.limit 12 ≤ 0xC0100000 :=
  v.tiled.mem_bounds mem

/-- A valid heap after a block has been taken. -/
lemma Valid.take (v : Valid s (l1 ++ b :: l2)) (hd : Header s.mem p b) (fit : Fits n b)
    (pos : 0 < n.toNat) : Valid { s with mem := taken s.mem p n } (l1 ++ (take n b ++ l2)) := by
  have hi := (v.bounds (b := b) (by simp)).2
  have eq {r} (hr : Header s.mem r b) : r = p := UInt32.toNat_inj.mp (hr.addr.trans hd.addr.symm)
  refine { v with linked := ?_, tiled := ?_, coalesced := ?_, sized := ?_ }
  · refine v.linked.replace _ v.tiled (fun x out => taken_frame hd hi fit.2 out) fun r hr => ?_
    rw [eq hr]
    exact taken_linked hd hi fit.2
  · rw [Kheap.take]
    split
    · exact v.tiled.split (by omega)
    · exact v.tiled.setUsed
  · rw [Kheap.take]
    split
    · exact v.coalesced.replace_pair fit.1 rfl
    · exact v.coalesced.replace rfl
  · intro c mem
    have keep : c ∈ l1 ∨ c ∈ l2 → 0 < c.size := fun h => v.sized c (by simp; tauto)
    have szb := v.sized b (by simp)
    rcases List.mem_append.mp mem with h | h
    · exact keep (.inl h)
    rcases List.mem_append.mp h with h | h
    · rw [Kheap.take] at h
      split at h
      · simp only [Block.split, List.mem_cons, List.not_mem_nil, or_false] at h
        rcases h with rfl | rfl
        · exact pos
        · change 0 < b.size - n.toNat - 12
          omega
      · obtain rfl : c = { b with used := true } := by simpa using h
        exact szb
    · exact keep (.inr h)

/-- `kmalloc` takes the first block that fits and writes inside it only, or returns `NULL` and changes nothing. -/
theorem kmalloc_spec (v : Valid s l) (nw : ¬ Wraps n) :
    (∃ l1 b l2 r s', l = l1 ++ b :: l2 ∧ Fits (request n) b ∧ r.toNat = b.addr + 12 ∧
      kmalloc s n = some (r, s') ∧ Valid s' (l1 ++ (take (request n) b ++ l2)) ∧
      (∀ x : UInt32, x.toNat < b.addr ∨ b.limit 12 ≤ x.toNat → s'.mem x = s.mem x) ∧
      ∀ c ∈ l1, ¬ Fits (request n) c) ∨
    ((∀ b ∈ l, ¬ Fits (request n) b) ∧ kmalloc s n = some (0, s)) := by
  have init := kheapInit_of_inited v.inited
  rcases search_spec (n := request n) 0 v.linked with
    ⟨l1, b, l2, p, rfl, fit, -, ⟨hd, -⟩, run, before⟩ | ⟨none, q, run⟩
  · have hi := (v.bounds (b := b) (by simp)).2
    have lim : b.addr + 12 + b.size ≤ 0xC0100000 := hi
    refine .inl ⟨l1, b, l2, p + sizeofBlock, { s with mem := taken s.mem p (request n) }, rfl, fit, ?_, ?_, ?_,
      fun x => taken_frame hd hi fit.2, before⟩
    · rw [← hd.addr]
      exact toNat_add_ofNat (n := 12) (by have := hd.addr; omega)
    · rw [request] at run
      simp only [kmalloc, init, run]
      rfl
    · refine v.take hd fit ?_
      rw [request_toNat]
      omega
  · refine .inr ⟨none, ?_⟩
    have full := growHeap_null v (mt wraps_request.mp nw) q
    rw [request] at run full
    simp only [kmalloc, init, run, full]

/-- A request that wraps gets the address after `kheap_end`, behind the region. -/
lemma kmalloc_wraps (v : Valid s l) (w : Wraps n) :
    ∃ s', kmalloc s n = some (s.kheapEnd + sizeofBlock, s') := by
  have init := kheapInit_of_inited v.inited
  rcases search_spec (n := request n) 0 v.linked with
    ⟨l1, b, l2, p, rfl, fit, -, -, -⟩ | ⟨-, q, run⟩
  · -- no block of the region is that large
    have bounds := v.bounds (b := b) (by simp)
    have le := fit.2
    have lo := w.1
    rw [request_toNat] at le
    rw [Block.limit] at bounds
    omega
  · have grown := growHeap_wraps v (wraps_request.mpr w) q
    rw [request] at run grown
    refine ⟨(growHeap s q (if n < 4 then 4 else n)).2, ?_⟩
    simp only [kmalloc, init, run, ← grown, Prod.mk.eta]

/-! ## `kfree`. -/

/-- The merging walk at a used block, or before one, moves on. -/
lemma mergeBody_skip (hd : Header m p b) (hc : Header m (next m p) c) (free : ¬ (b.used = false ∧ c.used = false)) :
    mergeBody (m, p) = .next (m, next m p) := by
  have some_used : ¬ (used m p = 0 ∧ used m (next m p) = 0) := by
    rintro ⟨h, h'⟩
    refine free ⟨?_, ?_⟩
    · rw [← Bool.not_eq_true, ← hd.used]
      exact not_not.mpr h
    · rw [← Bool.not_eq_true, ← hc.used]
      exact not_not.mpr h'
  simp only [mergeBody, hd.ne_null, hc.ne_null, some_used, ne_eq, not_false_eq_true, and_self, ↓reduceIte]

/-- The merging walk at two free blocks makes one of them and stays. -/
lemma mergeBody_merge {a e : Nat} (he : e ≤ 0xC0100000) (lk : Linked m p (b :: c :: l) 0)
    (t : Tiled 12 a (b :: c :: l) e) (free : b.used = false ∧ c.used = false) :
    ∃ m', mergeBody (m, p) = .next (m', p) ∧ Frame p m m' ∧ Linked m' p (b.merge 12 c :: l) 0 ∧
      Tiled 12 a (b.merge 12 c :: l) e := by
  obtain ⟨hd, hc, lk⟩ := lk
  obtain ⟨eq, eqc, t⟩ := t
  have le := t.le
  have addr := hd.addr
  have addrc := hc.addr
  have fits := hd.fits
  have fitsc := hc.fits
  rw [Block.limit] at eqc le
  have usedp := hd.free free.1
  have usedc := hc.free free.2
  have sum : (size m p + (size m (next m p) + sizeofBlock)).toNat = b.size + 12 + c.size := by
    rw [UInt32.toNat_add, UInt32.toNat_add, hd.size, hc.size]
    change (b.size + (c.size + 12) % 2 ^ 32) % 2 ^ 32 = b.size + 12 + c.size
    omega
  have f1 : Frame p m (setSize m p (size m p + (size m (next m p) + sizeofBlock))) := frame_setSize fits
  have size1 := size_setSize (m := m) (p := p) (v := size m p + (size m (next m p) + sizeofBlock))
  have used1 := used_setSize (m := m) (v := size m p + (size m (next m p) + sizeofBlock)) fits
  have next1 := next_setSize (m := m) (v := size m p + (size m (next m p) + sizeofBlock)) fits
  have pass : mergeBody (m, p) =
      .next (setNext (setSize m p (size m p + (size m (next m p) + sizeofBlock))) p (next m (next m p)), p) := by
    have nextc := (f1.sameHeader (q := next m p) (by omega)).next fitsc
    simp [mergeBody, hd.ne_null, hc.ne_null, usedp, usedc, next1, nextc]
  generalize setSize m p (size m p + (size m (next m p) + sizeofBlock)) = m1 at *
  have f2 : Frame p m (setNext m1 p (next m (next m p))) := f1.trans (frame_setNext fits)
  refine ⟨_, pass, f2, ⟨⟨hd.ne_null, addr, fits, ?_, ?_⟩, ?_⟩, eq, ?_⟩
  · rw [size_setNext fits, size1, sum]
    rfl
  · rw [used_setNext fits, used1, hd.used]
    rfl
  · rw [next_setNext]
    refine lk.same fun d mem r eqr => f2.sameHeader (.inr ?_)
    have lo := (t.mem_bounds mem).1
    rw [Block.limit] at lo
    omega
  · have lim : (b.merge 12 c).limit 12 = c.limit 12 := by
      rw [Block.limit, Block.limit, Block.merge, eqc]
      dsimp only
      omega
    rw [lim]
    exact t

/-- An address outside of the free blocks of a list. -/
def OutsideFree (l : List Block) (x : UInt32) : Prop :=
  ∀ c ∈ l, c.used = false → x.toNat < c.addr ∨ c.limit 12 ≤ x.toNat

/-- The merging walk computes `coalesceFrom`, and writes to free blocks only. -/
lemma merge_spec {a e : Nat} (he : e ≤ 0xC0100000) (lk : Linked m p (b :: l) 0)
    (t : Tiled 12 a (b :: l) e) :
    ∃ m', loop mergeBody (m, p) = some m' ∧ Linked m' p (coalesceFrom 12 b l) 0 ∧
      ∀ x : UInt32, OutsideFree (b :: l) x → m' x = m x := by
  induction l generalizing m p b a with
  | nil =>
    obtain ⟨hd, lk⟩ := lk
    have pass : mergeBody (m, p) = .done m := by
      have null : next m p = 0 := lk
      simp [mergeBody, null]
    exact ⟨m, loop_done pass, ⟨hd, lk⟩, fun _ _ => rfl⟩
  | cons c l ih =>
    have addr := lk.1.addr
    by_cases free : b.used = false ∧ c.used = false
    · -- the neighbour is merged and the walk stays
      obtain ⟨m1, pass, frame, lk1, t1⟩ := mergeBody_merge he lk t free
      obtain ⟨m', run, lk', keep⟩ := ih lk1 t1
      refine ⟨m', by rw [loop_next pass, run], ?_, fun x out => ?_⟩
      · rw [coalesceFrom, if_pos (by simp [free])]
        exact lk'
      · have outb := out b (by simp) free.1
        have outc := out c (by simp) free.2
        have behind := t.2.1
        have merged : OutsideFree (b.merge 12 c :: l) x := by
          intro d hd used
          rcases List.mem_cons.mp hd with rfl | hd
          · simp only [Block.limit, Block.merge] at outb outc behind ⊢
            omega
          · exact out d (by simp [hd]) used
        rw [Block.limit] at outb
        rw [keep x merged, frame x (by omega)]
    · -- the walk moves on to the neighbour
      obtain ⟨hd, hc, lk⟩ := lk
      obtain ⟨-, eqc, t⟩ := t
      have fits := hd.fits
      rw [Block.limit] at eqc
      obtain ⟨m', run, lk', keep⟩ := ih (a := c.addr) ⟨hc, lk⟩ ⟨rfl, t⟩
      have later : Tiled 12 c.addr (c :: l) e := ⟨rfl, t⟩
      have hdr : SameHeader p m m' := by
        intro x _ hi
        refine keep x fun d hd _ => .inl ?_
        have above := (later.mem_bounds hd).1
        omega
      refine ⟨m', by rw [loop_next (mergeBody_skip hd hc free), run], ?_, fun x out => keep x fun d hd =>
        out d (List.mem_cons_of_mem b hd)⟩
      rw [coalesceFrom, if_neg (by simpa using free)]
      exact ⟨hd.same hdr, by rw [hdr.next fits]; exact lk'⟩

end RetaOS.Kheap
