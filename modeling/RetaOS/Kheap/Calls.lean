import RetaOS.Kheap.Spec

/-!
# The calls of the heap interface

The effect of each call on the blocks in use. `Allocated l l' p n` says that the list went from `l` to `l'`
by one more block in use, with its payload of at least `n` bytes at `p`; `Released l l' p` that the block
with its payload at `p` is in use no more. `Valid` is kept by every call whose request does not wrap, and
by every store into a payload. The bytes of blocks that stay in use are kept (`Keeps`), and a `kmalloc` with a `kfree`
of its result leaves the list of blocks that it found (`Allocated.released`).
-/

namespace RetaOS.Kheap
open Lib

/-- One more block in use, with at least `n` bytes of payload at `p`. -/
def Allocated (l l' : List Block) (p n : UInt32) : Prop :=
  ∃ d : Block, d.used = true ∧ p.toNat = d.addr + 12 ∧ n.toNat ≤ d.size ∧
    (∀ c ∈ l, c.used = true → c.addr ≠ d.addr) ∧
    ∀ c : Block, c.used = true → (c ∈ l' ↔ c = d ∨ c ∈ l)

/-- The block with its payload at `p` is no longer in use. -/
def Released (l l' : List Block) (p : UInt32) : Prop :=
  ∃ d ∈ l, d.used = true ∧ p.toNat = d.addr + 12 ∧ ∀ c : Block, c.used = true → (c ∈ l' ↔ c ∈ l ∧ c ≠ d)

/-- A byte of a block in use. -/
def InUse (l : List Block) (x : UInt32) : Prop := ∃ b ∈ l, b.used = true ∧ b.addr ≤ x.toNat ∧ x.toNat < b.limit 12

/-- No byte of a block in use differs. -/
def Keeps (l : List Block) (m m' : Memory) : Prop := ∀ x, InUse l x → m' x = m x

variable {s : Heap} {l l' l1 l2 : List Block} {b d : Block} {n p x : UInt32} {m m' m'' : Memory}

lemma Keeps.refl : Keeps l m m := fun _ _ => rfl

lemma Keeps.trans (h : Keeps l m m') (h' : Keeps l m' m'') : Keeps l m m'' :=
  fun x hx => (h' x hx).trans (h x hx)

/-- A byte of a block in use lies outside of every other block. -/
lemma InUse.outside {a e : Nat} (t : Tiled 12 a l e) (mem : b ∈ l) (hx : InUse l x) :
    (b.used = true ∧ b.addr ≤ x.toNat ∧ x.toNat < b.limit 12) ∨ x.toNat < b.addr ∨ b.limit 12 ≤ x.toNat := by
  obtain ⟨c, hc, used, lo, hi⟩ := hx
  rcases t.disjoint hc mem with rfl | le | le
  · exact .inl ⟨used, lo, hi⟩
  · exact .inr (.inl (by omega))
  · exact .inr (.inr (by omega))

/-- What is outside of one free block only is kept. -/
lemma Keeps.of_outside {a e : Nat} (t : Tiled 12 a l e) (mem : b ∈ l) (free : b.used = false)
    (frame : ∀ x : UInt32, x.toNat < b.addr ∨ b.limit 12 ≤ x.toNat → m' x = m x) : Keeps l m m' := by
  intro x hx
  rcases hx.outside t mem with ⟨used, -⟩ | out
  · rw [free] at used
    cases used
  · exact frame x out

/-- Taking a free block allocates it. -/
lemma allocated_take (t : Tiled 12 0xC0000000 (l1 ++ b :: l2) 0xC0100000) (fit : Fits n b)
    (addr : p.toNat = b.addr + 12) (le : n.toNat ≤ b.size) :
    Allocated (l1 ++ b :: l2) (l1 ++ (take n b ++ l2)) p n := by
  have nb : ∀ c : Block, c.used = true → c ≠ b := by
    rintro c used rfl
    rw [fit.1] at used
    cases used
  have fresh : ∀ c ∈ l1 ++ b :: l2, c.used = true → c.addr ≠ b.addr := by
    intro c mem used eq
    exact nb c used (t.eq_of_addr (by decide) mem (by simp) eq)
  by_cases split : n.toNat + 16 < b.size
  · refine ⟨{ b with size := n.toNat, used := true }, rfl, addr, le_rfl, fresh, fun c used => ?_⟩
    have nrest : c ≠ { addr := b.addr + 12 + n.toNat, size := b.size - n.toNat - 12, used := false } := by
      rintro rfl
      cases used
    rw [take, if_pos split, Block.split]
    simp only [List.mem_append, List.mem_cons, List.not_mem_nil, or_false, nb c used, nrest, false_or]
    tauto
  · refine ⟨{ b with used := true }, rfl, addr, le, fresh, fun c used => ?_⟩
    rw [take, if_neg split]
    simp only [List.mem_append, List.mem_cons, List.not_mem_nil, or_false, nb c used, false_or]
    tauto

/-- `kmalloc` in terms of the blocks in use. -/
theorem kmalloc_effect (v : Valid s l) (nw : ¬ Wraps n) :
    ∃ r s' l', kmalloc s n = some (r, s') ∧ Valid s' l' ∧ Keeps l s.mem s'.mem ∧
      ((r = 0 ∧ s' = s ∧ l' = l ∧ ∀ b ∈ l, ¬ Fits (request n) b) ∨
        r ≠ 0 ∧ Allocated l l' r n ∧ ∃ b ∈ l, Fits (request n) b) := by
  rcases kmalloc_spec v nw with ⟨l1, b, l2, r, s', rfl, fit, addr, run, v', frame, -⟩ | ⟨none, run⟩
  · refine ⟨r, s', _, run, v', .of_outside v.tiled (by simp) fit.1 frame, .inr ⟨?_, ?_, b, by simp, fit⟩⟩
    · rintro rfl
      have : 0 = b.addr + 12 := addr
      omega
    · obtain ⟨d, used, addr', le, rest⟩ := allocated_take v.tiled fit addr fit.2
      rw [request_toNat] at le
      exact ⟨d, used, addr', by omega, rest⟩
  · exact ⟨0, s, l, run, v, .refl, .inl ⟨rfl, rfl, rfl, none⟩⟩

/-- On a heap whose last block is the only free one, `kmalloc` cuts its block from the front of that one. -/
lemma kmalloc_bump (v : Valid s (l ++ [b])) (used : ∀ c ∈ l, c.used = true) (free : b.used = false)
    (least : 4 ≤ n.toNat) (room : n.toNat + 16 < b.size) : ∃ r s', kmalloc s n = some (r, s') ∧ r.toNat = b.addr + 12 ∧
      Valid s' (l ++ [⟨b.addr, n.toNat, true⟩] ++ [⟨b.addr + 12 + n.toNat, b.size - n.toNat - 12, false⟩]) := by
  have bounds := v.bounds (b := b) (by simp)
  rw [Block.limit] at bounds
  have nw : ¬ Wraps n := by
    rintro ⟨lo, -⟩
    omega
  have same : request n = n := UInt32.toNat_inj.mp (by rw [request_toNat]; omega)
  rcases kmalloc_spec v nw with ⟨l1, c, l2, r, s', eq, fit, addr, run, v', -⟩ | ⟨none, -⟩
  · -- the block found is the free one
    have last : (b = c ∧ l2 = []) ∧ l = l1 := by
      rcases List.append_eq_append_iff.mp eq with ⟨k, hl, hr⟩ | ⟨k, hl, hr⟩
      · cases k with
        | nil => simpa [eq_comm] using And.intro hr hl
        | cons x k => simp at hr
      · cases k with
        | nil => simpa [eq_comm] using And.intro hr hl
        | cons x k =>
          obtain ⟨rfl, -⟩ := List.cons.inj hr
          have usedc := used c (by simp [hl])
          rw [fit.1] at usedc
          cases usedc
    obtain ⟨⟨rfl, rfl⟩, rfl⟩ := last
    refine ⟨r, s', run, addr, ?_⟩
    rw [same, take, if_pos room, Block.split] at v'
    simpa using v'
  · exact (none b (by simp) ⟨free, by rw [same]; omega⟩).elim

/-- The header of a block lies `sizeof(heap_block_t)` below its payload. -/
lemma Valid.header_of_ptr (v : Valid s l) (mem : b ∈ l) (addr : p.toNat = b.addr + 12) :
    Header s.mem (p - sizeofBlock) b := by
  obtain ⟨r, hd⟩ := v.linked.header mem
  have eq : p - sizeofBlock = r := by
    apply UInt32.toNat_inj.mp
    have h12 : sizeofBlock.toNat = 12 := rfl
    rw [UInt32.toNat_sub_of_le _ _ (by rw [UInt32.le_iff_toNat_le, h12]; omega), h12, hd.addr]
    omega
  rw [eq]
  exact hd

/-- Changes of the payload of a block keep the heap valid. -/
lemma Valid.of_outside (v : Valid s l) (mem : b ∈ l)
    (frame : ∀ x : UInt32, x.toNat < b.addr + 12 ∨ b.limit 12 ≤ x.toNat → m x = s.mem x) :
    Valid { s with mem := m } l := by
  obtain ⟨l1, l2, rfl⟩ := List.append_of_mem mem
  refine { v with linked := ?_ }
  refine v.linked.replace [b] v.tiled (fun x hx => frame x (by omega)) fun r hd => ?_
  have same : SameHeader r s.mem m := fun x _ hx => frame x (.inl (by have := hd.addr; omega))
  exact ⟨hd.same same, same.next hd.fits⟩

/-- Changes outside of the heap region keep the heap valid. -/
lemma Valid.of_region (v : Valid s l)
    (frame : ∀ x : UInt32, 0xC0000000 ≤ x.toNat → x.toNat < 0xC0100000 → m x = s.mem x) :
    Valid { s with mem := m } l := by
  refine { v with linked := v.linked.same fun b mem p addr x lo hi => frame x ?_ ?_ }
  · have bounds := v.tiled.mem_bounds mem
    omega
  · have bounds := v.tiled.mem_bounds mem
    rw [Block.limit] at bounds
    omega

/-- A store leaves the bytes outside of a region it stays in alone. -/
lemma storeBytes_within {a : UInt32} {bs : List UInt8} {lo hi : Nat} (hlo : lo ≤ a.toNat)
    (hhi : a.toNat + bs.length ≤ hi) (fits : hi ≤ 2 ^ 32) (out : x.toNat < lo ∨ hi ≤ x.toNat) :
    m.storeBytes a bs x = m x := by
  have lt := x.toNat_lt
  exact Memory.storeBytes_apart ⟨by omega, by omega, by omega⟩

/-- Stores into the payload of a block keep the heap valid. -/
lemma Valid.payload {a : UInt32} {bs : List UInt8} (v : Valid s l) (mem : b ∈ l)
    (lo : b.addr + 12 ≤ a.toNat) (hi : a.toNat + bs.length ≤ b.limit 12) :
    Valid { s with mem := s.mem.storeBytes a bs } l := by
  have bounds := v.bounds mem
  exact v.of_outside mem fun x out => storeBytes_within lo hi (by omega) out

/-- Clearing the use of a block, before any merging. -/
lemma Valid.linked_free (v : Valid s (l1 ++ b :: l2)) (hd : Header s.mem p b) :
    Linked (setUsed s.mem p 0) s.firstBlock (l1 ++ { b with used := false } :: l2) 0 := by
  have fits := hd.fits
  have addr := hd.addr
  refine v.linked.replace [{ b with used := false }] v.tiled (fun x out => ?_) fun r hr => ?_
  · rw [Block.limit] at out
    exact frame_setUsed fits x (by omega)
  · obtain rfl : r = p := UInt32.toNat_inj.mp (hr.addr.trans addr.symm)
    refine ⟨⟨hd.ne_null, addr, fits, ?_, ?_⟩, next_setUsed fits⟩
    · rw [size_setUsed fits, hd.size]
    · rw [used_setUsed]
      simp

/-- Clearing the use of a block takes it out of the blocks in use. -/
lemma mem_cleared {a e : Nat} (t : Tiled 12 a (l1 ++ b :: l2) e) (usedd : d.used = true) :
    d ∈ l1 ++ { b with used := false } :: l2 ↔ d ∈ l1 ++ b :: l2 ∧ d ≠ b := by
  have nfree : d ≠ { b with used := false } := by
    rintro rfl
    cases usedd
  have pair := List.pairwise_append.mp t.pairwise
  have apart : b ∉ l1 ∧ b ∉ l2 := by
    refine ⟨fun h => ?_, fun h => ?_⟩
    · have := pair.2.2 b h b (by simp)
      rw [Block.limit] at this
      omega
    · have := (List.pairwise_cons.mp pair.2.1).1 b h
      rw [Block.limit] at this
      omega
  simp only [List.mem_append, List.mem_cons, nfree, false_or]
  constructor
  · rintro (h | h)
    · exact ⟨.inl h, fun e => apart.1 (e ▸ h)⟩
    · exact ⟨.inr (.inr h), fun e => apart.2 (e ▸ h)⟩
  · tauto

/-- A byte of a block in use lies outside of the free blocks. -/
lemma InUse.outsideFree {a e : Nat} (t : Tiled 12 a l e) (hx : InUse l x) : OutsideFree l x := by
  intro c mem free
  rcases hx.outside t mem with ⟨used, -⟩ | out
  · rw [free] at used
    cases used
  · exact out

/-- The pointer to a block in use passes the check of `kfree`. -/
lemma Valid.ptr_inside (v : Valid s l) (mem : b ∈ l) (addr : p.toNat = b.addr + 12) :
    ¬ (p = 0 ∨ p < s.kheapStart ∨ p ≥ s.kheapEnd) := by
  have bounds := v.bounds mem
  have pos := v.sized b mem
  have start : s.kheapStart.toNat = 0xC0000000 := by rw [v.start]; rfl
  rw [ge_iff_le, UInt32.lt_iff_toNat_lt, UInt32.le_iff_toNat_le, start, v.limit, addr]
  rw [Block.limit] at bounds
  rintro (rfl | lt | ge)
  · have : 0 = b.addr + 12 := addr
    omega
  · omega
  · omega

/-- `kfree` of a block sets it free and merges the list, and writes to free blocks only. -/
lemma kfree_spec (v : Valid s (l1 ++ b :: l2)) (addr : p.toNat = b.addr + 12) :
    ∃ f rest m', l1 ++ { b with used := false } :: l2 = f :: rest ∧ Tiled 12 0xC0000000 (f :: rest) 0xC0100000 ∧
      kfree s p = some { s with mem := m' } ∧ Linked m' s.firstBlock (coalesceFrom 12 f rest) 0 ∧
      ∀ x, OutsideFree (f :: rest) x → x.toNat < b.addr ∨ b.limit 12 ≤ x.toNat → m' x = s.mem x := by
  have hd := v.header_of_ptr (by simp) addr
  have inside := v.ptr_inside (by simp) addr
  have lk := v.linked_free hd
  have t := v.tiled.setUsed (u := false)
  -- the list is not empty, so the merging walk starts at its first block
  obtain ⟨f, rest, eq⟩ : ∃ f rest, l1 ++ { b with used := false } :: l2 = f :: rest :=
    List.exists_cons_of_ne_nil (by simp)
  rw [eq] at lk t
  obtain ⟨m', run, lk', frame⟩ := merge_spec le_rfl lk t
  refine ⟨f, rest, m', eq, t, ?_, lk', fun x outside apart => ?_⟩
  · simp only [kfree, inside, ↓reduceIte, run]
  · rw [Block.limit] at apart
    have header := hd.addr
    exact (frame x outside).trans (frame_setUsed hd.fits x (by omega))

/-- `kfree` of a block in use releases it and coalesces the list. -/
theorem kfree_effect (v : Valid s l) (mem : b ∈ l) (used : b.used = true)
    (addr : p.toNat = b.addr + 12) :
    ∃ s' l', kfree s p = some s' ∧ Valid s' l' ∧ Released l l' p ∧ Keeps l' s.mem s'.mem := by
  obtain ⟨l1, l2, rfl⟩ := List.append_of_mem mem
  obtain ⟨f, rest, m', eq, t, run, lk', frame⟩ := kfree_spec v addr
  have sized : ∀ c ∈ l1 ++ { b with used := false } :: l2, 0 < c.size := by
    intro c hc
    simp only [List.mem_append, List.mem_cons] at hc
    rcases hc with hc | rfl | hc
    · exact v.sized c (by simp [hc])
    · exact v.sized b (by simp)
    · exact v.sized c (by simp [hc])
  have others : ∀ c : Block, c.used = true →
      (c ∈ l1 ++ { b with used := false } :: l2 ↔ c ∈ l1 ++ b :: l2 ∧ c ≠ b) := fun _ => mem_cleared v.tiled
  rw [eq] at sized others
  refine ⟨{ s with mem := m' }, coalesceFrom 12 f rest, run, ?_, ⟨b, mem, used, addr, fun c usedc => ?_⟩, ?_⟩
  · exact { v with
      linked := lk'
      tiled := t.coalesceFrom
      coalesced := coalesceFrom_coalesced
      sized := coalesceFrom_sized sized }
  · rw [mem_coalesceFrom_used usedc, others c usedc]
  · rintro x ⟨c, hc, usedc, lo, hi⟩
    have still := (mem_coalesceFrom_used usedc).mp hc
    obtain ⟨before, ne⟩ := (others c usedc).mp still
    have outside := InUse.outsideFree t ⟨c, still, usedc, lo, hi⟩
    apply frame x outside
    rcases v.tiled.disjoint before mem with same | le | le
    · exact absurd same ne
    · exact .inl (by omega)
    · exact .inr (by omega)

/-- Giving back the block of a `kmalloc` leaves the list that the `kmalloc` found. -/
lemma Allocated.released {s' s'' : Heap} {l'' : List Block} (alloc : Allocated l l' p n) (rel : Released l' l'' p)
    (v : Valid s l) (v' : Valid s' l') (v'' : Valid s'' l'') : l'' = l := by
  obtain ⟨d, used, addr, -, fresh, made⟩ := alloc
  obtain ⟨d', mem', used', addr', left⟩ := rel
  obtain rfl : d' = d := v'.tiled.eq_of_addr (by decide) mem' ((made d used).mpr (.inl rfl)) (by omega)
  refine v''.tiled.unique (by decide) v.tiled v''.coalesced v.coalesced fun c usedc => ?_
  rw [left c usedc, made c usedc]
  constructor
  · rintro ⟨h, ne⟩
    exact h.resolve_left ne
  · intro mem
    refine ⟨.inr mem, ?_⟩
    rintro rfl
    exact fresh c mem usedc rfl

/-- Changes of a block that has just been allocated keep the blocks that were in use before. -/
lemma Allocated.keeps {s' : Heap} (alloc : Allocated l l' p n) (v' : Valid s' l')
    (frame : Memory.SameOutside p n.toNat s'.mem m) : Keeps l s'.mem m := by
  obtain ⟨d, used, addr, le, fresh, made⟩ := alloc
  rintro x ⟨b, mem, usedb, lo, hi⟩
  have ne : b ≠ d := fun eq => fresh b mem usedb (congrArg Block.addr eq)
  have apart := v'.tiled.disjoint ((made b usedb).mpr (.inr mem)) ((made d used).mpr (.inl rfl))
  rw [Block.limit, Block.limit] at apart
  rw [Block.limit] at hi
  refine frame x ?_
  rcases apart with eq | le | le
  · exact absurd eq ne
  · exact .inl (by omega)
  · exact .inr (by omega)

/-! ## Memory that no free block owns. -/

/-- A byte of a block in use, or of memory outside of the heap. -/
def Owned (l : List Block) (x : UInt32) : Prop := InUse l x ∨ x.toNat < 0xC0000000 ∨ 0xC0100000 ≤ x.toNat

/-- `kmalloc` does not write outside of the heap. -/
lemma kmalloc_outside {s' : Heap} (v : Valid s l) (nw : ¬ Wraps n) (run : kmalloc s n = some (p, s'))
    (out : x.toNat < 0xC0000000 ∨ 0xC0100000 ≤ x.toNat) : s'.mem x = s.mem x := by
  rcases kmalloc_spec v nw with ⟨l1, b, l2, r, s1, rfl, -, -, run', -, frame, -⟩ | ⟨-, run'⟩
  · cases run.symm.trans run'
    have bounds := v.bounds (b := b) (by simp)
    exact frame x (by omega)
  · cases run.symm.trans run'
    rfl

/-- `kfree` of a block does not write outside of the heap. -/
lemma kfree_outside {s' : Heap} (v : Valid s l) (mem : b ∈ l) (addr : p.toNat = b.addr + 12)
    (run : kfree s p = some s') (out : x.toNat < 0xC0000000 ∨ 0xC0100000 ≤ x.toNat) : s'.mem x = s.mem x := by
  obtain ⟨lo, hi⟩ := v.bounds mem
  obtain ⟨l1, l2, rfl⟩ := List.append_of_mem mem
  obtain ⟨f, rest, m', -, t, run', -, frame⟩ := kfree_spec v addr
  cases run.symm.trans run'
  apply frame x
  · intro c hc _
    have bounds := t.mem_bounds hc
    omega
  · omega

/-- The payload of a block that has just been allocated was not owned. -/
lemma Allocated.not_owned {s' : Heap} (alloc : Allocated l l' p n) (v' : Valid s' l') (pos : 0 < n.toNat) :
    ¬ Owned l p := by
  obtain ⟨d, used, addr, le, fresh, made⟩ := alloc
  have mem := (made d used).mpr (.inl rfl)
  obtain ⟨lo, hi⟩ := v'.bounds mem
  rw [Block.limit] at hi
  rintro (⟨c, memc, usedc, loc, hic⟩ | out)
  · have apart := v'.tiled.disjoint ((made c usedc).mpr (.inr memc)) mem
    rw [Block.limit] at hic
    rw [Block.limit, Block.limit] at apart
    rcases apart with eq | le | le
    · exact fresh c memc usedc (congrArg Block.addr eq)
    · omega
    · omega
  · omega

/-- What is owned stays owned when a block is allocated. -/
lemma Allocated.owned (alloc : Allocated l l' p n) (owned : Owned l x) : Owned l' x := by
  obtain ⟨d, used, -, -, -, made⟩ := alloc
  rcases owned with ⟨c, mem, usedc, lo, hi⟩ | out
  · exact .inl ⟨c, (made c usedc).mpr (.inr mem), usedc, lo, hi⟩
  · exact .inr out

/-- `kmalloc` keeps the owned bytes. -/
lemma kmalloc_owned {s' : Heap} (v : Valid s l) (nw : ¬ Wraps n) (run : kmalloc s n = some (p, s')) :
    (p = 0 ∧ s' = s) ∨ p ≠ 0 ∧ ∃ l', Valid s' l' ∧ Allocated l l' p n ∧ ∀ x, Owned l x → s'.mem x = s.mem x := by
  obtain ⟨r, s1, l', run', v', keeps, ⟨rfl, rfl, -⟩ | ⟨ne, alloc, -⟩⟩ := kmalloc_effect v nw
  · cases run.symm.trans run'
    exact .inl ⟨rfl, rfl⟩
  · cases run.symm.trans run'
    refine .inr ⟨ne, l', v', alloc, fun x owned => ?_⟩
    cases owned with
    | inl inUse => exact keeps x inUse
    | inr out => exact kmalloc_outside v nw run out

/-- What is stored in a block that has just been allocated keeps the owned bytes. -/
lemma Allocated.store {s' : Heap} {bs : List UInt8} (alloc : Allocated l l' p n) (v' : Valid s' l')
    (short : bs.length ≤ n.toNat) : Valid { s' with mem := s'.mem.storeBytes p bs } l' ∧
      ∀ x, Owned l x → s'.mem.storeBytes p bs x = s'.mem x := by
  obtain ⟨d, used, addr, le, -, made⟩ := id alloc
  have mem : d ∈ l' := (made d used).mpr (.inl rfl)
  obtain ⟨lo, hi⟩ := v'.bounds mem
  rw [Block.limit] at hi
  refine ⟨v'.payload mem (by omega) (by rw [Block.limit]; omega), fun x owned => ?_⟩
  cases owned with
  | inl inUse =>
    have apart : Memory.SameOutside p n.toNat s'.mem (s'.mem.storeBytes p bs) := fun y out =>
      storeBytes_within le_rfl (show p.toNat + bs.length ≤ p.toNat + n.toNat by omega) (by omega) out
    exact alloc.keeps v' apart x inUse
  | inr out =>
    have low : 0xC0000000 ≤ p.toNat := by omega
    have high : p.toNat + bs.length ≤ 0xC0100000 := by omega
    exact storeBytes_within low high (by decide) out

/-- A block that is given back leaves the list of blocks from before it was allocated, and the owned bytes. -/
lemma Allocated.giveBack {h : Heap} (alloc : Allocated l l' p n) (v : Valid s l) (v' : Valid h l') :
    ∃ h', kfree h p = some h' ∧ Valid h' l ∧ ∀ x, Owned l x → h'.mem x = h.mem x := by
  obtain ⟨d, used, addr, -, -, made⟩ := id alloc
  have mem : d ∈ l' := (made d used).mpr (.inl rfl)
  obtain ⟨h', l'', free, v'', rel, keeps⟩ := kfree_effect v' mem used addr
  obtain rfl := alloc.released rel v v' v''
  refine ⟨h', free, v'', fun x owned => ?_⟩
  cases owned with
  | inl inUse => exact keeps x inUse
  | inr out => exact kfree_outside v' mem addr free out

/-- A buffer that is allocated, written and given back leaves the list of blocks and the owned bytes. -/
lemma scratch {s' : Heap} {bs : List UInt8} (v : Valid s l) (nw : ¬ Wraps n) (run : kmalloc s n = some (p, s'))
    (ne : p ≠ 0) (short : bs.length ≤ n.toNat) :
    ∃ s'', kfree { s' with mem := s'.mem.storeBytes p bs } p = some s'' ∧ Valid s'' l ∧
      ∀ x, Owned l x → s''.mem x = s.mem x := by
  obtain ⟨null, -⟩ | ⟨-, l', v', alloc, keeps⟩ := kmalloc_owned v nw run
  · exact absurd null ne
  · obtain ⟨v2, stores⟩ := alloc.store v' short
    obtain ⟨s'', free, v'', keeps'⟩ := alloc.giveBack v v2
    exact ⟨s'', free, v'', fun x owned => ((keeps' x owned).trans (stores x owned)).trans (keeps x owned)⟩

/-- `kcalloc` allocates its 32-bit product and clears it. -/
theorem kcalloc_effect {num : UInt32} (v : Valid s l) (nw : ¬ Wraps (num * n)) :
    ∃ r s' l', kcalloc s num n = some (r, s') ∧ Valid s' l' ∧
      ((r = 0 ∧ s' = s ∧ l' = l ∧ ∀ b ∈ l, ¬ Fits (request (num * n)) b) ∨
        r ≠ 0 ∧ Allocated l l' r (num * n) ∧ ∃ b ∈ l, Fits (request (num * n)) b) := by
  obtain ⟨r, s', l', run, v', -, ⟨rfl, rfl, rfl, none⟩ | ⟨ne, alloc, fit⟩⟩ := kmalloc_effect v nw
  · exact ⟨0, s', l', by simp only [kcalloc, run, ↓reduceIte], v', .inl ⟨rfl, rfl, rfl, none⟩⟩
  · obtain ⟨d, used, addr, le, -, iff⟩ := id alloc
    refine ⟨r, { s' with mem := s'.mem.fill r 0 (num * n).toNat }, l', ?_, ?_, .inr ⟨ne, alloc, fit⟩⟩
    · simp only [kcalloc, run, ne, ↓reduceIte]
    · refine v'.payload ((iff d used).mpr (.inl rfl)) (by omega) ?_
      rw [List.length_replicate, Block.limit]
      omega

/-- `krealloc` of a block in use keeps it, fails, or moves it. -/
theorem krealloc_effect (v : Valid s l) (mem : b ∈ l) (used : b.used = true)
    (addr : p.toNat = b.addr + 12) (nw : ¬ Wraps n) (pos : n ≠ 0) :
    ∃ r s' l', krealloc s p n = some (r, s') ∧ Valid s' l' ∧
      ((r = p ∧ l' = l ∧ n.toNat ≤ b.size) ∨ (r = 0 ∧ l' = l) ∨
        (r ≠ 0 ∧ ∃ s1 l1, Valid s1 l1 ∧ Allocated l l1 r n ∧ Released l1 l' p)) := by
  have nonnull : p ≠ 0 := by
    rintro rfl
    have : 0 = b.addr + 12 := addr
    omega
  have hd := v.header_of_ptr mem addr
  by_cases large : size s.mem (p - sizeofBlock) ≥ n
  · refine ⟨p, s, l, by simp only [krealloc, nonnull, pos, large, ↓reduceIte], v, .inl ⟨rfl, rfl, ?_⟩⟩
    rw [← hd.size]
    exact UInt32.le_iff_toNat_le.mp large
  · obtain ⟨r, s1, l1, run, v1, -, ⟨rfl, rfl, rfl, -⟩ | ⟨ne, alloc, -⟩⟩ := kmalloc_effect v nw
    · refine ⟨0, s1, l1, ?_, v1, .inr (.inl ⟨rfl, rfl⟩)⟩
      simp only [krealloc, nonnull, pos, large, run, ↓reduceIte]
    · -- the old block is still in use, and shorter than the new payload it is copied to
      obtain ⟨d, usedd, addrd, le, -, iff⟩ := id alloc
      have mem1 : b ∈ l1 := (iff b used).mpr (.inr mem)
      have hd1 := v1.header_of_ptr mem1 addr
      have shorter : b.size < n.toNat := by
        rw [ge_iff_le, UInt32.le_iff_toNat_le, hd.size] at large
        omega
      have v2 : Valid { s1 with mem := s1.mem.copy r p (size s1.mem (p - sizeofBlock)).toNat } l1 := by
        refine v1.payload ((iff d usedd).mpr (.inl rfl)) (by omega) ?_
        rw [Memory.loadBytes_length, hd1.size, Block.limit]
        omega
      obtain ⟨s', l', free, v', rel, -⟩ := kfree_effect v2 mem1 used addr
      refine ⟨r, s', l', ?_, v', .inr (.inr ⟨ne, s1, l1, v1, alloc, rel⟩)⟩
      simp only [krealloc, nonnull, pos, large, run, ne, free, ↓reduceIte]

/-! ## Memories that agree on the headers. -/

variable {P : UInt32 → Prop}

/-- The walk of `kmalloc` looks at the headers only. -/
lemma search_congr (m' : Memory) (prev : UInt32) (lk : Linked m p l 0)
    (same : ∀ b ∈ l, ∀ q : UInt32, q.toNat = b.addr → SameHeader q m m') :
    loop (searchBody m' n) (p, prev) = loop (searchBody m n) (p, prev) := by
  induction l generalizing p prev with
  | nil =>
    obtain rfl : p = 0 := lk
    have leave (m : Memory) : searchBody m n (0, prev) = .done (.exhausted prev) := by
      rw [searchBody, if_pos rfl]
    rw [loop_done (leave m), loop_done (leave m')]
  | cons b l ih =>
    obtain ⟨hd, lk⟩ := lk
    have here := same b List.mem_cons_self p hd.addr
    have pass : searchBody m' n (p, prev) = searchBody m n (p, prev) := by
      rw [searchBody, searchBody, here.used hd.fits, here.size hd.fits, here.next hd.fits]
    by_cases fit : used m p = 0 ∧ size m p ≥ n
    · have leave : searchBody m n (p, prev) = .done (.fit p) := by
        rw [searchBody, if_neg hd.ne_null, if_pos fit]
      rw [loop_done leave, loop_done (pass.trans leave)]
    · have go : searchBody m n (p, prev) = .next (next m p, p) := by
        rw [searchBody, if_neg hd.ne_null, if_neg fit]
      rw [loop_next go, loop_next (pass.trans go)]
      exact ih p lk fun c mem => same c (List.mem_cons_of_mem b mem)

/-- Taking a block stores the same in memories that agree on its header. -/
lemma taken_agree (fits : p.toNat + 12 ≤ 2 ^ 32) (agree : m.Agree P m')
    (hdr : ∀ x : UInt32, p.toNat ≤ x.toNat → x.toNat < p.toNat + 12 → P x) : (taken m p n).Agree P (taken m' p n) := by
  have header {m m' : Memory} (agree : m.Agree P m') : SameHeader p m m' := fun x lo hi => agree x (hdr x lo hi)
  rw [taken, taken, splitBlock, splitBlock, (header agree).size fits]
  split
  · have made := (agree.storeBytes (p + sizeofBlock + n + 4) (toBytes 4 (size m p - n - sizeofBlock).toNat)).storeBytes
      (p + sizeofBlock + n + 8) [0]
    have same := (header made).next fits
    dsimp only
    rw [show next (setUsed (setSize m' (p + sizeofBlock + n) (size m p - n - sizeofBlock)) (p + sizeofBlock + n) 0) p =
      next (setUsed (setSize m (p + sizeofBlock + n) (size m p - n - sizeofBlock)) (p + sizeofBlock + n) 0) p from same]
    exact (((made.storeBytes _ _).storeBytes _ _).storeBytes _ _).storeBytes _ _
  · exact agree.storeBytes _ _

/-- `kmalloc` returns the same block and stores the same in memories that agree on the headers. -/
lemma kmalloc_agree {r : UInt32} {t : Heap} (v : Valid s l) (nw : ¬ Wraps n) (agree : s.mem.Agree P m')
    (hdr : ∀ b ∈ l, ∀ x : UInt32, b.addr ≤ x.toNat → x.toNat < b.addr + 12 → P x) (run : kmalloc s n = some (r, t)) :
    ∃ m'', kmalloc { s with mem := m' } n = some (r, { t with mem := m'' }) ∧ t.mem.Agree P m'' := by
  have init := kheapInit_of_inited v.inited
  have init' : kheapInit { s with mem := m' } = { s with mem := m' } := kheapInit_of_inited v.inited
  have walk := search_congr (n := request n) m' 0 v.linked fun b mem q addr x lo hi =>
    agree x (hdr b mem x (by omega) (by omega))
  rcases search_spec (n := request n) 0 v.linked with
    ⟨l1, b, l2, p, rfl, -, -, ⟨hd, -⟩, found, -⟩ | ⟨-, q, found⟩
  · rw [found] at walk
    rw [request] at found walk
    simp only [kmalloc, init, found, Option.some.injEq, Prod.mk.injEq] at run
    obtain ⟨rfl, rfl⟩ := run
    refine ⟨taken m' p (request n), ?_, ?_⟩
    · simp only [kmalloc, init', walk]
      rfl
    · exact taken_agree hd.fits agree fun x lo hi =>
        hdr b (by simp) x (by rw [← hd.addr]; exact lo) (by rw [← hd.addr]; exact hi)
  · rw [found] at walk
    have full := growHeap_null v (mt wraps_request.mp nw) q
    have full' : growHeap { s with mem := m' } q (request n) = (0, { s with mem := m' }) := by
      rw [growHeap, if_pos ((grow_fails v.limit v.max).mpr (mt wraps_request.mp nw))]
    rw [request] at found walk full full'
    simp only [kmalloc, init, found, full, Option.some.injEq, Prod.mk.injEq] at run
    obtain ⟨rfl, rfl⟩ := run
    exact ⟨m', by simp only [kmalloc, init', walk, full'], agree⟩

end RetaOS.Kheap
