import RetaOS.Kheap.Integrity

/-!
# First fit

What `kmalloc` and `krealloc` do in a state that a run reaches, read off the block list in memory. `kmalloc` takes the
first free block that is large enough, and cuts it when the rest can hold a header (`kmalloc_first_fit`). The growth
path never adds to that: the requests that it lets through are those that `Good` leaves out. `krealloc` leaves a block
that is large enough alone and moves a smaller one, with its bytes (`krealloc_preserves`).
-/

namespace RetaOS.Kheap
open Lib
open HeapCall (Good)

variable {s0 s : Heap} {l l1 l2 : List Block} {L : Live} {b : Block} {p n : UInt32} {k m : Nat} {mem mem' : Memory}

/-! ## `kmalloc`. -/

/-- What a block in a list becomes when its front is taken: a block in use, and the free rest if there is one. -/
structure Cut (b : Block) (n : Nat) (front : Block) (rest : List Block) : Prop where
  addr : front.addr = b.addr
  used : front.used = true
  large : n ≤ front.size
  tight : front.size ≤ n + 16
  rest : (rest = [] ∧ front.size = b.size) ∨
    (front.size + 12 < b.size ∧ rest = [⟨b.addr + 12 + front.size, b.size - front.size - 12, false⟩])

/-- `take` cuts a block. -/
lemma take_cut (le : n.toNat ≤ b.size) : ∃ front rest, take n b = front :: rest ∧ Cut b n.toNat front rest := by
  by_cases split : n.toNat + 16 < b.size
  · refine ⟨{ b with size := n.toNat, used := true }, [⟨b.addr + 12 + n.toNat, b.size - n.toNat - 12, false⟩], ?_, ?_⟩
    · rw [take, if_pos split]
      rfl
    · exact ⟨rfl, rfl, le_rfl, Nat.le_add_right _ _, .inr ⟨by dsimp only; omega, rfl⟩⟩
  · refine ⟨{ b with used := true }, [], ?_, ?_⟩
    · rw [take, if_neg split]
    · exact ⟨rfl, rfl, le, Nat.le_of_not_lt split, .inl ⟨rfl, rfl⟩⟩

/-- Requests of at most `0x3FE00000` bytes do not wrap. -/
lemma not_wraps_of_le (small : n.toNat ≤ 0x3FE00000) : ¬ Wraps n := by
  rintro ⟨lo, -⟩
  omega

/-- The first block of a tiling that fits is the one with the lowest address. -/
lemma lowest_fit {a e : Nat} (t : Tiled 12 a (l1 ++ b :: l2) e) (before : ∀ c ∈ l1, ¬ Fits n c) :
    ∀ c ∈ l1 ++ b :: l2, Fits n c → b.addr ≤ c.addr := by
  intro c mem fit
  rcases List.mem_append.mp mem with left | right
  · exact absurd fit (before c left)
  · rcases List.mem_cons.mp right with rfl | behind
    · exact le_rfl
    · have order := (List.pairwise_cons.mp (List.pairwise_append.mp t.pairwise).2.1).1 c behind
      rw [Block.limit] at order
      omega

/-- The address of a payload is not `NULL`. -/
lemma payload_ne_null (addr : p.toNat = b.addr + 12) : p ≠ 0 := by
  rintro rfl
  have zero : 0 = b.addr + 12 := addr
  omega

/-- In every state that a run reaches, `kmalloc` returns `NULL` exactly when no free block is large enough, and leaves
    the heap. Otherwise it returns the payload of the one with the lowest address, whose block is cut, and changes no
    other block and no byte outside of it. -/
theorem kmalloc_first_fit (fresh : s0.kheapInited = false) (run : Reachable Good s0 (s, L))
    (small : n.toNat ≤ 0x3FE00000) :
    ∃ l r s', Linked s.mem s.firstBlock l 0 ∧ kmalloc s n = some (r, s') ∧
      (r = 0 ↔ ∀ b ∈ l, b.used = false → b.size < max n.toNat 4) ∧ (r = 0 → s' = s) ∧
      (r ≠ 0 → ∃ l1 b l2 front rest, l = l1 ++ b :: l2 ∧ b.used = false ∧ max n.toNat 4 ≤ b.size ∧
        (∀ c ∈ l, c.used = false → max n.toNat 4 ≤ c.size → b.addr ≤ c.addr) ∧
        r.toNat = b.addr + 12 ∧ Cut b (max n.toNat 4) front rest ∧
        Linked s'.mem s'.firstBlock (l1 ++ (front :: rest ++ l2)) 0 ∧
        ∀ x : UInt32, x.toNat < b.addr ∨ b.limit 12 ≤ x.toNat → s'.mem x = s.mem x) := by
  obtain ⟨l, v, -⟩ := run.inv fresh
  have size : (request n).toNat = max n.toNat 4 := request_toNat.trans (Nat.max_comm _ _)
  rcases kmalloc_spec v (not_wraps_of_le small) with
    ⟨l1, b, l2, r, s', rfl, fit, addr, alloc, v', frame, before⟩ | ⟨none, alloc⟩
  · have ne : r ≠ 0 := payload_ne_null addr
    obtain ⟨front, rest, eq, cut⟩ := take_cut fit.2
    have low := lowest_fit v.tiled before
    have room := fit.2
    rw [size] at cut room
    refine ⟨l1 ++ b :: l2, r, s', v.linked, alloc, ?_, fun null => absurd null ne, fun _ =>
      ⟨l1, b, l2, front, rest, rfl, fit.1, room, fun c mem free le => low c mem ⟨free, by omega⟩, addr, cut, ?_, frame⟩⟩
    · refine ⟨fun null => absurd null ne, fun full => ?_⟩
      have lt := full b (by simp) fit.1
      omega
    · rw [← eq]
      exact v'.linked
  · refine ⟨l, 0, s, v.linked, alloc, ⟨fun _ b mem free => ?_, fun _ => rfl⟩, fun _ => rfl, fun ne => absurd rfl ne⟩
    by_contra large
    exact none b mem ⟨free, by omega⟩

/-- The first allocation is cut from the front of the initial block. -/
theorem kmalloc_first_fit_initial : ∃ s' front rest, kmalloc (kheapInit bare) 64 = some (0xC000000C, s') ∧
    Linked s'.mem s'.firstBlock [front, rest] 0 ∧ front.addr = 0xC0000000 ∧ front.used = true ∧ 64 ≤ front.size ∧
    rest.used = false ∧ rest.addr = front.limit 12 ∧ rest.limit 12 = 0xC0100000 := by
  have start : Reachable Good bare (kheapInit bare, []) := .refl
  obtain ⟨l, r, s', linked, alloc, null, -, taken⟩ := kmalloc_first_fit (n := 64) rfl start (by decide)
  obtain rfl := linked.unique (kheapInit_valid (s := bare) rfl).linked
  have ne : r ≠ 0 := fun zero => absurd (null.mp zero initialBlock List.mem_cons_self rfl) (by decide)
  obtain ⟨l1, b, l2, front, rest, eq, -, -, -, addr, cut, linked', -⟩ := taken ne
  obtain ⟨rfl, rfl, rfl⟩ : l1 = [] ∧ b = initialBlock ∧ l2 = [] := by
    cases l1 with
    | nil =>
      cases eq
      exact ⟨rfl, rfl, rfl⟩
    | cons _ _ => simp at eq
  obtain rfl : r = 0xC000000C := UInt32.toNat_inj.mp addr
  have tight := cut.tight
  rcases cut.rest with ⟨-, whole⟩ | ⟨less, rfl⟩
  · rw [whole] at tight
    exact absurd tight (by decide)
  · refine ⟨s', front, _, alloc, linked', cut.addr, cut.used, cut.large, rfl, ?_, ?_⟩
    · rw [Block.limit, cut.addr]
    · have size : initialBlock.size = 0xFFFF4 := rfl
      have base : initialBlock.addr = 0xC0000000 := rfl
      rw [Block.limit]
      dsimp only
      omega

/-! ## `krealloc`. -/

/-- The bytes of a block in use are loaded from memory that keeps it. -/
lemma Keeps.loadBytes (keeps : Keeps l mem mem') (v : Valid s l) (inl : b ∈ l) (used : b.used = true)
    (addr : p.toNat = b.addr + 12) (le : k ≤ b.size) : mem'.loadBytes p k = mem.loadBytes p k := by
  obtain ⟨lo, hi⟩ := v.bounds inl
  rw [Block.limit] at hi
  refine Memory.loadBytes_congr fun i lt => keeps _ ⟨b, inl, used, ?_, ?_⟩
  · rw [toNat_add_ofNat (by omega)]
    omega
  · rw [toNat_add_ofNat (by omega), Block.limit]
    omega

/-- The front of the bytes at an address. -/
lemma loadBytes_take (h : k ≤ m) : (mem.loadBytes p m).take k = mem.loadBytes p k := by
  have slice := Memory.loadBytes_slice (m := mem) (a := p) (n := m) 0 k
  rw [List.drop_zero, show p + UInt32.ofNat 0 = p from UInt32.add_zero p, Nat.sub_zero, Nat.min_eq_left h] at slice
  exact slice

/-- A block that is large enough stays where it is. -/
lemma krealloc_stay (v : Valid s l) (inl : b ∈ l) (addr : p.toNat = b.addr + 12) (pos : n ≠ 0)
    (large : n.toNat ≤ b.size) :
    krealloc s p n = some (p, s) := by
  have nonnull := payload_ne_null addr
  have hd := v.header_of_ptr inl addr
  have enough : size s.mem (p - sizeofBlock) ≥ n := by
    rw [ge_iff_le, UInt32.le_iff_toNat_le, hd.size]
    exact large
  rw [krealloc, if_neg nonnull, if_neg pos]
  exact if_pos enough

/-- A `krealloc` that returns `NULL` leaves the heap. -/
lemma krealloc_null {s' : Heap} (v : Valid s l) (nw : ¬ Wraps n) (nonnull : p ≠ 0) (pos : n ≠ 0)
    (run : krealloc s p n = some (0, s')) : s' = s := by
  obtain ⟨r, s1, l1, alloc, -, -, ⟨rfl, rfl, -⟩ | ⟨ne, -⟩⟩ := kmalloc_effect v nw
  · simp only [krealloc, nonnull, pos, alloc, ↓reduceIte] at run
    split at run
    · cases run
      exact absurd rfl nonnull
    · cases run
      rfl
  · simp only [krealloc, nonnull, pos, alloc, ne, ↓reduceIte] at run
    split at run
    · cases run
      exact absurd rfl nonnull
    · split at run
      · cases run
      · cases run
        exact absurd rfl ne

/-- A block that `krealloc` moves takes its bytes along, and the other blocks in use keep theirs. -/
lemma krealloc_move {s' : Heap} {q : UInt32} (v : Valid s l) (inl : b ∈ l) (used : b.used = true)
    (addr : p.toNat = b.addr + 12) (nw : ¬ Wraps n) (ne : q ≠ 0) (less : b.size < n.toNat)
    (run : krealloc s p n = some (q, s')) :
    s'.mem.loadBytes q b.size = s.mem.loadBytes p b.size ∧
      ∀ c ∈ l, c.used = true → c ≠ b → ∀ (x : UInt32) (k : Nat), x.toNat = c.addr + 12 → k ≤ c.size →
        s'.mem.loadBytes x k = s.mem.loadBytes x k := by
  have nonnull := payload_ne_null addr
  have pos : n ≠ 0 := by
    rintro rfl
    cases less
  have hd := v.header_of_ptr inl addr
  have short : ¬ size s.mem (p - sizeofBlock) ≥ n := by
    rw [ge_iff_le, UInt32.le_iff_toNat_le, hd.size]
    omega
  obtain ⟨r, s1, l1, alloc, v1, keeps, ⟨rfl, -⟩ | ⟨nonnull', allocated, -⟩⟩ := kmalloc_effect v nw
  · simp only [krealloc, nonnull, pos, short, alloc, ↓reduceIte, Option.some.injEq, Prod.mk.injEq] at run
    exact absurd run.1.symm ne
  · obtain ⟨d, usedd, addrd, le, new, made⟩ := id allocated
    have inl1 : b ∈ l1 := (made b used).mpr (.inr inl)
    have ind : d ∈ l1 := (made d usedd).mpr (.inl rfl)
    have hd1 := v1.header_of_ptr inl1 addr
    have bounds := v1.bounds ind
    rw [Block.limit] at bounds
    have len : (s1.mem.loadBytes p b.size).length = b.size := Memory.loadBytes_length
    have copied : Memory.SameOutside r n.toNat s1.mem (s1.mem.storeBytes r (s1.mem.loadBytes p b.size)) := by
      intro x out
      exact storeBytes_within le_rfl (show r.toNat + _ ≤ r.toNat + n.toNat by omega) (by omega) out
    have v2 : Valid { s1 with mem := s1.mem.storeBytes r (s1.mem.loadBytes p b.size) } l1 :=
      v1.payload ind (by omega) (by rw [len, Block.limit]; omega)
    obtain ⟨s2, l2, free, v', rel, keeps'⟩ := kfree_effect v2 inl1 used addr
    have eq : s2 = s' ∧ r = q := by
      simp only [krealloc, nonnull, pos, short, alloc, nonnull', Memory.copy, hd1.size, free, ↓reduceIte,
        Option.some.injEq, Prod.mk.injEq] at run
      exact ⟨run.2, run.1⟩
    obtain ⟨rfl, rfl⟩ := eq
    -- what stays in use over the release of the old block
    obtain ⟨b', inb', usedb', addrb', stay⟩ := rel
    obtain rfl : b' = b := v1.tiled.eq_of_addr (by decide) inb' inl1 (by omega)
    have fresh : d ≠ b' := fun eq => new b' inl used (congrArg Block.addr eq).symm
    constructor
    · have moved : (s1.mem.storeBytes r (s1.mem.loadBytes p b'.size)).loadBytes r b'.size =
          s1.mem.loadBytes p b'.size := by
        have stored : (s1.mem.storeBytes r (s1.mem.loadBytes p b'.size)).loadBytes r
            (s1.mem.loadBytes p b'.size).length = s1.mem.loadBytes p b'.size :=
          Memory.loadBytes_storeBytes (by omega)
        rwa [len] at stored
      have last := keeps'.loadBytes v' ((stay d usedd).mpr ⟨ind, fresh⟩) usedd addrd
        (show b'.size ≤ d.size by omega)
      have first := keeps.loadBytes v inl used addr le_rfl
      exact last.trans (moved.trans first)
    · intro c inc usedc other x k addrx lek
      have inc1 : c ∈ l1 := (made c usedc).mpr (.inr inc)
      have last := keeps'.loadBytes v' ((stay c usedc).mpr ⟨inc1, other⟩) usedc addrx lek
      have middle := (allocated.keeps v1 copied).loadBytes v inc usedc addrx lek
      have first := keeps.loadBytes v inc usedc addrx lek
      exact last.trans (middle.trans first)

/-- In every state that a run reaches, `krealloc` of a live allocation returns. A pointer that it returns holds the
    bytes of the allocation as far as both sizes reach, and the other live allocations keep their bytes; with `NULL`
    nothing has changed. -/
theorem krealloc_preserves (fresh : s0.kheapInited = false) (run : Reachable Good s0 (s, L)) (live : (p, m) ∈ L)
    (pos : 0 < n.toNat) (small : n.toNat ≤ 0x3FE00000) :
    ∃ q s', krealloc s p n = some (q, s') ∧ Reachable Good s0 (s', (HeapCall.krealloc p n).live L q) ∧
      (q ≠ 0 → s'.mem.loadBytes q (min m n.toNat) = s.mem.loadBytes p (min m n.toNat) ∧
        ∀ x ∈ L, x.1 ≠ p → s'.mem.loadBytes x.1 x.2 = s.mem.loadBytes x.1 x.2) ∧
      (q = 0 → s' = s ∧ (HeapCall.krealloc p n).live L q = L) := by
  have nw := not_wraps_of_le small
  have nz : n ≠ 0 := by
    rintro rfl
    cases pos
  obtain ⟨l, v, o⟩ := run.inv fresh
  obtain ⟨b, inl, used, addr, room⟩ := o.block _ live
  change p.toNat = b.addr + 12 at addr
  change m ≤ b.size at room
  have legal : HeapCall.Legal L (.krealloc p n) := .inr (List.mem_map_of_mem (f := Prod.fst) live)
  obtain ⟨q, s', call, -⟩ := call_keeps ⟨l, v, o⟩ legal nw
  have call' : krealloc s p n = some (q, s') := call
  refine ⟨q, s', call', .tail run (.call _ legal nw call), fun ne => ?_, ?_⟩
  · by_cases large : n.toNat ≤ b.size
    · obtain ⟨rfl, rfl⟩ := Prod.mk.inj (Option.some.inj ((krealloc_stay v inl addr nz large).symm.trans call'))
      exact ⟨rfl, fun _ _ _ => rfl⟩
    · obtain ⟨moved, others⟩ := krealloc_move v inl used addr nw ne (Nat.lt_of_not_le large) call'
      constructor
      · have le : min m n.toNat ≤ b.size := by omega
        rw [← loadBytes_take le, ← loadBytes_take le, moved]
      · intro x inL other
        obtain ⟨c, inc, usedc, addrc, lec⟩ := o.block x inL
        refine others c inc usedc ?_ x.1 x.2 addrc lec
        rintro rfl
        exact other (UInt32.toNat_inj.mp (addrc.trans addr.symm))
  · rintro rfl
    exact ⟨krealloc_null v nw (payload_ne_null addr) nz call', by simp [HeapCall.live, nz]⟩

theorem krealloc_preserves_grown : ∃ s q s', kmalloc (kheapInit bare) 64 = some (0xC000000C, s) ∧
    krealloc s 0xC000000C 128 = some (q, s') ∧
    (q ≠ 0 → s'.mem.loadBytes q 64 = s.mem.loadBytes 0xC000000C 64) := by
  obtain ⟨s, alloc, reach⟩ := reachable_kmalloc
  have run := reach.mono fun _ _ => Good.of_bounded
  obtain ⟨q, s', call, -, kept, -⟩ := krealloc_preserves (n := 128) rfl run (List.mem_singleton.mpr rfl) (by decide)
    (by decide)
  exact ⟨s, q, s', alloc, call, fun ne => (kept ne).1⟩

end RetaOS.Kheap
