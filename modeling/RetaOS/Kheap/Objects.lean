import RetaOS.Kheap.FirstFit
import RetaOS.Lib.Objects
import RetaOS.Lib.Runs

/-!
# The heap as a store of objects

The clients of `kernel/kheap.c` call its interface, write to the bytes of their allocations and read from them. To them
the heap is a store of objects: `kmalloc` makes one of which nothing is known, `kcalloc` one of zeros, `krealloc` moves
the cells of an object as far as both sizes reach, and `kfree` gives one up. `Represents` connects a heap in memory with
the store that its clients see, and every operation keeps it (`Represents.step`). So in a run of any operations on live
allocations each one returns, and a read gives what was written last (`heap_objects`).
-/

namespace RetaOS.Kheap
open Lib
open HeapCall (Legal Good Bounded)

/-- What the clients of the heap do. -/
inductive ClientOp where
  | call (c : HeapCall)
  | write (p : UInt32) (i : Nat) (bs : List UInt8)
  | read (p : UInt32) (i n : Nat)

/-- The allocations as their clients see them. -/
abbrev Store := Objects UInt32 UInt8

/-- The store behind a call that returned `r`. -/
def HeapCall.objects (o : Store) (r : UInt32) : HeapCall → Store
  | kmalloc n => if r ≠ 0 then o.put r (.blank n.toNat) else o
  | kcalloc num n => if r ≠ 0 then o.put r (List.replicate (num.toNat * n.toNat) (some 0)) else o
  | krealloc p n =>
    if r ≠ 0 then (o.drop p).put r (((o p).getD []).fit n.toNat)
    else if n = 0 then o.drop p
    else o
  | kfree p => o.drop p

namespace ClientOp

/-- An operation on the heap, with the pointer and the bytes that it returns. -/
def exec (s : Heap) : ClientOp → Option ((UInt32 × List UInt8) × Heap)
  | call c => (c.run s).map fun (r, s) => ((r, []), s)
  | write p i bs => some ((0, []), { s with mem := s.mem.storeBytes (p + UInt32.ofNat i) bs })
  | read p i n => some ((0, s.mem.loadBytes (p + UInt32.ofNat i) n), s)

/-- The store behind an operation that returned the pointer `r`. -/
def objects (o : Store) (r : UInt32) : ClientOp → Store
  | call c => c.objects o r
  | write p i bs => o.put p (((o p).getD []).write i bs)
  | read .. => o

/-- Clients give up live allocations only, stay inside of them, and ask for at most `0x3FE00000` bytes. -/
def Legal (o : Store) : ClientOp → Prop
  | call c => (c.ptr = 0 ∨ (o c.ptr).isSome) ∧ c.bytes ≤ 0x3FE00000
  | write p i bs => ∃ c, o p = some c ∧ i + bs.length ≤ c.length
  | read p i n => ∃ c, o p = some c ∧ i + n ≤ c.length

/-- What an operation may return: a new object where there was none, but for one that was resized in place, and the
    values of the cells. -/
def Permits (o : Store) (r : UInt32) (bytes : List UInt8) : ClientOp → Prop
  | call c => r = 0 ∨ o r = none ∨ r = c.ptr
  | write .. => True
  | read p i n => bytes.length = n ∧ ∀ c, o p = some c → c.Shows i bytes

/-- The object that an operation gives up or writes to. -/
def target : ClientOp → UInt32
  | call c => c.ptr
  | write p _ _ => p
  | read p _ _ => p

/-- One operation on the heap and on the store. -/
def step (x : Heap × Store) (op : ClientOp) : Option (Heap × Store) :=
  (op.exec x.1).map fun ((r, _), s) => (s, op.objects x.2 r)

end ClientOp

/-! ## The representation. -/

/-- The live allocations are the objects, with their sizes. -/
def Sizes (L : Live) (o : Store) : Prop := ∀ p k, (p, k) ∈ L ↔ ∃ c, o p = some c ∧ c.length = k

/-- The heap has the objects of the store in its live allocations. -/
structure Represents (s : Heap) (L : Live) (o : Store) : Prop where
  inv : Inv (s, L)
  sizes : Sizes L o
  holds : ∀ p c, o p = some c → s.mem.Holds p c

variable {s s' : Heap} {L : Live} {o : Store} {p q r n : UInt32} {k i : Nat} {c : Cells UInt8} {bs : List UInt8}
  {l : List Block}

lemma Sizes.live (h : Sizes L o) (at_ : o p = some c) : (p, c.length) ∈ L := (h p c.length).mpr ⟨c, at_, rfl⟩

lemma Sizes.mem_fst (h : Sizes L o) : p ∈ L.map Prod.fst ↔ (o p).isSome := by
  rw [Option.isSome_iff_exists, List.mem_map]
  constructor
  · rintro ⟨⟨q, k⟩, mem, rfl⟩
    obtain ⟨c, at_, -⟩ := (h q k).mp mem
    exact ⟨c, at_⟩
  · rintro ⟨c, at_⟩
    exact ⟨_, h.live at_, rfl⟩

lemma Sizes.put (h : Sizes L o) (fresh : r ∉ L.map Prod.fst) (len : c.length = k) :
    Sizes ((r, k) :: L) (o.put r c) := by
  intro q j
  have old (mem : (q, j) ∈ L) : q ≠ r := by
    rintro rfl
    exact fresh (List.mem_map_of_mem mem)
  rw [List.mem_cons, Prod.mk.injEq]
  constructor
  · rintro (⟨rfl, rfl⟩ | mem)
    · exact ⟨c, Objects.put_eq_some.mpr (.inl ⟨rfl, rfl⟩), len⟩
    · obtain ⟨d, at_, len⟩ := (h q j).mp mem
      exact ⟨d, Objects.put_eq_some.mpr (.inr ⟨old mem, at_⟩), len⟩
  · rintro ⟨d, at_, rfl⟩
    obtain ⟨rfl, rfl⟩ | ⟨-, at_⟩ := Objects.put_eq_some.mp at_
    · exact .inl ⟨rfl, len⟩
    · exact .inr (h.live at_)

lemma Sizes.drop (h : Sizes L o) : Sizes (L.drop p) (o.drop p) := by
  intro q j
  rw [mem_drop, h]
  constructor
  · rintro ⟨⟨d, at_, len⟩, ne⟩
    exact ⟨d, Objects.drop_eq_some.mpr ⟨ne, at_⟩, len⟩
  · rintro ⟨d, at_, len⟩
    obtain ⟨ne, at_⟩ := Objects.drop_eq_some.mp at_
    exact ⟨⟨d, at_, len⟩, ne⟩

/-- Objects whose bytes are kept. -/
lemma Represents.kept (rep : Represents s L o) (at_ : o p = some c)
    (same : s'.mem.loadBytes p c.length = s.mem.loadBytes p c.length) : s'.mem.Holds p c :=
  (rep.holds p c at_).congr same

/-! ## The calls. -/

/-- Blocks in use that a memory keeps are those of all objects. -/
lemma Represents.keeps (rep : Represents s L o) (v : Valid s l) (own : Owns l L) (keeps : Keeps l s.mem s'.mem)
    (at_ : o p = some c) : s'.mem.Holds p c := by
  obtain ⟨b, mem, used, addr, le⟩ := own.block _ (rep.sizes.live at_)
  exact rep.kept at_ (keeps.loadBytes v mem used addr le)

/-- An object of which nothing is known. -/
lemma Represents.kmalloc (rep : Represents s L o) (nw : ¬ Wraps n) : ∃ r s', kmalloc s n = some (r, s') ∧
    (r = 0 ∧ s' = s ∨ r ≠ 0 ∧ r ∉ L.map Prod.fst ∧
      Represents s' ((r, n.toNat) :: L) (o.put r (.blank n.toNat))) := by
  obtain ⟨l, v, own⟩ := id rep.inv
  obtain ⟨r, s', l', run, v', keeps, ⟨rfl, rfl, -⟩ | ⟨ne, alloc, -⟩⟩ := kmalloc_effect v nw
  · exact ⟨0, s', run, .inl ⟨rfl, rfl⟩⟩
  · have own' := own.alloc alloc le_rfl
    have fresh := (List.nodup_cons.mp own'.nodup).1
    refine ⟨r, s', run, .inr ⟨ne, fresh, ⟨l', v', own'⟩, rep.sizes.put fresh (by simp [Cells.blank]), ?_⟩⟩
    intro q c at_
    obtain ⟨rfl, rfl⟩ | ⟨-, at_⟩ := Objects.put_eq_some.mp at_
    · exact Memory.holds_blank
    · exact rep.keeps v own keeps at_

/-- An object that is written to. -/
lemma Represents.write (rep : Represents s L o) (at_ : o p = some c) (inside : i + bs.length ≤ c.length) :
    Represents { s with mem := s.mem.storeBytes (p + UInt32.ofNat i) bs } L (o.put p (c.write i bs)) := by
  have live := rep.sizes.live at_
  obtain ⟨l, v, own⟩ := id rep.inv
  obtain ⟨b, mem, used, addr, le⟩ := own.block _ live
  have bounds := v.bounds mem
  rw [Block.limit] at bounds
  change p.toNat = b.addr + 12 at addr
  change c.length ≤ b.size at le
  have start : (p + UInt32.ofNat i).toNat = p.toNat + i := toNat_add_ofNat (by omega)
  refine ⟨write_keeps rep.inv live (by omega) (by omega), fun q j => ?_, fun q d hq => ?_⟩
  · rw [rep.sizes]
    by_cases eq : q = p
    · subst eq
      simp [Objects.put, at_, Cells.write_length inside]
    · simp [Objects.put, eq]
  · obtain ⟨rfl, rfl⟩ | ⟨ne, hq⟩ := Objects.put_eq_some.mp hq
    · exact (rep.holds q c at_).write inside (by omega)
    · -- the other object lies in another block
      obtain ⟨b', mem', used', addr', le'⟩ := own.block _ (rep.sizes.live hq)
      change q.toNat = b'.addr + 12 at addr'
      change d.length ≤ b'.size at le'
      have bounds' := v.bounds mem'
      have apart := v.tiled.disjoint mem mem'
      rw [Block.limit] at bounds'
      rw [Block.limit, Block.limit] at apart
      refine rep.kept hq (Memory.loadBytes_storeBytes_apart ?_)
      rw [Memory.Apart, start]
      obtain rfl | le | le := apart
      · exact absurd (UInt32.toNat_inj.mp (addr'.trans addr.symm)) ne
      · omega
      · omega

/-- An object that was just put there is written to. -/
lemma Represents.store (rep : Represents s L (o.put p c)) (i : Nat) (bs : List UInt8)
    (inside : i + bs.length ≤ c.length) :
    Represents { s with mem := s.mem.storeBytes (p + UInt32.ofNat i) bs } L (o.put p (c.write i bs)) := by
  have written := rep.write Objects.put_self inside
  rwa [Objects.put_put] at written

/-- An object that is given up. -/
lemma Represents.kfree (rep : Represents s L o) (live : p ∈ L.map Prod.fst) :
    ∃ s', kfree s p = some s' ∧ Represents s' (L.drop p) (o.drop p) := by
  obtain ⟨l, v, own⟩ := id rep.inv
  obtain ⟨⟨_, k⟩, memx, rfl⟩ := List.mem_map.mp live
  obtain ⟨b, mem, used, addr, -⟩ := own.block _ memx
  obtain ⟨s', l', free, v', rel, keeps⟩ := kfree_effect v mem used addr
  have own' := own.release v.tiled rel
  refine ⟨s', free, ⟨l', v', own'⟩, rep.sizes.drop, fun q c at_ => ?_⟩
  have live' := rep.sizes.drop.live at_
  obtain ⟨-, at_⟩ := Objects.drop_eq_some.mp at_
  obtain ⟨b', mem', used', addr', le'⟩ := own'.block _ live'
  exact rep.kept at_ (keeps.loadBytes v' mem' used' addr' le')

/-- An object of zeros. -/
lemma Represents.kcalloc {num : UInt32} (rep : Represents s L o) (small : num.toNat * n.toNat ≤ 0x3FE00000) :
    ∃ r s', kcalloc s num n = some (r, s') ∧ (r = 0 ∧ s' = s ∨ r ≠ 0 ∧ r ∉ L.map Prod.fst ∧
      Represents s' ((r, num.toNat * n.toNat) :: L) (o.put r (List.replicate (num.toNat * n.toNat) (some 0)))) := by
  have exact_ : (num * n).toNat = num.toNat * n.toNat := by
    rw [UInt32.toNat_mul, Nat.mod_eq_of_lt (by omega)]
  obtain ⟨r, s', run, ⟨rfl, rfl⟩ | ⟨ne, fresh, rep'⟩⟩ := rep.kmalloc (n := num * n) (not_wraps_of_le (by omega))
  · exact ⟨0, s', by simp only [Kheap.kcalloc, run, ↓reduceIte], .inl ⟨rfl, rfl⟩⟩
  · rw [exact_] at rep'
    have zeros := rep'.store 0 (List.replicate (num.toNat * n.toNat) 0) (by simp [Cells.blank])
    have cells : (Cells.blank (num.toNat * n.toNat)).write 0 (List.replicate (num.toNat * n.toNat) 0) =
        List.replicate (num.toNat * n.toNat) (some (0 : UInt8)) := by
      simp [Cells.write, Cells.blank]
    rw [cells, show r + UInt32.ofNat 0 = r from UInt32.add_zero r] at zeros
    refine ⟨r, _, ?_, .inr ⟨ne, fresh, zeros⟩⟩
    simp only [Kheap.kcalloc, run, if_neg ne, exact_]
    rfl

/-- An object of another size. -/
lemma Represents.krealloc (rep : Represents s L o) (at_ : o p = some c) (pos : n ≠ 0) (small : n.toNat ≤ 0x3FE00000) :
    ∃ r s', krealloc s p n = some (r, s') ∧ (r = 0 ∧ s' = s ∨ r ≠ 0 ∧ (r = p ∨ r ∉ L.map Prod.fst) ∧
      Represents s' ((r, n.toNat) :: L.drop p) ((o.drop p).put r (c.fit n.toNat))) := by
  have nw := not_wraps_of_le small
  have live := rep.sizes.live at_
  have inP : p ∈ L.map Prod.fst := List.mem_map_of_mem live
  obtain ⟨l, v, own⟩ := id rep.inv
  obtain ⟨b, mem, used, addr, le⟩ := own.block _ live
  change p.toNat = b.addr + 12 at addr
  change c.length ≤ b.size at le
  obtain ⟨r, s', run, inv'⟩ := call_keeps (c := .krealloc p n) rep.inv (.inr inP) nw
  have run' : Kheap.krealloc s p n = some (r, s') := run
  refine ⟨r, s', run', ?_⟩
  by_cases null : r = 0
  · subst null
    exact .inl ⟨rfl, krealloc_null v nw (payload_ne_null addr) pos run'⟩
  · rw [HeapCall.live, if_pos null] at inv'
    obtain ⟨l', v', own'⟩ := id inv'
    have fresh : r ∉ (L.drop p).map Prod.fst := (List.nodup_cons.mp own'.nodup).1
    refine .inr ⟨null, ?_, inv', rep.sizes.drop.put fresh Cells.fit_length, ?_⟩
    · by_cases eq : r = p
      · exact .inl eq
      · refine .inr fun old => fresh ?_
        obtain ⟨x, memx, rfl⟩ := List.mem_map.mp old
        exact List.mem_map_of_mem (mem_drop.mpr ⟨memx, eq⟩)
    · -- the bytes of the object and of the others
      have bytes : s'.mem.loadBytes r (min c.length n.toNat) = s.mem.loadBytes p (min c.length n.toNat) ∧
          ∀ q d, o q = some d → q ≠ p → s'.mem.loadBytes q d.length = s.mem.loadBytes q d.length := by
        by_cases large : n.toNat ≤ b.size
        · cases (krealloc_stay v mem addr pos large).symm.trans run'
          exact ⟨rfl, fun _ _ _ _ => rfl⟩
        · obtain ⟨moved, others⟩ := krealloc_move v mem used addr nw null (Nat.lt_of_not_le large) run'
          refine ⟨?_, fun q d hq ne => ?_⟩
          · have le : min c.length n.toNat ≤ b.size := by omega
            rw [← loadBytes_take le, ← loadBytes_take le, moved]
          · obtain ⟨b', mem', used', addr', le'⟩ := own.block _ (rep.sizes.live hq)
            refine others b' mem' used' ?_ q d.length addr' le'
            rintro rfl
            exact ne (UInt32.toNat_inj.mp (addr'.trans addr.symm))
      intro q d hq
      obtain ⟨rfl, rfl⟩ | ⟨-, hq⟩ := Objects.put_eq_some.mp hq
      · exact (rep.holds p c at_).moved bytes.1
      · obtain ⟨ne, hq⟩ := Objects.drop_eq_some.mp hq
        exact rep.kept hq (bytes.2 q d hq ne)

/-! ## Operations and runs. -/

/-- `NULL` is no object. -/
lemma Represents.null (rep : Represents s L o) : o 0 = none := by
  obtain ⟨l, v, own⟩ := id rep.inv
  by_contra some_
  exact own.ne_null (rep.sizes.mem_fst.mpr (Option.isSome_iff_ne_none.mpr some_)) rfl

lemma Represents.drop_null (rep : Represents s L o) : o.drop 0 = o := by
  rw [Objects.drop, ← rep.null]
  exact Function.update_eq_self 0 o

/-- A pointer that is not live is none of an object. -/
lemma Represents.fresh (rep : Represents s L o) (fresh : r ∉ L.map Prod.fst) : o r = none := by
  rwa [rep.sizes.mem_fst, Bool.not_eq_true, Option.isSome_eq_false_iff, Option.isNone_iff_eq_none] at fresh

/-- A call keeps the representation. -/
lemma Represents.call {c : HeapCall} (rep : Represents s L o) (legal : c.ptr = 0 ∨ (o c.ptr).isSome)
    (small : c.bytes ≤ 0x3FE00000) : ∃ r s', c.run s = some (r, s') ∧ (r = 0 ∨ o r = none ∨ r = c.ptr) ∧
      ∃ L', Represents s' L' (c.objects o r) := by
  cases c with
  | kmalloc n =>
    obtain ⟨r, s', run, ⟨rfl, rfl⟩ | ⟨ne, fresh, rep'⟩⟩ := rep.kmalloc (not_wraps_of_le (n := n) small)
    · exact ⟨0, s', run, .inl rfl, L, rep⟩
    · refine ⟨r, s', run, .inr (.inl (rep.fresh fresh)), (r, n.toNat) :: L, ?_⟩
      rw [HeapCall.objects, if_pos ne]
      exact rep'
  | kcalloc num n =>
    obtain ⟨r, s', run, ⟨rfl, rfl⟩ | ⟨ne, fresh, rep'⟩⟩ := rep.kcalloc small
    · exact ⟨0, s', run, .inl rfl, L, rep⟩
    · refine ⟨r, s', run, .inr (.inl (rep.fresh fresh)), (r, num.toNat * n.toNat) :: L, ?_⟩
      rw [HeapCall.objects, if_pos ne]
      exact rep'
  | krealloc p n =>
    obtain null | live := legal
    · obtain rfl : p = 0 := null
      obtain ⟨r, s', run, ⟨rfl, rfl⟩ | ⟨ne, fresh, rep'⟩⟩ := rep.kmalloc (not_wraps_of_le (n := n) small)
      · refine ⟨0, s', by simpa only [HeapCall.run, Kheap.krealloc, ↓reduceIte] using run, .inl rfl, L, ?_⟩
        rw [HeapCall.objects, if_neg (not_not.mpr rfl), rep.drop_null, ite_self]
        exact rep
      · refine ⟨r, s', by simpa only [HeapCall.run, Kheap.krealloc, ↓reduceIte] using run,
          .inr (.inl (rep.fresh fresh)), (r, n.toNat) :: L, ?_⟩
        rw [HeapCall.objects, if_pos ne, rep.drop_null, rep.null]
        simpa [Cells.fit] using rep'
    · obtain ⟨c, at_⟩ := Option.isSome_iff_exists.mp live
      change o p = some c at at_
      by_cases pos : n = 0
      · subst pos
        have nonnull : p ≠ 0 := by
          rintro rfl
          cases rep.null.symm.trans at_
        obtain ⟨s', free, rep'⟩ := rep.kfree (p := p) (rep.sizes.mem_fst.mpr live)
        refine ⟨0, s', by simp only [HeapCall.run, Kheap.krealloc, nonnull, free, ↓reduceIte], .inl rfl, L.drop p, ?_⟩
        rw [HeapCall.objects, if_neg (not_not.mpr rfl), if_pos rfl]
        exact rep'
      · obtain ⟨r, s', run, ⟨rfl, rfl⟩ | ⟨ne, place, rep'⟩⟩ := rep.krealloc at_ pos small
        · refine ⟨0, s', run, .inl rfl, L, ?_⟩
          rw [HeapCall.objects, if_neg (not_not.mpr rfl), if_neg pos]
          exact rep
        · refine ⟨r, s', run, .inr (place.symm.imp_left rep.fresh), (r, n.toNat) :: L.drop p, ?_⟩
          rw [HeapCall.objects, if_pos ne, at_]
          exact rep'
  | kfree p =>
    obtain null | live := legal
    · obtain rfl : p = 0 := null
      refine ⟨0, s, by simp [HeapCall.run, Kheap.kfree], .inl rfl, L, ?_⟩
      rw [HeapCall.objects, rep.drop_null]
      exact rep
    · obtain ⟨s', free, rep'⟩ := rep.kfree (p := p) (rep.sizes.mem_fst.mpr live)
      exact ⟨0, s', by simp [HeapCall.run, free], .inl rfl, _, rep'⟩

/-- Every legal operation returns what the store permits, and keeps the representation. -/
theorem Represents.step {op : ClientOp} (rep : Represents s L o) (legal : op.Legal o) :
    ∃ r bytes s', op.exec s = some ((r, bytes), s') ∧ op.Permits o r bytes ∧
      ∃ L', Represents s' L' (op.objects o r) := by
  cases op with
  | call c =>
    obtain ⟨r, s', run, place, rep'⟩ := rep.call legal.1 legal.2
    exact ⟨r, [], s', by rw [ClientOp.exec, run, Option.map_some], place, rep'⟩
  | write p i bs =>
    obtain ⟨c, at_, inside⟩ := legal
    refine ⟨0, [], _, rfl, trivial, L, ?_⟩
    rw [ClientOp.objects, at_]
    exact rep.write at_ inside
  | read p i n =>
    refine ⟨0, _, s, rfl, ⟨Memory.loadBytes_length, fun c at_ => ?_⟩, L, rep⟩
    exact (rep.holds p c at_).shows i n

/-- A fresh heap has no live allocation. -/
lemma inv_kheapInit (fresh : s.kheapInited = false) : Inv (kheapInit s, []) :=
  Reachable.inv fresh Relation.ReflTransGen.refl

/-- A fresh heap represents the store without objects. -/
lemma represents_kheapInit (fresh : s.kheapInited = false) : Represents (kheapInit s) [] fun _ => none := by
  refine ⟨inv_kheapInit fresh, fun p k => ?_, fun p c at_ => ?_⟩
  · simp
  · cases at_

/-- An operation leaves the other objects alone. -/
lemma ClientOp.objects_other {op : ClientOp} {bytes : List UInt8} (permits : op.Permits o r bytes) (at_ : o p = some c)
    (ne : p ≠ op.target) : op.objects o r p = some c := by
  have apart (nonnull : r ≠ 0) (place : r = 0 ∨ o r = none ∨ r = op.target) : p ≠ r := by
    rintro rfl
    obtain null | empty | same := place
    · exact nonnull null
    · cases empty.symm.trans at_
    · exact ne same
  cases op with
  | call call =>
    cases call with
    | kmalloc n =>
      rw [ClientOp.objects, HeapCall.objects]
      split_ifs with nonnull
      · exact Objects.put_eq_some.mpr (.inr ⟨apart nonnull permits, at_⟩)
      · exact at_
    | kcalloc num n =>
      rw [ClientOp.objects, HeapCall.objects]
      split_ifs with nonnull
      · exact Objects.put_eq_some.mpr (.inr ⟨apart nonnull permits, at_⟩)
      · exact at_
    | krealloc q n =>
      have kept : o.drop q p = some c := Objects.drop_eq_some.mpr ⟨ne, at_⟩
      rw [ClientOp.objects, HeapCall.objects]
      split_ifs with nonnull zero
      · exact Objects.put_eq_some.mpr (.inr ⟨apart nonnull permits, kept⟩)
      · exact kept
      · exact at_
    | kfree q => exact Objects.drop_eq_some.mpr ⟨ne, at_⟩
  | write q i bs => exact Objects.put_eq_some.mpr (.inr ⟨ne, at_⟩)
  | read q i n => exact at_

/-- A run of clients from a fresh heap without objects. -/
abbrev Session (s0 : Heap) : Heap × Store → Prop :=
  Runs ClientOp.step (fun x op => op.Legal x.2) (kheapInit s0, fun _ => none)

/-- In a run of legal operations the heap represents the store throughout, and the next legal operation returns what
    the store permits. -/
theorem heap_objects {s0 : Heap} (fresh : s0.kheapInited = false) (run : Session s0 (s, o)) :
    (∃ L, Represents s L o) ∧ ∀ op : ClientOp, op.Legal o →
      ∃ r bytes s', op.exec s = some ((r, bytes), s') ∧ op.Permits o r bytes := by
  have rep : ∃ L, Represents s L o := by
    refine run.invariant (I := fun x => ∃ L, Represents x.1 L x.2) ⟨[], represents_kheapInit fresh⟩ ?_
    rintro ⟨s, o⟩ op x' ⟨L, rep⟩ legal step
    obtain ⟨r, bytes, s', exec, -, rep'⟩ := rep.step legal
    rw [ClientOp.step, exec, Option.map_some] at step
    cases step
    exact rep'
  refine ⟨rep, fun op legal => ?_⟩
  obtain ⟨L, rep⟩ := rep
  obtain ⟨r, bytes, s', exec, permits, -⟩ := rep.step legal
  exact ⟨r, bytes, s', exec, permits⟩

/-- An operation that extends a run. -/
lemma session_step {s0 : Heap} {bytes : List UInt8} {op : ClientOp} (run : Session s0 (s, o)) (legal : op.Legal o)
    (exec : op.exec s = some ((r, bytes), s')) : Session s0 (s', op.objects o r) := by
  refine Runs.step run legal ?_
  rw [ClientOp.step, exec, Option.map_some]

/-- An object with three bytes that were written. -/
def written : Cells UInt8 := (Cells.blank 64).write 1 [7, 8, 9]

/-- A client that allocates 64 bytes and writes three of them. -/
lemma session_written : ∃ s o, Session bare (s, o) ∧ o 0xC000000C = some written := by
  obtain ⟨s, alloc⟩ := kmalloc_first (s := bare) (n := 64) rfl (by decide)
  have legal : (ClientOp.call (.kmalloc 64)).Legal fun _ => none := ⟨.inl rfl, by decide⟩
  have made := session_step Runs.refl legal (show _ = some ((0xC000000C, []), s) by
    rw [ClientOp.exec, HeapCall.run, alloc, Option.map_some])
  have at_ : (HeapCall.kmalloc 64).objects (fun _ => none) 0xC000000C 0xC000000C = some (.blank 64) := by
    simp [HeapCall.objects, Objects.put]
  have inside : (ClientOp.write 0xC000000C 1 [7, 8, 9]).Legal _ := ⟨_, at_, by decide⟩
  have stored := session_step made inside rfl
  refine ⟨_, _, stored, ?_⟩
  simp only [ClientOp.objects, at_, Option.getD_some]
  exact Function.update_self ..

/-- The bytes are read back behind another allocation. -/
theorem heap_objects_written : ∃ s o, Session bare (s, o) ∧ ∃ r bytes s',
    (ClientOp.read 0xC000000C 1 3).exec s = some ((r, bytes), s') ∧ bytes = [7, 8, 9] := by
  obtain ⟨s, o, run, at_⟩ := session_written
  obtain ⟨-, next⟩ := heap_objects rfl run
  have legal : (ClientOp.call (.kmalloc 32)).Legal o := ⟨.inl rfl, by decide⟩
  obtain ⟨r, x, s', exec, place⟩ := next _ legal
  have again := session_step run legal exec
  have still : (ClientOp.call (.kmalloc 32)).objects o r 0xC000000C = some written := by
    rw [ClientOp.objects, HeapCall.objects]
    split_ifs with null
    · refine Objects.put_eq_some.mpr (.inr ⟨?_, at_⟩)
      rintro rfl
      obtain null' | empty | null' := place
      · exact null null'
      · cases empty.symm.trans at_
      · exact null null'
    · exact at_
  obtain ⟨-, next⟩ := heap_objects rfl again
  obtain ⟨r', bytes, s'', exec', len, shown⟩ := next (.read 0xC000000C 1 3) ⟨_, still, by decide⟩
  exact ⟨s', _, again, r', bytes, s'', exec', (shown _ still).written (by decide) len⟩

end RetaOS.Kheap
