import RetaOS.Kheap.Calls

/-!
# Runs of the heap

A run starts right after `kheap_init` and takes any number of steps: a call of the interface, or a store by
the owner of an allocation into its bytes. `Live` is the ghost list of allocations that have been handed out
and not given back, with the exact number of bytes each was asked for. The invariant of a run is that some
block list is `Valid` and its blocks in use are exactly the live allocations (`Owns`).

Runs are taken over the calls that are `Good`: those whose 32-bit request neither wraps past the limit check
nor, for `kcalloc`, stands for a product it does not hold.
-/

namespace RetaOS.Kheap
open Lib

/-- The calls of the heap interface. -/
inductive HeapCall where
  | kmalloc (size : UInt32)
  | kcalloc (num size : UInt32)
  | krealloc (ptr size : UInt32)
  | kfree (ptr : UInt32)

/-- The live allocations: pointer, and bytes asked for. -/
abbrev Live := List (UInt32 × Nat)

/-- The live allocations without the one at `p`. -/
def Live.drop (p : UInt32) (L : Live) : Live := L.filter fun x => x.1 ≠ p

namespace HeapCall

/-- Execute a call; `kfree` has no result and counts as returning `NULL`. -/
def run (s : Heap) : HeapCall → Option (UInt32 × Heap)
  | kmalloc n => Kheap.kmalloc s n
  | kcalloc num n => Kheap.kcalloc s num n
  | krealloc p n => Kheap.krealloc s p n
  | kfree p => (Kheap.kfree s p).map fun s => (0, s)

/-- The exact number of bytes a call asks for. -/
def bytes : HeapCall → Nat
  | kmalloc n => n.toNat
  | kcalloc num n => num.toNat * n.toNat
  | krealloc _ n => n.toNat
  | kfree _ => 0

/-- The pointer a call gives up or may give up. -/
def ptr : HeapCall → UInt32
  | krealloc p _ => p
  | kfree p => p
  | _ => 0

/-- The live allocations after a call that returned `r`. -/
def live (L : Live) (r : UInt32) : HeapCall → Live
  | kfree p => L.drop p
  | krealloc p n =>
    if r ≠ 0 then (r, n.toNat) :: L.drop p
    else if n = 0 then L.drop p
    else L
  | c => if r ≠ 0 then (r, c.bytes) :: L else L

/-- A call may give up `NULL` or a live pointer. -/
def Legal (L : Live) (c : HeapCall) : Prop := c.ptr = 0 ∨ c.ptr ∈ L.map Prod.fst

/-- No free block of the list holds `n` bytes. -/
def Full (s : Heap) (n : UInt32) : Prop :=
  ∀ l, Linked s.mem s.firstBlock l 0 → ∀ b ∈ l, ¬ Fits (request n) b

/-- The 32-bit request does not wrap, and a product that does not fit 32 bits meets a full heap. -/
def Good (s : Heap) : HeapCall → Prop
  | kmalloc n => ¬ Wraps n
  | kcalloc num n => ¬ Wraps (num * n) ∧ (num.toNat * n.toNat < 2 ^ 32 ∨ Full s (num * n))
  | krealloc _ n => ¬ Wraps n
  | kfree _ => True

/-- Requests of at most `0x3FE00000` bytes. -/
def Bounded (_ : Heap) (c : HeapCall) : Prop := c.bytes ≤ 0x3FE00000

end HeapCall

open HeapCall (Legal Full Good Bounded)

/-- One step of a run: a call, or a store into the bytes of a live allocation. -/
inductive Step (ok : Heap → HeapCall → Prop) : Heap × Live → Heap × Live → Prop where
  | call {s L r s'} (c : HeapCall) :
    Legal L c →
    ok s c →
    c.run s = some (r, s') →
    Step ok (s, L) (s', c.live L r)
  | write {s L p n} {a : UInt32} {bs : List UInt8} :
    (p, n) ∈ L →
    p.toNat ≤ a.toNat →
    a.toNat + bs.length ≤ p.toNat + n →
    Step ok (s, L) ({ s with mem := s.mem.storeBytes a bs }, L)

/-- The states of the runs that start with `kheap_init` in `s0`. -/
def Reachable (ok : Heap → HeapCall → Prop) (s0 : Heap) : Heap × Live → Prop :=
  Relation.ReflTransGen (Step ok) (kheapInit s0, [])

/-- A weaker condition on the calls reaches more. -/
lemma Reachable.mono {ok ok' : Heap → HeapCall → Prop} {s0 x} (le : ∀ s c, ok s c → ok' s c)
    (run : Reachable ok s0 x) : Reachable ok' s0 x := by
  refine Relation.ReflTransGen.mono (fun x y step => ?_) _ _ run
  cases step with
  | call c legal good run => exact .call c legal (le _ _ good) run
  | write mem lo hi => exact .write mem lo hi

/-- Small requests are good. -/
lemma Good.of_bounded {s : Heap} {c : HeapCall} (h : Bounded s c) : Good s c := by
  have small : ∀ n : UInt32, n.toNat ≤ 0x3FE00000 → ¬ Wraps n := by
    intro n le w
    have := w.1
    omega
  cases c with
  | kmalloc n => exact small n h
  | krealloc p n => exact small n h
  | kfree p => trivial
  | kcalloc num n =>
    have le : num.toNat * n.toNat ≤ 0x3FE00000 := h
    have eq : (num * n).toNat = num.toNat * n.toNat := by
      rw [UInt32.toNat_mul, Nat.mod_eq_of_lt (by omega)]
    exact ⟨small _ (by rw [eq]; exact le), .inl (by omega)⟩

/-! ## The live allocations are the blocks in use. -/

/-- The blocks in use of `l` are the live allocations, each with at least the bytes asked for. -/
structure Owns (l : List Block) (L : Live) : Prop where
  nodup : (L.map Prod.fst).Nodup
  block : ∀ x ∈ L, ∃ b ∈ l, b.used = true ∧ x.1.toNat = b.addr + 12 ∧ x.2 ≤ b.size
  live : ∀ b ∈ l, b.used = true → ∃ x ∈ L, x.1.toNat = b.addr + 12

variable {s s' : Heap} {l l' : List Block} {L : Live} {b : Block} {p n : UInt32} {k : Nat}

lemma mem_drop {x} : x ∈ L.drop p ↔ x ∈ L ∧ x.1 ≠ p := by
  simp [Live.drop]

lemma drop_nodup (h : (L.map Prod.fst).Nodup) : ((L.drop p).map Prod.fst).Nodup :=
  h.sublist (List.Sublist.map _ List.filter_sublist)

/-- An allocation joins the live ones. -/
lemma Owns.alloc (o : Owns l L) (a : Allocated l l' p n) (le : k ≤ n.toNat) : Owns l' ((p, k) :: L) := by
  obtain ⟨d, used, addr, size, fresh, iff⟩ := a
  refine ⟨?_, fun x mem => ?_, fun b mem usedb => ?_⟩
  · rw [List.map_cons, List.nodup_cons]
    refine ⟨fun mem => ?_, o.nodup⟩
    obtain ⟨x, memx, rfl⟩ := List.mem_map.mp mem
    obtain ⟨b, memb, usedb, addrb, -⟩ := o.block x memx
    exact fresh b memb usedb (by omega)
  · rcases List.mem_cons.mp mem with rfl | mem
    · exact ⟨d, (iff d used).mpr (.inl rfl), used, addr, by omega⟩
    · obtain ⟨b, memb, usedb, rest⟩ := o.block x mem
      exact ⟨b, (iff b usedb).mpr (.inr memb), usedb, rest⟩
  · rcases (iff b usedb).mp mem with rfl | mem
    · exact ⟨(p, k), by simp, addr⟩
    · obtain ⟨x, memx, addrx⟩ := o.live b mem usedb
      exact ⟨x, by simp [memx], addrx⟩

/-- A released block leaves the live allocations. -/
lemma Owns.release (o : Owns l L) (t : Tiled 12 0xC0000000 l 0xC0100000) (r : Released l l' p) :
    Owns l' (L.drop p) := by
  obtain ⟨d, memd, used, addr, iff⟩ := r
  refine ⟨drop_nodup o.nodup, fun x mem => ?_, fun b mem usedb => ?_⟩
  · obtain ⟨mem, ne⟩ := mem_drop.mp mem
    obtain ⟨b, memb, usedb, addrb, le⟩ := o.block x mem
    refine ⟨b, (iff b usedb).mpr ⟨memb, ?_⟩, usedb, addrb, le⟩
    rintro rfl
    exact ne (UInt32.toNat_inj.mp (addrb.trans addr.symm))
  · obtain ⟨mem, ne⟩ := (iff b usedb).mp mem
    obtain ⟨x, memx, addrx⟩ := o.live b mem usedb
    refine ⟨x, mem_drop.mpr ⟨memx, fun eq => ?_⟩, addrx⟩
    refine ne (t.eq_of_addr (by decide) mem memd ?_)
    rw [← eq] at addr
    omega

/-- A live allocation that is resized in place. -/
lemma Owns.resize (o : Owns l L) (mem : b ∈ l) (used : b.used = true) (addr : p.toNat = b.addr + 12)
    (le : k ≤ b.size) : Owns l ((p, k) :: L.drop p) := by
  refine ⟨?_, fun x memx => ?_, fun c memc usedc => ?_⟩
  · rw [List.map_cons, List.nodup_cons]
    refine ⟨fun memp => ?_, drop_nodup o.nodup⟩
    obtain ⟨x, memx, eq⟩ := List.mem_map.mp memp
    exact (mem_drop.mp memx).2 eq
  · rcases List.mem_cons.mp memx with rfl | memx
    · exact ⟨b, mem, used, addr, le⟩
    · exact o.block x (mem_drop.mp memx).1
  · obtain ⟨x, memx, addrx⟩ := o.live c memc usedc
    by_cases eq : x.1 = p
    · exact ⟨(p, k), by simp, by rw [← eq]; exact addrx⟩
    · exact ⟨x, by simp [mem_drop.mpr ⟨memx, eq⟩], addrx⟩

/-- A live pointer is not `NULL`. -/
lemma Owns.ne_null (o : Owns l L) (mem : p ∈ L.map Prod.fst) : p ≠ 0 := by
  rintro rfl
  obtain ⟨x, memx, eq⟩ := List.mem_map.mp mem
  obtain ⟨b, -, -, addr, -⟩ := o.block x memx
  rw [eq] at addr
  have : 0 = b.addr + 12 := addr
  omega

/-- Giving up `NULL` leaves the live allocations alone. -/
lemma Owns.drop_null (o : Owns l L) : L.drop 0 = L := by
  rw [Live.drop, List.filter_eq_self]
  intro x mem
  simpa using o.ne_null (List.mem_map_of_mem (f := Prod.fst) mem)

/-! ## Steps and runs. -/

/-- What a pointer and a number of bytes must satisfy to be backed by the heap region. -/
def InRegion (p : UInt32) (k : Nat) : Prop :=
  KHEAP_START.toNat ≤ p.toNat ∧ p.toNat + k ≤ KHEAP_START.toNat + 0x100000

instance (p : UInt32) (k : Nat) : Decidable (InRegion p k) := inferInstanceAs (Decidable (_ ∧ _))

/-- The bytes of a live allocation lie in the heap region. -/
lemma Owns.inRegion (o : Owns l L) (v : Valid s l) (mem : (p, k) ∈ L) : InRegion p k := by
  obtain ⟨b, memb, -, addr, le⟩ := o.block _ mem
  have bounds := v.bounds memb
  rw [Block.limit] at bounds
  change p.toNat = b.addr + 12 at addr
  change k ≤ b.size at le
  change 0xC0000000 ≤ p.toNat ∧ p.toNat + k ≤ 0xC0000000 + 0x100000
  omega

/-- The invariant of a run. -/
def Inv : Heap × Live → Prop
  | (s, L) => ∃ l, Valid s l ∧ Owns l L

/-- The effect of a call for `n` fresh bytes. -/
lemma alloc_keeps {r} (o : Owns l L) (v' : Valid s' l')
    (h : (r = 0 ∧ l' = l) ∨ (r ≠ 0 ∧ Allocated l l' r n ∧ k ≤ n.toNat)) :
    Inv (s', if r ≠ 0 then (r, k) :: L else L) := by
  rcases h with ⟨rfl, rfl⟩ | ⟨ne, alloc, le⟩
  · exact ⟨_, v', o⟩
  · rw [if_pos ne]
    exact ⟨_, v', o.alloc alloc le⟩

/-- A good call returns and keeps the invariant. -/
theorem call_keeps {c : HeapCall} (inv : Inv (s, L)) (legal : Legal L c) (good : Good s c) :
    ∃ r s', c.run s = some (r, s') ∧ Inv (s', c.live L r) := by
  obtain ⟨l, v, o⟩ := inv
  cases c with
  | kmalloc n =>
    obtain ⟨r, s', l', run, v', -, h⟩ := kmalloc_effect v good
    refine ⟨r, s', run, alloc_keeps (n := n) o v' ?_⟩
    rcases h with ⟨null, -, same, -⟩ | ⟨ne, alloc, -⟩
    · exact .inl ⟨null, same⟩
    · exact .inr ⟨ne, alloc, le_rfl⟩
  | kcalloc num n =>
    obtain ⟨nw, exact⟩ := good
    obtain ⟨r, s', l', run, v', h⟩ := kcalloc_effect v nw
    refine ⟨r, s', run, alloc_keeps (n := num * n) o v' ?_⟩
    rcases h with ⟨null, -, same, -⟩ | ⟨ne, alloc, b, mem, fit⟩
    · exact .inl ⟨null, same⟩
    · -- a block was taken, so the heap was not full and the product is exact
      refine .inr ⟨ne, alloc, ?_⟩
      rcases exact with lt | full
      · rw [UInt32.toNat_mul, Nat.mod_eq_of_lt lt]
        exact le_rfl
      · exact absurd fit (full l v.linked b mem)
  | krealloc p n =>
    rcases legal with null | live
    · obtain rfl : p = 0 := null
      obtain ⟨r, s', l', run, v', -, h⟩ := kmalloc_effect v good
      refine ⟨r, s', by simpa only [HeapCall.run, krealloc, ↓reduceIte] using run, ?_⟩
      have keep := alloc_keeps (n := n) (k := n.toNat) o v' (by
        rcases h with ⟨null, -, same, -⟩ | ⟨ne, alloc, -⟩
        · exact .inl ⟨null, same⟩
        · exact .inr ⟨ne, alloc, le_rfl⟩)
      simpa only [HeapCall.live, o.drop_null, ite_self] using keep
    · have nonnull : p ≠ 0 := o.ne_null live
      obtain ⟨x, memx, rfl⟩ := List.mem_map.mp live
      obtain ⟨b, mem, used, addr, -⟩ := o.block x memx
      by_cases zero : n = 0
      · obtain ⟨s', l', free, v', rel, -⟩ := kfree_effect v mem used addr
        refine ⟨0, s', by simp only [HeapCall.run, krealloc, nonnull, zero, free, ↓reduceIte], l', v', ?_⟩
        simpa [HeapCall.live, zero] using o.release v.tiled rel
      · obtain ⟨r, s', l', run, v', h⟩ := krealloc_effect v mem used addr good zero
        refine ⟨r, s', run, l', v', ?_⟩
        rcases h with ⟨rfl, rfl, le⟩ | ⟨rfl, rfl⟩ | ⟨ne, s1, l1, v1, alloc, rel⟩
        · rw [HeapCall.live, if_pos nonnull]
          exact o.resize mem used addr le
        · simpa [HeapCall.live, zero] using o
        · rw [HeapCall.live, if_pos ne]
          have o1 := o.alloc alloc le_rfl
          have fresh : r ≠ x.1 := by
            rintro rfl
            exact (List.nodup_cons.mp o1.nodup).1 live
          have o2 := o1.release v1.tiled rel
          rwa [Live.drop, List.filter_cons_of_pos (by simpa using fresh)] at o2
  | kfree p =>
    rcases legal with null | live
    · obtain rfl : p = 0 := null
      refine ⟨0, s, by simp [HeapCall.run, kfree], l, v, ?_⟩
      rw [HeapCall.live, o.drop_null]
      exact o
    · obtain ⟨x, memx, rfl⟩ := List.mem_map.mp live
      obtain ⟨b, mem, used, addr, -⟩ := o.block x memx
      obtain ⟨s', l', free, v', rel, -⟩ := kfree_effect v mem used addr
      exact ⟨0, s', by simp [HeapCall.run, free], l', v', o.release v.tiled rel⟩

/-- A store into the bytes of a live allocation keeps the invariant. -/
lemma write_keeps {a : UInt32} {bs : List UInt8} (inv : Inv (s, L)) (mem : (p, k) ∈ L)
    (lo : p.toNat ≤ a.toNat) (hi : a.toNat + bs.length ≤ p.toNat + k) :
    Inv ({ s with mem := s.mem.storeBytes a bs }, L) := by
  obtain ⟨l, v, o⟩ := inv
  obtain ⟨b, memb, -, addr, le⟩ := o.block _ mem
  change p.toNat = b.addr + 12 at addr
  change k ≤ b.size at le
  refine ⟨l, v.payload memb (by omega) ?_, o⟩
  rw [Block.limit]
  omega

end RetaOS.Kheap
