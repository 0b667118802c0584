import RetaOS.Kheap.Run

/-!
# Integrity of the heap

What every run of the heap keeps, read off the headers in memory: the blocks that `next` visits tile the
heap region in order, the live payloads are disjoint and hold no header (`heap_tiled`); no two neighbours are
free, and a heap with nothing live is the one `kheap_init` made (`heap_coalesced`). The last section is about
the requests that are too large: a result of a call is backed by the heap region exactly when the call is
`Good` (`result_backed_iff`).
-/

namespace RetaOS.Kheap
open Lib
open HeapCall (Legal Full Good Bounded)

/-- The block `kheap_init` creates. -/
def initialBlock : Block := { addr := 0xC0000000, size := 0xFFFF4, used := false }

variable {s0 s : Heap} {l : List Block} {L : Live} {m : Memory} {p : UInt32}

/-- `kheap_init` makes a valid heap of one free block. -/
lemma kheapInit_valid {s : Heap} (fresh : s.kheapInited = false) : Valid (kheapInit s) [initialBlock] := by
  have fits : KHEAP_START.toNat + 12 ≤ 2 ^ 32 := by decide
  have init := fresh
  rw [← Bool.not_eq_true] at init
  rw [kheapInit, if_neg init]
  refine ⟨rfl, rfl, rfl, rfl, ?_, ⟨rfl, rfl⟩, List.isChain_singleton _, by simp [initialBlock]⟩
  refine ⟨⟨show KHEAP_START ≠ 0 by decide, rfl, fits, ?_, ?_⟩, next_setNext⟩
  · rw [size_setNext fits, size_setUsed fits, size_setSize]
    rfl
  · rw [used_setNext fits, used_setUsed]
    simp [initialBlock]

/-- Every state of a run of good calls satisfies the invariant. -/
theorem Reachable.inv (fresh : s0.kheapInited = false) {x} (run : Reachable Good s0 x) : Inv x := by
  induction run with
  | refl =>
    refine ⟨[initialBlock], kheapInit_valid fresh, List.nodup_nil, by simp, fun b mem used => ?_⟩
    obtain rfl : b = initialBlock := by simpa using mem
    cases used
  | tail _ step inv =>
    cases step with
    | call c legal good run =>
      obtain ⟨r, s', run', inv'⟩ := call_keeps inv legal good
      cases run.symm.trans run'
      exact inv'
    | write mem lo hi => exact write_keeps inv mem lo hi

/-! ## The block list in memory. -/

/-- Following `next` from `p` visits the addresses of `as` and then arrives at `NULL`. -/
def Visits (m : Memory) : UInt32 → List UInt32 → Prop
  | p, [] => p = 0
  | p, a :: as => p = a ∧ p ≠ 0 ∧ Visits m (next m p) as

/-- The address after the block whose header is at `a`. -/
def blockEnd (m : Memory) (a : UInt32) : Nat := a.toNat + sizeofBlock.toNat + (size m a).toNat

/-- The blocks that `next` visits tile the heap: they start at `KHEAP_START`, their addresses increase,
    each ends where the next one starts, and the last one ends at `kheap_end`. -/
structure Tiles (s : Heap) (as : List UInt32) : Prop where
  visits : Visits s.mem s.firstBlock as
  first : as.head? = some KHEAP_START
  next : as.IsChain fun a b => a < b ∧ blockEnd s.mem a = b.toNat
  last : ∀ a ∈ as.getLast?, blockEnd s.mem a = s.kheapEnd.toNat

/-- The addresses of the headers of a list. -/
def headers (l : List Block) : List UInt32 := l.map fun b => UInt32.ofNat b.addr

/-- The header of a block is at its address. -/
lemma Header.eq_addr {b} (hd : Header m p b) : p = UInt32.ofNat b.addr := by
  rw [← hd.addr, UInt32.ofNat_toNat]

lemma Header.blockEnd {b} (hd : Header m p b) : blockEnd m p = b.limit 12 := by
  rw [Kheap.blockEnd, hd.addr, hd.size]
  rfl

/-- A linked list visits its headers. -/
lemma Linked.visits (lk : Linked m p l 0) : Visits m p (headers l) := by
  induction l generalizing p with
  | nil => exact lk
  | cons b l ih => exact ⟨lk.1.eq_addr, lk.1.ne_null, ih lk.2⟩

/-- A block of a linked list has its header at its address. -/
lemma Linked.header_addr {b q} (lk : Linked m p l q) (mem : b ∈ l) : Header m (UInt32.ofNat b.addr) b := by
  obtain ⟨r, hd⟩ := lk.header mem
  rw [← hd.eq_addr]
  exact hd

/-- Neighbours of a tiled list meet, in order of address. -/
lemma Linked.isChain {a e q} (lk : Linked m p l q) (t : Tiled 12 a l e) :
    (headers l).IsChain fun a b => a < b ∧ Kheap.blockEnd m a = b.toNat := by
  induction l generalizing p a with
  | nil => exact List.isChain_nil
  | cons b l ih =>
    cases l with
    | nil => exact List.isChain_singleton _
    | cons c l =>
      obtain ⟨hb, lk⟩ := lk
      obtain ⟨-, t⟩ := t
      refine List.isChain_cons_cons.mpr ⟨?_, ih lk t⟩
      have meet : b.limit 12 = c.addr := t.1.symm
      have hb' := hb.eq_addr ▸ hb
      have hc' := lk.1.eq_addr ▸ lk.1
      rw [hb'.blockEnd, hc'.addr, UInt32.lt_iff_toNat_lt, hb'.addr, hc'.addr, meet]
      rw [Block.limit] at meet
      exact ⟨by omega, rfl⟩

/-- The last block of a tiled list ends where the tiling does. -/
lemma Linked.last {a e q} (lk : Linked m p l q) (t : Tiled 12 a l e) :
    ∀ x ∈ (headers l).getLast?, Kheap.blockEnd m x = e := by
  intro x mem
  rcases List.eq_nil_or_concat' l with rfl | ⟨l', b, rfl⟩
  · cases mem
  · have hd := lk.header_addr (b := b) (by simp)
    obtain ⟨_, -, -, lim⟩ := tiled_append.mp t
    obtain rfl : UInt32.ofNat b.addr = x := by simpa [headers] using mem
    rw [hd.blockEnd]
    exact lim

/-- A valid heap is tiled by the headers in its memory. -/
lemma Valid.tiles (v : Valid s l) : Tiles s (headers l) := by
  refine ⟨v.linked.visits, ?_, v.linked.isChain v.tiled, ?_⟩
  · cases l with
    | nil => cases v.tiled
    | cons b l =>
      have addr : b.addr = 0xC0000000 := v.tiled.1
      simp [headers, addr, KHEAP_START]
  · rw [v.limit]
    exact v.linked.last v.tiled

/-- The number of payload bytes of the block whose payload is at `p`. -/
def payloadSize (m : Memory) (p : UInt32) : Nat := (size m (p - sizeofBlock)).toNat

/-- The payloads of the live allocations: each behind a header of the list, long enough, and clear of every
    header; no two of them meeting. -/
structure PayloadsApart (m : Memory) (as : List UInt32) (L : Live) : Prop where
  header : ∀ x ∈ L, x.1 - sizeofBlock ∈ as
  long : ∀ x ∈ L, x.2 ≤ payloadSize m x.1
  clear : ∀ x ∈ L, ∀ a ∈ as, a.toNat + sizeofBlock.toNat ≤ x.1.toNat ∨ x.1.toNat + payloadSize m x.1 ≤ a.toNat
  apart : L.Pairwise fun x y => x.1.toNat + payloadSize m x.1 ≤ y.1.toNat ∨
    y.1.toNat + payloadSize m y.1 ≤ x.1.toNat

/-- The payloads of a valid heap are apart. -/
lemma Owns.payloadsApart (o : Owns l L) (v : Valid s l) : PayloadsApart s.mem (headers l) L := by
  have payload : ∀ x ∈ L, ∃ b ∈ l, x.1 - sizeofBlock = UInt32.ofNat b.addr ∧ x.1.toNat = b.addr + 12 ∧
      x.2 ≤ b.size ∧ payloadSize s.mem x.1 = b.size := by
    intro x mem
    obtain ⟨b, memb, -, addr, le⟩ := o.block x mem
    have hd := v.header_of_ptr memb addr
    exact ⟨b, memb, hd.eq_addr, addr, le, hd.size⟩
  refine ⟨fun x mem => ?_, fun x mem => ?_, fun x mem a mema => ?_, ?_⟩
  · obtain ⟨b, memb, ptr, -⟩ := payload x mem
    rw [ptr]
    exact List.mem_map_of_mem memb
  · obtain ⟨b, -, -, -, le, eq⟩ := payload x mem
    rw [eq]
    exact le
  · obtain ⟨b, memb, -, addr, -, eq⟩ := payload x mem
    obtain ⟨c, memc, rfl⟩ := List.mem_map.mp mema
    rw [(v.linked.header_addr memc).addr, eq, addr]
    change c.addr + 12 ≤ b.addr + 12 ∨ _
    rcases v.tiled.disjoint memb memc with rfl | le | le
    · exact .inl le_rfl
    · exact .inr le
    · rw [Block.limit] at le
      exact .inl (by omega)
  · refine (List.pairwise_map.mp o.nodup).imp_of_mem fun {x y} memx memy ne => ?_
    obtain ⟨b, memb, -, addrx, -, sizex⟩ := payload x memx
    obtain ⟨c, memc, -, addry, -, sizey⟩ := payload y memy
    rw [sizex, sizey, addrx, addry]
    rcases v.tiled.disjoint memb memc with rfl | le | le
    · exact absurd (UInt32.toNat_inj.mp (addrx.trans addry.symm)) ne
    · rw [Block.limit] at le
      exact .inl (by omega)
    · rw [Block.limit] at le
      exact .inr (by omega)

/-- In every run of bounded requests every further call returns, the block list tiles the heap, and the
    payloads of the live allocations are apart. -/
theorem heap_tiled (fresh : s0.kheapInited = false) (run : Reachable Bounded s0 (s, L)) :
    (∀ c : HeapCall, Legal L c → Bounded s c → ∃ r s', c.run s = some (r, s')) ∧
      ∃ as, Tiles s as ∧ PayloadsApart s.mem as L := by
  have inv := (run.mono fun _ _ => Good.of_bounded).inv fresh
  refine ⟨fun c legal bound => ?_, ?_⟩
  · obtain ⟨r, s', run, -⟩ := call_keeps inv legal (Good.of_bounded bound)
    exact ⟨r, s', run⟩
  obtain ⟨l, v, o⟩ := inv
  exact ⟨headers l, v.tiles, o.payloadsApart v⟩

/-- An address space of zeros, before `kheap_init`. -/
def bare : Heap :=
  { mem := fun _ => 0, firstBlock := 0, kheapStart := 0, kheapEnd := 0, kheapMax := 0, kheapInited := false }

/-- The first allocation takes the front of the initial block. -/
lemma kmalloc_first {s : Heap} {n : UInt32} (fresh : s.kheapInited = false) (le : n.toNat ≤ 0xFFFF4) :
    ∃ s', kmalloc (kheapInit s) n = some (0xC000000C, s') := by
  have v : Valid (kheapInit s) [initialBlock] := kheapInit_valid fresh
  have nw : ¬ Wraps n := fun w => by
    have := w.1
    omega
  rcases kmalloc_spec v nw with ⟨l1, b, l2, r, s', eq, -, addr, run, -⟩ | ⟨none, -⟩
  · have mem : b ∈ [initialBlock] := by simp [eq]
    obtain rfl : b = initialBlock := by simpa using mem
    obtain rfl : r = 0xC000000C := UInt32.toNat_inj.mp addr
    exact ⟨s', run⟩
  · refine absurd ⟨rfl, ?_⟩ (none initialBlock (by simp))
    rw [request_toNat]
    change max 4 n.toNat ≤ 0xFFFF4
    omega

/-- The first `kmalloc` initialises the heap. -/
lemma kmalloc_fresh {s : Heap} {n : UInt32} (fresh : s.kheapInited = false) (le : n.toNat ≤ 0xFFFF4) :
    ∃ s', kmalloc s n = some (0xC000000C, s') := by
  have run := kmalloc_first fresh le
  rwa [kmalloc_kheapInit] at run

/-- The run that allocates 64 bytes. -/
lemma reachable_kmalloc : ∃ s, kmalloc (kheapInit bare) 64 = some (0xC000000C, s) ∧
    Reachable Bounded bare (s, [(0xC000000C, 64)]) := by
  obtain ⟨s, run⟩ := kmalloc_first (s := bare) (n := 64) rfl (by decide)
  refine ⟨s, run, .tail .refl (.call (.kmalloc 64) (.inl rfl) ?_ run)⟩
  show (64 : UInt32).toNat ≤ 0x3FE00000
  decide

theorem heap_tiled_kmalloc : ∃ s, kmalloc (kheapInit bare) 64 = some (0xC000000C, s) ∧
    ∃ as, Tiles s as ∧ PayloadsApart s.mem as [(0xC000000C, 64)] := by
  obtain ⟨s, run, reach⟩ := reachable_kmalloc
  exact ⟨s, run, (heap_tiled rfl reach).2⟩

/-! ## Coalescing. -/

/-- Neighbours of a coalesced list are not both free. -/
lemma Linked.neighbours {q} (lk : Linked m p l q) (co : Coalesced l) :
    (headers l).IsChain fun a b => ¬ (used m a = 0 ∧ used m b = 0) := by
  induction l generalizing p with
  | nil => exact List.isChain_nil
  | cons b l ih =>
    cases l with
    | nil => exact List.isChain_singleton _
    | cons c l =>
      obtain ⟨hb, lk⟩ := lk
      obtain ⟨one, co⟩ := List.isChain_cons_cons.mp co
      refine List.isChain_cons_cons.mpr ⟨?_, ih lk co⟩
      have hb' := hb.eq_addr ▸ hb
      have hc' := lk.1.eq_addr ▸ lk.1
      rintro ⟨freeb, freec⟩
      rcases one with used | used
      · exact hb'.used.mpr used freeb
      · exact hc'.used.mpr used freec

/-- A valid heap without a block in use is the one `kheap_init` makes. -/
lemma Valid.unused (v : Valid s l) (free : ∀ b ∈ l, b.used = false) : l = [initialBlock] := by
  have ne : l ≠ [] := by
    rintro rfl
    cases v.tiled
  obtain ⟨b, rfl⟩ := v.coalesced.singleton ne free
  obtain ⟨addr, limit⟩ := v.tiled
  have unused := free b (by simp)
  have size : b.size = 0xFFFF4 := by
    change b.addr + 12 + b.size = 0xC0100000 at limit
    omega
  cases b
  cases addr
  cases size
  cases unused
  rfl

/-- Valid heaps have the same static variables. -/
lemma Valid.statics {s' : Heap} {l'} (v : Valid s l) (v' : Valid s' l') : { s' with mem := s.mem } = s := by
  have first : ∀ {s : Heap} {l}, Valid s l → s.firstBlock = KHEAP_START := by
    intro s l v
    match l, v.linked, v.tiled with
    | [], lk, t => cases t
    | b :: l, lk, t => exact UInt32.toNat_inj.mp (lk.1.addr.trans t.1)
  have limit := UInt32.toNat_inj.mp (v'.limit.trans v.limit.symm)
  have max := UInt32.toNat_inj.mp (v'.max.trans v.max.symm)
  cases s
  cases s'
  congr
  · exact (first v').trans (first v).symm
  · exact v'.start.trans v.start.symm
  · exact v'.inited.trans v.inited.symm

/-- In every run of bounded requests no two neighbours of the block list are free, and once nothing is live
    the heap is the single free block that `kheap_init` made. -/
theorem heap_coalesced (fresh : s0.kheapInited = false) (run : Reachable Bounded s0 (s, L)) :
    ∃ as, Visits s.mem s.firstBlock as ∧ (as.IsChain fun a b => ¬ (used s.mem a = 0 ∧ used s.mem b = 0)) ∧
      (L = [] → as = [KHEAP_START] ∧ { s with mem := (kheapInit s0).mem } = kheapInit s0 ∧
        next s.mem KHEAP_START = next (kheapInit s0).mem KHEAP_START ∧
        size s.mem KHEAP_START = size (kheapInit s0).mem KHEAP_START ∧
        used s.mem KHEAP_START = used (kheapInit s0).mem KHEAP_START) := by
  obtain ⟨l, v, o⟩ := (run.mono fun _ _ => Good.of_bounded).inv fresh
  refine ⟨headers l, v.linked.visits, v.linked.neighbours v.coalesced, ?_⟩
  rintro rfl
  have free : ∀ b ∈ l, b.used = false := by
    intro b mem
    by_contra used
    rw [Bool.not_eq_false] at used
    obtain ⟨x, memx, -⟩ := o.live b mem used
    cases memx
  obtain rfl := v.unused free
  have v0 := kheapInit_valid fresh
  obtain ⟨hd, next⟩ := v.linked
  obtain ⟨hd0, next0⟩ := v0.linked
  have first : s.firstBlock = KHEAP_START := hd.eq_addr
  have first0 : (kheapInit s0).firstBlock = KHEAP_START := hd0.eq_addr
  rw [first] at hd next
  rw [first0] at hd0 next0
  refine ⟨rfl, v0.statics v, next.trans next0.symm, UInt32.toNat_inj.mp (hd.size.trans hd0.size.symm), ?_⟩
  rw [hd.free rfl, hd0.free rfl]

theorem heap_coalesced_kfree : ∃ s s', kmalloc (kheapInit bare) 64 = some (0xC000000C, s) ∧
    kfree s 0xC000000C = some s' ∧ { s' with mem := (kheapInit bare).mem } = kheapInit bare := by
  obtain ⟨s, run, reach⟩ := reachable_kmalloc
  have legal : Legal [(0xC000000C, 64)] (.kfree 0xC000000C) := .inr (by simp [HeapCall.ptr])
  obtain ⟨r, s', free, -⟩ := call_keeps ((reach.mono fun _ _ => Good.of_bounded).inv rfl) legal trivial
  obtain ⟨s'', free', eq⟩ := Option.map_eq_some_iff.mp free
  obtain ⟨-, rfl⟩ := Prod.mk.inj eq
  refine ⟨s, s'', run, free', ?_⟩
  have reach' : Reachable Bounded bare (s'', []) := by
    exact .tail reach (.call (.kfree 0xC000000C) legal (Nat.zero_le _) free)
  obtain ⟨_, -, -, init⟩ := heap_coalesced rfl reach'
  exact (init rfl).2.1

/-! ## Requests that are too large. -/

/-- A call returns `NULL`, or a pointer whose bytes lie in the heap region. -/
def Backed (s : Heap) (c : HeapCall) : Prop :=
  ∃ r s', c.run s = some (r, s') ∧ (r = 0 ∨ InRegion r c.bytes)

/-- The block list of a heap is determined by its headers. -/
lemma Linked.unique {l'} (h : Linked m p l 0) (h' : Linked m p l' 0) : l = l' := by
  induction l generalizing p l' with
  | nil =>
    cases l' with
    | nil => rfl
    | cons b l' => exact absurd h h'.1.ne_null
  | cons b l ih =>
    cases l' with
    | nil => exact absurd h' h.1.ne_null
    | cons c l' =>
      have eq : b = c := by
        have addr := h.1.addr.symm.trans h'.1.addr
        have size := h.1.size.symm.trans h'.1.size
        have used := Bool.eq_iff_iff.mpr (h.1.used.symm.trans h'.1.used)
        cases b
        cases c
        congr
      rw [eq, ih h.2 h'.2]

/-- A request that wraps is not backed: its result is the address after the end of the heap. -/
lemma kmalloc_wild {n : UInt32} (v : Valid s l) (w : Wraps n) :
    ∃ r s', kmalloc s n = some (r, s') ∧ r ≠ 0 ∧ ∀ k, ¬ InRegion r k := by
  obtain ⟨s', run⟩ := kmalloc_wraps v w
  have addr : (s.kheapEnd + sizeofBlock).toNat = 0xC010000C := by
    rw [UInt32.toNat_add, v.limit]
    rfl
  refine ⟨_, s', run, ?_, fun k inside => ?_⟩
  · intro null
    rw [null] at addr
    cases addr
  · have hi := inside.2
    rw [addr] at hi
    change _ ≤ 0xC0100000 at hi
    omega

/-- The result of a call is live after it, with the bytes the call asked for. -/
lemma HeapCall.result_live {c : HeapCall} {r s'} (run : c.run s = some (r, s')) (ne : r ≠ 0) :
    (r, c.bytes) ∈ c.live L r := by
  cases c with
  | kmalloc n => simp [HeapCall.live, ne]
  | kcalloc num n => simp [HeapCall.live, ne]
  | krealloc p n => simp [HeapCall.live, HeapCall.bytes, ne]
  | kfree p =>
    rw [HeapCall.run, Option.map_eq_some_iff] at run
    obtain ⟨_, -, eq⟩ := run
    cases eq
    exact absurd rfl ne

/-- A backed call is good. -/
lemma Good.of_backed {c : HeapCall} (inv : Inv (s, L)) (legal : Legal L c) (back : Backed s c) : Good s c := by
  obtain ⟨l, v, o⟩ := inv
  obtain ⟨r, s', eq, back⟩ := back
  -- a `kmalloc` that wraps contradicts any backed result that comes from it
  have wild : ∀ {n s1 k}, kmalloc s n = some (r, s1) → (r = 0 ∨ InRegion r k) → ¬ Wraps n := by
    intro n s1 k run back w
    obtain ⟨r', s2, run', ne, out⟩ := kmalloc_wild v w
    cases run.symm.trans run'
    rcases back with null | inside
    · exact ne null
    · exact out _ inside
  cases c with
  | kmalloc n => exact wild eq back
  | kfree p => trivial
  | kcalloc num n =>
    have nw : ¬ Wraps (num * n) := by
      intro w
      obtain ⟨r', s2, run, ne, out⟩ := kmalloc_wild v w
      simp only [HeapCall.run, kcalloc, run, ne, ↓reduceIte, Option.some.injEq, Prod.mk.injEq] at eq
      rw [← eq.1] at back
      rcases back with null | inside
      · exact ne null
      · exact out _ inside
    refine ⟨nw, ?_⟩
    by_cases lt : num.toNat * n.toNat < 2 ^ 32
    · exact .inl lt
    · -- the range of a product that large leaves the region, so the result is `NULL` and the heap full
      obtain ⟨r', s2, l', run, -, ⟨-, -, -, none⟩ | ⟨ne, -⟩⟩ := kcalloc_effect v nw
      · refine .inr fun l2 lk b mem => ?_
        rw [lk.unique v.linked] at mem
        exact none b mem
      · cases eq.symm.trans run
        rcases back with null | inside
        · exact absurd null ne
        · have hi : r.toNat + num.toNat * n.toNat ≤ 0xC0100000 := inside.2
          have lo : 0xC0000000 ≤ r.toNat := inside.1
          omega
  | krealloc p n =>
    rcases legal with null | live
    · obtain rfl : p = 0 := null
      have run : kmalloc s n = some (r, s') := by
        simpa only [HeapCall.run, krealloc, ↓reduceIte] using eq
      exact wild run back
    · intro w
      have nonnull : p ≠ 0 := o.ne_null live
      have pos : n ≠ 0 := by
        rintro rfl
        exact absurd w.1 (by decide)
      obtain ⟨x, memx, rfl⟩ := List.mem_map.mp live
      obtain ⟨b, mem, -, addr, -⟩ := o.block x memx
      have hd := v.header_of_ptr mem addr
      have bounds := v.bounds mem
      have small : ¬ size s.mem (x.1 - sizeofBlock) ≥ n := by
        have lo := w.1
        rw [ge_iff_le, UInt32.le_iff_toNat_le, hd.size]
        rw [Block.limit] at bounds
        omega
      obtain ⟨r', s2, run, ne, out⟩ := kmalloc_wild v w
      simp only [HeapCall.run, krealloc, nonnull, pos, small, run, ne, ↓reduceIte] at eq
      split at eq
      · cases eq
      · cases eq
        rcases back with null | inside
        · exact ne null
        · exact out _ inside

/-- In every state reached by good calls, the next call is backed exactly when it is good. -/
theorem result_backed_iff {c : HeapCall} (fresh : s0.kheapInited = false)
    (run : Reachable Good s0 (s, L)) (legal : Legal L c) : Backed s c ↔ Good s c := by
  have inv := run.inv fresh
  refine ⟨Good.of_backed inv legal, fun good => ?_⟩
  obtain ⟨r, s', eq, l, v, o⟩ := call_keeps inv legal good
  refine ⟨r, s', eq, ?_⟩
  by_cases null : r = 0
  · exact .inl null
  · exact .inr (o.inRegion v (HeapCall.result_live eq null))

theorem result_backed_kmalloc : Backed (kheapInit bare) (.kmalloc 64) := by
  have legal : Legal [] (.kmalloc 64) := .inl rfl
  have good : Good (kheapInit bare) (.kmalloc 64) := show ¬ Wraps 64 by decide
  have start : Reachable Good bare (kheapInit bare, []) := .refl
  exact (result_backed_iff rfl start legal).mpr good

/-- The first request of 1 GiB gets the address after the end of the heap, and the first 65536 elements of
    65537 bytes get a block of their product modulo `2 ^ 32`. -/
theorem result_unbacked :
    (∃ r s', kmalloc (kheapInit bare) 0x40000000 = some (r, s') ∧ r ≠ 0 ∧ ¬ InRegion r 0x40000000) ∧
    ∃ r s', kcalloc (kheapInit bare) 0x10000 0x10001 = some (r, s') ∧ r ≠ 0 ∧ ¬ InRegion r (0x10000 * 0x10001) := by
  constructor
  · obtain ⟨r, s', run, ne, out⟩ := kmalloc_wild (kheapInit_valid (s := bare) rfl) (n := 0x40000000) (by decide)
    exact ⟨r, s', run, ne, out _⟩
  · obtain ⟨s', run⟩ := kmalloc_first (s := bare) (n := 0x10000 * 0x10001) rfl (by decide)
    let total : UInt32 := 0x10000 * 0x10001
    refine ⟨0xC000000C, { s' with mem := s'.mem.fill 0xC000000C 0 total.toNat }, ?_, by decide, by decide⟩
    simp only [kcalloc, run]
    rfl

end RetaOS.Kheap
