import RetaOS.Kheap.Defs
import RetaOS.Lib.Blocks

/-!
# Block headers in memory

What the field accesses of `struct heap_block` do to each other: a field reads back what was stored in it,
the fields of one header are independent, and a store changes no byte outside its header (`Frame`). On top
of that, `Header m p b` says that the header at `p` describes the block `b`, and `Linked m p l q` that
following `next` from `p` visits the blocks of `l` and arrives at `q`.
-/

namespace RetaOS.Kheap
open Lib

/-- No byte outside the header at `p` differs. -/
def Frame (p : UInt32) (m m' : Memory) : Prop :=
  ∀ x : UInt32, x.toNat < p.toNat ∨ p.toNat + 12 ≤ x.toNat → m' x = m x

variable {m m' m'' : Memory} {p q r v : UInt32} {u : UInt8}

lemma Frame.refl : Frame p m m := fun _ _ => rfl

lemma Frame.trans (h : Frame p m m') (h' : Frame p m' m'') : Frame p m m'' :=
  fun x hx => (h' x hx).trans (h x hx)

/-- The word at offset `k` of a header that does not wrap. -/
lemma field_toNat {k : Nat} (hp : p.toNat + 12 ≤ 2 ^ 32) (hk : k < 12) :
    (p + UInt32.ofNat k).toNat = p.toNat + k :=
  toNat_add_ofNat (by omega)

lemma frame_setNext (hp : p.toNat + 12 ≤ 2 ^ 32) : Frame p m (setNext m p v) := by
  intro x hx
  have := x.toNat_lt
  exact Memory.storeBytes_apart ⟨by simp; omega, by omega, by simp; omega⟩

lemma frame_setSize (hp : p.toNat + 12 ≤ 2 ^ 32) : Frame p m (setSize m p v) := by
  intro x hx
  have := x.toNat_lt
  have f : (p + 4).toNat = p.toNat + 4 := field_toNat (k := 4) hp (by decide)
  exact Memory.storeBytes_apart ⟨by simp; omega, by omega, by simp; omega⟩

lemma frame_setUsed (hp : p.toNat + 12 ≤ 2 ^ 32) : Frame p m (setUsed m p u) := by
  intro x hx
  have := x.toNat_lt
  have f : (p + 8).toNat = p.toNat + 8 := field_toNat (k := 8) hp (by decide)
  exact Memory.storeBytes_apart ⟨by simp; omega, by omega, by simp; omega⟩

/-! ## One header. -/

@[simp] lemma next_setNext : next (setNext m p v) p = v := Memory.load32_store32

@[simp] lemma size_setSize : size (setSize m p v) p = v := Memory.load32_store32

@[simp] lemma used_setUsed : used (setUsed m p u) p = u := Memory.store8_self

lemma next_setSize (hp : p.toNat + 12 ≤ 2 ^ 32) : next (setSize m p v) p = next m p := by
  have f : (p + 4).toNat = p.toNat + 4 := field_toNat (k := 4) hp (by decide)
  exact Memory.load32_storeBytes ⟨by simp; omega, by omega, by simp; omega⟩

lemma next_setUsed (hp : p.toNat + 12 ≤ 2 ^ 32) : next (setUsed m p u) p = next m p := by
  have f : (p + 8).toNat = p.toNat + 8 := field_toNat (k := 8) hp (by decide)
  exact Memory.load32_storeBytes ⟨by simp; omega, by omega, by simp; omega⟩

lemma size_setNext (hp : p.toNat + 12 ≤ 2 ^ 32) : size (setNext m p v) p = size m p := by
  have f : (p + 4).toNat = p.toNat + 4 := field_toNat (k := 4) hp (by decide)
  exact Memory.load32_storeBytes ⟨by simp; omega, by omega, by simp; omega⟩

lemma size_setUsed (hp : p.toNat + 12 ≤ 2 ^ 32) : size (setUsed m p u) p = size m p := by
  have f : (p + 4).toNat = p.toNat + 4 := field_toNat (k := 4) hp (by decide)
  have f' : (p + 8).toNat = p.toNat + 8 := field_toNat (k := 8) hp (by decide)
  exact Memory.load32_storeBytes ⟨by simp; omega, by omega, by simp; omega⟩

lemma used_setNext (hp : p.toNat + 12 ≤ 2 ^ 32) : used (setNext m p v) p = used m p := by
  have f : (p + 8).toNat = p.toNat + 8 := field_toNat (k := 8) hp (by decide)
  exact Memory.storeBytes_apart ⟨by simp; omega, by omega, by simp; omega⟩

lemma used_setSize (hp : p.toNat + 12 ≤ 2 ^ 32) : used (setSize m p v) p = used m p := by
  have f : (p + 4).toNat = p.toNat + 4 := field_toNat (k := 4) hp (by decide)
  have f' : (p + 8).toNat = p.toNat + 8 := field_toNat (k := 8) hp (by decide)
  exact Memory.storeBytes_apart ⟨by simp; omega, by omega, by simp; omega⟩

/-! ## Two headers. -/

/-- The twelve bytes of the header at `p` are the same. -/
def SameHeader (p : UInt32) (m m' : Memory) : Prop :=
  ∀ x : UInt32, p.toNat ≤ x.toNat → x.toNat < p.toNat + 12 → m' x = m x

/-- A store into one header keeps another. -/
lemma Frame.sameHeader (h : Frame p m m') (ap : q.toNat + 12 ≤ p.toNat ∨ p.toNat + 12 ≤ q.toNat) :
    SameHeader q m m' :=
  fun x lo hi => h x (by omega)

lemma SameHeader.trans (h : SameHeader p m m') (h' : SameHeader p m' m'') : SameHeader p m m'' :=
  fun x lo hi => (h' x lo hi).trans (h x lo hi)

lemma SameHeader.next (h : SameHeader p m m') (hp : p.toNat + 12 ≤ 2 ^ 32) :
    Kheap.next m' p = Kheap.next m p := by
  apply Memory.load32_congr
  intro i hi
  have f := field_toNat (k := i) hp (by omega)
  exact h _ (by omega) (by omega)

lemma SameHeader.size (h : SameHeader p m m') (hp : p.toNat + 12 ≤ 2 ^ 32) :
    Kheap.size m' p = Kheap.size m p := by
  have f : (p + 4).toNat = p.toNat + 4 := field_toNat (k := 4) hp (by decide)
  apply Memory.load32_congr
  intro i hi
  have f' := toNat_add_ofNat (a := p + 4) (n := i) (by omega)
  exact h _ (by omega) (by omega)

lemma SameHeader.used (h : SameHeader p m m') (hp : p.toNat + 12 ≤ 2 ^ 32) :
    Kheap.used m' p = Kheap.used m p := by
  have f : (p + 8).toNat = p.toNat + 8 := field_toNat (k := 8) hp (by decide)
  exact h _ (by omega) (by omega)

/-- The header at `p` describes the block `b`. -/
structure Header (m : Memory) (p : UInt32) (b : Block) : Prop where
  ne_null : p ≠ 0
  addr : p.toNat = b.addr
  fits : p.toNat + 12 ≤ 2 ^ 32
  size : (size m p).toNat = b.size
  used : used m p ≠ 0 ↔ b.used = true

/-- A kept header describes the same block. -/
lemma Header.same {b} (h : Header m p b) (e : SameHeader p m m') : Header m' p b :=
  ⟨h.ne_null, h.addr, h.fits, by rw [e.size h.fits, h.size], by rw [e.used h.fits, h.used]⟩

/-- A header whose block is free. -/
lemma Header.free {b} (h : Header m p b) (free : b.used = false) : Kheap.used m p = 0 := by
  by_contra ne
  rw [h.used.mp ne] at free
  cases free

/-- Following `next` from `p` visits the blocks of `l` and arrives at `q`. -/
def Linked (m : Memory) : UInt32 → List Block → UInt32 → Prop
  | p, [], q => p = q
  | p, b :: l, q => Header m p b ∧ Linked m (next m p) l q

variable {l l' : List Block}

/-- A walk over a concatenation is a walk over each part. -/
lemma linked_append : Linked m p (l ++ l') q ↔ ∃ r, Linked m p l r ∧ Linked m r l' q := by
  induction l generalizing p with
  | nil => simp [Linked]
  | cons b l ih =>
    simp only [List.cons_append, Linked, ih]
    constructor
    · rintro ⟨hd, r, h1, h2⟩
      exact ⟨r, ⟨hd, h1⟩, h2⟩
    · rintro ⟨r, ⟨hd, h1⟩, h2⟩
      exact ⟨hd, r, h1, h2⟩

/-- A walk depends on the headers it visits only. -/
lemma Linked.same (h : Linked m p l q)
    (e : ∀ b ∈ l, ∀ p : UInt32, p.toNat = b.addr → SameHeader p m m') : Linked m' p l q := by
  induction l generalizing p with
  | nil => exact h
  | cons b l ih =>
    obtain ⟨hd, h⟩ := h
    have eb := e b (by simp) p hd.addr
    refine ⟨hd.same eb, ?_⟩
    rw [eb.next hd.fits]
    exact ih h fun c hc => e c (List.mem_cons_of_mem b hc)

/-- A block of the list has its header at its address. -/
lemma Linked.header {b} (h : Linked m p l q) (mem : b ∈ l) : ∃ r, Header m r b := by
  obtain ⟨l1, l2, rfl⟩ := List.append_of_mem mem
  obtain ⟨r, -, hd, -⟩ := linked_append.mp h
  exact ⟨r, hd⟩

/-- A change inside one block of a tiled list replaces that block only. -/
lemma Linked.replace {a e l1 l2 b} (mid : List Block) (h : Linked m p (l1 ++ b :: l2) q)
    (t : Tiled 12 a (l1 ++ b :: l2) e)
    (frame : ∀ x : UInt32, x.toNat < b.addr ∨ b.limit 12 ≤ x.toNat → m' x = m x)
    (inner : ∀ r, Header m r b → Linked m' r mid (next m r)) :
    Linked m' p (l1 ++ (mid ++ l2)) q := by
  obtain ⟨r, left, hd, right⟩ := linked_append.mp h
  obtain ⟨_, t1, eq, t2⟩ := tiled_append.mp t
  refine linked_append.mpr ⟨r, ?_, linked_append.mpr ⟨_, inner r hd, ?_⟩⟩
  · refine left.same fun c mem p eqp x lo hi => frame x (.inl ?_)
    have := (t1.mem_bounds mem).2
    rw [Block.limit] at this
    omega
  · refine right.same fun c mem p eqp x lo hi => frame x (.inr ?_)
    have := (t2.mem_bounds mem).1
    omega

end RetaOS.Kheap
