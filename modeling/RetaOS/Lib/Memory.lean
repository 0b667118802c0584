import RetaOS.Lib.Word
import Mathlib.Data.List.GetD

/-!
# Byte memory

A 32-bit address space of bytes, with block and little-endian word accesses. Addresses wrap as they do on
the machine: the byte of a block at offset `i` is at `a + i` modulo `2 ^ 32`, and an address `x` lies in the
block of `n` bytes at `a` when its offset `(x - a).toNat` is below `n`. The frame lemmas say that a store
changes no byte outside its block, and `Apart` is their hypothesis for blocks that do not wrap.
-/

namespace Lib

/-- The little-endian value of a list of bytes. -/
def ofBytes : List UInt8 → Nat
  | [] => 0
  | b :: bs => b.toNat + 256 * ofBytes bs

/-- The `k` low bytes of a number, least significant first. -/
def toBytes : Nat → Nat → List UInt8
  | 0, _ => []
  | k + 1, n => UInt8.ofNat n :: toBytes k (n / 256)

@[simp] lemma toBytes_length (k n : Nat) : (toBytes k n).length = k := by
  induction k generalizing n with
  | zero => rfl
  | succ k ih => rw [toBytes, List.length_cons, ih]

/-- Reading back the bytes of a number. -/
lemma ofBytes_toBytes (k n : Nat) : ofBytes (toBytes k n) = n % 256 ^ k := by
  induction k generalizing n with
  | zero => simp [toBytes, ofBytes, Nat.mod_one]
  | succ k ih =>
    have byte : (UInt8.ofNat n).toNat = n % 256 := UInt8.toNat_ofNat'
    rw [toBytes, ofBytes, ih, byte, Nat.pow_succ', Nat.mod_mul]

/-- A 32-bit address space of bytes. -/
abbrev Memory := UInt32 → UInt8

namespace Memory

/-- The `n` bytes from address `a` on. -/
def loadBytes (m : Memory) (a : UInt32) (n : Nat) : List UInt8 :=
  (List.range n).map fun i => m (a + UInt32.ofNat i)

/-- Put a list of bytes at address `a`. -/
def storeBytes (m : Memory) (a : UInt32) (bs : List UInt8) : Memory :=
  fun x => bs.getD (x - a).toNat (m x)

/-- The 32-bit little-endian word at `a`. -/
def load32 (m : Memory) (a : UInt32) : UInt32 := UInt32.ofNat (ofBytes (m.loadBytes a 4))

/-- The 64-bit little-endian word at `a`. -/
def load64 (m : Memory) (a : UInt32) : UInt64 := UInt64.ofNat (ofBytes (m.loadBytes a 8))

/-- Store a byte at `a`. -/
def store8 (m : Memory) (a : UInt32) (v : UInt8) : Memory := m.storeBytes a [v]

/-- Store a 32-bit word at `a`, little-endian. -/
def store32 (m : Memory) (a v : UInt32) : Memory := m.storeBytes a (toBytes 4 v.toNat)

/-- `memset`: `n` bytes of value `v` from `a` on. -/
def fill (m : Memory) (a : UInt32) (v : UInt8) (n : Nat) : Memory :=
  m.storeBytes a (List.replicate n v)

/-- `memcpy`: the `n` bytes at `src` put at `dst`. -/
def copy (m : Memory) (dst src : UInt32) (n : Nat) : Memory :=
  m.storeBytes dst (m.loadBytes src n)

/-- The memories are the same outside the `n` bytes at `a`, which do not wrap. -/
def SameOutside (a : UInt32) (n : Nat) (m m' : Memory) : Prop :=
  ∀ x : UInt32, x.toNat < a.toNat ∨ a.toNat + n ≤ x.toNat → m' x = m x

/-- The memories are the same at some addresses. -/
def Agree (P : UInt32 → Prop) (m m' : Memory) : Prop := ∀ x, P x → m' x = m x

/-- Two blocks of bytes that do not wrap and do not meet. -/
def Apart (a : UInt32) (n : Nat) (b : UInt32) (k : Nat) : Prop :=
  a.toNat + n ≤ 2 ^ 32 ∧ b.toNat + k ≤ 2 ^ 32 ∧ (a.toNat + n ≤ b.toNat ∨ b.toNat + k ≤ a.toNat)

variable {m m' : Memory} {a b x v : UInt32} {n k : Nat} {bs : List UInt8}

@[simp] lemma loadBytes_length : (m.loadBytes a n).length = n := by
  simp [loadBytes]

/-- The byte at offset `i` of a block. -/
lemma loadBytes_getElem {i : Nat} (h : i < n) :
    (m.loadBytes a n)[i]? = some (m (a + UInt32.ofNat i)) := by
  rw [loadBytes, List.getElem?_map, List.getElem?_range h, Option.map_some]

/-- A block and the byte behind it. -/
lemma loadBytes_concat : m.loadBytes a (n + 1) = m.loadBytes a n ++ [m (a + UInt32.ofNat n)] := by
  rw [loadBytes, List.range_succ, List.map_append]
  rfl

/-- A store leaves the bytes outside its block alone. -/
lemma storeBytes_outside (h : bs.length ≤ (x - a).toNat) : m.storeBytes a bs x = m x := by
  rw [storeBytes, List.getD_eq_default _ _ h]

/-- The same store leaves memories that agree in agreement. -/
lemma Agree.storeBytes {P : UInt32 → Prop} (a : UInt32) (bs : List UInt8) (agree : Agree P m m') :
    Agree P (m.storeBytes a bs) (m'.storeBytes a bs) := by
  intro x hx
  rw [Memory.storeBytes, Memory.storeBytes, agree x hx]

/-- A store puts the byte at offset `i` of the list at offset `i` of its block. -/
lemma storeBytes_inside {i : Nat} (h : i < bs.length) (hw : bs.length ≤ 2 ^ 32) :
    m.storeBytes a bs (a + UInt32.ofNat i) = bs[i] := by
  rw [storeBytes, add_sub_toNat (by omega), List.getD_eq_getElem _ _ h]

/-- A part of a block. -/
lemma loadBytes_slice (i k : Nat) :
    ((m.loadBytes a n).drop i).take k = m.loadBytes (a + UInt32.ofNat i) (min k (n - i)) := by
  apply List.ext_getElem?
  intro j
  by_cases hj : j < min k (n - i)
  · have shift : a + UInt32.ofNat (i + j) = a + UInt32.ofNat i + UInt32.ofNat j := by
      rw [UInt32.ofNat_add, UInt32.add_assoc]
    rw [loadBytes_getElem hj, List.getElem?_take_of_lt (by omega), List.getElem?_drop,
      loadBytes_getElem (by omega), shift]
  · rw [List.getElem?_eq_none (by simp; omega), List.getElem?_eq_none (by simp; omega)]

/-- Memories that agree on a block load the same bytes from it. -/
lemma loadBytes_congr (h : ∀ i < n, m' (a + UInt32.ofNat i) = m (a + UInt32.ofNat i)) :
    m'.loadBytes a n = m.loadBytes a n := by
  unfold loadBytes
  apply List.map_congr_left
  intro i hi
  exact h i (List.mem_range.mp hi)

/-- Loading back what was stored. -/
lemma loadBytes_storeBytes (hw : bs.length ≤ 2 ^ 32) :
    (m.storeBytes a bs).loadBytes a bs.length = bs := by
  apply List.ext_getElem
  · simp
  · intro i hi hb
    have byte := loadBytes_getElem (m := m.storeBytes a bs) (a := a) hb
    rw [List.getElem?_eq_getElem hi, storeBytes_inside hb hw] at byte
    exact Option.some.inj byte

/-- Storing one list behind another stores both, unless they fill more than the memory. -/
lemma storeBytes_append {cs : List UInt8} (short : bs.length + cs.length ≤ 2 ^ 32) :
    (m.storeBytes a bs).storeBytes (a + UInt32.ofNat bs.length) cs = m.storeBytes a (bs ++ cs) := by
  funext x
  have lt := (x - a).toNat_lt
  have shift : x - (a + UInt32.ofNat bs.length) = x - a - UInt32.ofNat bs.length := by
    rw [UInt32.sub_eq_add_neg, UInt32.neg_add, UInt32.sub_eq_add_neg, ← UInt32.add_assoc, ← UInt32.sub_eq_add_neg,
      ← UInt32.sub_eq_add_neg]
  rw [storeBytes, storeBytes, storeBytes, shift]
  by_cases inside : (x - a).toNat < bs.length
  · -- the second store begins behind `x`, so its offset to `x` wraps
    have wraps : cs.length ≤ (x - a - UInt32.ofNat bs.length).toNat := by
      rw [UInt32.toNat_sub, UInt32.toNat_ofNat']
      omega
    rw [List.getD_append _ _ _ _ inside, List.getD_eq_default _ _ wraps]
  · have behind : (x - a - UInt32.ofNat bs.length).toNat = (x - a).toNat - bs.length := by
      rw [UInt32.toNat_sub, UInt32.toNat_ofNat']
      omega
    have le : bs.length ≤ (x - a).toNat := Nat.le_of_not_lt inside
    rw [List.getD_append_right _ _ _ _ le, List.getD_eq_default _ _ le, behind]

/-- The offset from `a` of a byte of a block apart from the one at `a`. -/
lemma Apart.offset (ap : Apart a n b k) {i : Nat} (h : i < k) :
    n ≤ (b + UInt32.ofNat i - a).toNat := by
  obtain ⟨ha, hb, h'⟩ := ap
  rw [UInt32.toNat_sub, toNat_add_ofNat (by omega)]
  omega

/-- A store does not change a block apart from its own. -/
lemma loadBytes_storeBytes_apart (ap : Apart a bs.length b k) :
    (m.storeBytes a bs).loadBytes b k = m.loadBytes b k :=
  loadBytes_congr fun _ hi => storeBytes_outside (ap.offset hi)

/-- Reading a word just stored. -/
@[simp] lemma load32_store32 : (m.store32 a v).load32 a = v := by
  have h : (m.storeBytes a (toBytes 4 v.toNat)).loadBytes a (toBytes 4 v.toNat).length = toBytes 4 v.toNat :=
    loadBytes_storeBytes (by simp)
  rw [toBytes_length] at h
  rw [load32, store32, h, ofBytes_toBytes, Nat.mod_eq_of_lt (show _ < 256 ^ 4 from v.toNat_lt),
    UInt32.ofNat_toNat]

/-- Memories that agree on the four bytes of a word load the same word. -/
lemma load32_congr (h : ∀ i < 4, m' (a + UInt32.ofNat i) = m (a + UInt32.ofNat i)) :
    m'.load32 a = m.load32 a := by
  rw [load32, load32, loadBytes_congr h]

/-- A store does not change a word apart from its block. -/
lemma load32_storeBytes (ap : Apart a bs.length b 4) : (m.storeBytes a bs).load32 b = m.load32 b := by
  rw [load32, load32, loadBytes_storeBytes_apart ap]

/-- A store does not change a byte apart from its block. -/
lemma storeBytes_apart (ap : Apart a bs.length x 1) : m.storeBytes a bs x = m x := by
  have h := ap.offset (i := 0) (by decide)
  rw [show x + UInt32.ofNat 0 = x from UInt32.add_zero x] at h
  exact storeBytes_outside h

/-- Storing a byte changes no other one. -/
lemma store8_ne {w : UInt8} (ne : x ≠ a) : m.store8 a w x = m x := by
  refine storeBytes_outside ?_
  rw [List.length_singleton]
  by_contra zero
  have same : x - a = 0 := UInt32.toNat_inj.mp (by change (x - a).toNat = 0; omega)
  have sum := UInt32.sub_add_cancel x a
  rw [same, UInt32.zero_add] at sum
  exact ne sum.symm

/-- Reading a byte just stored. -/
@[simp] lemma store8_self {w : UInt8} : m.store8 a w a = w := by
  have h : m.storeBytes a [w] (a + UInt32.ofNat 0) = w := storeBytes_inside (by simp) (by simp)
  rwa [show a + UInt32.ofNat 0 = a from UInt32.add_zero a] at h

/-- Stores of the same bytes at many addresses leave what is apart from all of them alone. -/
lemma foldl_storeBytes_outside {l : List UInt32} (out : ∀ a ∈ l, bs.length ≤ (x - a).toNat) :
    (l.foldl (fun m a => storeBytes m a bs) m) x = m x := by
  induction l generalizing m with
  | nil => rfl
  | cons a l ih =>
    obtain ⟨first, rest⟩ := List.forall_mem_cons.mp out
    rw [List.foldl_cons, ih rest, storeBytes_outside first]

/-- A byte that the block at `a` gives the value `v`, and that no other block meets, has that value when the block is
    stored, or when it had it before. -/
lemma foldl_storeBytes_inside {l : List UInt32} {v : UInt8} (stored : ∀ m : Memory, m.storeBytes a bs x = v)
    (apart : ∀ b ∈ l, b = a ∨ Apart b bs.length x 1) (h : a ∈ l ∨ m x = v) :
    (l.foldl (fun m a => storeBytes m a bs) m) x = v := by
  induction l generalizing m with
  | nil => exact h.resolve_left List.not_mem_nil
  | cons b l ih =>
    obtain ⟨first, rest⟩ := List.forall_mem_cons.mp apart
    rw [List.foldl_cons]
    refine ih rest ?_
    obtain rfl | first := first
    · exact .inr (stored m)
    · obtain mem | eq := h
      · obtain rfl | mem := List.mem_cons.mp mem
        · exact .inr (stored m)
        · exact .inl mem
      · exact .inr ((storeBytes_apart first).trans eq)

end Memory

end Lib
