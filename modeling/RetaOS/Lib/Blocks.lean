import Mathlib.Tactic.Common
import Mathlib.Data.List.Chain

/-!
# Block lists

The abstract state of an allocator that keeps one list of blocks, each a header of `hdr` bytes followed by
its payload: `Tiled hdr a l e` says that the blocks of `l` cover the addresses from `a` to `e` without gap
or overlap. Splitting a block, merging two neighbours and changing a block's use keep the tiling. `Coalesced`
says that no two neighbours are both free, and `coalesce` is the pass over a list that makes it so. A coalesced
tiling is determined by its blocks in use (`Tiled.unique`).
-/

namespace Lib

/-- A block: the address of its header, the size of its payload, and whether it is in use. -/
structure Block where
  addr : Nat
  size : Nat
  used : Bool
  deriving DecidableEq, Repr

namespace Block

/-- The address after a block. -/
def limit (hdr : Nat) (b : Block) : Nat := b.addr + hdr + b.size

/-- A block extended over the header and payload of its right neighbour. -/
def merge (hdr : Nat) (b c : Block) : Block := { b with size := b.size + hdr + c.size }

end Block

/-- The blocks of a list cover the addresses from `a` to `e`, one after the other. -/
def Tiled (hdr : Nat) : Nat → List Block → Nat → Prop
  | a, [], e => a = e
  | a, b :: l, e => b.addr = a ∧ Tiled hdr (b.limit hdr) l e

variable {hdr a e : Nat} {b c : Block} {l l' : List Block}

/-- A tiling of a concatenation is a tiling of each part, meeting in the middle. -/
lemma tiled_append : Tiled hdr a (l ++ l') e ↔ ∃ m, Tiled hdr a l m ∧ Tiled hdr m l' e := by
  induction l generalizing a with
  | nil => simp [Tiled]
  | cons b l ih =>
    simp only [List.cons_append, Tiled, ih]
    constructor
    · rintro ⟨eq, m, h1, h2⟩
      exact ⟨m, ⟨eq, h1⟩, h2⟩
    · rintro ⟨m, ⟨eq, h1⟩, h2⟩
      exact ⟨eq, m, h1, h2⟩

/-- A tiling ends at or after its start. -/
lemma Tiled.le (h : Tiled hdr a l e) : a ≤ e := by
  induction l generalizing a with
  | nil => exact h.le
  | cons b l ih =>
    obtain ⟨eq, h⟩ := h
    have le := ih h
    rw [Block.limit] at le
    omega

/-- Every block of a tiling lies between its ends. -/
lemma Tiled.mem_bounds (h : Tiled hdr a l e) (m : b ∈ l) : a ≤ b.addr ∧ b.limit hdr ≤ e := by
  obtain ⟨l1, l2, rfl⟩ := List.append_of_mem m
  obtain ⟨x, h1, eq, h2⟩ := tiled_append.mp h
  exact ⟨eq ▸ h1.le, h2.le⟩

/-- The blocks of a tiling stand in order of address, none reaching into a later one. -/
lemma Tiled.pairwise (h : Tiled hdr a l e) : l.Pairwise fun b c => b.limit hdr ≤ c.addr := by
  induction l generalizing a with
  | nil => exact List.Pairwise.nil
  | cons b l ih =>
    obtain ⟨eq, h⟩ := h
    exact List.pairwise_cons.mpr ⟨fun c m => (h.mem_bounds m).1, ih h⟩

/-- Two blocks of a tiling are the same or do not overlap. -/
lemma Tiled.disjoint (h : Tiled hdr a l e) (hb : b ∈ l) (hc : c ∈ l) :
    b = c ∨ b.limit hdr ≤ c.addr ∨ c.limit hdr ≤ b.addr := by
  by_cases eq : b = c
  · exact .inl eq
  · refine .inr ?_
    let R : Block → Block → Prop := fun b c => b.limit hdr ≤ c.addr ∨ c.limit hdr ≤ b.addr
    have : Std.Symm R := ⟨fun _ _ => Or.symm⟩
    have all : l.Pairwise R := h.pairwise.imp .inl
    exact all.forall hb hc eq

/-- A block of a tiling is determined by its address. -/
lemma Tiled.eq_of_addr (pos : 0 < hdr) (h : Tiled hdr a l e) (hb : b ∈ l) (hc : c ∈ l)
    (eq : b.addr = c.addr) : b = c := by
  rcases h.disjoint hb hc with eq' | lt | lt
  · exact eq'
  · rw [Block.limit] at lt
    omega
  · rw [Block.limit] at lt
    omega

/-- The total extent of a tiling does not depend on which blocks are in use. -/
lemma Tiled.setUsed {u : Bool} (h : Tiled hdr a (l ++ b :: l') e) :
    Tiled hdr a (l ++ { b with used := u } :: l') e := by
  obtain ⟨m, h1, eq, h2⟩ := tiled_append.mp h
  exact tiled_append.mpr ⟨m, h1, eq, h2⟩

/-- A block split into one of `n` bytes in use and a free rest. -/
def Block.split (hdr n : Nat) (b : Block) : List Block :=
  [{ b with size := n, used := true },
   { addr := b.addr + hdr + n, size := b.size - n - hdr, used := false }]

/-- Splitting a block large enough for the second header keeps the tiling. -/
lemma Tiled.split {n : Nat} (h : Tiled hdr a (l ++ b :: l') e) (le : n + hdr ≤ b.size) :
    Tiled hdr a (l ++ (b.split hdr n ++ l')) e := by
  obtain ⟨m, h1, eq, h2⟩ := tiled_append.mp h
  refine tiled_append.mpr ⟨m, h1, eq, rfl, ?_⟩
  have end_eq : b.addr + hdr + n + hdr + (b.size - n - hdr) = b.limit hdr := by
    rw [Block.limit]
    omega
  rwa [Block.limit, end_eq]

/-- The pass that merges every free block with the free blocks after it, started with `b` at the front. -/
def coalesceFrom (hdr : Nat) : Block → List Block → List Block
  | b, [] => [b]
  | b, c :: l =>
    if !b.used && !c.used then coalesceFrom hdr (b.merge hdr c) l else b :: coalesceFrom hdr c l

/-- The pass over a whole list. -/
def coalesce (hdr : Nat) : List Block → List Block
  | [] => []
  | b :: l => coalesceFrom hdr b l

/-- No two neighbours of a list are both free. -/
def Coalesced (l : List Block) : Prop := l.IsChain fun b c => b.used = true ∨ c.used = true

/-- Merging neighbours keeps a tiling. -/
lemma Tiled.coalesceFrom (h : Tiled hdr a (b :: l) e) : Tiled hdr a (coalesceFrom hdr b l) e := by
  induction l generalizing a b with
  | nil => exact h
  | cons c l ih =>
    obtain ⟨eq, eq', h⟩ := h
    rw [Lib.coalesceFrom]
    split
    · refine ih ⟨eq, ?_⟩
      rw [Block.limit, eq'] at h
      rw [Block.limit, Block.merge]
      convert h using 1
      simp only [Block.limit]
      omega
    · exact ⟨eq, ih ⟨eq', h⟩⟩

/-- Merging keeps the blocks in use, and makes no other. -/
lemma mem_coalesceFrom_used (used : c.used = true) :
    c ∈ coalesceFrom hdr b l ↔ c ∈ b :: l := by
  induction l generalizing b with
  | nil => rfl
  | cons d l ih =>
    rw [coalesceFrom]
    split
    · rename_i free
      simp only [Bool.and_eq_true, Bool.not_eq_true'] at free
      have nb : c ≠ b := by rintro rfl; simp [used] at free
      have nd : c ≠ d := by rintro rfl; simp [used] at free
      have nm : c ≠ b.merge hdr d := by rintro rfl; simp [Block.merge] at used; simp [used] at free
      simp [ih, nb, nd, nm]
    · simp only [List.mem_cons, ih]

/-- Merging never makes an empty payload. -/
lemma coalesceFrom_sized (h : ∀ c ∈ b :: l, 0 < c.size) : ∀ c ∈ coalesceFrom hdr b l, 0 < c.size := by
  induction l generalizing b with
  | nil => exact h
  | cons d l ih =>
    rw [coalesceFrom]
    split
    · refine ih fun c mem => ?_
      rcases List.mem_cons.mp mem with rfl | mem
      · have := h b (by simp)
        rw [Block.merge]
        dsimp only
        omega
      · exact h c (by simp [mem])
    · intro c mem
      rcases List.mem_cons.mp mem with rfl | mem
      · exact h c (by simp)
      · exact ih (fun c mem => h c (by simp [List.mem_cons.mp mem])) c mem

/-- The pass leaves the front block first, at its address. -/
lemma coalesceFrom_head : ∃ d t, coalesceFrom hdr b l = d :: t ∧ d.addr = b.addr ∧
    (d.used = true ↔ b.used = true) := by
  induction l generalizing b with
  | nil => exact ⟨b, [], rfl, rfl, Iff.rfl⟩
  | cons c l ih =>
    rw [coalesceFrom]
    split
    · exact ih (b := b.merge hdr c)
    · exact ⟨b, _, rfl, rfl, Iff.rfl⟩

/-- After the pass no two neighbours are both free. -/
lemma coalesceFrom_coalesced : Coalesced (coalesceFrom hdr b l) := by
  induction l generalizing b with
  | nil => exact List.isChain_singleton b
  | cons c l ih =>
    rw [coalesceFrom]
    split
    · exact ih
    · rename_i nfree
      obtain ⟨d, t, eq, -, used⟩ : ∃ d t, coalesceFrom hdr c l = d :: t ∧ d.addr = c.addr ∧ _ :=
        coalesceFrom_head
      have chain := ih (b := c)
      rw [eq] at chain ⊢
      refine List.isChain_cons_cons.mpr ⟨?_, chain⟩
      rw [used]
      simpa [Bool.and_eq_true, or_iff_not_imp_left] using nfree

/-- A block may be replaced by one in use. -/
lemma Coalesced.replace (co : Coalesced (l ++ b :: l')) (used : c.used = true) :
    Coalesced (l ++ c :: l') := by
  obtain ⟨left, right⟩ := List.isChain_split.mp co
  refine List.isChain_split.mpr ⟨?_, ?_⟩
  · obtain ⟨h1, -, -⟩ := List.isChain_append.mp left
    refine List.isChain_append.mpr ⟨h1, List.isChain_singleton c, ?_⟩
    intro x _ y hy
    obtain rfl : c = y := by simpa using hy
    exact .inr used
  · obtain ⟨-, h2⟩ := List.isChain_cons.mp right
    exact List.isChain_cons.mpr ⟨fun _ _ => .inl used, h2⟩

/-- A free block may be replaced by one in use with a free one behind it. -/
lemma Coalesced.replace_pair {d : Block} (co : Coalesced (l ++ b :: l')) (free : b.used = false)
    (used : c.used = true) : Coalesced (l ++ c :: d :: l') := by
  obtain ⟨left, -⟩ := List.isChain_split.mp (co.replace used)
  obtain ⟨-, right⟩ := List.isChain_split.mp co
  obtain ⟨hd, tl⟩ := List.isChain_cons.mp right
  refine List.isChain_split.mpr ⟨left, List.isChain_cons_cons.mpr ⟨.inl used, ?_⟩⟩
  refine List.isChain_cons.mpr ⟨fun y hy => .inr ?_, tl⟩
  have := hd y hy
  rw [free] at this
  simpa using this

/-- A coalesced tiling with no block in use is a single block. -/
lemma Coalesced.singleton (co : Coalesced l) (ne : l ≠ []) (free : ∀ b ∈ l, b.used = false) :
    ∃ b, l = [b] := by
  match l, ne with
  | [b], _ => exact ⟨b, rfl⟩
  | b :: c :: l, _ =>
    have used := (List.isChain_cons_cons.mp co).1
    simp [free b (by simp), free c (by simp)] at used

/-- The first of two coalesced tilings reaches at most as far with a free block as the second one. -/
lemma Tiled.limit_le (h : Tiled hdr a (b :: l) e) (h' : Tiled hdr a (c :: l') e) (co : Coalesced (b :: l))
    (free : b.used = false) (pos : 0 < hdr) (sub : ∀ d : Block, d.used = true → d ∈ b :: l → d ∈ c :: l') :
    c.limit hdr ≤ b.limit hdr := by
  cases l with
  | nil =>
    have last : b.limit hdr = e := h.2
    rw [last]
    exact h'.2.le
  | cons d t =>
    -- a free block is followed by one in use, which the other list has too
    have used : d.used = true := by simpa [free] using (List.isChain_cons_cons.mp co).1
    have start : d.addr = b.limit hdr := h.2.1
    have after : b.addr + hdr ≤ d.addr := by
      rw [start, Block.limit]
      omega
    have same : b.addr = c.addr := h.1.trans h'.1.symm
    rcases List.mem_cons.mp (sub d used (by simp)) with rfl | mem
    · omega
    · rw [← start]
      exact (h'.2.mem_bounds mem).1

/-- A coalesced tiling is determined by its blocks in use. -/
theorem Tiled.unique (pos : 0 < hdr) (h : Tiled hdr a l e) (h' : Tiled hdr a l' e) (co : Coalesced l)
    (co' : Coalesced l') (same : ∀ d : Block, d.used = true → (d ∈ l ↔ d ∈ l')) : l = l' := by
  have empty {m : List Block} {x : Nat} (h : Tiled hdr x m x) : m = [] := by
    cases m with
    | nil => rfl
    | cons b t =>
      have le := h.2.le
      have addr := h.1
      rw [Block.limit] at le
      omega
  induction l generalizing a l' with
  | nil =>
    cases h
    exact (empty h').symm
  | cons b t ih =>
    cases l' with
    | nil =>
      cases h'
      exact empty h
    | cons c t' =>
      have addr : b.addr = c.addr := h.1.trans h'.1.symm
      have first : b = c := by
        cases ub : b.used with
        | true => exact h'.eq_of_addr pos ((same b ub).mp (by simp)) (by simp) addr
        | false =>
          cases uc : c.used with
          | true => exact h.eq_of_addr pos (by simp) ((same c uc).mpr (by simp)) addr
          | false =>
            have le := h.limit_le h' co ub pos fun d hd => (same d hd).mp
            have ge := h'.limit_le h co' uc pos fun d hd => (same d hd).mpr
            have size : b.size = c.size := by
              simp only [Block.limit] at le ge
              omega
            cases b
            cases c
            simp_all
      subst first
      -- what lies behind the first block is not the first block
      have behind {m : List Block} (h : Tiled hdr a (b :: m) e) : b ∉ m := by
        intro mem
        have above := (h.2.mem_bounds mem).1
        rw [Block.limit] at above
        omega
      refine congrArg (b :: ·) (ih h.2 h'.2 co.tail co'.tail fun d hd => ?_)
      have both := same d hd
      simp only [List.mem_cons] at both
      constructor
      · intro mem
        have ne : d ≠ b := fun eq => behind h (eq ▸ mem)
        exact (both.mp (.inr mem)).resolve_left ne
      · intro mem
        have ne : d ≠ b := fun eq => behind h' (eq ▸ mem)
        exact (both.mpr (.inr mem)).resolve_left ne

end Lib
