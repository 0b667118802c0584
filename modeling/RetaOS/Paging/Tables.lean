import RetaOS.Paging.Defs

/-!
# Indices and entries

The indices of an address in the directory and in its table, and the words that name a table or a frame. An entry for a
page-aligned address reads back as that address and its flags (`frameOf_or`).
-/

namespace RetaOS.Paging
open Lib Memory
open Pmm (PAGE_PRESENT PAGE_RW)

variable {b d f virt virt' : UInt32}

/-! ## Indices. -/

lemma pdIdx_toNat : (pdIdx virt).toNat = virt.toNat / 2 ^ 22 := by
  have lt := virt.toNat_lt
  have mask := toNat_and_mask (virt >>> 22) (k := 10) (by decide)
  change (pdIdx virt).toNat = _ at mask
  rw [mask, UInt32.toNat_shiftRight]
  change virt.toNat >>> 22 % 2 ^ 10 = _
  rw [Nat.shiftRight_eq_div_pow]
  omega

lemma ptIdx_toNat : (ptIdx virt).toNat = virt.toNat / 2 ^ 12 % 1024 := by
  have mask := toNat_and_mask (virt >>> 12) (k := 10) (by decide)
  change (ptIdx virt).toNat = _ at mask
  rw [mask, UInt32.toNat_shiftRight]
  change virt.toNat >>> 12 % 1024 = _
  rw [Nat.shiftRight_eq_div_pow]

lemma pdIdx_lt : (pdIdx virt).toNat < 1024 := by
  have lt := virt.toNat_lt
  rw [pdIdx_toNat]
  omega

lemma ptIdx_lt : (ptIdx virt).toNat < 1024 := by
  rw [ptIdx_toNat]
  omega

/-- Two addresses have the same indices when they lie in the same page. -/
lemma same_page_iff : pdIdx virt = pdIdx virt' ∧ ptIdx virt = ptIdx virt' ↔ virt >>> 12 = virt' >>> 12 := by
  have shift (v : UInt32) : (v >>> 12).toNat = v.toNat / 2 ^ 12 := by
    rw [UInt32.toNat_shiftRight]
    exact Nat.shiftRight_eq_div_pow _ _
  rw [← UInt32.toNat_inj, ← UInt32.toNat_inj, ← UInt32.toNat_inj, pdIdx_toNat, pdIdx_toNat, ptIdx_toNat, ptIdx_toNat,
    shift, shift]
  omega

/-! ## Entries. -/

/-- The low 12 bits of an entry hold flags and nothing else. -/
def PureFlags (d : UInt32) : Prop :=
  d &&& 0xFFF ∈ [0, PAGE_PRESENT ||| PAGE_RW, PAGE_PRESENT ||| PAGE_RW ||| PAGE_USER]

instance (d : UInt32) : Decidable (PureFlags d) := inferInstanceAs (Decidable (_ ∈ _))

/-- `d` is the directory entry of the table at `b`. -/
def Directs (d b : UInt32) : Prop :=
  d = b ||| PAGE_PRESENT ||| PAGE_RW ∨ d = b ||| PAGE_PRESENT ||| PAGE_RW ||| PAGE_USER

lemma aligned_frame : 4096 ∣ (b &&& ~~~0xFFF).toNat := by
  have mask := toNat_and_not_mask b (k := 12) (by decide)
  change (b &&& ~~~0xFFF).toNat = _ at mask
  rw [mask]
  exact Nat.dvd_mul_left 4096 _

/-- The address in an entry with flags. -/
lemma base_or (hb : 4096 ∣ b.toNat) (hf : f &&& 0xFFF = f) : (b ||| f) &&& ~~~0xFFF = b := by
  have base : b &&& ~~~0xFFF = b := by
    have mask := toNat_and_not_mask b (k := 12) (by decide)
    change (b &&& ~~~0xFFF).toNat = b.toNat / 4096 * 4096 at mask
    rw [← UInt32.toNat_inj, mask]
    exact Nat.div_mul_cancel hb
  have flags : f &&& ~~~0xFFF = 0 := by
    rw [← hf, UInt32.and_assoc]
    exact UInt32.and_zero
  rw [or_and_distrib, base, flags, UInt32.or_zero]

/-- The flags in an entry with flags. -/
lemma low_or (hb : 4096 ∣ b.toNat) (hf : f &&& 0xFFF = f) : (b ||| f) &&& 0xFFF = f := by
  have base : b &&& 0xFFF = 0 := by
    have mask := toNat_and_mask b (k := 12) (by decide)
    change (b &&& 0xFFF).toNat = b.toNat % 4096 at mask
    rw [← UInt32.toNat_inj, mask]
    exact Nat.mod_eq_zero_of_dvd hb
  rw [or_and_distrib, base, hf, UInt32.zero_or]

/-- An entry with flags that say present is read back. -/
lemma frameOf_or (hb : 4096 ∣ b.toNat) (hf : f &&& 0xFFF = f) (present : f &&& PAGE_PRESENT ≠ 0) :
    frameOf (b ||| f) = some b := by
  have kept : (b ||| f) &&& PAGE_PRESENT = f &&& PAGE_PRESENT := by
    have one : (0xFFF : UInt32) &&& PAGE_PRESENT = PAGE_PRESENT := by decide
    rw [← one, ← UInt32.and_assoc, low_or hb hf, ← UInt32.and_assoc, hf]
  rw [frameOf, kept, if_neg present, base_or hb hf]

/-- The frame of a table entry that `paging_map_page` sets. -/
lemma frameOf_entry {phys : UInt32} :
    frameOf (phys &&& ~~~0xFFF ||| PAGE_PRESENT ||| PAGE_RW) = some (phys &&& ~~~0xFFF) := by
  rw [UInt32.or_assoc]
  exact frameOf_or aligned_frame (by decide) (by decide)

lemma frameOf_zero : frameOf 0 = none := rfl

lemma Directs.frameOf (h : Directs d b) (hb : 4096 ∣ b.toNat) : frameOf d = some b := by
  rcases h with rfl | rfl
  · rw [UInt32.or_assoc]
    exact frameOf_or hb (by decide) (by decide)
  · rw [UInt32.or_assoc, UInt32.or_assoc]
    exact frameOf_or hb (by decide) (by decide)

lemma Directs.pureFlags (h : Directs d b) (hb : 4096 ∣ b.toNat) : PureFlags d := by
  rcases h with rfl | rfl
  · rw [UInt32.or_assoc, PureFlags, low_or hb (by decide)]
    decide
  · rw [UInt32.or_assoc, UInt32.or_assoc, PureFlags, low_or hb (by decide)]
    decide

end RetaOS.Paging
