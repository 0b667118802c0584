import RetaOS.Paging.Tables

/-!
# The tables of `paging_init`

The words that `paging_init` leaves in its three arrays, and the translation they give: the first 4 MB to themselves,
the 1 MB at `0xC0000000` to the frames at 4 MB, and nothing else (`walk_pagingInit`).
-/

namespace RetaOS.Paging
open Lib Memory
open Pmm (PAGE_PRESENT PAGE_RW)

variable {t : Tables} {m : Memory} {b i j virt virt' : UInt32} {is : List Nat}

lemma range_lt : ∀ i ∈ List.range 1024, i < 1024 := fun _ h => List.mem_range.mp h

lemma backed_lt : ∀ i ∈ List.range 256, i < 1024 := by
  intro i h
  have := List.mem_range.mp h
  omega

lemma backed_rest : ∀ i ∈ List.range' 256 768, i < 1024 := by
  intro i h
  have := List.mem_range'_1.mp h
  omega

/-- The first loop clears the directory. -/
lemma clearBoth_directory (placed : t.Placed) (his : ∀ i ∈ is, i < 1024) (hj : j.toNat < 1024) :
    (clearBoth t m is).load32 (slot t.pageDirectory j) =
      if j.toNat ∈ is then 0 else m.load32 (slot t.pageDirectory j) := by
  have pd := placed.directory.1
  have ft := placed.first.1
  induction is generalizing m with
  | nil => simp [clearBoth]
  | cons i is ih =>
    have small := his i List.mem_cons_self
    have eq : (UInt32.ofNat i).toNat = i := toNat_ofNat_lt (by omega)
    have rest := ih (m := (m.store32 (slot t.pageDirectory (UInt32.ofNat i)) 0).store32
      (slot t.firstPageTable (UInt32.ofNat i)) 0) fun i h => his i (List.mem_cons_of_mem _ h)
    rw [load_slot_of_outside (store_slot_outside (page_le ft) (by omega)) ft pd placed.apart.1.symm hj,
      load_store_slot (page_le pd) (by omega) hj] at rest
    rw [clearBoth, List.foldl_cons, ← clearBoth, rest]
    exact filled_cons (f := fun _ => 0) small

/-- The first loop changes nothing above the arrays. -/
lemma clearBoth_above (placed : t.Placed) (his : ∀ i ∈ is, i < 1024) {x : UInt32} (above : 0x400000 ≤ x.toNat) :
    clearBoth t m is x = m x := by
  obtain ⟨pd, low⟩ := placed.directory
  obtain ⟨ft, low'⟩ := placed.first
  induction is generalizing m with
  | nil => rfl
  | cons i is ih =>
    have small := his i List.mem_cons_self
    have eq : (UInt32.ofNat i).toNat = i := toNat_ofNat_lt (by omega)
    rw [clearBoth, List.foldl_cons, ← clearBoth, ih fun i h => his i (List.mem_cons_of_mem _ h),
      store_slot_outside (page_le ft) (by omega) x (.inr (by omega)),
      store_slot_outside (page_le pd) (by omega) x (.inr (by omega))]

/-- `paging_init` changes nothing above the arrays. -/
lemma pagingInit_above (placed : t.Placed) {x : UInt32} (above : 0x400000 ≤ x.toNat) : pagingInit t m x = m x := by
  obtain ⟨pd, low⟩ := placed.directory
  obtain ⟨ft, low'⟩ := placed.first
  obtain ⟨ht, low''⟩ := placed.heap
  rw [pagingInit, store_slot_outside (page_le pd) (by decide) x (.inr (by omega)),
    storeWords_outside (page_le ht) backed_rest x (.inr (by omega)),
    storeWords_outside (page_le ht) backed_lt x (.inr (by omega)),
    store_slot_outside (page_le pd) (by decide) x (.inr (by omega)),
    storeWords_outside (page_le ft) range_lt x (.inr (by omega)),
    clearBoth_above placed range_lt above]

/-- The entry `i` of the directory that `paging_init` sets up. -/
def directoryEntry (t : Tables) (i : UInt32) : UInt32 :=
  if 0x300 = i then t.heapPageTable ||| PAGE_PRESENT ||| PAGE_RW
  else if 0 = i then t.firstPageTable ||| PAGE_PRESENT ||| PAGE_RW ||| PAGE_USER
  else 0

/-- The directory after `paging_init`. -/
lemma pagingInit_directory (placed : t.Placed) (hj : j.toNat < 1024) :
    (pagingInit t m).load32 (slot t.pageDirectory j) = directoryEntry t j := by
  have pd := placed.directory.1
  have ft := placed.first.1
  have ht := placed.heap.1
  obtain ⟨pf, ph, -⟩ := placed.apart
  rw [pagingInit, load_store_slot (page_le pd) (by decide) hj,
    load_slot_of_outside (storeWords_outside (page_le ht) backed_rest) ht pd ph.symm hj,
    load_slot_of_outside (storeWords_outside (page_le ht) backed_lt) ht pd ph.symm hj,
    load_store_slot (page_le pd) (by decide) hj,
    load_slot_of_outside (storeWords_outside (page_le ft) range_lt) ft pd pf.symm hj,
    clearBoth_directory placed range_lt hj, if_pos (List.mem_range.mpr hj), directoryEntry]

/-- The static table for the 4 MB that an address lies in. -/
def Tables.static (t : Tables) (virt : UInt32) : Option UInt32 :=
  if 0x300 = pdIdx virt then some t.heapPageTable else if 0 = pdIdx virt then some t.firstPageTable else none

/-- The directory names the static tables. -/
lemma frameOf_directoryEntry (placed : t.Placed) (virt : UInt32) :
    frameOf (directoryEntry t (pdIdx virt)) = t.static virt := by
  have first : Directs (t.firstPageTable ||| PAGE_PRESENT ||| PAGE_RW ||| PAGE_USER) t.firstPageTable := .inr rfl
  have heap : Directs (t.heapPageTable ||| PAGE_PRESENT ||| PAGE_RW) t.heapPageTable := .inl rfl
  rw [directoryEntry, Tables.static]
  split_ifs
  · exact heap.frameOf placed.heap.1
  · exact first.frameOf placed.first.1
  · exact frameOf_zero

/-- The entries of the directory hold nothing but flags in their low bits. -/
lemma directoryEntry_pureFlags (placed : t.Placed) : PureFlags (directoryEntry t i) := by
  have first : Directs (t.firstPageTable ||| PAGE_PRESENT ||| PAGE_RW ||| PAGE_USER) t.firstPageTable := .inr rfl
  have heap : Directs (t.heapPageTable ||| PAGE_PRESENT ||| PAGE_RW) t.heapPageTable := .inl rfl
  rw [directoryEntry]
  split_ifs
  · exact heap.pureFlags placed.heap.1
  · exact first.pureFlags placed.first.1
  · decide

/-- A static table is a page of the first 4 MB, and not the directory's. -/
lemma static_page (placed : t.Placed) (h : t.static virt = some b) :
    4096 ∣ b.toNat ∧ b.toNat + 4096 ≤ 0x400000 ∧ t.pageDirectory ≠ b := by
  obtain ⟨pf, ph, -⟩ := placed.apart
  rw [Tables.static] at h
  split_ifs at h
  · cases h
    exact ⟨placed.heap.1, placed.heap.2, ph⟩
  · cases h
    exact ⟨placed.first.1, placed.first.2, pf⟩

/-- Each static table is for one region. -/
lemma static_region (placed : t.Placed) (h : t.static virt = some b) (h' : t.static virt' = some b) :
    pdIdx virt = pdIdx virt' := by
  have fh := placed.apart.2.2
  rw [Tables.static] at h h'
  split_ifs at h h' with high high' low' low high' low'
  · exact high.symm.trans high'
  · exact absurd (Option.some.inj (h'.trans h.symm)) fh
  · exact absurd (Option.some.inj (h.trans h'.symm)) fh
  · exact low.symm.trans low'

/-- The table of the first 4 MB after `paging_init`. -/
lemma pagingInit_first (placed : t.Placed) (hj : j.toNat < 1024) :
    (pagingInit t m).load32 (slot t.firstPageTable j) = identityEntry j.toNat := by
  have pd := placed.directory.1
  have ft := placed.first.1
  have ht := placed.heap.1
  obtain ⟨pf, -, fh⟩ := placed.apart
  rw [pagingInit, load_slot_of_outside (store_slot_outside (page_le pd) (by decide)) pd ft pf hj,
    load_slot_of_outside (storeWords_outside (page_le ht) backed_rest) ht ft fh.symm hj,
    load_slot_of_outside (storeWords_outside (page_le ht) backed_lt) ht ft fh.symm hj,
    load_slot_of_outside (store_slot_outside (page_le pd) (by decide)) pd ft pf hj,
    load_storeWords (page_le ft) range_lt hj, if_pos (List.mem_range.mpr hj)]

/-- The table of the kernel heap after `paging_init`. -/
lemma pagingInit_heap (placed : t.Placed) (hj : j.toNat < 1024) :
    (pagingInit t m).load32 (slot t.heapPageTable j) = if j.toNat < 256 then heapEntry j.toNat else 0 := by
  have pd := placed.directory.1
  have ht := placed.heap.1
  obtain ⟨-, ph, -⟩ := placed.apart
  rw [pagingInit, load_slot_of_outside (store_slot_outside (page_le pd) (by decide)) pd ht ph hj,
    load_storeWords (page_le ht) backed_rest hj, load_storeWords (page_le ht) backed_lt hj]
  by_cases low : j.toNat < 256
  · have kept : j.toNat ∉ List.range' 256 768 := by
      rw [List.mem_range'_1]
      omega
    rw [if_neg kept, if_pos (List.mem_range.mpr low), if_pos low]
  · have cleared : j.toNat ∈ List.range' 256 768 := by
      rw [List.mem_range'_1]
      omega
    rw [if_pos cleared, if_neg low]

/-- These are the words that the frames behind the heap are read from. -/
lemma pagingInit_heapPageTable (placed : t.Placed) (hj : j.toNat < 1024) :
    (pagingInit t m).load32 (slot t.heapPageTable j) = Pmm.heapPageTable ⟨j.toNat, hj⟩ :=
  pagingInit_heap placed hj

lemma page_toNat {i : Nat} (h : i < 1024) : (UInt32.ofNat i * 0x1000).toNat = i * 4096 := by
  rw [UInt32.toNat_mul, toNat_ofNat_lt (by omega)]
  change i * 4096 % 2 ^ 32 = i * 4096
  omega

/-- The translation after `paging_init`. -/
theorem walk_pagingInit (placed : t.Placed) : walk t (pagingInit t m) virt =
    if virt.toNat < 0x400000 then some (virt &&& ~~~0xFFF)
    else if 0xC0000000 ≤ virt.toNat ∧ virt.toNat < 0xC0100000 then some ((virt - 0xBFC00000) &&& ~~~0xFFF)
    else none := by
  have lt := virt.toNat_lt
  have pd : (pdIdx virt).toNat = virt.toNat / 2 ^ 22 := pdIdx_toNat
  have pt : (ptIdx virt).toNat = virt.toNat / 2 ^ 12 % 1024 := ptIdx_toNat
  have frame (x : UInt32) : (x &&& ~~~0xFFF).toNat = x.toNat / 4096 * 4096 :=
    toNat_and_not_mask x (k := 12) (by decide)
  rw [walk, pagingInit_directory placed pdIdx_lt, directoryEntry]
  by_cases heap : 0x300 = pdIdx virt
  · have region : 0x300 = (pdIdx virt).toNat := congrArg UInt32.toNat heap
    have high : ¬ virt.toNat < 0x400000 := by omega
    have entry : Directs (t.heapPageTable ||| PAGE_PRESENT ||| PAGE_RW) t.heapPageTable := .inl rfl
    rw [if_pos heap, entry.frameOf placed.heap.1, if_neg high]
    dsimp only
    rw [pagingInit_heap placed ptIdx_lt]
    by_cases backed : (ptIdx virt).toNat < 256
    · have offset : (virt - 0xBFC00000).toNat = virt.toNat - 0xBFC00000 :=
        sub_toNat_of_le (show 0xBFC00000 ≤ virt.toNat by omega)
      have scaled := page_toNat (i := (ptIdx virt).toNat) ptIdx_lt
      have sum := toNat_add_of_lt (a := 0x400000) (b := UInt32.ofNat (ptIdx virt).toNat * 0x1000)
        (by rw [scaled]; change 0x400000 + _ < _; omega)
      change _ = 0x400000 + _ at sum
      rw [if_pos backed, if_pos ⟨by omega, by omega⟩, heapEntry, frameOf_entry]
      congr 1
      rw [← UInt32.toNat_inj, frame, frame, sum, offset, scaled]
      omega
    · rw [if_neg backed, if_neg (by omega), frameOf_zero]
  · have other : (pdIdx virt).toNat ≠ 0x300 := fun e => heap (UInt32.toNat_inj.mp e.symm)
    rw [if_neg heap]
    by_cases first : 0 = pdIdx virt
    · have region : 0 = (pdIdx virt).toNat := congrArg UInt32.toNat first
      have low : virt.toNat < 0x400000 := by omega
      have entry : Directs (t.firstPageTable ||| PAGE_PRESENT ||| PAGE_RW ||| PAGE_USER) t.firstPageTable := .inr rfl
      have scaled := page_toNat (i := (ptIdx virt).toNat) ptIdx_lt
      have page : Directs (identityEntry (ptIdx virt).toNat) (UInt32.ofNat (ptIdx virt).toNat * 0x1000) := .inr rfl
      rw [if_pos first, entry.frameOf placed.first.1, if_pos low]
      dsimp only
      rw [pagingInit_first placed ptIdx_lt, page.frameOf (by rw [scaled]; exact Nat.dvd_mul_left 4096 _)]
      congr 1
      rw [← UInt32.toNat_inj, frame, scaled]
      omega
    · have high : (pdIdx virt).toNat ≠ 0 := fun e => first (UInt32.toNat_inj.mp e.symm)
      rw [if_neg first, if_neg (by omega), if_neg (by omega), frameOf_zero]

end RetaOS.Paging
