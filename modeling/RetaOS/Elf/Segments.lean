import RetaOS.Elf.Exec

/-!
# What the segment loop touches

The loop of `elf_exec` over the program headers, taken for itself: the file in a block at `elf_data`, any header and
any program headers. `passReads` and `passWrites` are the stretches of memory that one pass reads and copies to; what
`kmalloc_a` does to the headers of the heap is not counted. Nothing of a program header is checked, so a pass stays
inside the file and inside its segment exactly when the program header says so (`pass_inside_iff`).

While no segment is copied into the heap region, the file stays as it is and the program headers that the loop meets
are those of the file (`run_holds`). `map_pages` ends unless the segment ends in the last page of the address space
(`mapPages_ends_iff`), and behind a segment that it does not end on no program header is met.
-/

namespace RetaOS.Elf
open Lib

variable {elfData stSize d n : UInt32} {eh : Ehdr} {heap h h' : Kheap.Heap} {file : List UInt8} {i j : Nat}

/-! ## Accesses. -/

/-- Every byte of a stretch of memory has its address from `lo` to below `hi`. -/
def Within (lo hi : Nat) (r : UInt32 × Nat) : Prop :=
  ∀ k < r.2, lo ≤ (r.1 + UInt32.ofNat k).toNat ∧ (r.1 + UInt32.ofNat k).toNat < hi

/-- What the pass for the program header `i` reads: `p_type`, of a segment `p_vaddr` and `p_memsz`, and once the pages
    are mapped `p_offset`, `p_filesz` and the bytes to copy. -/
def passReads (elfData : UInt32) (eh : Ehdr) (heap : Kheap.Heap) (i : Nat) : List (UInt32 × Nat) :=
  let p := phAddr elfData eh i
  let ph := phAt heap.mem elfData eh i
  if ph.pType ≠ PT_LOAD then [(p, 4)]
  else
    (p, 4) :: (p + 8, 4) :: (p + 20, 4) ::
      match mapPages heap ph.pVaddr ph.pMemsz 1 with
      | none => []
      | some heap =>
        let mapped := phAt heap.mem elfData eh i
        [(p + 4, 4), (p + 16, 4), (elfData + mapped.pOffset, mapped.pFilesz.toNat)]

/-- Where the pass for the program header `i` copies to. -/
def passWrites (elfData : UInt32) (eh : Ehdr) (heap : Kheap.Heap) (i : Nat) : List (UInt32 × Nat) :=
  let ph := phAt heap.mem elfData eh i
  if ph.pType ≠ PT_LOAD then []
  else
    match mapPages heap ph.pVaddr ph.pMemsz 1 with
    | none => []
    | some heap => [(ph.pVaddr, (phAt heap.mem elfData eh i).pFilesz.toNat)]

/-- The loop begins the pass for the program header `i` with the heap `h`. -/
def Begins (elfData : UInt32) (eh : Ehdr) (heap : Kheap.Heap) (i : Nat) (h : Kheap.Heap) : Prop :=
  i < eh.ePhnum.toNat ∧ (List.range i).foldlM (loadSegment elfData eh) heap = some h

/-- Every pass reads in the `stSize` bytes at `elfData` only, and writes in the segment of its program header only. -/
def SegmentsInside (elfData stSize : UInt32) (eh : Ehdr) (heap : Kheap.Heap) : Prop :=
  ∀ i h, Begins elfData eh heap i h →
    (∀ r ∈ passReads elfData eh h i, Within elfData.toNat (elfData.toNat + stSize.toNat) r) ∧
    ∀ w ∈ passWrites elfData eh h i, Within (phAt h.mem elfData eh i).pVaddr.toNat
      ((phAt h.mem elfData eh i).pVaddr.toNat + (phAt h.mem elfData eh i).pMemsz.toNat) w

/-! ## Bounds. -/

/-- The bytes of a program header that the loop goes by: all up to `p_memsz` for a segment, else `p_type`. -/
def reach (ph : Phdr) : Nat := if ph.pType = PT_LOAD then 24 else 4

/-- A segment of `ph` whose copy has the offset and length of `mapped` is copied from a file of `size` bytes into its
    own addresses, if any byte is. -/
def CopyFits (size : Nat) (ph mapped : Phdr) : Prop :=
  mapped.pFilesz = 0 ∨ mapped.pOffset.toNat + mapped.pFilesz.toNat ≤ size ∧
    mapped.pFilesz ≤ ph.pMemsz ∧ ph.pVaddr.toNat + mapped.pFilesz.toNat ≤ 2 ^ 32

instance (size : Nat) (ph mapped : Phdr) : Decidable (CopyFits size ph mapped) := inferInstanceAs (Decidable (_ ∨ _))

/-- The program header `i`, as it stands in memory when its pass begins, lies in the file and has a segment
    that fits. -/
def PassFits (elfData stSize : UInt32) (eh : Ehdr) (h : Kheap.Heap) (i : Nat) : Prop :=
  let ph := phAt h.mem elfData eh i
  (eh.ePhoff + UInt32.ofNat (sizeofPhdr * i)).toNat + reach ph ≤ stSize.toNat ∧
    (ph.pType = PT_LOAD → ∀ h', mapPages h ph.pVaddr ph.pMemsz 1 = some h' →
      CopyFits stSize.toNat ph (phAt h'.mem elfData eh i))

/-- A block of `n` bytes as `kmalloc` returns it: at a heap address, and not past the end of memory. -/
def HeapBlock (p n : UInt32) : Prop := Kheap.KHEAP_START ≤ p ∧ p.toNat + n.toNat ≤ 2 ^ 32

/-- A stretch at an offset from `elfData` is within the file. -/
lemma within_file_iff {k : Nat} (block : HeapBlock elfData stSize) (pos : 0 < k) :
    Within elfData.toNat (elfData.toNat + stSize.toNat) (elfData + d, k) ↔ d.toNat + k ≤ stSize.toNat := by
  have high : 0xC0000000 ≤ elfData.toNat := UInt32.le_iff_toNat_le.mp block.1
  have room := block.2
  have address (j : Nat) : (elfData + d + UInt32.ofNat j).toNat = (elfData.toNat + d.toNat + j) % 2 ^ 32 := by
    rw [UInt32.toNat_add, UInt32.toNat_add, UInt32.toNat_ofNat']
    omega
  constructor
  · intro within
    by_contra outside
    have lt := d.toNat_lt
    by_cases first : d.toNat < stSize.toNat
    · -- the first byte behind the file
      have := within (stSize.toNat - d.toNat) (by dsimp only; omega)
      rw [address] at this
      omega
    · have := within 0 pos
      rw [address] at this
      omega
  · intro le j lt
    dsimp only at lt
    rw [address]
    omega

/-- A stretch at the address of a segment is within the segment. -/
lemma within_segment_iff {a : UInt32} :
    Within a.toNat (a.toNat + n.toNat) (a, d.toNat) ↔ d = 0 ∨ d ≤ n ∧ a.toNat + d.toNat ≤ 2 ^ 32 := by
  have short := d.toNat_lt
  have address (j : Nat) : (a + UInt32.ofNat j).toNat = (a.toNat + j) % 2 ^ 32 := by
    rw [UInt32.toNat_add, UInt32.toNat_ofNat']
    omega
  have zero : d = 0 ↔ d.toNat = 0 := UInt32.toNat_inj.symm
  rw [zero, UInt32.le_iff_toNat_le]
  constructor
  · intro within
    by_contra outside
    rw [not_or, not_and_or] at outside
    have last := within (d.toNat - 1) (by dsimp only; omega)
    rw [address] at last
    by_cases wraps : a.toNat + d.toNat ≤ 2 ^ 32
    · omega
    · have := within (2 ^ 32 - a.toNat) (by dsimp only; omega)
      rw [address] at this
      omega
  · rintro fits j lt
    dsimp only at lt
    rw [address]
    omega

/-- A field of a program header is within the file. -/
lemma within_header_iff {k : UInt32} (block : HeapBlock elfData stSize) (small : k.toNat ≤ 28)
    (first : (eh.ePhoff + UInt32.ofNat (sizeofPhdr * i)).toNat + 4 ≤ stSize.toNat) :
    Within elfData.toNat (elfData.toNat + stSize.toNat) (phAddr elfData eh i + k, 4) ↔
      (eh.ePhoff + UInt32.ofNat (sizeofPhdr * i)).toNat + k.toNat + 4 ≤ stSize.toNat := by
  have high : 0xC0000000 ≤ elfData.toNat := UInt32.le_iff_toNat_le.mp block.1
  have room := block.2
  have address : phAddr elfData eh i + k = elfData + (eh.ePhoff + UInt32.ofNat (sizeofPhdr * i) + k) := by
    rw [phAddr, UInt32.add_assoc, UInt32.add_assoc, UInt32.add_assoc]
  rw [address, within_file_iff block (by decide), toNat_add_of_lt (by omega)]

/-- The copy of a segment is within the file and within the segment. -/
lemma copy_inside_iff (ph mapped : Phdr) (block : HeapBlock elfData stSize) :
    (Within elfData.toNat (elfData.toNat + stSize.toNat) (elfData + mapped.pOffset, mapped.pFilesz.toNat) ∧
      Within ph.pVaddr.toNat (ph.pVaddr.toNat + ph.pMemsz.toNat) (ph.pVaddr, mapped.pFilesz.toNat)) ↔
      CopyFits stSize.toNat ph mapped := by
  rw [within_segment_iff, CopyFits]
  by_cases empty : mapped.pFilesz = 0
  · have nothing : Within elfData.toNat (elfData.toNat + stSize.toNat)
        (elfData + mapped.pOffset, mapped.pFilesz.toNat) := by
      intro k lt
      rw [empty] at lt
      cases lt
    exact ⟨fun _ => .inl empty, fun _ => ⟨nothing, .inl empty⟩⟩
  · have pos : 0 < mapped.pFilesz.toNat :=
      Nat.pos_of_ne_zero fun zero => empty (UInt32.toNat_inj.mp zero)
    rw [within_file_iff block pos, or_iff_right empty, or_iff_right empty]

/-- One pass stays inside exactly when its program header says so. -/
theorem pass_inside_iff (block : HeapBlock elfData stSize) :
    ((∀ r ∈ passReads elfData eh h i, Within elfData.toNat (elfData.toNat + stSize.toNat) r) ∧
      ∀ w ∈ passWrites elfData eh h i, Within (phAt h.mem elfData eh i).pVaddr.toNat
        ((phAt h.mem elfData eh i).pVaddr.toNat + (phAt h.mem elfData eh i).pMemsz.toNat) w) ↔
      PassFits elfData stSize eh h i := by
  have first : Within elfData.toNat (elfData.toNat + stSize.toNat) (phAddr elfData eh i, 4) ↔
      (eh.ePhoff + UInt32.ofNat (sizeofPhdr * i)).toNat + 4 ≤ stSize.toNat := by
    rw [phAddr, UInt32.add_assoc, within_file_iff block (by decide)]
  unfold PassFits passReads passWrites
  generalize phAt h.mem elfData eh i = ph
  dsimp only
  by_cases load : ph.pType = PT_LOAD
  · rw [if_neg (not_not_intro load), if_neg (not_not_intro load), reach, if_pos load]
    have fields : (∀ r ∈ [(phAddr elfData eh i, 4), (phAddr elfData eh i + 8, 4), (phAddr elfData eh i + 20, 4)],
        Within elfData.toNat (elfData.toNat + stSize.toNat) r) ↔
        (eh.ePhoff + UInt32.ofNat (sizeofPhdr * i)).toNat + 24 ≤ stSize.toNat := by
      simp only [List.forall_mem_cons, List.not_mem_nil, false_implies, implies_true, and_true, first]
      constructor
      · rintro ⟨start, -, memsz⟩
        exact (within_header_iff block (by decide) start).mp memsz
      · intro all
        have start : (eh.ePhoff + UInt32.ofNat (sizeofPhdr * i)).toNat + 4 ≤ stSize.toNat := by omega
        refine ⟨start, (within_header_iff block (by decide) start).mpr ?_,
          (within_header_iff block (by decide) start).mpr all⟩
        change _ + 8 + 4 ≤ _
        omega
    cases mapPages h ph.pVaddr ph.pMemsz 1 with
    | none =>
      rw [fields]
      simp only [List.not_mem_nil, false_implies, implies_true, and_true, reduceCtorEq]
    | some h1 =>
      have copy := copy_inside_iff ph (phAt h1.mem elfData eh i) block
      simp only [List.forall_mem_cons, List.not_mem_nil, false_implies, implies_true, and_true] at fields ⊢
      constructor
      · rintro ⟨⟨start, vaddr, memsz, -, -, source⟩, target⟩
        refine ⟨fields.mp ⟨start, vaddr, memsz⟩, fun _ h' eq => ?_⟩
        cases eq
        exact copy.mp ⟨source, target⟩
      · rintro ⟨all, fits⟩
        obtain ⟨start, vaddr, memsz⟩ := fields.mpr all
        obtain ⟨source, target⟩ := copy.mpr (fits load h1 rfl)
        have offset : Within elfData.toNat (elfData.toNat + stSize.toNat) (phAddr elfData eh i + 4, 4) := by
          refine (within_header_iff block (by decide) (first.mp start)).mpr ?_
          change _ + 4 + 4 ≤ _
          omega
        have filesz : Within elfData.toNat (elfData.toNat + stSize.toNat) (phAddr elfData eh i + 16, 4) := by
          refine (within_header_iff block (by decide) (first.mp start)).mpr ?_
          change _ + 16 + 4 ≤ _
          omega
        exact ⟨⟨start, vaddr, memsz, offset, filesz, source⟩, target⟩
  · rw [if_pos load, if_pos load, reach, if_neg load]
    simp only [List.forall_mem_cons, List.not_mem_nil, false_implies, implies_true, and_true, first]
    exact ⟨fun le => ⟨le, fun eq => absurd eq load⟩, And.left⟩

/-! ## The file in its block. -/

/-- The file is in memory, in a block in use of a valid heap. -/
structure Holds (elfData : UInt32) (file : List UInt8) (h : Kheap.Heap) : Prop where
  block : ∃ l b, Kheap.Valid h l ∧ b ∈ l ∧ b.used = true ∧ elfData.toNat = b.addr + 12 ∧ file.length ≤ b.size
  bytes : h.mem.loadBytes elfData file.length = file

/-- The block of a file ends with the heap region. -/
lemma Holds.bounds (holds : Holds elfData file h) :
    0xC000000C ≤ elfData.toNat ∧ elfData.toNat + file.length ≤ 0xC0100000 := by
  obtain ⟨l, b, v, mem, -, addr, room⟩ := holds.block
  have bounds := v.bounds mem
  rw [Block.limit] at bounds
  omega

/-- The address of a byte of the file. -/
lemma Holds.address (holds : Holds elfData file h) (lt : i < file.length) :
    (elfData + UInt32.ofNat i).toNat = elfData.toNat + i := by
  have bounds := holds.bounds
  exact toNat_add_ofNat (by omega)

/-- `kmalloc_a` of a page leaves the file alone. -/
lemma kmallocA_holds (holds : Holds elfData file h) :
    ∃ r h', Kheap.kmallocA h 0x1000 = some (r, h') ∧ Holds elfData file h' := by
  have addresses := fun i => holds.address (i := i)
  obtain ⟨⟨l, b, v, mem, used, addr, room⟩, bytes⟩ := holds
  obtain ⟨r, h', l', run, v', keeps, result⟩ :=
    Kheap.kmalloc_effect (n := Kheap.alignUp 0x1000 Kheap.KHEAP_ALIGN) v (by decide)
  refine ⟨r, h', run, ⟨l', b, v', ?_, used, addr, room⟩, ?_⟩
  · obtain ⟨-, -, same, -⟩ | ⟨-, alloc, -⟩ := result
    · rw [same]
      exact mem
    · obtain ⟨d, -, -, -, -, made⟩ := alloc
      exact (made b used).mpr (.inr mem)
  · rw [← bytes, Memory.loadBytes_length]
    refine Memory.loadBytes_congr fun i lt => keeps _ ⟨b, mem, used, ?_⟩
    rw [addresses i lt, Block.limit]
    omega

/-- `map_pages` leaves the file alone. -/
lemma mapPages_holds {va size user : UInt32} (holds : Holds elfData file h)
    (run : mapPages h va size user = some h') : Holds elfData file h' := by
  refine loop_rule (I := fun s => Holds elfData file s.2) (fun s hs => ?_) holds run
  obtain ⟨virt, h⟩ := s
  obtain ⟨r, h1, alloc, holds'⟩ := kmallocA_holds hs
  rw [mapBody]
  split
  · rw [alloc]
    refine .next ?_
    change Holds elfData file (if r ≠ 0 then mapPage h1 virt r _ else h1)
    rw [mapPage, ite_self]
    exact holds'
  · exact .done hs

/-- A pass of `map_pages` on a heap that holds a file. -/
lemma mapBody_holds {virt end_ : UInt32} (user : UInt32) (holds : Holds elfData file h) (lt : virt < end_) :
    ∃ h', mapBody end_ user (virt, h) = .next (virt + 0x1000, h') ∧ Holds elfData file h' := by
  obtain ⟨r, h1, alloc, holds'⟩ := kmallocA_holds holds
  refine ⟨h1, ?_, holds'⟩
  rw [mapBody, if_pos lt, alloc]
  change Pass.next (virt + 0x1000, if r ≠ 0 then mapPage h1 virt r _ else h1) = _
  rw [mapPage, ite_self]

/-- `map_pages` ends unless the segment ends in the last page of the address space. -/
theorem mapPages_ends_iff (va size user : UInt32) (holds : Holds elfData file h) :
    mapPages h va size user ≠ none ↔ (va + size).toNat ≤ 0xFFFFF000 := by
  have aligned : (va &&& ~~~0xFFF).toNat = roundDown 0x1000 va.toNat := toNat_and_not_mask va (k := 12) (by decide)
  have start : (va &&& ~~~0xFFF).toNat % 0x1000 = 0 := by
    rw [aligned, roundDown]
    exact Nat.mul_mod_left _ _
  constructor
  · intro ends
    by_contra last
    refine ends (loop_diverges (I := fun s => Holds elfData file s.2 ∧ s.1.toNat % 0x1000 = 0) ?_ ⟨holds, start⟩)
    rintro ⟨virt, h⟩ ⟨hs, page⟩
    have lt : virt < va + size := by
      rw [UInt32.lt_iff_toNat_lt]
      have := virt.toNat_lt
      dsimp only at page
      omega
    obtain ⟨h1, pass, hs'⟩ := mapBody_holds user hs lt
    refine ⟨_, pass, hs', ?_⟩
    dsimp only at page ⊢
    rw [UInt32.toNat_add]
    change (virt.toNat + 0x1000) % 2 ^ 32 % 0x1000 = 0
    omega
  · intro le
    have step : ∀ s s' : UInt32 × Kheap.Heap, (Holds elfData file s.2 ∧ s.1.toNat % 0x1000 = 0) →
        mapBody (va + size) user s = .next s' →
        (Holds elfData file s'.2 ∧ s'.1.toNat % 0x1000 = 0) ∧ 2 ^ 32 - s'.1.toNat < 2 ^ 32 - s.1.toNat := by
      rintro ⟨virt, h⟩ s' ⟨hs, page⟩ pass
      dsimp only at page
      by_cases lt : virt < va + size
      · obtain ⟨h1, pass', hs'⟩ := mapBody_holds user hs lt
        obtain rfl := Pass.next.inj (pass.symm.trans pass')
        have below := UInt32.lt_iff_toNat_lt.mp lt
        have next : (virt + 0x1000).toNat = virt.toNat + 0x1000 := by
          rw [UInt32.toNat_add]
          change (virt.toNat + 0x1000) % 2 ^ 32 = _
          omega
        refine ⟨⟨hs', ?_⟩, ?_⟩
        · dsimp only
          omega
        · dsimp only
          omega
      · rw [mapBody, if_neg lt] at pass
        cases pass
    obtain ⟨h1, run, -⟩ := loop_variant (Q := fun _ => True) (fun s => 2 ^ 32 - s.1.toNat) step
      (fun _ _ _ _ => trivial) (s := (va &&& ~~~0xFFF, h)) ⟨holds, start⟩
    rw [mapPages, run]
    exact Option.some_ne_none h1

/-- A copy to addresses off the heap region leaves the file alone. -/
lemma Holds.copy {a src : UInt32} {k : Nat} (holds : Holds elfData file h) (fits : a.toNat + k ≤ 2 ^ 32)
    (off : a.toNat + k ≤ 0xC0000000 ∨ 0xC0100000 ≤ a.toNat) :
    Holds elfData file { h with mem := h.mem.copy a src k } := by
  have frame (x : UInt32) (lo : 0xC0000000 ≤ x.toNat) (hi : x.toNat < 0xC0100000) : h.mem.copy a src k x = h.mem x := by
    refine Memory.storeBytes_apart ⟨?_, ?_, ?_⟩
    · rw [Memory.loadBytes_length]
      exact fits
    · omega
    · rw [Memory.loadBytes_length]
      omega
  have bounds := holds.bounds
  have same : (h.mem.copy a src k).loadBytes elfData file.length = h.mem.loadBytes elfData file.length := by
    refine Memory.loadBytes_congr fun i lt => frame _ ?_ ?_
    · rw [holds.address lt]
      omega
    · rw [holds.address lt]
      omega
  obtain ⟨⟨l, b, v, rest⟩, bytes⟩ := holds
  exact ⟨⟨l, b, v.of_region frame, rest⟩, same.trans bytes⟩

/-! ## The program headers of the file. -/

/-- The offset of the program header `i` in a file. -/
def phdrOffset (file : List UInt8) (i : Nat) : Nat := (Ehdr.ofBytes file).ePhoff.toNat + sizeofPhdr * i

/-- `map_pages` ends for a segment. -/
def Maps (ph : Phdr) : Prop := (ph.pVaddr + ph.pMemsz).toNat ≤ 0xFFFFF000

/-- A segment is copied to no address of the heap region. -/
def OffHeap (ph : Phdr) : Prop :=
  ph.pFilesz = 0 ∨ ph.pVaddr.toNat + ph.pFilesz.toNat ≤ 0xC0000000 ∨ 0xC0100000 ≤ ph.pVaddr.toNat

/-- The program header `i` of a file lies in the file, and has a segment that fits if its pages are mapped. -/
def HeaderFits (file : List UInt8) (i : Nat) : Prop :=
  phdrOffset file i + reach (phdr file i) ≤ file.length ∧
    ((phdr file i).pType = PT_LOAD → Maps (phdr file i) → CopyFits file.length (phdr file i) (phdr file i))

/-- The pages of all segments before the program header `i` are mapped. -/
def Met (file : List UInt8) (i : Nat) : Prop := ∀ j < i, (phdr file j).pType = PT_LOAD → Maps (phdr file j)

/-- Every program header that the loop meets fits. -/
def FileFits (file : List UInt8) : Prop :=
  ∀ i < (Ehdr.ofBytes file).ePhnum.toNat, Met file i → HeaderFits file i

/-- A word of bytes loaded from memory. -/
lemma word_loadBytes {m : Memory} {a : UInt32} {k len : Nat} (le : k + 4 ≤ len) :
    word (m.loadBytes a len) k = m.load32 (a + UInt32.ofNat k) := by
  rw [word, Memory.loadBytes_slice, min_eq_left (by omega), Memory.load32]

/-- The words of a program header in memory are those of the file. -/
lemma Holds.word {k : Nat} (holds : Holds elfData file h) (le : phdrOffset file i + k + 4 ≤ file.length)
    (small : k + 4 ≤ sizeofPhdr) :
    word (h.mem.loadBytes (phAddr elfData (Ehdr.ofBytes file) i) sizeofPhdr) k =
      word ((file.drop (phdrOffset file i)).take sizeofPhdr) k := by
  have address : phAddr elfData (Ehdr.ofBytes file) i = elfData + UInt32.ofNat (phdrOffset file i) := by
    rw [phAddr, phdrOffset, UInt32.ofNat_add, UInt32.ofNat_toNat, UInt32.add_assoc]
  have slice : (file.drop (phdrOffset file i)).take sizeofPhdr = h.mem.loadBytes
      (elfData + UInt32.ofNat (phdrOffset file i)) (min sizeofPhdr (file.length - phdrOffset file i)) := by
    rw [← Memory.loadBytes_slice, holds.bytes]
  rw [slice, address, word_loadBytes small, word_loadBytes (by omega)]

/-- The type of a program header in memory is that of the file. -/
lemma Holds.pType (holds : Holds elfData file h) (le : phdrOffset file i + 4 ≤ file.length) :
    (phAt h.mem elfData (Ehdr.ofBytes file) i).pType = (phdr file i).pType :=
  holds.word (k := 0) le (by decide)

/-- A program header in memory is that of the file. -/
lemma Holds.phAt (holds : Holds elfData file h) (le : phdrOffset file i + 24 ≤ file.length) :
    phAt h.mem elfData (Ehdr.ofBytes file) i = phdr file i := by
  have pType := holds.word (i := i) (k := 0) (by omega) (by decide)
  have pOffset := holds.word (i := i) (k := 4) (by omega) (by decide)
  have pVaddr := holds.word (i := i) (k := 8) (by omega) (by decide)
  have pFilesz := holds.word (i := i) (k := 16) (by omega) (by decide)
  have pMemsz := holds.word (i := i) (k := 20) (by omega) (by decide)
  rw [Elf.phAt, Phdr.ofBytes, pType, pOffset, pVaddr, pFilesz, pMemsz]
  rfl

/-! ## Runs of the loop. -/

/-- While the file is in its block, a pass fits when its program header in the file does. -/
lemma Holds.passFits_iff (holds : Holds elfData file h) (len : stSize.toNat = file.length)
    (low : phdrOffset file i < 2 ^ 32) :
    PassFits elfData stSize (Ehdr.ofBytes file) h i ↔ HeaderFits file i := by
  have offset : ((Ehdr.ofBytes file).ePhoff + UInt32.ofNat (sizeofPhdr * i)).toNat = phdrOffset file i :=
    toNat_add_ofNat low
  have lower (ph : Phdr) : 4 ≤ reach ph := by
    rw [reach]
    split
    · decide
    · exact le_rfl
  unfold PassFits HeaderFits
  dsimp only
  rw [offset, len]
  by_cases first : phdrOffset file i + 4 ≤ file.length
  · have type := holds.pType first
    have same : reach (Elf.phAt h.mem elfData (Ehdr.ofBytes file) i) = reach (phdr file i) := by
      rw [reach, reach, type]
    rw [same, type]
    refine and_congr_right fun le => imp_congr_right fun load => ?_
    rw [reach, if_pos load] at le
    rw [holds.phAt le]
    have ends := mapPages_ends_iff (phdr file i).pVaddr (phdr file i).pMemsz 1 holds
    constructor
    · intro fits maps
      obtain ⟨h', run⟩ := Option.ne_none_iff_exists'.mp (ends.mpr maps)
      have fits := fits h' run
      rwa [(mapPages_holds holds run).phAt le] at fits
    · intro fits h' run
      rw [(mapPages_holds holds run).phAt le]
      refine fits (ends.mp ?_)
      rw [run]
      exact Option.some_ne_none h'
  · have below := lower (Elf.phAt h.mem elfData (Ehdr.ofBytes file) i)
    have below' := lower (phdr file i)
    exact ⟨fun fits => absurd fits.1 (by omega), fun fits => absurd fits.1 (by omega)⟩

/-- One pass for a program header that fits, of a segment off the heap region. -/
lemma loadSegment_holds (holds : Holds elfData file h) (fits : HeaderFits file i)
    (off : (phdr file i).pType = PT_LOAD → OffHeap (phdr file i)) :
    (loadSegment elfData (Ehdr.ofBytes file) h i ≠ none ↔ ((phdr file i).pType = PT_LOAD → Maps (phdr file i))) ∧
      ∀ h', loadSegment elfData (Ehdr.ofBytes file) h i = some h' → Holds elfData file h' := by
  obtain ⟨inside, fits⟩ := fits
  rw [loadSegment]
  by_cases load : (phdr file i).pType = PT_LOAD
  · rw [reach, if_pos load] at inside
    rw [holds.phAt inside, if_neg (not_not_intro load), forall_prop_of_true load, Maps,
      ← mapPages_ends_iff _ _ 1 holds]
    cases run : mapPages h (phdr file i).pVaddr (phdr file i).pMemsz 1 with
    | none =>
      exact ⟨Iff.rfl, nofun⟩
    | some h1 =>
      have holds1 := mapPages_holds holds run
      have maps : Maps (phdr file i) := by
        refine (mapPages_ends_iff _ _ 1 holds).mp ?_
        rw [run]
        exact Option.some_ne_none h1
      dsimp only
      rw [holds1.phAt inside]
      refine ⟨⟨fun _ => Option.some_ne_none h1, fun _ => Option.some_ne_none _⟩, fun h' eq => ?_⟩
      cases eq
      obtain empty | apart := off load
      · -- nothing is copied
        rw [empty]
        exact holds1
      · obtain empty | ⟨-, -, room⟩ := fits load maps
        · rw [empty]
          exact holds1
        · exact holds1.copy room apart
  · have first : phdrOffset file i + 4 ≤ file.length := by
      rw [reach, if_neg load] at inside
      exact inside
    rw [if_pos (by rw [holds.pType first]; exact load)]
    refine ⟨⟨fun _ eq => absurd eq load, fun _ => Option.some_ne_none h⟩, fun h' eq => ?_⟩
    cases eq
    exact holds

/-- While the program headers fit and the segments are off the heap region, the loop goes on as long as `map_pages`
    ends, and the file stays in its block. -/
theorem run_holds (holds : Holds elfData file heap) (fits : ∀ j < i, HeaderFits file j)
    (off : ∀ j < i, (phdr file j).pType = PT_LOAD → OffHeap (phdr file j)) :
    ((List.range i).foldlM (loadSegment elfData (Ehdr.ofBytes file)) heap ≠ none ↔ Met file i) ∧
      ∀ h, (List.range i).foldlM (loadSegment elfData (Ehdr.ofBytes file)) heap = some h → Holds elfData file h := by
  induction i with
  | zero =>
    refine ⟨⟨fun _ => nofun, fun _ => Option.some_ne_none heap⟩, fun h eq => ?_⟩
    cases eq
    exact holds
  | succ i ih =>
    obtain ⟨ends, keeps⟩ := ih (fun j lt => fits j (by omega)) fun j lt => off j (by omega)
    have split : Met file (i + 1) ↔ Met file i ∧ ((phdr file i).pType = PT_LOAD → Maps (phdr file i)) :=
      Nat.forall_lt_succ_right
    rw [List.range_succ, List.foldlM_append, split, ← ends]
    cases run : (List.range i).foldlM (loadSegment elfData (Ehdr.ofBytes file)) heap with
    | none => exact ⟨⟨fun ne => absurd rfl ne, fun ne => absurd rfl ne.1⟩, nofun⟩
    | some h =>
      obtain ⟨goes, next⟩ := loadSegment_holds (keeps h run) (fits i (by omega)) (off i (by omega))
      have single : ([i].foldlM (loadSegment elfData (Ehdr.ofBytes file)) h) =
          loadSegment elfData (Ehdr.ofBytes file) h i := by
        rw [List.foldlM_cons]
        exact bind_pure _
      change (([i].foldlM (loadSegment elfData (Ehdr.ofBytes file)) h) ≠ none ↔ _) ∧
        ∀ h', ([i].foldlM (loadSegment elfData (Ehdr.ofBytes file)) h) = some h' → _
      rw [single, goes]
      exact ⟨⟨fun maps => ⟨Option.some_ne_none h, maps⟩, And.right⟩, next⟩

/-- A loop that begins a pass has ended the passes before it. -/
lemma passes_before {h : Kheap.Heap} (le : j ≤ i) (run : (List.range i).foldlM (loadSegment elfData eh) heap = some h) :
    (List.range j).foldlM (loadSegment elfData eh) heap ≠ none := by
  obtain ⟨k, rfl⟩ := Nat.exists_eq_add_of_le le
  rw [List.range_add, List.foldlM_append] at run
  intro none
  rw [none] at run
  cases run

/-- While the segments of the file are off the heap region, every pass fits exactly when every program header of the
    file that the loop meets does. -/
theorem passes_fit_iff (holds : Holds elfData file heap) (len : stSize.toNat = file.length)
    (off : ∀ i, Segment file i → OffHeap (phdr file i)) :
    (∀ i h, Begins elfData (Ehdr.ofBytes file) heap i h → PassFits elfData stSize (Ehdr.ofBytes file) h i) ↔
      FileFits file := by
  have bounds := holds.bounds
  have many := (Ehdr.ofBytes file).ePhnum.toNat_lt
  constructor
  · intro passes i lt met
    -- the table begins in the file, so the offsets do not wrap
    have start := passes 0 heap ⟨by omega, rfl⟩
    have begins : (Ehdr.ofBytes file).ePhoff.toNat ≤ file.length := by
      have table := start.1
      rw [show (Ehdr.ofBytes file).ePhoff + UInt32.ofNat (sizeofPhdr * 0) = (Ehdr.ofBytes file).ePhoff from
        UInt32.add_zero _] at table
      omega
    have low (j : Nat) (le : j ≤ i) : phdrOffset file j < 2 ^ 32 := by
      have size : sizeofPhdr = 32 := rfl
      rw [phdrOffset, size]
      omega
    induction i using Nat.strong_induction_on with
    | _ i ih =>
      have before : ∀ j < i, HeaderFits file j := fun j ltj =>
        ih j ltj (by omega) (fun k ltk => met k (by omega)) fun k le => low k (by omega)
      obtain ⟨ends, keeps⟩ := run_holds holds before fun j ltj load => off j ⟨by omega, load⟩
      obtain ⟨h, run⟩ := Option.ne_none_iff_exists'.mp (ends.mpr met)
      exact ((keeps h run).passFits_iff len (low i le_rfl)).mp (passes i h ⟨lt, run⟩)
  · rintro fits i h ⟨lt, run⟩
    have before : ∀ j ≤ i, ∀ k < j, HeaderFits file k := by
      intro j le
      induction j with
      | zero => exact nofun
      | succ j ih =>
        have here := ih (by omega)
        have met := (run_holds holds here fun k ltk load => off k ⟨by omega, load⟩).1.mp
          (passes_before (by omega) run)
        exact Nat.forall_lt_succ_right.mpr ⟨here, fits j (by omega) met⟩
    obtain ⟨ends, keeps⟩ := run_holds holds (before i le_rfl) fun k ltk load => off k ⟨by omega, load⟩
    have header := fits i lt (ends.mp (passes_before le_rfl run))
    exact ((keeps h run).passFits_iff len (by have := header.1; omega)).mpr header

/-- A well-formed executable fits. -/
theorem WellFormed.fileFits (formed : WellFormed file) : FileFits file := by
  intro i lt _
  have table := formed.table
  refine ⟨?_, fun load _ => .inr ⟨formed.inside i ⟨lt, load⟩, (formed.fits i ⟨lt, load⟩).1, ?_⟩⟩
  · have last : sizeofPhdr * i + sizeofPhdr ≤ sizeofPhdr * (Ehdr.ofBytes file).ePhnum.toNat := Nat.mul_le_mul_left _ lt
    have size : sizeofPhdr = 32 := rfl
    have short : reach (phdr file i) ≤ 24 := by
      rw [reach]
      split
      · exact le_rfl
      · decide
    rw [phdrOffset]
    omega
  · obtain ⟨le, room⟩ := formed.fits i ⟨lt, load⟩
    rw [UInt32.le_iff_toNat_le] at le
    omega

/-- On a well-formed executable whose segments are off the heap region, the loop stays inside the file and inside the
    segments. -/
theorem WellFormed.segmentsInside (formed : WellFormed file) (holds : Holds elfData file heap)
    (len : stSize.toNat = file.length) (off : ∀ i, Segment file i → OffHeap (phdr file i)) :
    SegmentsInside elfData stSize (Ehdr.ofBytes file) heap := by
  have bounds := holds.bounds
  have block : HeapBlock elfData stSize := by
    refine ⟨UInt32.le_iff_toNat_le.mpr ?_, by omega⟩
    change 0xC0000000 ≤ elfData.toNat
    omega
  intro i h begins
  exact (pass_inside_iff block).mpr ((passes_fit_iff holds len off).mpr formed.fileFits i h begins)

/-- An executable of 84 bytes with one segment: no byte of memory at `0x400000`, and 4096 bytes of the file. -/
def overlong : List UInt8 :=
  [0x7F, 0x45, 0x4C, 0x46, 1, 1, 1, 0, 0, 0, 0, 0, 0, 0, 0, 0, 2, 0, 3, 0, 1, 0, 0, 0, 0, 0, 0x40, 0, 52, 0, 0, 0,
    0, 0, 0, 0, 0, 0, 0, 0, 52, 0, 32, 0, 1, 0, 0, 0, 0, 0, 0, 0] ++
  [1, 0, 0, 0, 0, 0, 0, 0, 0, 0, 0x40, 0, 0, 0, 0, 0, 0, 0x10, 0, 0, 0, 0, 0, 0, 5, 0, 0, 0, 0, 0, 0, 0]

/-- The segment loop stays inside the file and inside the segments exactly when the program header of every pass fits,
    as it stands in memory when the pass begins. When no segment of the file is copied into the heap region, these are
    the program headers of the file. -/
theorem segments_inside_iff (block : HeapBlock elfData stSize) :
    (SegmentsInside elfData stSize eh heap ↔
      ∀ i h, Begins elfData eh heap i h → PassFits elfData stSize eh h i) ∧
    ∀ file, Holds elfData file heap → stSize.toNat = file.length →
      (∀ i, Segment file i → OffHeap (phdr file i)) →
      (SegmentsInside elfData stSize (Ehdr.ofBytes file) heap ↔ FileFits file) := by
  have passes (eh : Ehdr) : SegmentsInside elfData stSize eh heap ↔
      ∀ i h, Begins elfData eh heap i h → PassFits elfData stSize eh h i :=
    forall_congr' fun _ => forall_congr' fun _ => imp_congr_right fun _ => pass_inside_iff block
  exact ⟨passes eh, fun file holds len off => (passes _).trans (passes_fit_iff holds len off)⟩

/-- A file stored in a buffer of its size. -/
lemma holds_stored {h h' : Kheap.Heap} {l : List Block} (v : Kheap.Valid h l) (nw : ¬ Kheap.Wraps stSize)
    (len : stSize.toNat = file.length) (run : Kheap.kmalloc h stSize = some (elfData, h')) (ne : elfData ≠ 0) :
    Holds elfData file { h' with mem := h'.mem.storeBytes elfData file } := by
  obtain ⟨null, -⟩ | ⟨-, l', v', alloc, -⟩ := Kheap.kmalloc_owned v nw run
  · exact absurd null ne
  · obtain ⟨v2, -⟩ := alloc.store v' len.ge
    obtain ⟨d, used, addr, le, -, made⟩ := id alloc
    refine ⟨⟨l', d, v2, (made d used).mpr (.inl rfl), used, addr, by omega⟩, ?_⟩
    exact Memory.loadBytes_storeBytes (by have := stSize.toNat_lt; omega)

/-- The segment of `elfFile` stays inside the file and inside itself. -/
theorem segments_inside_elfFile : ∃ heap, Kheap.kmalloc (Kheap.kheapInit Kheap.bare) 88 = some (0xC000000C, heap) ∧
    Segment elfFile 0 ∧
    SegmentsInside 0xC000000C 88 (Ehdr.ofBytes elfFile)
      { heap with mem := heap.mem.storeBytes 0xC000000C elfFile } := by
  obtain ⟨heap, run⟩ := Kheap.kmalloc_first (s := Kheap.bare) (n := 88) rfl (by decide)
  have holds : Holds 0xC000000C elfFile { heap with mem := heap.mem.storeBytes 0xC000000C elfFile } :=
    holds_stored (Kheap.kheapInit_valid rfl) (by decide) rfl run (by decide)
  have off : ∀ i, Segment elfFile i → OffHeap (phdr elfFile i) := by
    intro i h
    cases elfFile_segment h
    exact .inr (.inl (by decide))
  refine ⟨heap, run, ⟨by decide, by decide⟩, ?_⟩
  exact ((@segments_inside_iff _ _ (Ehdr.ofBytes elfFile) _ ⟨by decide, by decide⟩).2 elfFile holds rfl off).mpr
    elfFile_wellFormed.fileFits

theorem segment_overruns : elfValidate (Ehdr.ofBytes overlong) = true ∧
    ∃ heap, Kheap.kmalloc (Kheap.kheapInit Kheap.bare) 84 = some (0xC000000C, heap) ∧
      ¬ SegmentsInside 0xC000000C 84 (Ehdr.ofBytes overlong)
        { heap with mem := heap.mem.storeBytes 0xC000000C overlong } := by
  obtain ⟨heap, run⟩ := Kheap.kmalloc_first (s := Kheap.bare) (n := 84) rfl (by decide)
  refine ⟨by decide, heap, run, fun inside => ?_⟩
  generalize held : { heap with mem := heap.mem.storeBytes 0xC000000C overlong } = h at inside
  have header : phAt h.mem 0xC000000C (Ehdr.ofBytes overlong) 0 = phdr overlong 0 := by
    have bytes : h.mem.loadBytes 0xC000000C 84 = overlong := by
      rw [← held]
      exact Memory.loadBytes_storeBytes (by decide)
    have slice := Memory.loadBytes_slice (m := h.mem) (a := 0xC000000C) (n := 84) 52 32
    rw [bytes] at slice
    exact congrArg Phdr.ofBytes slice.symm
  have maps : mapPages h 0x400000 0 1 = some h := by
    refine loop_done ?_
    rw [mapBody, if_neg (by decide)]
  have fits := (pass_inside_iff ⟨by decide, by decide⟩).mp (inside 0 h ⟨by decide, rfl⟩)
  have copied := fits.2 (by rw [header]; decide) h (by rw [header]; exact maps)
  rw [header] at copied
  exact absurd copied (by decide)

end RetaOS.Elf
