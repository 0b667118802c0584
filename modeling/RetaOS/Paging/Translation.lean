import RetaOS.Kheap.Integrity
import RetaOS.Lib.Runs
import RetaOS.Paging.Init

/-!
# Translation after a run of mappings

What `paging_map_page` makes of the translation by the processor. A call for a region of 4 MB that has one of the two
static tables sets an entry of it (`pagingMapPage_static`): the kernel's address of that table is its physical address,
by the identity mapping of the first 4 MB. Any other region gets a table from `kmalloc`, and the address that goes into
the directory is the kernel's, which the processor takes for a physical one: the entries that are set in the new table
take no part in the translation (`map_new_table`). So the calls that do what they say are those for the two regions, as
long as no call has moved the tables themselves (`Condition`), and a run of them translates each page to the frame of
the latest call for it (`run_mapped`).
-/

namespace RetaOS.Paging
open Lib Memory
open Kheap (Heap kmalloc kheapInit Valid)
open Pmm (PAGE_PRESENT PAGE_RW)

/-- The calls made so far, latest first, with the heap and the physical memory after them. -/
structure State where
  heap : Heap
  calls : List (UInt32 × UInt32)

/-- A call of `paging_map_page`, or anything that other code makes of the heap and the memory. -/
inductive Op where
  | map (virt phys : UInt32)
  | other (heap : Heap)

/-- An operation. -/
def step (t : Tables) (x : State) : Op → Option State
  | .map virt phys => (pagingMapPage t x.heap virt phys).map fun heap => ⟨heap, (virt, phys) :: x.calls⟩
  | .other heap => some { x with heap }

/-- The state that `paging_init` leaves. -/
def start (t : Tables) (s : Heap) : State := ⟨{ s with mem := pagingInit t s.mem }, []⟩

@[simp] lemma start_mem {t : Tables} {s : Heap} : (start t s).heap.mem = pagingInit t s.mem := rfl

@[simp] lemma start_calls {t : Tables} {s : Heap} : (start t s).calls = [] := rfl

/-- The latest call for the page of an address. -/
def latest (calls : List (UInt32 × UInt32)) (virt : UInt32) : Option (UInt32 × UInt32) :=
  calls.find? fun c => c.1 >>> 12 = virt >>> 12

/-- No call has moved the page at `a`, which maps to itself after `paging_init`. -/
def Unmoved (calls : List (UInt32 × UInt32)) (a : UInt32) : Prop :=
  ∀ c, latest calls a = some c → c.2 &&& ~~~0xFFF = a

/-- Other code leaves the directory and the static tables alone. -/
def Undisturbed (t : Tables) (m m' : Memory) : Prop :=
  ∀ b ∈ [t.pageDirectory, t.firstPageTable, t.heapPageTable], ∀ j : UInt32, j.toNat < 1024 →
    m'.load32 (slot b j) = m.load32 (slot b j)

/-- A call is for a region that has a static table, and neither that table nor the directory has been moved. -/
def Condition (t : Tables) (x : State) : Op → Prop
  | .map virt _ => Unmoved x.calls t.pageDirectory ∧ ∃ b, t.static virt = some b ∧ Unmoved x.calls b
  | .other heap => Undisturbed t x.heap.mem heap.mem

/-- Each page translates to the frame of the latest call for it, or as it did in the memory `m₀` when there is no such
    call, and the entries of the directory hold nothing but flags in their low bits. -/
structure Translates (t : Tables) (m₀ : Memory) (x : State) : Prop where
  mapped : ∀ virt c, latest x.calls virt = some c → walk t x.heap.mem virt = some (c.2 &&& ~~~0xFFF)
  others : ∀ virt, latest x.calls virt = none → walk t x.heap.mem virt = walk t m₀ virt
  flags : ∀ i : UInt32, i.toNat < 1024 → PureFlags (x.heap.mem.load32 (slot t.pageDirectory i))

variable {t : Tables} {s s₀ : Heap} {l : List Block} {m m' m₀ : Memory} {a b v virt phys w : UInt32} {x : State}

/-! ## Accesses behind the translation. -/

/-- The physical address is the frame with the offset in the page. -/
lemma translate_of_walk (h : walk t m v = some b) (aligned : 4096 ∣ b.toNat) :
    ∃ p, translate t m v = some p ∧ p.toNat = b.toNat + v.toNat % 4096 := by
  have low := toNat_and_mask v (k := 12) (by decide)
  change (v &&& 0xFFF).toNat = v.toNat % 4096 at low
  obtain ⟨f, eq⟩ := aligned
  refine ⟨b ||| (v &&& 0xFFF), by rw [translate, h]; rfl, ?_⟩
  have lt : v.toNat % 4096 < 2 ^ 12 := Nat.mod_lt _ (by decide)
  rw [UInt32.toNat_or, low, eq]
  exact (Nat.two_pow_add_eq_or_of_lt lt f).symm

/-- The addresses of one page have one frame. -/
lemma walk_page (aligned : 4096 ∣ a.toNat) (lo : a.toNat ≤ v.toNat) (hi : v.toNat < a.toNat + 4096) :
    walk t m v = walk t m a := by
  have lt := v.toNat_lt
  have page : v >>> 12 = a >>> 12 := by
    rw [← UInt32.toNat_inj, UInt32.toNat_shiftRight, UInt32.toNat_shiftRight]
    change v.toNat >>> 12 = a.toNat >>> 12
    rw [Nat.shiftRight_eq_div_pow, Nat.shiftRight_eq_div_pow]
    omega
  obtain ⟨pd, pt⟩ := same_page_iff.mpr page
  rw [walk, walk, pd, pt]

/-- The words of a page that maps to itself are where the kernel takes them to be. -/
lemma translate_slot (h : walk t m a = some a) (aligned : 4096 ∣ a.toNat) (hi : v.toNat < 1024) :
    ∀ i < 4, translate t m (slot a v + UInt32.ofNat i) = some (slot a v + UInt32.ofNat i) := by
  intro i lt
  have le := page_le aligned
  have at_v := slot_toNat le hi
  have byte := toNat_add_ofNat (a := slot a v) (n := i) (by omega)
  have frame : walk t m (slot a v + UInt32.ofNat i) = some a := by
    rw [walk_page aligned (by omega) (by omega), h]
  obtain ⟨p, eq, place⟩ := translate_of_walk frame aligned
  have same : p = slot a v + UInt32.ofNat i := by
    rw [← UInt32.toNat_inj, place, byte, at_v]
    omega
  rw [eq, same]

/-! ## Regions with a static table. -/

/-- The directory is the one that `paging_init` sets up. -/
def Kept (t : Tables) (m : Memory) : Prop :=
  ∀ i : UInt32, i.toNat < 1024 → m.load32 (slot t.pageDirectory i) = directoryEntry t i

/-- The translation by that directory. -/
lemma Kept.walk (kept : Kept t m) (placed : t.Placed) :
    walk t m v = (t.static v).bind fun b => frameOf (m.load32 (slot b (ptIdx v))) := by
  rw [Paging.walk, kept _ pdIdx_lt, frameOf_directoryEntry placed]
  cases t.static v with
  | none => rfl
  | some b => rfl

/-- Memories with the same static tables translate alike. -/
lemma Kept.congr (kept : Kept t m) (kept' : Kept t m') (placed : t.Placed)
    (same : ∀ b, t.static v = some b → ∀ j : UInt32, j.toNat < 1024 → m'.load32 (slot b j) = m.load32 (slot b j)) :
    Paging.walk t m' v = Paging.walk t m v := by
  rw [kept.walk placed, kept'.walk placed]
  cases eq : t.static v with
  | none => rfl
  | some b =>
    rw [Option.bind_some, Option.bind_some, same b eq _ ptIdx_lt]

lemma static_mem (h : t.static v = some b) : b ∈ [t.pageDirectory, t.firstPageTable, t.heapPageTable] := by
  rw [Tables.static] at h
  split_ifs at h
  · cases h
    simp
  · cases h
    simp

lemma Kept.undisturbed (kept : Kept t m) (same : Undisturbed t m m') : Kept t m' := by
  intro i hi
  rw [same _ List.mem_cons_self i hi, kept i hi]

/-- Setting an entry of a static table maps its page and no other. -/
lemma Kept.store (kept : Kept t m) (placed : t.Placed) (table : t.static virt = some b) (phys : UInt32) :
    Kept t (m.store32 (slot b (ptIdx virt)) (phys &&& ~~~0xFFF ||| PAGE_PRESENT ||| PAGE_RW)) ∧
    ∀ v, Paging.walk t (m.store32 (slot b (ptIdx virt)) (phys &&& ~~~0xFFF ||| PAGE_PRESENT ||| PAGE_RW)) v =
      if virt >>> 12 = v >>> 12 then some (phys &&& ~~~0xFFF) else Paging.walk t m v := by
  obtain ⟨aligned, low, apart⟩ := static_page placed table
  let m' := m.store32 (slot b (ptIdx virt)) (phys &&& ~~~0xFFF ||| PAGE_PRESENT ||| PAGE_RW)
  have same : SameOutside b 4096 m m' := store_slot_outside (page_le aligned) ptIdx_lt
  have kept' : Kept t m' := by
    intro i hi
    rw [load_slot_of_outside same aligned placed.directory.1 apart.symm hi, kept i hi]
  refine ⟨kept', fun v => ?_⟩
  by_cases region : pdIdx virt = pdIdx v
  · have table' : t.static v = some b := by
      rw [← table, Tables.static, Tables.static, region]
    rw [kept'.walk placed, kept.walk placed, table', Option.bind_some, Option.bind_some,
      load_store_slot (page_le aligned) ptIdx_lt ptIdx_lt]
    by_cases index : ptIdx virt = ptIdx v
    · rw [if_pos index, if_pos (same_page_iff.mp ⟨region, index⟩), frameOf_entry]
    · have other : virt >>> 12 ≠ v >>> 12 := fun e => index (same_page_iff.mpr e).2
      rw [if_neg index, if_neg other]
  · have other : virt >>> 12 ≠ v >>> 12 := fun e => region (same_page_iff.mpr e).1
    rw [if_neg other]
    apply kept.congr kept' placed
    intro b' table' j hj
    have ne : b ≠ b' := by
      rintro rfl
      exact region (static_region placed table table')
    exact load_slot_of_outside same aligned (static_page placed table').1 ne hj

/-- A call for a region with a static table, when that and the directory map to themselves, sets its entry. -/
lemma pagingMapPage_static (placed : t.Placed) (kept : Kept t s.mem) (table : t.static virt = some b) (phys : UInt32)
    (dir : walk t s.mem t.pageDirectory = some t.pageDirectory) (self : walk t s.mem b = some b) :
    pagingMapPage t s virt phys = some { s with
      mem := s.mem.store32 (slot b (ptIdx virt)) (phys &&& ~~~0xFFF ||| PAGE_PRESENT ||| PAGE_RW) } := by
  have entry := frameOf_directoryEntry placed virt
  rw [table, frameOf] at entry
  split_ifs at entry with absent
  have base := Option.some.inj entry
  rw [pagingMapPage, load32At_id (translate_slot dir placed.directory.1 pdIdx_lt), kept _ pdIdx_lt, Option.bind_eq_bind,
    Option.bind_some, if_neg absent]
  dsimp only
  rw [base, setEntry, Paging.store,
    store32At_id (translate_slot self (static_page placed table).1 ptIdx_lt)]
  rfl

/-! ## Runs. -/

/-- The translation that a list of calls calls for. -/
def Translated (t : Tables) (m₀ m : Memory) (calls : List (UInt32 × UInt32)) : Prop :=
  ∀ v, walk t m v =
    match latest calls v with
    | some c => some (c.2 &&& ~~~0xFFF)
    | none => walk t m₀ v

/-- After a further call for a page. -/
lemma Translated.cons {calls : List (UInt32 × UInt32)} (h : Translated t m₀ m calls)
    (sets : ∀ v, walk t m' v = if virt >>> 12 = v >>> 12 then some (phys &&& ~~~0xFFF) else walk t m v) :
    Translated t m₀ m' ((virt, phys) :: calls) := by
  intro v
  rw [sets v, latest]
  by_cases same : virt >>> 12 = v >>> 12
  · rw [if_pos same, List.find?_cons_of_pos (by simpa using same)]
  · rw [if_neg same, List.find?_cons_of_neg (by simpa using same), ← latest]
    exact h v

lemma Translated.nil : Translated t m m [] := by
  intro v
  rw [latest, List.find?_nil]

/-- A page of the first 4 MB that no call has moved maps to itself. -/
lemma Translated.unmoved {calls : List (UInt32 × UInt32)} (h : Translated t (pagingInit t m₀) m calls)
    (placed : t.Placed) (page : 4096 ∣ a.toNat ∧ a.toNat + 4096 ≤ 0x400000) (unmoved : Unmoved calls a) :
    walk t m a = some a := by
  rw [h a]
  cases call : latest calls a with
  | none =>
    have base : a &&& ~~~0xFFF = a := by
      have mask := toNat_and_not_mask a (k := 12) (by decide)
      change (a &&& ~~~0xFFF).toNat = a.toNat / 4096 * 4096 at mask
      rw [← UInt32.toNat_inj, mask]
      exact Nat.div_mul_cancel page.1
    dsimp only
    rw [walk_pagingInit placed, if_pos (by omega), base]
  | some c => exact congrArg some (unmoved c call)

/-- A call that meets the condition returns, and sets an entry of a static table. -/
lemma map_returns (placed : t.Placed) (kept : Kept t x.heap.mem)
    (walks : Translated t (pagingInit t m₀) x.heap.mem x.calls) (ok : Condition t x (.map virt phys)) :
    ∃ s', pagingMapPage t x.heap virt phys = some s' ∧ Kept t s'.mem ∧
      Translated t (pagingInit t m₀) s'.mem ((virt, phys) :: x.calls) := by
  obtain ⟨dir, b, table, self⟩ := ok
  have page := static_page placed table
  have sets := kept.store placed table phys
  have call := pagingMapPage_static placed kept table phys (walks.unmoved placed placed.directory dir)
    (walks.unmoved placed ⟨page.1, page.2.1⟩ self)
  exact ⟨_, call, sets.1, walks.cons sets.2⟩

/-- In a run whose calls meet the condition the directory stays as it is, and each page translates to the frame of the
    latest call for it or as after `paging_init`. -/
lemma run_mapped (placed : t.Placed) (run : Runs (step t) (Condition t) (start t s₀) x) :
    Kept t x.heap.mem ∧ Translated t (pagingInit t s₀.mem) x.heap.mem x.calls := by
  have dir : Kept t (pagingInit t s₀.mem) := fun i hi => pagingInit_directory placed hi
  refine run.invariant (I := fun x => Kept t x.heap.mem ∧ Translated t (pagingInit t s₀.mem) x.heap.mem x.calls) ?_ ?_
  · rw [start_mem, start_calls]
    exact ⟨dir, .nil⟩
  · rintro x op x' ⟨kept, walks⟩ ok eq
    cases op with
    | map virt phys =>
      obtain ⟨s', call, kept', walks'⟩ := map_returns placed kept walks ok
      rw [step, call] at eq
      cases eq
      exact ⟨kept', walks'⟩
    | other s' =>
      cases eq
      have kept' := kept.undisturbed ok
      refine ⟨kept', fun v => ?_⟩
      rw [← walks v]
      exact kept.congr kept' placed fun b table => ok b (static_mem table)

/-- Every run of calls that meet the condition ends in a state where each page translates to the frame of the latest
    call for it and every other page as after `paging_init`, the entries of the directory hold nothing but flags in
    their low bits, and the next call that meets the condition returns. -/
theorem run_translates (placed : t.Placed) (run : Runs (step t) (Condition t) (start t s₀) x) :
    Translates t (pagingInit t s₀.mem) x ∧
    ∀ virt phys, Condition t x (.map virt phys) → ∃ s', pagingMapPage t x.heap virt phys = some s' := by
  obtain ⟨kept, walks⟩ := run_mapped placed run
  refine ⟨⟨fun virt c call => ?_, fun virt call => ?_, fun i hi => ?_⟩, fun virt phys ok => ?_⟩
  · rw [walks virt, call]
  · rw [walks virt, call]
  · rw [kept i hi]
    exact directoryEntry_pureFlags placed
  · obtain ⟨s', returns, -⟩ := map_returns placed kept walks ok
    exact ⟨s', returns⟩

/-- Arrays in a kernel image at 1 MB. -/
def imageTables : Tables := ⟨0x101000, 0x102000, 0x103000⟩

lemma imageTables_placed : imageTables.Placed :=
  ⟨⟨by decide, by decide⟩, ⟨by decide, by decide⟩, ⟨by decide, by decide⟩, by decide⟩

lemma unmoved_of_none {calls : List (UInt32 × UInt32)} (none_ : latest calls a = none) : Unmoved calls a := by
  intro c found
  rw [none_] at found
  cases found

/-- Two calls for one page of the first 4 MB and one for a page behind the kernel heap. -/
theorem run_translates_three : ∃ x, Runs (step imageTables) (Condition imageTables) (start imageTables Kheap.bare) x ∧
    x.calls = [(0x200FFF, 0x900000), (0xC0200000, 0xA00FFF), (0x200000, 0x800123)] ∧
    walk imageTables x.heap.mem 0x200ABC = some 0x900000 ∧ walk imageTables x.heap.mem 0xC0200004 = some 0xA00000 := by
  have placed := imageTables_placed
  have first : Condition imageTables (start imageTables Kheap.bare) (.map 0x200000 0x800123) :=
    ⟨unmoved_of_none rfl, _, rfl, unmoved_of_none rfl⟩
  obtain ⟨s1, call⟩ := (run_translates placed .refl).2 _ _ first
  have run1 : Runs (step imageTables) (Condition imageTables) (start imageTables Kheap.bare)
      ⟨s1, [(0x200000, 0x800123)]⟩ := .step .refl first (by rw [step, call]; rfl)
  have second : Condition imageTables ⟨s1, [(0x200000, 0x800123)]⟩ (.map 0xC0200000 0xA00FFF) :=
    ⟨unmoved_of_none rfl, _, rfl, unmoved_of_none rfl⟩
  obtain ⟨s2, call⟩ := (run_translates placed run1).2 _ _ second
  have run2 : Runs (step imageTables) (Condition imageTables) (start imageTables Kheap.bare)
      ⟨s2, [(0xC0200000, 0xA00FFF), (0x200000, 0x800123)]⟩ := .step run1 second (by rw [step, call]; rfl)
  have third : Condition imageTables ⟨s2, [(0xC0200000, 0xA00FFF), (0x200000, 0x800123)]⟩ (.map 0x200FFF 0x900000) :=
    ⟨unmoved_of_none rfl, _, rfl, unmoved_of_none rfl⟩
  obtain ⟨s3, call⟩ := (run_translates placed run2).2 _ _ third
  have run3 : Runs (step imageTables) (Condition imageTables) (start imageTables Kheap.bare)
      ⟨s3, [(0x200FFF, 0x900000), (0xC0200000, 0xA00FFF), (0x200000, 0x800123)]⟩ :=
    .step run2 third (by rw [step, call]; rfl)
  have translates := (run_translates placed run3).1
  exact ⟨_, run3, rfl, translates.mapped 0x200ABC _ rfl, translates.mapped 0xC0200004 _ rfl⟩

/-! ## Regions without a table. -/

/-- The pages of the kernel heap map to the frames from 4 MB on, as after `paging_init`. -/
def Backed (t : Tables) (m : Memory) : Prop :=
  ∀ v : UInt32, 0xC0000000 ≤ v.toNat → v.toNat < 0xC0100000 → walk t m v = some ((v - 0xBFC00000) &&& ~~~0xFFF)

lemma backed_pagingInit (placed : t.Placed) : Backed t (pagingInit t m) := by
  intro v lo hi
  rw [walk_pagingInit placed, if_neg (by omega), if_pos ⟨lo, hi⟩]

/-- The frame of a page of the kernel heap. -/
lemma backed_toNat (lo : 0xC0000000 ≤ v.toNat) :
    ((v - 0xBFC00000) &&& ~~~0xFFF).toNat = (v.toNat - 0xBFC00000) / 4096 * 4096 := by
  have offset : (v - 0xBFC00000).toNat = v.toNat - 0xBFC00000 := sub_toNat_of_le (show 0xBFC00000 ≤ v.toNat by omega)
  have mask := toNat_and_not_mask (v - 0xBFC00000) (k := 12) (by decide)
  change _ = (v - 0xBFC00000).toNat / 4096 * 4096 at mask
  rw [← offset]
  exact mask

/-- The frames behind the heap hold no table, so what changes in them changes no translation. -/
lemma Kept.same (kept : Kept t m) (placed : t.Placed) (same : SameOutside 0x400000 0x100000 m m') :
    Kept t m' ∧ ∀ v, Paging.walk t m' v = Paging.walk t m v := by
  have four : (0x400000 : UInt32).toNat = 0x400000 := rfl
  have words (b : UInt32) (aligned : 4096 ∣ b.toNat) (low : b.toNat + 4096 ≤ 0x400000) (j : UInt32)
      (hj : j.toNat < 1024) : m'.load32 (slot b j) = m.load32 (slot b j) := by
    apply load_slot_congr (page_le aligned) hj
    intro x _ hi
    exact same x (.inl (by omega))
  have kept' : Kept t m' := by
    intro i hi
    rw [words _ placed.directory.1 placed.directory.2 i hi, kept i hi]
  refine ⟨kept', fun v => kept.congr kept' placed fun b table => ?_⟩
  exact words b (static_page placed table).1 (static_page placed table).2.1

/-- A store into the heap changes nothing but the frames behind it. -/
lemma Backed.store (backed : Backed t m) (lo : 0xC0000000 ≤ v.toNat) (hi : v.toNat + 4 ≤ 0xC0100000) :
    ∃ m', Paging.store t m v w = some m' ∧ SameOutside 0x400000 0x100000 m m' := by
  apply store32At_inside
  intro i hi'
  have byte := toNat_add_ofNat (a := v) (n := i) (by omega)
  have frame := backed_toNat (v := v + UInt32.ofNat i) (by omega)
  obtain ⟨p, eq, place⟩ := translate_of_walk (backed (v + UInt32.ofNat i) (by omega) (by omega)) aligned_frame
  have four : (0x400000 : UInt32).toNat = 0x400000 := rfl
  exact ⟨p, eq, by omega, by omega⟩

/-- The loop that clears a table in the heap. -/
lemma Backed.clear {pt : UInt32} {is : List Nat} (kept : Kept t m) (backed : Backed t m) (placed : t.Placed)
    (lo : 0xC0000000 ≤ pt.toNat) (hi : pt.toNat + 4096 ≤ 0xC0100000) (small : ∀ i ∈ is, i < 1024) :
    ∃ m', is.foldlM (fun m i => Paging.store t m (slot pt (UInt32.ofNat i)) 0) m = some m' ∧
      SameOutside 0x400000 0x100000 m m' := by
  induction is generalizing m with
  | nil => exact ⟨m, rfl, .refl⟩
  | cons i is ih =>
    have lt := small i List.mem_cons_self
    have eq : (UInt32.ofNat i).toNat = i := toNat_ofNat_lt (by omega)
    have place := slot_toNat (a := pt) (i := UInt32.ofNat i) (by omega) (by omega)
    obtain ⟨m1, stored, same⟩ := backed.store (v := slot pt (UInt32.ofNat i)) (w := 0) (by omega) (by omega)
    obtain ⟨kept1, walks⟩ := kept.same placed same
    have backed1 : Backed t m1 := fun v lo hi => (walks v).trans (backed v lo hi)
    obtain ⟨m', loop, rest⟩ := ih kept1 backed1 fun i h => small i (List.mem_cons_of_mem _ h)
    refine ⟨m', ?_, same.trans rest⟩
    rw [List.foldlM_cons, stored]
    exact loop

/-- Linking a table for one region leaves the other regions alone. -/
lemma Kept.linked (kept : Kept t m) (placed : t.Placed) (other : pdIdx virt ≠ pdIdx v) :
    Paging.walk t (m.store32 (slot t.pageDirectory (pdIdx virt)) w) v = Paging.walk t m v := by
  have pd := placed.directory.1
  rw [Paging.walk, Paging.walk, load_store_slot (page_le pd) pdIdx_lt pdIdx_lt, if_neg other, kept _ pdIdx_lt,
    frameOf_directoryEntry placed]
  cases table : t.static v with
  | none => rfl
  | some b =>
    obtain ⟨aligned, -, apart⟩ := static_page placed table
    dsimp only
    rw [load_slot_of_outside (store_slot_outside (page_le pd) pdIdx_lt) pd aligned apart ptIdx_lt]

/-- So the heap stays where it is when a table is linked for a region without one. -/
lemma Backed.linked (backed : Backed t m) (kept : Kept t m) (placed : t.Placed) (absent : t.static virt = none) :
    Backed t (m.store32 (slot t.pageDirectory (pdIdx virt)) w) := by
  intro v lo hi
  have region : pdIdx v = 0x300 := by
    have lt := v.toNat_lt
    have idx : (pdIdx v).toNat = v.toNat / 2 ^ 22 := pdIdx_toNat
    rw [← UInt32.toNat_inj, idx]
    change _ = 0x300
    omega
  have other : pdIdx virt ≠ pdIdx v := by
    intro same
    rw [Tables.static, same, region, if_pos rfl] at absent
    cases absent
  rw [kept.linked placed other, backed v lo hi]

/-- `paging_init` leaves the entry for a region without a table as not present. -/
lemma directoryEntry_absent (placed : t.Placed) (absent : t.static virt = none) :
    directoryEntry t (pdIdx virt) &&& PAGE_PRESENT = 0 := by
  have none := frameOf_directoryEntry placed virt
  rw [absent, frameOf] at none
  split_ifs at none with zero
  exact zero

/-- `kmalloc` for a table changes nothing but the frames behind the heap. -/
lemma Backed.kmallocTable {pt : UInt32} {s1 : Heap} (backed : Backed t s.mem)
    (alloc : kmalloc { s with mem := view (translate t s.mem) s.mem } 4096 = some (pt, s1)) :
    ∃ s2, Paging.kmallocTable t s = some (pt, s2) ∧ SameOutside 0x400000 0x100000 s.mem s2.mem := by
  refine ⟨{ s1 with mem := writeBack (walk t s.mem) heapPages s1.mem s.mem }, ?_, ?_⟩
  · rw [Paging.kmallocTable, alloc]
    rfl
  · apply writeBack_outside (by decide) (by decide)
    intro v mem p eq
    obtain ⟨i, hi, rfl⟩ := List.mem_map.mp mem
    have small := List.mem_range.mp hi
    have scaled := page_toNat (i := i) (by omega)
    have sum := toNat_add_of_lt (a := 0xC0000000) (b := UInt32.ofNat i * 0x1000)
      (by rw [scaled]; change 0xC0000000 + _ < _; omega)
    change _ = 0xC0000000 + _ at sum
    rw [backed _ (by omega) (by omega)] at eq
    cases eq
    have four : (0x400000 : UInt32).toNat = 0x400000 := rfl
    rw [backed_toNat (by omega)]
    omega

/-- The processor takes the address of a new table, without its low bits, for a physical one. -/
lemma frameOf_link {pt : UInt32} : frameOf (pt ||| PAGE_PRESENT ||| PAGE_RW) = some (pt &&& ~~~0xFFF) := by
  have present : ¬ (pt ||| PAGE_PRESENT ||| PAGE_RW) &&& PAGE_PRESENT = 0 := by
    intro zero
    have flags : (PAGE_PRESENT ||| PAGE_RW) &&& PAGE_PRESENT = 1 := by decide
    have bit := congrArg (fun x => x.toNat.testBit 0) zero
    rw [UInt32.or_assoc, or_and_distrib, flags] at bit
    rw [UInt32.toNat_or, Nat.testBit_or] at bit
    simp at bit
  have low : (PAGE_PRESENT ||| PAGE_RW) &&& ~~~0xFFF = 0 := by decide
  rw [frameOf, if_neg present, UInt32.or_assoc, or_and_distrib, low, UInt32.or_zero]

/-- A call for a region without a table links the kernel's address of a new one, and the page that it maps translates to
    what physical memory held at that address before the call, whatever frame the call is for. -/
theorem map_new_table (virt phys : UInt32) {pt : UInt32} {s1 : Heap} (placed : t.Placed)
    (kept : Kept t s.mem) (backed : Backed t s.mem)
    (dir : walk t s.mem t.pageDirectory = some t.pageDirectory) (absent : t.static virt = none)
    (alloc : kmalloc { s with mem := view (translate t s.mem) s.mem } 4096 = some (pt, s1))
    (lo : 0xC0000000 ≤ pt.toNat) (hi : pt.toNat + 4096 ≤ 0xC0100000) :
    ∃ s', pagingMapPage t s virt phys = some s' ∧
      s'.mem.load32 (slot t.pageDirectory (pdIdx virt)) = pt ||| PAGE_PRESENT ||| PAGE_RW ∧
      walk t s'.mem virt = frameOf (s.mem.load32 (slot (pt &&& ~~~0xFFF) (ptIdx virt))) := by
  obtain ⟨pd, low⟩ := placed.directory
  have four : (0x400000 : UInt32).toNat = 0x400000 := rfl
  -- the block, the stores that clear it, the entry of the directory and the entry of the table
  obtain ⟨s2, table, same⟩ := backed.kmallocTable alloc
  obtain ⟨kept2, walks2⟩ := kept.same placed same
  have backed2 : Backed t s2.mem := fun v lo hi => (walks2 v).trans (backed v lo hi)
  obtain ⟨m3, cleared, same3⟩ := Backed.clear kept2 backed2 placed lo hi range_lt
  obtain ⟨kept3, walks3⟩ := kept2.same placed same3
  have dir3 : walk t m3 t.pageDirectory = some t.pageDirectory := by
    rw [walks3, walks2, dir]
  let m4 := m3.store32 (slot t.pageDirectory (pdIdx virt)) (pt ||| PAGE_PRESENT ||| PAGE_RW)
  have linked : store t m3 (slot t.pageDirectory (pdIdx virt)) (pt ||| PAGE_PRESENT ||| PAGE_RW) = some m4 :=
    store32At_id (translate_slot dir3 pd pdIdx_lt)
  have backed3 : Backed t m3 := fun v lo hi => (walks3 v).trans (backed2 v lo hi)
  have backed4 : Backed t m4 := backed3.linked kept3 placed absent
  have place := slot_toNat (a := pt) (i := ptIdx virt) (by omega) ptIdx_lt
  have entry : (ptIdx virt).toNat < 1024 := ptIdx_lt
  obtain ⟨m5, set, same5⟩ := backed4.store (v := slot pt (ptIdx virt))
    (w := phys &&& ~~~0xFFF ||| PAGE_PRESENT ||| PAGE_RW) (by omega) (by omega)
  have word : m5.load32 (slot t.pageDirectory (pdIdx virt)) = pt ||| PAGE_PRESENT ||| PAGE_RW := by
    have index : (pdIdx virt).toNat < 1024 := pdIdx_lt
    have at_pd := slot_toNat (page_le pd) index
    rw [same5.load32 (by omega) (.inl (by omega)), load_store_slot (page_le pd) pdIdx_lt pdIdx_lt, if_pos rfl]
  refine ⟨{ s2 with mem := m5 }, ?_, word, ?_⟩
  · rw [pagingMapPage, load32At_id (translate_slot dir pd pdIdx_lt), kept _ pdIdx_lt, Option.bind_eq_bind,
      Option.bind_some, if_pos (directoryEntry_absent placed absent), table]
    dsimp only [Option.bind_eq_bind, Option.bind_some]
    rw [cleared, Option.bind_some, linked, Option.bind_some, setEntry, set, Option.bind_some]
    rfl
  · have frame := toNat_and_not_mask pt (k := 12) (by decide)
    change (pt &&& ~~~0xFFF).toNat = pt.toNat / 4096 * 4096 at frame
    rw [walk, word, frameOf_link]
    dsimp only
    refine congrArg frameOf (load_slot_congr (page_le aligned_frame) ptIdx_lt fun x lo _ => ?_)
    have link : m4 x = m3 x := store_slot_outside (page_le pd) pdIdx_lt x (by omega)
    rw [same5 x (by omega), link, same3 x (by omega), same x (by omega)]

/-- The first call on a new heap gets the block behind the first header. The processor looks for the table at 3 GB of
    physical memory, finds zeros there, and the page just mapped is not present. -/
theorem fresh_heap_unmapped : ∃ x, Runs (step imageTables) (fun _ op => op = .map 0x400000 0x800000)
      (start imageTables Kheap.bare) x ∧ x.calls = [(0x400000, 0x800000)] ∧
    ¬ Translates imageTables (pagingInit imageTables Kheap.bare.mem) x ∧
    walk imageTables x.heap.mem 0x400000 = none ∧
    ¬ PureFlags (x.heap.mem.load32 (slot imageTables.pageDirectory (pdIdx 0x400000))) := by
  have placed := imageTables_placed
  let s := (start imageTables Kheap.bare).heap
  obtain ⟨r, s1, alloc, addr, -⟩ := Kheap.kmalloc_bump (l := []) (n := 4096) (b := Kheap.initialBlock)
    (Kheap.kheapInit_valid (s := { s with mem := view (translate imageTables s.mem) s.mem }) rfl) (by simp) rfl
    (by decide) (by decide)
  rw [Kheap.kmalloc_kheapInit] at alloc
  obtain rfl : r = 0xC000000C := UInt32.toNat_inj.mp addr
  have kept : Kept imageTables s.mem := fun i hi => pagingInit_directory placed hi
  have dir : walk imageTables s.mem imageTables.pageDirectory = some imageTables.pageDirectory := by
    exact Translated.unmoved .nil placed placed.directory (unmoved_of_none rfl)
  obtain ⟨s', call, entry, lost⟩ := map_new_table 0x400000 0x800000 placed kept
    (backed_pagingInit placed) dir (by decide) alloc (by decide) (by decide)
  have zero : s.mem.load32 0xC0000000 = 0 := by
    have same : s.mem.load32 0xC0000000 = Kheap.bare.mem.load32 0xC0000000 := by
      apply load32_congr
      intro i hi
      have byte := toNat_add_ofNat (a := 0xC0000000) (n := i) (by change 0xC0000000 + i < _; omega)
      change _ = 0xC0000000 + i at byte
      exact pagingInit_above placed (by omega)
    rw [same]
    decide
  have none : walk imageTables s'.mem 0x400000 = none := by
    rw [lost]
    change frameOf (s.mem.load32 0xC0000000) = none
    rw [zero, frameOf_zero]
  refine ⟨⟨s', [(0x400000, 0x800000)]⟩, .step .refl rfl (by rw [step, call]; rfl), rfl, fun translates => ?_, none, ?_⟩
  · have mapped := translates.mapped 0x400000 _ rfl
    rw [none] at mapped
    cases mapped
  · rw [entry]
    decide

end RetaOS.Paging
