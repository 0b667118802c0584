import RetaOS.Lib.Loop
import RetaOS.Lib.Memory

/-!
# The ACPI tables

`acpi.c`: the search for the RSDP, the choice of the root table, and the walks over the pointers behind its header. The
memory does not change meanwhile. Every function gets it, and the walks return the addresses of the entries that they
read together with their result.

A root table is accepted for the sum of as many bytes as its length field says. The walks subtract the size of the
header from that length, and it wraps for a table shorter than its header: then they read entries behind the table
(`entriesInside_iff`).
-/

namespace RetaOS.Acpi
open Lib

/-! ## The structures. -/

/-- `"RSD PTR "`. -/
def RSD_PTR : List UInt8 := [0x52, 0x53, 0x44, 0x20, 0x50, 0x54, 0x52, 0x20]

/-- `"APIC"`. -/
def APIC : List UInt8 := [0x41, 0x50, 0x49, 0x43]

/-- `"HPET"`. -/
def HPET : List UInt8 := [0x48, 0x50, 0x45, 0x54]

/-- `sizeof(acpi_sdt_header_t)`. -/
def SDT_HEADER : Nat := 36

/-- The fields of an `acpi_rsdp_t`, which is packed. -/
def rsdpRevision (m : Memory) (rsdp : UInt32) : UInt8 := m (rsdp + 15)
def rsdtAddress (m : Memory) (rsdp : UInt32) : UInt32 := m.load32 (rsdp + 16)
def rsdpLength (m : Memory) (rsdp : UInt32) : UInt32 := m.load32 (rsdp + 20)
def xsdtAddress (m : Memory) (rsdp : UInt32) : UInt64 := m.load64 (rsdp + 24)

/-- The fields of an `acpi_sdt_header_t`. -/
def sdtSignature (m : Memory) (h : UInt32) : List UInt8 := m.loadBytes h 4
def sdtLength (m : Memory) (h : UInt32) : UInt32 := m.load32 (h + 4)

/-! ## The functions. -/

/-- `checksum8`. -/
def checksum8 (m : Memory) (p len : UInt32) : UInt8 :=
  let s := (m.loadBytes p len.toNat).foldl (fun s b => s + b.toUInt32) (0 : UInt32)
  (s &&& 0xFF).toUInt8

/-- `acpi_table_checksum_ok`. -/
def acpiTableChecksumOk (m : Memory) (table length : UInt32) : Bool := checksum8 m table length == 0

/-- One pass of `scan_rsdp_area`. -/
def scanPass (m : Memory) (stop p : UInt32) : Pass UInt32 UInt32 :=
  if p < stop then
    if m.loadBytes p 8 = RSD_PTR then
      if rsdpRevision m p = 0 then
        if checksum8 m p 20 = 0 then .done p else .next (p + 16)
      else if checksum8 m p 20 = 0 ∧ checksum8 m p (rsdpLength m p) = 0 then .done p
      else .next (p + 16)
    else .next (p + 16)
  else .done 0

/-- `scan_rsdp_area`. -/
def scanRsdpArea (m : Memory) (start stop : UInt32) : Option UInt32 := loop (scanPass m stop) start

/-- The address in `find_rsdp` of the EBDA, whose segment is at 0x40E. -/
def ebdaAddr (m : Memory) : UInt32 := UInt32.ofNat (ofBytes (m.loadBytes 0x40E 2)) <<< 4

/-- `find_rsdp`; 0 when there is no RSDP. -/
def findRsdp (m : Memory) : Option UInt32 :=
  let ebda := if ebdaAddr m ≠ 0 then scanRsdpArea m (ebdaAddr m) (ebdaAddr m + 0x4000) else some 0
  ebda.bind fun r => if r ≠ 0 then some r else scanRsdpArea m 0xE0000 0x100000

/-- `g_rsdp`, `g_rsdt` and `g_xsdt`. -/
structure Roots where
  rsdp : UInt32
  rsdt : UInt32
  xsdt : UInt32
deriving DecidableEq

/-- A root table with a wrong checksum is ignored. -/
def accept (m : Memory) (table : UInt32) : UInt32 :=
  if table ≠ 0 ∧ ¬ acpiTableChecksumOk m table (sdtLength m table) then 0 else table

/-- The XSDT of `discover_sdt_pointers`. Its address loses the upper 32 bits when it becomes a pointer. -/
def discoverXsdt (m : Memory) (g : Roots) : UInt32 :=
  if 2 ≤ rsdpRevision m g.rsdp ∧ xsdtAddress m g.rsdp ≠ 0 then accept m (xsdtAddress m g.rsdp).toUInt32 else g.xsdt

/-- `discover_sdt_pointers`. -/
def discoverSdtPointers (m : Memory) (g : Roots) : Roots :=
  if g.rsdp = 0 then g
  else
    let xsdt := discoverXsdt m g
    { g with xsdt, rsdt := if xsdt = 0 then accept m (rsdtAddress m g.rsdp) else g.rsdt }

/-- The entries of a root table, as `find_table_in_rsdt` and `find_table_in_xsdt` count them, with `size` bytes each. -/
def entries (m : Memory) (size : Nat) (table : UInt32) : List UInt32 :=
  let count := (sdtLength m table - UInt32.ofNat SDT_HEADER) / UInt32.ofNat size
  (List.range count.toNat).map fun i => table + UInt32.ofNat SDT_HEADER + UInt32.ofNat (size * i)

/-- The loop of `find_table_in_rsdt` and `find_table_in_xsdt` over the entries that are left: the table found or 0, and
    the entries read. -/
def findFrom (m : Memory) (pointer : UInt32 → UInt32) (sig : List UInt8) : List UInt32 → UInt32 × List UInt32
  | [] => (0, [])
  | e :: es =>
    let h := pointer e
    if h ≠ 0 ∧ sdtSignature m h = sig ∧ acpiTableChecksumOk m h (sdtLength m h) then (h, [e])
    else
      let (r, reads) := findFrom m pointer sig es
      (r, e :: reads)

/-- The search for a table through a root table. -/
def findTable (m : Memory) (size : Nat) (pointer : UInt32 → UInt32) (table : UInt32) (sig : List UInt8) :
    UInt32 × List UInt32 :=
  if table = 0 then (0, []) else findFrom m pointer sig (entries m size table)

/-- `find_table_in_rsdt`. -/
def findTableInRsdt (m : Memory) (g : Roots) (sig : List UInt8) : UInt32 × List UInt32 :=
  findTable m 4 (fun e => m.load32 e) g.rsdt sig

/-- `find_table_in_xsdt`. -/
def findTableInXsdt (m : Memory) (g : Roots) (sig : List UInt8) : UInt32 × List UInt32 :=
  findTable m 8 (fun e => (m.load64 e).toUInt32) g.xsdt sig

/-- `locate_madt_hpet`: `g_madt` and `g_hpet`. -/
def locateMadtHpet (m : Memory) (g : Roots) : UInt32 × UInt32 :=
  let madt := if g.xsdt ≠ 0 then (findTableInXsdt m g APIC).1 else 0
  let hpet := if g.xsdt ≠ 0 then (findTableInXsdt m g HPET).1 else 0
  if (madt = 0 ∨ hpet = 0) ∧ g.rsdt ≠ 0 then
    (if madt = 0 then (findTableInRsdt m g APIC).1 else madt, if hpet = 0 then (findTableInRsdt m g HPET).1 else hpet)
  else (madt, hpet)

variable {m : Memory} {g : Roots} {rsdp table start stop e : UInt32} {size j : Nat} {pointer : UInt32 → UInt32}
  {sig : List UInt8} {es : List UInt32}

/-! ## The RSDP. -/

/-- What `scan_rsdp_area` checks. -/
structure IsRsdp (m : Memory) (p : UInt32) : Prop where
  signature : m.loadBytes p 8 = RSD_PTR
  checksum : checksum8 m p 20 = 0
  extended : rsdpRevision m p ≠ 0 → checksum8 m p (rsdpLength m p) = 0

/-- A pass of `scan_rsdp_area` ends behind the area, finds an RSDP or goes on. -/
lemma scanPass_cases (m : Memory) (stop p : UInt32) :
    ¬ p < stop ∧ scanPass m stop p = .done 0 ∨ IsRsdp m p ∧ scanPass m stop p = .done p ∨
      p < stop ∧ scanPass m stop p = .next (p + 16) := by
  rw [scanPass]
  split_ifs with lt signature revision checksum checksums
  · exact .inr (.inl ⟨⟨signature, checksum, fun ne => absurd revision ne⟩, rfl⟩)
  · exact .inr (.inr ⟨lt, rfl⟩)
  · exact .inr (.inl ⟨⟨signature, checksums.1, fun _ => checksums.2⟩, rfl⟩)
  · exact .inr (.inr ⟨lt, rfl⟩)
  · exact .inr (.inr ⟨lt, rfl⟩)
  · exact .inl ⟨lt, rfl⟩

/-- The pass at an RSDP finds it. -/
lemma scanPass_found {p : UInt32} (lt : p < stop) (rsdp : IsRsdp m p) : scanPass m stop p = .done p := by
  rw [scanPass, if_pos lt, if_pos rsdp.signature]
  split_ifs with revision checksum checksums
  · rfl
  · exact absurd rsdp.checksum checksum
  · rfl
  · exact absurd ⟨rsdp.checksum, rsdp.extended revision⟩ checksums

/-- `scan_rsdp_area` ends, and finds an RSDP or none. -/
lemma scanRsdpArea_found (room : stop.toNat + 16 ≤ 2 ^ 32) :
    ∃ r, scanRsdpArea m start stop = some r ∧ (r = 0 ∨ IsRsdp m r) := by
  refine loop_variant (I := fun _ => True) (fun p => stop.toNat + 16 - p.toNat) (fun p p' _ pass => ?_)
    (fun p r _ pass => ?_) trivial
  · obtain ⟨-, eq⟩ | ⟨-, eq⟩ | ⟨lt, eq⟩ := scanPass_cases m stop p
    · rw [eq] at pass
      cases pass
    · rw [eq] at pass
      cases pass
    · rw [eq] at pass
      cases pass
      have lt := UInt32.lt_iff_toNat_lt.mp lt
      have next := toNat_add_ofNat (a := p) (n := 16) (by omega)
      change (p + 16).toNat = p.toNat + 16 at next
      exact ⟨trivial, by omega⟩
  · obtain ⟨-, eq⟩ | ⟨found, eq⟩ | ⟨-, eq⟩ := scanPass_cases m stop p
    · rw [eq] at pass
      cases pass
      exact .inl rfl
    · rw [eq] at pass
      cases pass
      exact .inr found
    · rw [eq] at pass
      cases pass

/-- The EBDA is below 1 MiB. -/
lemma ebdaAddr_lt (m : Memory) : (ebdaAddr m).toNat < 2 ^ 20 := by
  have word : ofBytes (m.loadBytes 0x40E 2) = (m (0x40E + UInt32.ofNat 0)).toNat +
      256 * ((m (0x40E + UInt32.ofNat 1)).toNat + 256 * 0) := rfl
  have low := (m (0x40E + UInt32.ofNat 0)).toNat_lt
  have high := (m (0x40E + UInt32.ofNat 1)).toNat_lt
  rw [ebdaAddr, UInt32.toNat_shiftLeft, toNat_ofNat_lt (by omega), word]
  change (_ <<< 4) % 2 ^ 32 < 2 ^ 20
  rw [Nat.shiftLeft_eq]
  omega

/-- `find_rsdp` ends, and finds an RSDP or none. -/
theorem findRsdp_found (m : Memory) : ∃ r, findRsdp m = some r ∧ (r = 0 ∨ IsRsdp m r) := by
  have ebda : ∃ r, (if ebdaAddr m ≠ 0 then scanRsdpArea m (ebdaAddr m) (ebdaAddr m + 0x4000) else some 0) = some r ∧
      (r = 0 ∨ IsRsdp m r) := by
    have lt := ebdaAddr_lt m
    have stop := toNat_add_ofNat (a := ebdaAddr m) (n := 0x4000) (by omega)
    change (ebdaAddr m + 0x4000).toNat = (ebdaAddr m).toNat + 0x4000 at stop
    split_ifs
    · exact scanRsdpArea_found (by omega)
    · exact ⟨0, rfl, .inl rfl⟩
  obtain ⟨r, eq, found⟩ := ebda
  rw [findRsdp, eq, Option.bind_some]
  split_ifs with ne
  · exact ⟨r, rfl, found⟩
  · exact scanRsdpArea_found (by decide)

/-! ## The root table. -/

/-- The checksum of a table is right. -/
def Checked (m : Memory) (table : UInt32) : Prop := acpiTableChecksumOk m table (sdtLength m table) = true

/-- The RSDP leads to the XSDT that is used. -/
def UsesXsdt (m : Memory) (rsdp : UInt32) : Prop :=
  rsdp ≠ 0 ∧ 2 ≤ rsdpRevision m rsdp ∧ xsdtAddress m rsdp ≠ 0 ∧ (xsdtAddress m rsdp).toUInt32 ≠ 0 ∧
    Checked m (xsdtAddress m rsdp).toUInt32

/-- The RSDP leads to the RSDT that is used. -/
def UsesRsdt (m : Memory) (rsdp : UInt32) : Prop :=
  rsdp ≠ 0 ∧ ¬ UsesXsdt m rsdp ∧ rsdtAddress m rsdp ≠ 0 ∧ Checked m (rsdtAddress m rsdp)

/-- A root table is accepted or ignored. -/
lemma accept_cases (m : Memory) (table : UInt32) :
    (table ≠ 0 ∧ Checked m table) ∧ accept m table = table ∨ ¬ (table ≠ 0 ∧ Checked m table) ∧ accept m table = 0 := by
  rw [accept, Checked]
  split_ifs with ignored
  · exact .inr ⟨fun used => ignored.2 used.2, rfl⟩
  · by_cases null : table = 0
    · exact .inr ⟨fun used => used.1 null, null⟩
    · exact .inl ⟨⟨null, by tauto⟩, rfl⟩

/-- The globals before `discover_sdt_pointers`. -/
def found (rsdp : UInt32) : Roots := ⟨rsdp, 0, 0⟩

/-- `discover_sdt_pointers` with an RSDP. -/
lemma discoverSdtPointers_found (null : rsdp ≠ 0) : discoverSdtPointers m (found rsdp) =
    ⟨rsdp, if discoverXsdt m (found rsdp) = 0 then accept m (rsdtAddress m rsdp) else 0, discoverXsdt m (found rsdp)⟩ :=
  if_neg null

/-- The XSDT is the one that is used, if any. -/
lemma discoverXsdt_cases (m : Memory) (null : rsdp ≠ 0) :
    UsesXsdt m rsdp ∧ discoverXsdt m (found rsdp) = (xsdtAddress m rsdp).toUInt32 ∨
      ¬ UsesXsdt m rsdp ∧ discoverXsdt m (found rsdp) = 0 := by
  rw [discoverXsdt, UsesXsdt]
  split_ifs with extended
  · obtain ⟨used, eq⟩ | ⟨unused, eq⟩ := accept_cases m (xsdtAddress m rsdp).toUInt32
    · exact .inl ⟨⟨null, extended.1, extended.2, used⟩, eq⟩
    · exact .inr ⟨fun used => unused used.2.2.2, eq⟩
  · exact .inr ⟨fun used => extended ⟨used.2.1, used.2.2.1⟩, rfl⟩

/-- The XSDT that `discover_sdt_pointers` leaves. -/
lemma discover_xsdt (m : Memory) (rsdp : UInt32) :
    UsesXsdt m rsdp ∧ (discoverSdtPointers m (found rsdp)).xsdt = (xsdtAddress m rsdp).toUInt32 ∨
      ¬ UsesXsdt m rsdp ∧ (discoverSdtPointers m (found rsdp)).xsdt = 0 := by
  by_cases null : rsdp = 0
  · rw [null]
    exact .inr ⟨fun used => used.1 rfl, rfl⟩
  · rw [discoverSdtPointers_found null]
    exact discoverXsdt_cases m null

/-- The RSDT that `discover_sdt_pointers` leaves. -/
lemma discover_rsdt (m : Memory) (rsdp : UInt32) :
    UsesRsdt m rsdp ∧ (discoverSdtPointers m (found rsdp)).rsdt = rsdtAddress m rsdp ∨
      ¬ UsesRsdt m rsdp ∧ (discoverSdtPointers m (found rsdp)).rsdt = 0 := by
  by_cases null : rsdp = 0
  · rw [null]
    exact .inr ⟨fun used => used.1 rfl, rfl⟩
  rw [discoverSdtPointers_found null, UsesRsdt]
  dsimp only
  obtain ⟨used, eq⟩ | ⟨unused, eq⟩ := discoverXsdt_cases m null
  · rw [eq, if_neg used.2.2.2.1]
    exact .inr ⟨fun rsdt => rsdt.2.1 used, rfl⟩
  · rw [eq, if_pos rfl]
    obtain ⟨used, eq⟩ | ⟨ignored, eq⟩ := accept_cases m (rsdtAddress m rsdp)
    · exact .inl ⟨⟨null, unused, used⟩, eq⟩
    · exact .inr ⟨fun used => ignored used.2.2, eq⟩

/-! ## The walks. -/

/-- The entries read are among those counted. -/
lemma findFrom_reads : ∀ e ∈ (findFrom m pointer sig es).2, e ∈ es := by
  induction es with
  | nil => exact fun _ mem => mem
  | cons e es ih =>
    rw [findFrom]
    dsimp only
    split_ifs
    · exact List.forall_mem_singleton.mpr List.mem_cons_self
    · exact List.forall_mem_cons.mpr ⟨List.mem_cons_self, fun e mem => List.mem_cons_of_mem _ (ih e mem)⟩

/-- The first entry is always read. -/
lemma findFrom_first : e ∈ (findFrom m pointer sig (e :: es)).2 := by
  rw [findFrom]
  dsimp only
  split_ifs
  · exact List.mem_cons_self
  · exact List.mem_cons_self

/-- The bytes of an entry, when the table is not shorter than its header. -/
lemma entry_inside (pos : 0 < size) (small : size ≤ 8) (header : SDT_HEADER ≤ (sdtLength m table).toNat)
    (mem : e ∈ entries m size table) (lt : j < size) :
    (e + UInt32.ofNat j - table).toNat < (sdtLength m table).toNat := by
  obtain ⟨i, bound, rfl⟩ := List.mem_map.mp mem
  have top := (sdtLength m table).toNat_lt
  have length : (sdtLength m table - UInt32.ofNat SDT_HEADER).toNat = (sdtLength m table).toNat - SDT_HEADER :=
    sub_toNat_of_le header
  rw [List.mem_range, UInt32.toNat_div, length, toNat_ofNat_lt (by omega)] at bound
  -- the last byte of entry `i` is at most at the last byte of the table
  have rest : size * i + size ≤ (sdtLength m table).toNat - SDT_HEADER := by
    rw [← Nat.mul_succ]
    exact Nat.le_trans (Nat.mul_le_mul_left size bound) (Nat.mul_div_le _ _)
  have offset : table + UInt32.ofNat SDT_HEADER + UInt32.ofNat (size * i) + UInt32.ofNat j =
      table + UInt32.ofNat (SDT_HEADER + size * i + j) := by
    rw [UInt32.ofNat_add, UInt32.ofNat_add, ← UInt32.add_assoc, ← UInt32.add_assoc]
  rw [offset, add_sub_toNat (by omega)]
  omega

/-- The number of entries wraps when the table is shorter than its header, so that there is a first one. -/
lemma entries_short (pos : 0 < size) (small : size ≤ 8) (short : (sdtLength m table).toNat < SDT_HEADER) :
    ∃ es, entries m size table = (table + UInt32.ofNat SDT_HEADER) :: es := by
  have length : (sdtLength m table - UInt32.ofNat SDT_HEADER).toNat =
      2 ^ 32 - SDT_HEADER + (sdtLength m table).toNat := by
    rw [UInt32.toNat_sub]
    change (2 ^ 32 - 36 + _) % 2 ^ 32 = 2 ^ 32 - 36 + _
    rw [SDT_HEADER] at short
    omega
  have count : 0 < ((sdtLength m table - UInt32.ofNat SDT_HEADER) / UInt32.ofNat size).toNat := by
    rw [UInt32.toNat_div, length, toNat_ofNat_lt (by omega), SDT_HEADER]
    exact Nat.div_pos (by omega) pos
  obtain ⟨k, eq⟩ := Nat.exists_eq_add_of_lt count
  rw [entries, eq, Nat.zero_add, List.range_succ_eq_map, List.map_cons, Nat.mul_zero]
  exact ⟨_, congrArg (· :: _) (UInt32.add_zero _)⟩

/-- The entries read lie in the table: each byte is one of those that the checksum was computed for. -/
def ReadsInside (m : Memory) (size : Nat) (table : UInt32) (reads : List UInt32) : Prop :=
  ∀ e ∈ reads, ∀ j < size, (e + UInt32.ofNat j - table).toNat < (sdtLength m table).toNat

/-- A walk stays in the table exactly when there is no table or it is not shorter than its header. -/
lemma findTable_inside_iff (pos : 0 < size) (small : size ≤ 8) :
    ReadsInside m size table (findTable m size pointer table sig).2 ↔
      (table ≠ 0 → SDT_HEADER ≤ (sdtLength m table).toNat) := by
  rw [findTable]
  split_ifs with null
  · exact iff_of_true (fun e mem => absurd mem List.not_mem_nil) fun ne => absurd null ne
  constructor
  · intro inside _
    by_contra short
    obtain ⟨es, eq⟩ := entries_short pos small (Nat.lt_of_not_le short)
    rw [eq] at inside
    have first := inside _ findFrom_first 0 pos
    rw [show table + UInt32.ofNat SDT_HEADER + UInt32.ofNat 0 = table + UInt32.ofNat SDT_HEADER from
      UInt32.add_zero _, add_sub_toNat (by decide)] at first
    exact short (Nat.le_of_lt first)
  · intro header e mem j lt
    exact entry_inside pos small (header null) (findFrom_reads e mem) lt

/-- The entries that the walks read lie in the root tables. -/
def EntriesInside (m : Memory) (g : Roots) (sig : List UInt8) : Prop :=
  ReadsInside m 4 g.rsdt (findTableInRsdt m g sig).2 ∧ ReadsInside m 8 g.xsdt (findTableInXsdt m g sig).2

/-- From every RSDP, and for every signature, the entries read lie in the root table exactly when the root table that is
    used, if any, is not shorter than its header. -/
theorem entriesInside_iff (m : Memory) (rsdp : UInt32) (sig : List UInt8) :
    EntriesInside m (discoverSdtPointers m (found rsdp)) sig ↔
      (UsesRsdt m rsdp → SDT_HEADER ≤ (sdtLength m (rsdtAddress m rsdp)).toNat) ∧
        (UsesXsdt m rsdp → SDT_HEADER ≤ (sdtLength m (xsdtAddress m rsdp).toUInt32).toNat) := by
  rw [EntriesInside, findTableInRsdt, findTableInXsdt, findTable_inside_iff (by decide) (by decide),
    findTable_inside_iff (by decide) (by decide)]
  refine and_congr ?_ ?_
  · obtain ⟨used, eq⟩ | ⟨unused, eq⟩ := discover_rsdt m rsdp
    · rw [eq]
      exact imp_congr_left (iff_of_true used.2.2.1 used)
    · rw [eq]
      exact iff_of_true (fun ne => absurd rfl ne) fun used => absurd used unused
  · obtain ⟨used, eq⟩ | ⟨unused, eq⟩ := discover_xsdt m rsdp
    · rw [eq]
      exact imp_congr_left (iff_of_true used.2.2.2.1 used)
    · rw [eq]
      exact iff_of_true (fun ne => absurd rfl ne) fun used => absurd used unused

/-- A memory with an RSDP of ACPI 1.0 that leads to an RSDT at 1 MiB with length 0. -/
def emptyRsdt : Memory :=
  Memory.storeBytes (fun _ => 0) 0xE0000
    [0x52, 0x53, 0x44, 0x20, 0x50, 0x54, 0x52, 0x20, 0xD1, 0, 0, 0, 0, 0, 0, 0, 0, 0, 0x10, 0]

/-- Its checksum is right, and an entry behind it is read. -/
theorem reads_behind_rsdt : findRsdp emptyRsdt = some 0xE0000 ∧
    discoverSdtPointers emptyRsdt (found 0xE0000) = ⟨0xE0000, 0x100000, 0⟩ ∧
      ¬ EntriesInside emptyRsdt (discoverSdtPointers emptyRsdt (found 0xE0000)) APIC := by
  have revision : rsdpRevision emptyRsdt 0xE0000 = 0 := by decide +kernel
  have rsdp : IsRsdp emptyRsdt 0xE0000 := ⟨by decide +kernel, by decide +kernel, fun ne => absurd revision ne⟩
  have scan : scanRsdpArea emptyRsdt 0xE0000 0x100000 = some 0xE0000 := loop_done (scanPass_found (by decide) rsdp)
  have roots : discoverSdtPointers emptyRsdt (found 0xE0000) = ⟨0xE0000, 0x100000, 0⟩ := by decide +kernel
  refine ⟨?_, roots, fun inside => ?_⟩
  · rw [findRsdp, if_neg (by decide +kernel), Option.bind_some, if_neg (by decide), scan]
  · rw [roots, EntriesInside, findTableInRsdt, findTable_inside_iff (by decide) (by decide)] at inside
    exact absurd (inside.1 (by decide)) (by decide +kernel)

/-! ## The tables located. -/

/-- A table with the signature and a right checksum, or none. -/
def Located (m : Memory) (sig : List UInt8) (t : UInt32) : Prop := t = 0 ∨ sdtSignature m t = sig ∧ Checked m t

/-- What a walk finds. -/
lemma findFrom_located : Located m sig (findFrom m pointer sig es).1 := by
  induction es with
  | nil => exact .inl rfl
  | cons e es ih =>
    rw [findFrom]
    dsimp only
    split_ifs with hit
    · exact .inr hit.2
    · exact ih

/-- What is found through a root table. -/
lemma findTable_located : Located m sig (findTable m size pointer table sig).1 := by
  rw [findTable]
  split_ifs
  · exact .inl rfl
  · exact findFrom_located

/-- The MADT and the HPET table that `locate_madt_hpet` leaves have their signatures, and their checksums are right. -/
theorem locateMadtHpet_located (m : Memory) (g : Roots) :
    Located m APIC (locateMadtHpet m g).1 ∧ Located m HPET (locateMadtHpet m g).2 := by
  have inXsdt (sig : List UInt8) : Located m sig (if g.xsdt ≠ 0 then (findTableInXsdt m g sig).1 else 0) := by
    split_ifs
    · exact findTable_located
    · exact .inl rfl
  have inRsdt {sig : List UInt8} {t : UInt32} (loc : Located m sig t) :
      Located m sig (if t = 0 then (findTableInRsdt m g sig).1 else t) := by
    split_ifs
    · exact findTable_located
    · exact loc
  have madt := inXsdt APIC
  have hpet := inXsdt HPET
  rw [locateMadtHpet]
  generalize (if g.xsdt ≠ 0 then (findTableInXsdt m g APIC).1 else 0) = a at madt ⊢
  generalize (if g.xsdt ≠ 0 then (findTableInXsdt m g HPET).1 else 0) = b at hpet ⊢
  by_cases missing : (a = 0 ∨ b = 0) ∧ g.rsdt ≠ 0
  · rw [if_pos missing]
    exact ⟨inRsdt madt, inRsdt hpet⟩
  · rw [if_neg missing]
    exact ⟨madt, hpet⟩

end RetaOS.Acpi
