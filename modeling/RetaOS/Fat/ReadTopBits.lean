import RetaOS.Fat.TopBits

/-!
# The top bits of entries in reading files

Two runs of `fat32_read_file_data` on tables that agree in the 28 bits. The buffer lies off the table, so the variables
of the copying loops are the same but for the tables (`Alike`), up to where one of them follows an entry with a reserved
bit and leaves its loop there (`CutOff`). That shows in what is returned unless nothing was wanted any more.
-/

namespace RetaOS.Fat
open Lib Vfs
open Kheap hiding Linked

variable {v : Volume} {m m' m'' k k' : Memory} {c buf offset size : UInt32} {r r' : ReadData} {n : Nat} {l : List Block}
  {bs : List UInt8}

/-! ## Stores off the table. -/

/-- The entries of the table are the same. -/
def SameTable (v : Volume) (m m' : Memory) : Prop :=
  ∀ i : UInt32, i.toNat < tableEntries v → fatEntry m' v.gFat i = fatEntry m v.gFat i

/-- The bytes at an address lie off the table. -/
def Clear (v : Volume) (buf : UInt32) (n : Nat) : Prop := ∀ i < n, OffTable v (buf + UInt32.ofNat i)

lemma SameTable.refl : SameTable v m m := fun _ _ => rfl

lemma SameTable.trans (t : SameTable v m m') (t' : SameTable v m' m'') : SameTable v m m'' :=
  fun i lt => (t' i lt).trans (t i lt)

lemma SameLow.keep (same : SameLow v m m') (t : SameTable v m k) (t' : SameTable v m' k')
    (off : k.Agree (OffTable v) k') :
    SameLow v k k' :=
  ⟨fun i lt => by rw [t i lt, t' i lt, same.entries i lt], off⟩

lemma LowTable.keep (low : LowTable v m) (t : SameTable v m k) : LowTable v k := fun i lt => by
  rw [t i lt]
  exact low i lt

lemma Marked.keep (marked : Marked v m) (t : SameTable v m k) : Marked v k := fun i lt => by
  rw [t i lt]
  exact marked i lt

/-- A store off the table. -/
lemma Clear.sameTable (clear : Clear v buf n) (le : bs.length ≤ n) : SameTable v m (m.storeBytes buf bs) := by
  have few := tableEntries_lt v
  intro i lt
  apply Memory.load32_congr
  intro j hj
  apply Memory.storeBytes_outside
  by_contra inside
  -- the byte would lie both in the entry and off the table
  have off := clear (v.gFat + 4 * i + UInt32.ofNat j - buf).toNat (by omega)
  rw [UInt32.ofNat_toNat, UInt32.add_comm, UInt32.sub_add_cancel, OffTable, entryByte_offset (by omega) hj] at off
  omega

/-- What is loaded from there is the same in both memories. -/
lemma Clear.loadBytes (clear : Clear v buf n) (off : m.Agree (OffTable v) m') {i j : Nat} (le : i + j ≤ n) :
    m'.loadBytes (buf + UInt32.ofNat i) j = m.loadBytes (buf + UInt32.ofNat i) j := by
  apply Memory.loadBytes_congr
  intro e lt
  rw [UInt32.add_assoc, ← UInt32.ofNat_add]
  exact off _ (clear (i + e) (by omega))

/-! ## The copying loops. -/

/-- What the call returns when no pass of the copying loop goes on from the variables. -/
def ending (r : ReadData) : Int × List UInt8 := (if Enters r then -EIO_ else r.bytesRead.toInt32.toInt, r.data)

/-- The copying loop by the passes that go on. -/
lemma read_outcome (before : ∀ i < n, Copies v ((pastCluster v buf)^[i] r))
    (stop : ¬ Copies v ((pastCluster v buf)^[n] r)) :
    (loop (readBody v buf) r).map outcome = some (ending ((pastCluster v buf)^[n] r)) := by
  obtain ⟨m, leave, -⟩ := readBody_done buf stop
  have run : loop (readBody v buf) r = some _ := (read_unrolls v buf r).loop_eq before leave
  rw [run, Option.map_some, outcome, ending]
  by_cases enters : Enters ((pastCluster v buf)^[n] r)
  · rw [if_pos enters, if_neg (by simpa using enters)]
  · rw [if_neg enters, if_pos (by simpa using enters)]

/-- Some pass of the copying loop is the last one. -/
lemma read_stops (buf : UInt32) (pos : 0 < (bytesPerCluster v).toNat) (inside : Inside v r) :
    ∃ n, ¬ Copies v ((pastCluster v buf)^[n] r) ∧ ∀ i < n, Copies v ((pastCluster v buf)^[i] r) := by
  obtain ⟨r', ok, run, -⟩ := read_ends buf r pos inside
  have ends : loop (readBody v buf) r ≠ none := by
    rw [run]
    exact Option.some_ne_none _
  exact exists_first ((read_unrolls v buf r).ends_iff.mp ends)

/-- The bytes that have been copied and those that remain are as many as before. -/
lemma pastCluster_count (v : Volume) (buf : UInt32) (r : ReadData) (n : Nat) :
    ((pastCluster v buf)^[n] r).data.length + ((pastCluster v buf)^[n] r).bytesRemaining.toNat =
        r.data.length + r.bytesRemaining.toNat ∧
      ((pastCluster v buf)^[n] r).bytesRead + ((pastCluster v buf)^[n] r).bytesRemaining =
        r.bytesRead + r.bytesRemaining := by
  induction n with
  | zero => exact ⟨rfl, rfl⟩
  | succ n ih =>
    rw [Function.iterate_succ_apply']
    generalize (pastCluster v buf)^[n] r = s at ih
    have le := toRead_le (v := v) (r := s)
    constructor
    · rw [← ih.1]
      show (s.data ++ _).length + (s.bytesRemaining - toRead v s).toNat = _
      rw [List.length_append, Memory.loadBytes_length, sub_toNat_of_le le]
      change s.data.length + (toRead v s).toNat + _ = _
      omega
    · rw [← ih.2]
      show s.bytesRead + toRead v s + (s.bytesRemaining - toRead v s) = _
      rw [UInt32.add_assoc, UInt32.add_comm (toRead v s), UInt32.sub_add_cancel]

/-! ## Two of them. -/

/-- The variables are the same but for what the tables hold, and the second table is the one of `m₀`. -/
def Alike (v : Volume) (m₀ : Memory) (r r' : ReadData) : Prop :=
  ∃ m', r' = { r with mem := m' } ∧ SameLow v r.mem m' ∧ LowTable v r.mem ∧ SameTable v m₀ m'

/-- The second variables are at an end mark, and the others but for the memory are the same. -/
def CutOff (r r' : ReadData) : Prop :=
  ∃ m' c', r' = { r with mem := m', currentCluster := c' } ∧ isEofCluster c' = true

lemma Alike.copies (alike : Alike v m r r') : Copies v r' ↔ Copies v r := by
  obtain ⟨m', rfl, -⟩ := alike
  exact Iff.rfl

/-- A pass keeps the variables alike, but for the cluster that comes from the table. -/
lemma pastCluster_alike (clear : Clear v buf (bytesPerCluster v).toNat)
    (wide : 512 ≤ v.gBootSector.bytesPerSector.toNat)
    (inside : r.clusterOffset.toNat < (bytesPerCluster v).toNat) (alike : Alike v m r r') :
    ∃ m', pastCluster v buf r' = { pastCluster v buf r with
        mem := m', currentCluster := fatEntry m' v.gFat r.currentCluster } ∧
      SameLow v (pastCluster v buf r).mem m' ∧ LowTable v (pastCluster v buf r).mem ∧ SameTable v m m' := by
  obtain ⟨m', rfl, same, low, table⟩ := alike
  have len := clusterRead_le wide r.currentCluster
  have off := same.others.storeBytes buf (clusterRead v r.currentCluster)
  have here : SameTable v r.mem (r.mem.storeBytes buf (clusterRead v r.currentCluster)) := clear.sameTable len
  have there : SameTable v m' (m'.storeBytes buf (clusterRead v r.currentCluster)) := clear.sameTable len
  refine ⟨m'.storeBytes buf (clusterRead v r.currentCluster), ?_, same.keep here there off, low.keep here,
    table.trans there⟩
  have count := toRead_toNat (v := v) (r := r) (by omega)
  have loaded := clear.loadBytes off (show r.clusterOffset.toNat + (toRead v r).toNat ≤ _ by omega)
  rw [UInt32.ofNat_toNat] at loaded
  have data : (pastCluster v buf { r with mem := m' }).data = (pastCluster v buf r).data :=
    congrArg (r.data ++ ·) loaded
  exact congrArg (fun d => { pastCluster v buf { r with mem := m' } with data := d }) data

/-- Each cluster is copied from a place in it. -/
lemma room_below (inside : r.clusterOffset.toNat < (bytesPerCluster v).toNat) (n : Nat) :
    ((pastCluster v buf)^[n] r).clusterOffset.toNat < (bytesPerCluster v).toNat := by
  rw [(pastCluster_rest buf inside n).1]
  split
  · exact inside
  · exact Nat.zero_lt_of_lt inside

/-- As long as the first loop goes on, the second goes with it, or is cut off behind an entry of the table. -/
lemma read_twin (clear : Clear v buf (bytesPerCluster v).toNat) (wide : 512 ≤ v.gBootSector.bytesPerSector.toNat)
    (inside : r.clusterOffset.toNat < (bytesPerCluster v).toNat) (alike : Alike v m r r')
    (before : ∀ i < n, Copies v ((pastCluster v buf)^[i] r)) :
    ((∀ i < n, Copies v ((pastCluster v buf)^[i] r')) ∧
        Alike v m ((pastCluster v buf)^[n] r) ((pastCluster v buf)^[n] r')) ∨
      ∃ i < n, (∀ j ≤ i, Copies v ((pastCluster v buf)^[j] r')) ∧
        ((pastCluster v buf)^[i] r).currentCluster.toNat < tableEntries v ∧
        CutOff ((pastCluster v buf)^[i + 1] r) ((pastCluster v buf)^[i + 1] r') := by
  induction n with
  | zero => exact .inl ⟨fun _ => nofun, alike⟩
  | succ n ih =>
    rcases ih fun i lt => before i (Nat.lt_succ_of_lt lt) with ⟨goes, here⟩ | ⟨i, lt, cut⟩
    · have copies := before n n.lt_succ_self
      have copies' := here.copies.mpr copies
      obtain ⟨m', eq, same, low, table⟩ := pastCluster_alike clear wide (room_below inside n) here
      have goes' : ∀ i < n + 1, Copies v ((pastCluster v buf)^[i] r') := Nat.forall_lt_succ_right.mpr ⟨goes, copies'⟩
      rw [Function.iterate_succ_apply', Function.iterate_succ_apply']
      rcases same.fatEntry low copies.1.2 with next | ⟨lt, eof⟩
      · refine .inl ⟨goes', m', ?_, same, low, table⟩
        rw [eq, next]
        rfl
      · refine .inr ⟨n, n.lt_succ_self, fun j le => goes' j (Nat.lt_succ_of_le le), lt, m', _, ?_, eof⟩
        rw [Function.iterate_succ_apply', Function.iterate_succ_apply', eq]
    · exact .inr ⟨i, Nat.lt_succ_of_lt lt, cut⟩

/-- It is cut off when its table has end marks only and the first loop goes on from an entry of it. -/
lemma read_marked (clear : Clear v buf (bytesPerCluster v).toNat) (wide : 512 ≤ v.gBootSector.bytesPerSector.toNat)
    (inside : r.clusterOffset.toNat < (bytesPerCluster v).toNat) (alike : Alike v m r r') (marked : Marked v m)
    (before : ∀ i ≤ n, Copies v ((pastCluster v buf)^[i] r))
    (lt : ((pastCluster v buf)^[n] r).currentCluster.toNat < tableEntries v) :
    ∃ i ≤ n, (∀ j ≤ i, Copies v ((pastCluster v buf)^[j] r')) ∧
      CutOff ((pastCluster v buf)^[i + 1] r) ((pastCluster v buf)^[i + 1] r') := by
  rcases read_twin clear wide inside alike fun i less => before i (Nat.le_of_lt less) with
    ⟨goes, here⟩ | ⟨i, less, goes, -, cut⟩
  · have copies' := here.copies.mpr (before n le_rfl)
    obtain ⟨m', eq, -, -, table⟩ := pastCluster_alike clear wide (room_below inside n) here
    refine ⟨n, le_rfl, fun j le => ?_, m', _, ?_, marked.keep table _ lt⟩
    · rcases Nat.lt_or_eq_of_le le with less | rfl
      · exact goes j less
      · exact copies'
    · rw [Function.iterate_succ_apply', Function.iterate_succ_apply', eq]
  · exact ⟨i, Nat.le_of_lt less, goes, cut⟩

/-! ## What shows of it. -/

/-- Reserved bits do no harm to the copying: behind an entry of the table that it follows nothing is wanted any more, or
    the error of a sector that cannot be read is what would be returned at an end mark. -/
def EndsAlike (v : Volume) (buf : UInt32) (r : ReadData) : Prop :=
  ∀ j, (∀ i ≤ j, Copies v ((pastCluster v buf)^[i] r)) →
    ((pastCluster v buf)^[j] r).currentCluster.toNat < tableEntries v → Enters ((pastCluster v buf)^[j + 1] r) →
      ¬ ClusterReadable v ((pastCluster v buf)^[j + 1] r).currentCluster ∧
        ((pastCluster v buf)^[j + 1] r).bytesRead.toInt32.toInt = -EIO_

/-- A loop that is cut off leaves with what has been copied. -/
lemma CutOff.outcome {s : ReadData} (cut : CutOff s ((pastCluster v buf)^[n + 1] r'))
    (goes : ∀ j ≤ n, Copies v ((pastCluster v buf)^[j] r')) :
    (loop (readBody v buf) r').map Fat.outcome = some (s.bytesRead.toInt32.toInt, s.data) := by
  obtain ⟨m', c', eq, eof⟩ := cut
  have leaves : ¬ Enters ((pastCluster v buf)^[n + 1] r') := fun enters => by
    have more := enters.2
    rw [eq] at more
    exact nomatch eof.symm.trans more
  rw [read_outcome (n := n + 1) (fun i lt => goes i (Nat.le_of_lt_succ lt)) fun copies => leaves copies.1, ending,
    if_neg leaves, eq]

/-- What the loop returns is the same when the reserved bits do no harm. -/
lemma EndsAlike.outcome_eq (harmless : EndsAlike v buf r) (clear : Clear v buf (bytesPerCluster v).toNat)
    (wide : 512 ≤ v.gBootSector.bytesPerSector.toNat) (inside : r.clusterOffset.toNat < (bytesPerCluster v).toNat)
    (alike : Alike v m r r') :
    (loop (readBody v buf) r').map outcome = (loop (readBody v buf) r).map outcome := by
  obtain ⟨n, stop, before⟩ := read_stops buf (Nat.zero_lt_of_lt inside) (.inr inside)
  rw [read_outcome before stop]
  rcases read_twin clear wide inside alike before with ⟨goes, here⟩ | ⟨i, lt, goes, inTable, cut⟩
  · rw [read_outcome goes (mt here.copies.mp stop)]
    obtain ⟨m', eq, -⟩ := here
    rw [eq]
    rfl
  · rw [cut.outcome goes]
    by_cases enters : Enters ((pastCluster v buf)^[i + 1] r)
    · -- the first loop has been left right there, by the error
      obtain ⟨bad, same⟩ := harmless i (fun j le => before j (by omega)) inTable enters
      have last : n = i + 1 := by
        by_contra ne
        exact bad (before (i + 1) (by omega)).2
      rw [last, ending, if_pos enters, same]
    · have last : n = i + 1 := by
        by_contra ne
        exact enters (before (i + 1) (by omega)).1
      rw [last, ending, if_neg enters]

/-- Copying a cluster shows in what is returned. -/
lemma data_grows {i : Nat} (inside : r.clusterOffset.toNat < (bytesPerCluster v).toNat) (lt : i < n)
    (enters : Enters ((pastCluster v buf)^[i] r)) :
    ((pastCluster v buf)^[n] r).data ≠ ((pastCluster v buf)^[i] r).data := by
  intro eq
  have count := (pastCluster_count v buf r n).1
  have count' := (pastCluster_count v buf r i).1
  have rest := (pastCluster_rest buf inside n).2
  have rest' := (pastCluster_rest buf inside i).2
  have more := UInt32.lt_iff_toNat_lt.mp enters.1
  have passed : (i + 1) * (bytesPerCluster v).toNat ≤ n * (bytesPerCluster v).toNat := Nat.mul_le_mul_right _ lt
  rw [Nat.succ_mul] at passed
  rw [eq] at count
  rcases Nat.eq_zero_or_pos i with rfl | pos
  · omega
  · have least : (bytesPerCluster v).toNat ≤ i * (bytesPerCluster v).toNat := Nat.le_mul_of_pos_left _ pos
    omega

/-- When it is the same on a table with end marks only, the reserved bits do no harm. -/
lemma EndsAlike.of_marked (clear : Clear v buf (bytesPerCluster v).toNat)
    (wide : 512 ≤ v.gBootSector.bytesPerSector.toNat) (inside : r.clusterOffset.toNat < (bytesPerCluster v).toNat)
    (alike : Alike v m r r') (marked : Marked v m)
    (same : (loop (readBody v buf) r').map outcome = (loop (readBody v buf) r).map outcome) : EndsAlike v buf r := by
  intro j goes inTable enters
  obtain ⟨n, stop, before⟩ := read_stops buf (Nat.zero_lt_of_lt inside) (.inr inside)
  obtain ⟨i, le, goes', cut⟩ := read_marked clear wide inside alike marked goes inTable
  rw [cut.outcome goes', read_outcome before stop] at same
  obtain ⟨returned, data⟩ := Prod.mk.inj (Option.some.inj same)
  have past : j < n := by
    by_contra le
    exact stop (goes n (by omega))
  -- no cluster has been copied behind the one that cut the second loop off
  have last : n = i + 1 := by
    by_contra ne
    have behind : Enters ((pastCluster v buf)^[i + 1] r) := (before (i + 1) (by omega)).1
    exact data_grows inside (by omega) behind data.symm
  obtain rfl : i = j := by omega
  rw [last] at returned stop
  rw [if_pos enters] at returned
  exact ⟨fun ok => stop ⟨enters, ok⟩, returned⟩

/-- The number of bytes that is returned like an error of the drive. -/
lemma toInt_eq_error : size.toInt32.toInt = -EIO_ ↔ size.toNat = 2 ^ 32 - 5 := by
  have five : (0xFFFFFFFB : UInt32).toInt32.toInt = -EIO_ := by decide
  rw [← five, Int32.toInt_inj]
  constructor
  · intro eq
    have word := congrArg Int32.toUInt32 eq
    rw [UInt32.toUInt32_toInt32, UInt32.toUInt32_toInt32] at word
    rw [word]
    rfl
  · intro eq
    rw [show size = 0xFFFFFFFB from UInt32.toNat_inj.mp eq]

/-- `EndsAlike` by the clusters that the copying finds, when the first is copied from an offset on. -/
def CopyHarmless (v : Volume) (first size : Nat) (ch : Nat → UInt32) : Prop :=
  ∀ j, (∀ i ≤ j, Wanted v first size i (ch i) ∧ ClusterReadable v (ch i)) → (ch j).toNat < tableEntries v →
    Wanted v first size (j + 1) (ch (j + 1)) →
      ¬ ClusterReadable v (ch (j + 1)) ∧ (j + 1) * (bytesPerCluster v).toNat = first + (2 ^ 32 - 5)

lemma endsAlike_iff (inside : r.clusterOffset.toNat < (bytesPerCluster v).toNat) (pos : r.bytesRemaining ≠ 0)
    (fresh : r.bytesRead = 0) : EndsAlike v buf r ↔ CopyHarmless v r.clusterOffset.toNat r.bytesRemaining.toNat
      fun j => (copied v buf r.mem r.currentCluster j).2 := by
  have copies (j : Nat) : (∀ i ≤ j, Copies v ((pastCluster v buf)^[i] r)) ↔
      ∀ i ≤ j, Wanted v r.clusterOffset.toNat r.bytesRemaining.toNat i (copied v buf r.mem r.currentCluster i).2 ∧
        ClusterReadable v (copied v buf r.mem r.currentCluster i).2 := by
    simp only [← Nat.lt_succ_iff]
    exact goes_congr fun n before => copies_iff buf (.inr inside) pos n fun i lt => (before i lt).1.2
  have read {j : Nat} (enters : Enters ((pastCluster v buf)^[j + 1] r)) :
      ((pastCluster v buf)^[j + 1] r).bytesRead.toInt32.toInt = -EIO_ ↔
        (j + 1) * (bytesPerCluster v).toNat = r.clusterOffset.toNat + (2 ^ 32 - 5) := by
    have sum := (pastCluster_count v buf r (j + 1)).2
    have rest := (pastCluster_rest buf inside (j + 1)).2
    have more := UInt32.lt_iff_toNat_lt.mp enters.1
    rw [fresh, UInt32.zero_add] at sum
    have number : ((pastCluster v buf)^[j + 1] r).bytesRead =
        r.bytesRemaining - ((pastCluster v buf)^[j + 1] r).bytesRemaining := by
      rw [← sum, UInt32.add_sub_cancel]
    rw [toInt_eq_error, number, sub_toNat_of_le (by omega)]
    omega
  refine forall_congr' fun j => imp_congr_ctx (copies j) fun before => ?_
  have wanted := enters_iff buf (.inr inside) pos (j + 1) fun i lt => (before i (Nat.le_of_lt_succ lt)).1.2
  beta_reduce
  rw [pastCluster_cluster, pastCluster_cluster, ← wanted]
  exact imp_congr_right fun _ => imp_congr_right fun enters => and_congr_right fun _ => read enters

/-! ## Both loops. -/

/-- The variables in front of the copying loop, behind `n` clusters that have been skipped. -/
def behind (v : Volume) (c offset size : UInt32) (n : Nat) : ReadData :=
  ⟨v.heap.mem, [], 0, size, chain v c n, offset - UInt32.ofNat (n * (bytesPerCluster v).toNat)⟩

/-- The chain ends in front of the offset. -/
def Short (v : Volume) (c offset : UInt32) : Prop :=
  Reaches (fun c => isEofCluster c = true) (Skipped v offset (chain v c)) (chain v c)

/-- Reserved bits do no harm to reading: the chain ends in front of the offset, or they do none where it is skipped nor
    where it is copied. -/
def ReadHarmless (v : Volume) (buf c offset size : UInt32) : Prop :=
  Short v c offset ∨ Outside v (Skipped v offset (chain v c)) (chain v c) ∧
    ∀ n, (∀ i < n, Skipped v offset (chain v c) i) → ¬ Skipped v offset (chain v c) n →
      CopyHarmless v (offset.toNat - n * (bytesPerCluster v).toNat % 2 ^ 32) size.toNat
        fun j => (copied v buf v.heap.mem (chain v c n) j).2

lemma skipped_follows (v : Volume) (offset : UInt32) : Follows (Skipped v offset) where
  congr same := by rw [Skipped, Skipped, same _ le_rfl]
  more skipped := skipped.2

lemma copyFile_behind (before : ∀ i < n, Skipped v offset (chain v c) i) (stop : ¬ Skipped v offset (chain v c) n) :
    copyFile v buf c offset size = (loop (readBody v buf) (behind v c offset size n)).map outcome := by
  rw [copyFile, skip_some.mpr ⟨n, before, stop, rfl, rfl⟩]
  rfl

/-- The copying begins in a cluster when the chain does not end before. -/
lemma behind_inside (size : UInt32) (long : ¬ Short v c offset) (before : ∀ i < n, Skipped v offset (chain v c) i)
    (stop : ¬ Skipped v offset (chain v c) n) :
    (behind v c offset size n).clusterOffset.toNat < (bytesPerCluster v).toNat ∧
      (behind v c offset size n).clusterOffset.toNat = offset.toNat - n * (bytesPerCluster v).toNat % 2 ^ 32 := by
  obtain ⟨eq, le⟩ := skipped_offset before
  refine ⟨(skip_exit (skip_some.mpr ⟨n, before, stop, rfl, rfl⟩)).2.resolve_left fun eof => long ⟨n, eof, before⟩, ?_⟩
  rw [behind, sub_toNat_of_le (by omega), eq]

/-- Nothing is read exactly of a chain that ends in front of the offset. -/
lemma copyFile_nothing (ne : size ≠ 0) : copyFile v buf c offset size = some (0, []) ↔ Short v c offset := by
  constructor
  · intro run
    by_contra long
    rcases skip : loop (skipBody v offset) (c, 0) with _ | ⟨c', k⟩
    · rw [copyFile, skip] at run
      cases run
    · obtain ⟨n, before, stop, -⟩ := skip_some.mp skip
      obtain ⟨inside, -⟩ := behind_inside size long before stop
      obtain ⟨e, last, goes⟩ := read_stops buf (Nat.zero_lt_of_lt inside) (.inr inside)
      have enters : Enters ((pastCluster v buf)^[0] (behind v c offset size n)) := by
        refine ⟨UInt32.pos_iff_ne_zero.mpr ne, ?_⟩
        by_contra eof
        exact long ⟨n, (Bool.not_eq_false _).mp eof, before⟩
      rw [copyFile_behind before stop, read_outcome goes last] at run
      obtain ⟨returned, data⟩ := Prod.mk.inj (Option.some.inj run)
      rcases Nat.eq_zero_or_pos e with rfl | pos
      · rw [if_pos enters] at returned
        cases returned
      · exact data_grows inside pos enters data
  · rintro ⟨n, eof, before⟩
    have stop : ¬ Skipped v offset (chain v c) n := by
      intro skipped
      cases eof.symm.trans skipped.2
    have leaves : ¬ Enters (behind v c offset size n) := by
      intro enters
      cases eof.symm.trans enters.2
    have run : (loop (readBody v buf) (behind v c offset size n)).map outcome =
        some (ending (behind v c offset size n)) :=
      read_outcome (n := 0) (fun i lt => absurd lt i.not_lt_zero) fun copies => leaves copies.1
    rw [copyFile_behind before stop, run, ending, if_neg leaves]
    rfl

/-- The skipping loop depends on its chain as far as it goes. -/
lemma skip_congr (same : ∀ n, (∀ i < n, Skipped v offset (chain (withMem v m) c) i) →
    chain (withMem v m') c n = chain (withMem v m) c n) :
    loop (skipBody (withMem v m') offset) (c, 0) = loop (skipBody (withMem v m) offset) (c, 0) := by
  have skipped (n : Nat) (before : ∀ i < n, Skipped v offset (chain (withMem v m) c) i) :
      Skipped v offset (chain (withMem v m') c) n ↔ Skipped v offset (chain (withMem v m) c) n :=
    (skipped_follows v offset).congr fun i le => same i fun j less => before j (Nat.lt_of_lt_of_le less le)
  refine Option.ext fun ⟨c', k⟩ => (skip_some.trans (exists_congr fun n => ?_)).trans skip_some.symm
  refine (and_congr_left' (goes_congr skipped)).trans (and_congr_right fun before => ?_)
  exact and_congr (not_congr (skipped n before)) (by rw [same n before]; rfl)

section
variable (clear : Clear v buf (bytesPerCluster v).toNat) (wide : 512 ≤ v.gBootSector.bytesPerSector.toNat)
  (same : SameLow v m m') (low : LowTable v m)
include clear wide same low

/-- The loops return the same on tables that agree in the low bits when the reserved bits do no harm. -/
lemma copyFile_twin (ne : size ≠ 0) (harmless : ReadHarmless (withMem v m) buf c offset size) :
    copyFile (withMem v m') buf c offset size = copyFile (withMem v m) buf c offset size := by
  by_cases short : Short (withMem v m) c offset
  · have short' : Short (withMem v m') c offset :=
      (skipped_follows v offset).reaches_twin (fun _ eof => eof) same low short
    rw [(copyFile_nothing ne).mpr short, (copyFile_nothing ne).mpr short']
  · obtain ⟨outside, copies⟩ := harmless.resolve_left short
    have chains := (skipped_follows v offset).outside_eq (m := m) (c := c) same low outside
    have loops := skip_congr chains
    rcases skip : loop (skipBody (withMem v m) offset) (c, 0) with _ | ⟨c', k⟩
    · rw [copyFile, copyFile, loops, skip]
    · obtain ⟨n, before, stop, rfl, rfl⟩ := skip_some.mp skip
      obtain ⟨inside, first⟩ := behind_inside size short before stop
      have ends : EndsAlike v buf (behind (withMem v m) c offset size n) := by
        refine (endsAlike_iff inside ne rfl).mpr ?_
        rw [first]
        exact copies n before stop
      rw [copyFile, loops, skip, copyFile_behind before stop]
      refine ends.outcome_eq clear wide inside ⟨m', ?_, same, low, .refl⟩
      rfl

/-- When they return the same on a table with end marks only, the reserved bits do no harm. -/
lemma readHarmless_of_marked (ne : size ≠ 0) (marked : Marked v m')
    (run : copyFile (withMem v m') buf c offset size = copyFile (withMem v m) buf c offset size) :
    ReadHarmless (withMem v m) buf c offset size := by
  by_cases short : Short (withMem v m) c offset
  · exact .inl short
  · have outside : Outside (withMem v m) (Skipped v offset (chain (withMem v m) c)) (chain (withMem v m) c) := by
      intro n before
      by_contra lt
      have short' : Short (withMem v m') c offset :=
        (skipped_follows v offset).reaches_marked (fun _ eof => eof) same low
        marked before (Nat.lt_of_not_le lt)
      rw [(copyFile_nothing ne).mpr short'] at run
      exact short ((copyFile_nothing ne).mp run.symm)
    refine .inr ⟨outside, fun n before stop => ?_⟩
    have chains := (skipped_follows v offset).outside_eq (m := m) (c := c) same low outside
    obtain ⟨inside, first⟩ := behind_inside size short before stop
    rw [copyFile, skip_congr chains, skip_some.mpr ⟨n, before, stop, rfl, rfl⟩, copyFile_behind before stop] at run
    have ends : EndsAlike v buf (behind (withMem v m) c offset size n) :=
      .of_marked clear wide inside ⟨m', rfl, same, low, .refl⟩ marked run
    rw [← first]
    exact (endsAlike_iff inside ne rfl).mp ends

end

/-! ## The call. -/

/-- What is outside of the payload of the block of the table is off the table. -/
lemma Backed.offTable (b : Backed v l) : ∃ d ∈ l, d.used = true ∧
    ∀ x : UInt32, x.toNat < d.addr + 12 ∨ d.limit 12 ≤ x.toNat → OffTable v x := by
  obtain ⟨d, mem, used, addr, le⟩ := b.table
  obtain ⟨lo, hi⟩ := b.heap.bounds mem
  refine ⟨d, mem, used, fun x out => ?_⟩
  rw [Block.limit] at hi out
  have lt := x.toNat_lt
  rw [OffTable, tableEntries, UInt32.toNat_sub]
  omega

/-- A volume is as sound with another table. -/
lemma Backed.withTable (b : Backed v l) (same : SameLow v v.heap.mem m) : Backed (withMem v m) l := by
  obtain ⟨d, mem, -, off⟩ := b.offTable
  exact ⟨b.init, b.heap.of_outside mem fun x out => same.others x (off x out), b.table⟩

/-- The headers are off the table. -/
lemma Backed.header_off (b : Backed v l) {e : Block} (mem : e ∈ l) {x : UInt32} (lo : e.addr ≤ x.toNat)
    (hi : x.toNat < e.addr + 12) : OffTable v x := by
  obtain ⟨d, memd, -, off⟩ := b.offTable
  apply off x
  rcases b.heap.tiled.disjoint mem memd with rfl | le | le
  · exact .inl hi
  · rw [Block.limit] at le
    exact .inl (by omega)
  · exact .inr (by omega)

/-- A block that has been allocated behind the table is off the table. -/
lemma Backed.clear {h : Heap} {l' : List Block} {size : UInt32} (b : Backed v l) (valid : Valid h l')
    (alloc : Allocated l l' buf size) : Clear v buf size.toNat := by
  obtain ⟨d, mem, used, off⟩ := b.offTable
  obtain ⟨e, usede, addr, le, fresh, made⟩ := alloc
  have meme : e ∈ l' := (made e usede).mpr (.inl rfl)
  obtain ⟨lo, hi⟩ := valid.bounds meme
  have apart := valid.tiled.disjoint ((made d used).mpr (.inr mem)) meme
  rw [Block.limit] at hi
  intro i lt
  have at_ : (buf + UInt32.ofNat i).toNat = buf.toNat + i := toNat_add_ofNat (by omega)
  apply off
  rw [at_]
  rcases apart with rfl | le' | le'
  · exact absurd rfl (fresh d mem used)
  · exact .inr (by omega)
  · rw [Block.limit] at le'
    exact .inl (by omega)

/-- With a buffer the call returns what its loops do, on the table that there was and with the buffer off it. -/
lemma Backed.fileData_eq {h : Heap} (b : Backed v l) (spc : v.gBootSector.sectorsPerCluster ≠ 0)
    (wide : 512 ≤ v.gBootSector.bytesPerSector.toNat) (alloc : kmalloc v.heap (bytesPerCluster v) = some (buf, h))
    (nonnull : buf ≠ 0) : SameTable v v.heap.mem h.mem ∧ Clear v buf (bytesPerCluster v).toNat ∧
      ∀ c offset size : UInt32, size ≠ 0 → fileData v c offset size =
        copyFile { v with heap := h } buf c offset size := by
  obtain ⟨buf', h', l', alloc', valid, keeps, ⟨rfl, -⟩ | ⟨-, allocated, -⟩⟩ :=
    kmalloc_effect b.heap (cluster_not_wraps v)
  · cases alloc.symm.trans alloc'
    exact absurd rfl nonnull
  · cases alloc.symm.trans alloc'
    have pos := bytesPerCluster_pos spc (ne_zero_of_wide wide)
    exact ⟨fun i lt => b.fatEntry_eq keeps lt, b.clear valid allocated,
      fun c offset size ne => fileData_eq_copyFile b.init valid allocated alloc nonnull ne pos wide⟩

/-- Without a buffer it returns an error. -/
lemma Backed.fileData_none {h : Heap} (b : Backed v l) (alloc : kmalloc v.heap (bytesPerCluster v) = some (0, h))
    (ne : size ≠ 0) : fileData v c offset size = some (-ENOMEM, []) := by
  rw [fileData, fat32ReadFileData, if_neg (by rw [b.init]; decide), if_neg ne, alloc]
  rfl

/-- The same block is taken from the heap with another table. -/
lemma Backed.kmalloc_twin {h : Heap} (b : Backed v l) (same : SameLow v v.heap.mem m)
    (alloc : kmalloc v.heap (bytesPerCluster v) = some (buf, h)) :
    ∃ m', kmalloc (withMem v m).heap (bytesPerCluster v) = some (buf, { h with mem := m' }) ∧
      h.mem.Agree (OffTable v) m' :=
  kmalloc_agree b.heap (cluster_not_wraps v) same.others (fun _ mem _ lo hi => b.header_off mem lo hi) alloc

/-- `fat32_read_file_data` ignores the reserved bits exactly when they do no harm to its loops. -/
lemma Backed.read_ignoresTop (b : Backed v l) (spc : v.gBootSector.sectorsPerCluster ≠ 0)
    (wide : 512 ≤ v.gBootSector.bytesPerSector.toNat) (c offset size : UInt32) :
    IgnoresTop v (fun w => fileData w c offset size) ↔ (size ≠ 0 → ∀ buf h,
      kmalloc (cleared v).heap (bytesPerCluster v) = some (buf, h) → buf ≠ 0 →
        ReadHarmless { cleared v with heap := h } buf c offset size) := by
  by_cases empty : size = 0
  · refine iff_of_true (fun m m' _ _ => ?_) fun ne => absurd empty ne
    have nothing (m : Memory) : fileData (withMem v m) c offset size = some (0, []) := by
      have init : ¬ (withMem v m).gInitialized = false := by
        rw [show (withMem v m).gInitialized = true from b.init]
        decide
      rw [fileData, fat32ReadFileData, if_neg init, if_pos empty]
      rfl
    exact (nothing m).trans (nothing m').symm
  · rw [imp_iff_right empty]
    have low : Backed (cleared v) l := b.withTable (topped_same v (t := 0) (by decide))
    obtain ⟨buf, h, _, alloc, -⟩ := kmalloc_effect low.heap (cluster_not_wraps v)
    by_cases null : buf = 0
    · subst null
      refine iff_of_true (ignoresTop_of fun m same => ?_) fun buf' h' alloc' ne => ?_
      · obtain ⟨m', alloc', -⟩ := low.kmalloc_twin same.heap alloc
        rw [low.fileData_none alloc empty]
        exact (low.withTable same.heap).fileData_none alloc' empty
      · cases alloc.symm.trans alloc'
        exact absurd rfl ne
    · obtain ⟨table, clear, run⟩ := low.fileData_eq spc wide alloc null
      -- both loops with what has been allocated, on another table
      have twin {m : Memory} (same : SameLow v (topped v 0) m) : ∃ m', SameLow v h.mem m' ∧ SameTable v m m' ∧
          fileData (withMem v m) c offset size = copyFile (withMem { v with heap := h } m') buf c offset size := by
        obtain ⟨m', alloc', off⟩ := low.kmalloc_twin same.heap alloc
        obtain ⟨table', -, run'⟩ := (low.withTable same.heap).fileData_eq spc wide alloc' null
        exact ⟨m', same.keep table table' off, table', run' c offset size empty⟩
      have lowTable : LowTable v h.mem := topped_low.keep table
      constructor
      · intro ignores buf' h' alloc' _
        cases alloc.symm.trans alloc'
        obtain ⟨m', same, table', run'⟩ := twin (topped_twin v)
        have marked : Marked v (topped v 1) := topped_marked
        refine readHarmless_of_marked (v := { v with heap := h }) clear wide same.heap lowTable empty
          (marked.keep table') ?_
        exact run'.symm.trans (ignores.marked.symm.trans (run c offset size empty))
      · intro harmless
        refine ignoresTop_of fun m same => ?_
        obtain ⟨m', same', -, run'⟩ := twin same
        exact run'.trans ((copyFile_twin (v := { v with heap := h }) clear wide same'.heap lowTable empty
          (harmless buf h alloc null)).trans (run c offset size empty).symm)

/-- The three functions return the same on all tables that agree with the one of a volume in the low 28 bits exactly
    when the reserved bits do no harm on that table without them. -/
theorem ignoresTop_iff (v : Volume) (c : UInt32) :
    (∀ name, IgnoresTop v (fun w => fat32FindEntry w c name) ↔
        (v.gInitialized = true → Harmless v (fun c => ¬ Continues c)
      (fun n => Searched v name (chain (cleared v) c n)) (chain (cleared v) c))) ∧
    (∀ index, IgnoresTop v (fun w => fat32ReaddirIndex w c index) ↔ (v.gInitialized = true →
      Harmless v (fun c => ¬ Continues c) (Counted v index (chain (cleared v) c)) (chain (cleared v) c))) ∧
    ∀ (l : List Block) (offset size : UInt32), Backed v l → v.gBootSector.sectorsPerCluster ≠ 0 →
      512 ≤ v.gBootSector.bytesPerSector.toNat →
      (IgnoresTop v (fun w => fileData w c offset size) ↔ (size ≠ 0 → ∀ buf h,
        kmalloc (cleared v).heap (bytesPerCluster v) = some (buf, h) → buf ≠ 0 →
          ReadHarmless { cleared v with heap := h } buf c offset size)) :=
  ⟨find_ignoresTop v c, index_ignoresTop v c, fun _ offset size b spc wide => b.read_ignoresTop spc wide c offset size⟩

set_option maxRecDepth 8192 in
/-- The directory of two clusters up to its end mark, and what is read of its first cluster alone, do not depend on the
    reserved bits. -/
theorem ignoresTop_iff_chained : IgnoresTop chained (fun w => fat32FindEntry w 2 [0x63]) ∧
    IgnoresTop chained (fun w => fat32ReaddirIndex w 2 5) ∧ IgnoresTop chained (fun w => fileData w 2 0 4) := by
  obtain ⟨find, index, read⟩ := ignoresTop_iff chained 2
  have mark : ¬ Continues (chain (cleared chained) 2 2) := by decide
  refine ⟨(find [0x63]).mpr fun _ => .inl ⟨2, mark, fun n lt => ?_⟩,
    (index 5).mpr fun _ => .inl ⟨2, mark, fun n lt => ?_⟩,
    (read tableBlocks 0 4 chained_backed (by decide) (by decide)).mpr fun _ buf h _ _ => .inr ⟨fun n skips => ?_, ?_⟩⟩
  · have inside : n = 0 ∨ n = 1 := by omega
    rcases inside with rfl | rfl
    · exact ⟨by decide, findInSectors_more.mp rfl⟩
    · exact ⟨by decide, findInSectors_more.mp rfl⟩
  · have inside : n = 0 ∨ n = 1 := by omega
    rcases inside with rfl | rfl
    · exact ⟨by decide, rfl, by decide +kernel⟩
    · exact ⟨by decide, rfl, by decide +kernel⟩
  · have first : 512 ≤ 0 := (skips 0 (Nat.zero_le _)).1
    cases first
  · intro n before _ j _ _ wanted
    obtain rfl : n = 0 := by
      by_contra some_
      have first : 512 ≤ 0 := (before 0 (by omega)).1
      cases first
    have less : (j + 1) * 512 < 4 := wanted.1
    omega

/-- A volume with a directory that goes on behind cluster 3 with cluster 2, where the file `A` is. -/
def continued : Volume :=
  { single with
    disk := fun sector => some (if sector = 3 then emptySector else rootSector)
    heap := { tableHeap with mem := tableHeap.mem.store32 0xC0000018 2 } }

set_option maxRecDepth 8192 in
/-- A reserved bit in the entry of cluster 3 hides the file. -/
theorem not_ignoresTop : ¬ IgnoresTop continued fun w => fat32FindEntry w 3 [0x61] := by
  intro ignores
  have first : Searched continued [0x61] 3 := ⟨by decide, findInSectors_more.mp rfl⟩
  have second : chain (cleared continued) 3 1 = 2 := by decide
  have found : ¬ Searched continued [0x61] 2 := by
    intro searched
    have more := findInSectors_more.mpr searched.2
    cases more
  rcases (find_ignoresTop continued 3 [0x61]).mp ignores rfl with ⟨n, end_, before⟩ | outside
  · rcases n with _ | _ | n
    · exact end_ first.1
    · rw [second] at end_
      exact end_ (by decide)
    · have searched := before 1 (by omega)
      beta_reduce at searched
      rw [second] at searched
      exact found searched
  · have out := outside 0 fun i le => by
      obtain rfl := Nat.le_zero.mp le
      exact first
    exact absurd out (by decide)

end RetaOS.Fat
