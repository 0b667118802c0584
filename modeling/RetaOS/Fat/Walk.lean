import RetaOS.Fat.Directory

/-!
# Walks along a chain

The loops of `fat32_find_entry` and `fat32_readdir_index` without any assumption about the table or the sectors. Both
run along a chain (`chain`) with a scan of each cluster, so they are one loop with two scans (`walkBody`). Which
clusters a walk goes on from is `Goes`: what that says of the cluster and its entries is `Searched` for finding and
`Counted` for reading by index. The loop of `fat32_read_file_data` that skips clusters runs along the same chain
(`Skipped`).
-/

namespace RetaOS.Fat
open Lib Vfs

/-! ## Chains. -/

/-- The clusters behind one another from a cluster on, as the table has them. -/
def chain (v : Volume) (c : UInt32) (n : Nat) : UInt32 := (fatEntry v.heap.mem v.gFat)^[n] c

lemma chain_succ (v : Volume) (c : UInt32) (n : Nat) : chain v c (n + 1) = fatEntry v.heap.mem v.gFat (chain v c n) :=
  Function.iterate_succ_apply' ..

/-- A cluster that a walk along a directory does not end at: no end mark and not 0. -/
def Continues (c : UInt32) : Prop := isEofCluster c = false ∧ c ≠ 0

instance (c : UInt32) : Decidable (Continues c) := inferInstanceAs (Decidable (_ ∧ _))

/-- Finding a name goes on behind a cluster: it is no end, its sectors can be read and no entry in it has the name. -/
def Searched (v : Volume) (name : List UInt8) (c : UInt32) : Prop :=
  Continues c ∧ ClusterReadable v c ∧ ∀ d ∈ clusterDirs v c, strcasecmp d.name name ≠ 0

/-- The number of entries in the first `n` clusters of a chain. -/
def listed (v : Volume) (ch : Nat → UInt32) : Nat → Nat
  | 0 => 0
  | n + 1 => listed v ch n + (clusterDirs v (ch n)).length

/-- Reading by index goes on behind cluster `n` of a chain: it is no end, its sectors can be read and there are no more
    entries up to there than the index. -/
def Counted (v : Volume) (index : UInt32) (ch : Nat → UInt32) (n : Nat) : Prop :=
  Continues (ch n) ∧ ClusterReadable v (ch n) ∧ listed v ch (n + 1) ≤ index.toNat

/-- Skipping goes on behind cluster `n` of a chain: the offset reached behind it, in 32 bits, is not above the offset,
    and it is no end mark. -/
def Skipped (v : Volume) (offset : UInt32) (ch : Nat → UInt32) (n : Nat) : Prop :=
  (n + 1) * (bytesPerCluster v).toNat % 2 ^ 32 ≤ offset.toNat ∧ isEofCluster (ch n) = false

/-- The loop that both functions run along a chain, with the scan of a cluster and what it hands to the next one. -/
def walkBody {κ : Type} (v : Volume) (scan : UInt32 → κ → Scan κ) : UInt32 × κ → Pass (UInt32 × κ) (Except Int Dir)
  | (c, k) =>
    if isEofCluster c = false ∧ c ≠ 0 then
      match scan c k with
      | .found entry => .done (.ok entry)
      | .failed => .done (.error (-EIO_))
      | .more k => .next (fatEntry v.heap.mem v.gFat c, k)
    else .done (.error (-ENOENT))

/-- The scan of a cluster for a name. -/
def findScan (v : Volume) (name : List UInt8) (c : UInt32) (_ : Unit) : Scan Unit :=
  findInSectors v.disk name (getFirstSectorOfCluster v c) v.gBootSector.sectorsPerCluster.toNat

/-- The scan of a cluster for an index. -/
def indexScan (v : Volume) (index c k : UInt32) : Scan UInt32 :=
  indexInSectors v.disk index (getFirstSectorOfCluster v c) k v.gBootSector.sectorsPerCluster.toNat

section
variable {κ : Type}

/-- What a scan hands to the next cluster, if it goes on. -/
def Scan.rest : Scan κ → Option κ
  | .more k => some k
  | _ => none

/-- What has been handed on to cluster `n` of a chain. -/
def carried (scan : UInt32 → κ → Scan κ) (ch : Nat → UInt32) (k : κ) : Nat → κ
  | 0 => k
  | n + 1 => ((scan (ch n) (carried scan ch k n)).rest).getD (carried scan ch k n)

/-- A walk goes on behind cluster `n` of a chain. -/
def Goes (scan : UInt32 → κ → Scan κ) (ch : Nat → UInt32) (k : κ) (n : Nat) : Prop :=
  Continues (ch n) ∧ ∃ k', scan (ch n) (carried scan ch k n) = .more k'

variable {v : Volume} {scan : UInt32 → κ → Scan κ} {ch ch' : Nat → UInt32} {c : UInt32} {k : κ} {n : Nat}

/-- A pass that goes on. -/
lemma walkBody_next (goes : Goes scan ch k n) : walkBody v scan (ch n, carried scan ch k n) =
    .next (fatEntry v.heap.mem v.gFat (ch n), carried scan ch k (n + 1)) := by
  obtain ⟨more, k', eq⟩ := goes
  rw [walkBody, if_pos (show isEofCluster (ch n) = false ∧ ch n ≠ 0 from more), eq, carried, eq]
  rfl

/-- A pass that does not. -/
lemma walkBody_done (stop : ¬ Goes scan ch k n) : ∃ r, walkBody v scan (ch n, carried scan ch k n) = .done r := by
  rw [walkBody]
  by_cases more : Continues (ch n)
  · rw [if_pos (show isEofCluster (ch n) = false ∧ ch n ≠ 0 from more)]
    cases eq : scan (ch n) (carried scan ch k n) with
    | found d => exact ⟨_, rfl⟩
    | failed => exact ⟨_, rfl⟩
    | more k' => exact absurd ⟨more, k', eq⟩ stop
  · rw [if_neg (show ¬ (isEofCluster (ch n) = false ∧ ch n ≠ 0) from more)]
    exact ⟨_, rfl⟩

/-- A walk runs along the chain of the table. -/
lemma walk_unrolls (v : Volume) (scan : UInt32 → κ → Scan κ) (c : UInt32) (k : κ) :
    Unrolls (walkBody v scan) (fun n => (chain v c n, carried scan (chain v c) k n)) (Goes scan (chain v c) k) where
  next n _ goes := by
    rw [walkBody_next goes, chain_succ]
  done _ _ stop := walkBody_done stop

/-- What is carried depends on the clusters before. -/
lemma carried_congr (same : ∀ i < n, ch i = ch' i) : carried scan ch k n = carried scan ch' k n := by
  induction n with
  | zero => rfl
  | succ n ih =>
    have before := ih fun i lt => same i (Nat.lt_succ_of_lt lt)
    rw [carried, carried, before, same n n.lt_succ_self]

/-- Going on depends on the clusters up to there. -/
lemma Goes.congr (same : ∀ i ≤ n, ch i = ch' i) : Goes scan ch k n ↔ Goes scan ch' k n := by
  rw [Goes, Goes, carried_congr fun i lt => same i (Nat.le_of_lt lt), same n le_rfl]

end

/-! ## What the scans go on from. -/

variable {v : Volume} {disk : Disk} {name : List UInt8} {sector index c k : UInt32} {offset : UInt32} {n : Nat}
  {es : List DirEntry} {ch : Nat → UInt32}

/-- Without a first readable sector there are no readable ones. -/
lemma Readable.first (bad : (readSectors disk sector 1).2 = false) : ¬ Readable disk sector (n + 1) := by
  intro readable
  obtain ⟨⟨bytes, read⟩, -⟩ := readable.cons
  rw [read] at bad
  cases bad

/-- The first readable sector in front of the others. -/
lemma readable_succ {bytes : List UInt8} (read : readSectors disk sector 1 = (bytes, true)) :
    Readable disk sector (n + 1) ↔ Readable disk (sector + 1) n := by
  refine ⟨fun readable => readable.cons.2, fun rest => ?_⟩
  unfold Readable ataRead28Lba at *
  unfold readSectors at read
  cases hs : disk (sector &&& 0x0FFFFFFF) with
  | none => simp [ataRead28Lba, hs] at read
  | some s =>
    dsimp only
    cases n with
    | zero => rfl
    | succ n => exact rest

/-- Finding goes on behind sectors that can be read and do not hold the name. -/
lemma findInSectors_more : findInSectors disk name sector n = .more () ↔
    Readable disk sector n ∧ ∀ d ∈ sectorDirs disk sector n, strcasecmp d.name name ≠ 0 := by
  induction n generalizing sector with
  | zero => simp [findInSectors, Readable, ataRead28Lba, sectorDirs]
  | succ n ih =>
    rw [findInSectors, sectorDirs]
    rcases read : readSectors disk sector 1 with ⟨bytes, _ | _⟩
    · refine iff_of_false (by rintro ⟨⟩) fun both => ?_
      exact Readable.first (by rw [read]) both.1
    · dsimp only
      rw [findInEntries_eq, Scan.ofFind, readable_succ read]
      cases found : (shown (dirEntries bytes)).find? fun d => strcasecmp d.name name = 0 with
      | some d =>
        refine iff_of_false (by rintro ⟨⟩) fun both => ?_
        have here := List.find?_some found
        exact both.2 d (List.mem_append_left _ (List.mem_of_find?_eq_some found)) (by simpa using here)
      | none =>
        have missing : ∀ d ∈ shown (dirEntries bytes), strcasecmp d.name name ≠ 0 := by
          simpa using List.find?_eq_none.mp found
        rw [ih]
        refine and_congr_right fun _ => ?_
        rw [List.forall_mem_append]
        exact (and_iff_right missing).symm

/-- Reading by index goes on behind entries that are not enough. -/
lemma indexInEntries_more (le : k.toNat ≤ index.toNat) : (∃ k', indexInEntries index k es = .more k') ↔
    k.toNat + (shown es).length ≤ index.toNat := by
  induction es generalizing k with
  | nil => simp [indexInEntries, shown, le]
  | cons de rest ih =>
    rw [indexInEntries]
    by_cases skip : skipped de = true
    · rw [if_pos skip, shown_skip skip]
      exact ih le
    · rw [if_neg skip, shown_keep (by simpa using skip), List.length_cons]
      by_cases here : k = index
      · rw [if_pos here, here]
        exact iff_of_false (by rintro ⟨_, ⟨⟩⟩) (by omega)
      · have ne : k.toNat ≠ index.toNat := fun eq => here (UInt32.toNat_inj.mp eq)
        have lt := index.toNat_lt
        have sum : (k + 1).toNat = k.toNat + 1 := toNat_add_ofNat (n := 1) (by omega)
        rw [if_neg here, ih (by omega), sum]
        omega

/-- Reading by index goes on behind sectors that can be read and do not hold entries enough, with their number added. -/
lemma indexInSectors_more (le : k.toNat ≤ index.toNat) : (∃ k', indexInSectors disk index sector k n = .more k') ↔
    Readable disk sector n ∧ k.toNat + (sectorDirs disk sector n).length ≤ index.toNat := by
  have lt := index.toNat_lt
  induction n generalizing sector k with
  | zero => simp [indexInSectors, Readable, ataRead28Lba, sectorDirs, le]
  | succ n ih =>
    rw [indexInSectors, sectorDirs, List.length_append]
    rcases read : readSectors disk sector 1 with ⟨bytes, _ | _⟩
    · refine iff_of_false (by rintro ⟨_, ⟨⟩⟩) fun both => ?_
      exact Readable.first (by rw [read]) both.1
    · dsimp only
      rw [readable_succ read]
      by_cases few : k.toNat + (shown (dirEntries bytes)).length ≤ index.toNat
      · have part := indexInEntries_eq le (show k.toNat + (shown (dirEntries bytes)).length < 2 ^ 32 by omega)
        rw [Scan.ofIndex, List.getElem?_eq_none (by omega)] at part
        have sum := toNat_add_ofNat (a := k) (show k.toNat + (shown (dirEntries bytes)).length < 2 ^ 32 by omega)
        rw [part]
        dsimp only
        refine (ih (by omega)).trans ?_
        rw [sum, Nat.add_assoc]
      · have stop := mt (indexInEntries_more le).mp few
        refine iff_of_false ?_ ?_
        · rintro ⟨k', eq⟩
          cases part : indexInEntries index k (dirEntries bytes) with
          | found d => simp [part] at eq
          | failed => simp [part] at eq
          | more k'' => exact stop ⟨k'', part⟩
        · rintro ⟨-, fits⟩
          exact few (by omega)

/-- A search goes on from the clusters that are `Searched`. -/
lemma find_goes : Goes (findScan v name) ch () n ↔ Searched v name (ch n) := by
  rw [Goes, Searched]
  refine and_congr_right fun _ => ?_
  rw [ClusterReadable, clusterDirs, ← findInSectors_more]
  constructor
  · rintro ⟨_, eq⟩
    exact eq
  · intro eq
    exact ⟨(), eq⟩

/-- The counter in front of cluster `n`. -/
lemma index_carried (before : ∀ i < n, Counted v index ch i) :
    (carried (indexScan v index) ch 0 n).toNat = listed v ch n ∧ listed v ch n ≤ index.toNat := by
  induction n with
  | zero => exact ⟨rfl, Nat.zero_le _⟩
  | succ n ih =>
    obtain ⟨eq, le⟩ := ih fun i lt => before i (Nat.lt_succ_of_lt lt)
    obtain ⟨-, readable, few⟩ := before n n.lt_succ_self
    have lt := index.toNat_lt
    have total : listed v ch (n + 1) = listed v ch n + (clusterDirs v (ch n)).length := rfl
    have small : (carried (indexScan v index) ch 0 n).toNat + (clusterDirs v (ch n)).length < 2 ^ 32 := by omega
    have scan : indexScan v index (ch n) (carried (indexScan v index) ch 0 n) =
        .more (carried (indexScan v index) ch 0 n + UInt32.ofNat (clusterDirs v (ch n)).length) := by
      rw [indexScan, indexInSectors_eq readable (by omega) small, ← clusterDirs, Scan.ofIndex,
        List.getElem?_eq_none (by omega)]
    refine ⟨?_, few⟩
    rw [carried, scan]
    show (carried (indexScan v index) ch 0 n + UInt32.ofNat (clusterDirs v (ch n)).length).toNat = _
    rw [toNat_add_ofNat small, eq, total]

/-- Reading by index goes on from the clusters that are `Counted`. -/
lemma index_goes (before : ∀ i < n, Counted v index ch i) :
    Goes (indexScan v index) ch 0 n ↔ Counted v index ch n := by
  obtain ⟨eq, le⟩ := index_carried before
  rw [Goes, Counted]
  refine and_congr_right fun _ => (indexInSectors_more (by omega)).trans ?_
  rw [ClusterReadable, eq]
  exact Iff.rfl

/-! ## The loops. -/

/-- A condition may be replaced by one that is the same behind passes that go on. -/
lemma goes_congr {P Q : Nat → Prop} (same : ∀ n, (∀ i < n, Q i) → (P n ↔ Q n)) :
    (∀ i < n, P i) ↔ ∀ i < n, Q i := by
  induction n with
  | zero => exact ⟨fun _ => nofun, fun _ => nofun⟩
  | succ n ih =>
    simp only [Nat.forall_lt_succ_right, ih]
    exact and_congr_right fun before => same n before

/-- `fat32_find_entry` runs along the chain. -/
lemma find_unrolls (v : Volume) (name : List UInt8) (c : UInt32) :
    Unrolls (findBody v name) (chain v c) fun n => Searched v name (chain v c n) where
  next n _ searched := by
    obtain ⟨more, k, eq⟩ := find_goes.mpr searched
    have scan : findInSectors v.disk name (getFirstSectorOfCluster v (chain v c n))
      v.gBootSector.sectorsPerCluster.toNat = .more () := eq
    have here : isEofCluster (chain v c n) = false ∧ chain v c n ≠ 0 := more
    rw [findBody, if_pos here, scan, chain_succ]
  done n _ stop := by
    rw [findBody]
    split
    · rename_i more
      cases eq : findInSectors v.disk name (getFirstSectorOfCluster v (chain v c n))
        v.gBootSector.sectorsPerCluster.toNat with
      | found d => exact ⟨_, rfl⟩
      | failed => exact ⟨_, rfl⟩
      | more => exact absurd (find_goes.mp ⟨more, (), eq⟩) stop
    · exact ⟨_, rfl⟩

/-- The loop of `fat32_readdir_index` is the walk with its scan. -/
lemma indexBody_eq : indexBody v index = walkBody v (indexScan v index) := by
  funext ⟨c, k⟩
  rw [indexBody, walkBody, indexScan]
  cases indexInSectors v.disk index (getFirstSectorOfCluster v c) k v.gBootSector.sectorsPerCluster.toNat with
  | found d => rfl
  | failed => rfl
  | more k' => rfl

/-- `fat32_readdir_index` runs along the chain. -/
lemma index_unrolls (v : Volume) (index c : UInt32) : Unrolls (indexBody v index)
    (fun n => (chain v c n, carried (indexScan v index) (chain v c) 0 n)) (Counted v index (chain v c)) where
  next n before counted := by
    rw [indexBody_eq]
    exact (walk_unrolls v (indexScan v index) c 0).next n ((goes_congr fun _ => index_goes).mpr before)
      ((index_goes before).mpr counted)
  done n before stop := by
    rw [indexBody_eq]
    exact (walk_unrolls v (indexScan v index) c 0).done n ((goes_congr fun _ => index_goes).mpr before)
      (mt (index_goes before).mp stop)

/-- The skipping loop of `fat32_read_file_data` runs along the chain. -/
lemma skip_unrolls (v : Volume) (offset c : UInt32) : Unrolls (skipBody v offset)
    (fun n => (chain v c n, UInt32.ofNat (n * (bytesPerCluster v).toNat))) (Skipped v offset (chain v c)) := by
  have step (n : Nat) : UInt32.ofNat (n * (bytesPerCluster v).toNat) + bytesPerCluster v =
      UInt32.ofNat ((n + 1) * (bytesPerCluster v).toNat) := by
    rw [Nat.succ_mul, UInt32.ofNat_add, UInt32.ofNat_toNat]
  have goes (n : Nat) : (UInt32.ofNat (n * (bytesPerCluster v).toNat) + bytesPerCluster v ≤ offset ∧
      isEofCluster (chain v c n) = false) ↔ Skipped v offset (chain v c) n := by
    rw [step, UInt32.le_iff_toNat_le, UInt32.toNat_ofNat', Skipped]
  constructor
  · intro n _ skipped
    rw [skipBody, if_pos ((goes n).mpr skipped), step, chain_succ]
  · intro n _ stop
    rw [skipBody, if_neg (mt (goes n).mp stop)]
    exact ⟨_, rfl⟩

end RetaOS.Fat
