import RetaOS.Fat.Walk

/-!
# The end of a directory

The entry with the name byte 0x00 marks the end of a directory. Both directory functions skip it and go on behind it, so
an entry that lies behind the marker may be returned. To say where an entry lies, the entries of a directory are listed
as they are on the disk, in the order of the chain up to where reading stops (`Listed`), and each function is shown to
return an entry of that list (`find_found`, `index_found`).
-/

namespace RetaOS.Fat
open Lib Vfs

variable {v : Volume} {disk : Disk} {name : List UInt8} {sector index c k : UInt32} {n : Nat} {d : Dir}
  {de mk : DirEntry}
  {es es' post : List DirEntry} {ch : Nat → UInt32}

/-! ## The entries on the disk. -/

/-- The end-of-directory marker. -/
def Marker (de : DirEntry) : Prop := de.name.head? = some 0x00

/-- An entry that finding a name ends at. -/
def Matches (name : List UInt8) (de : DirEntry) : Prop := skipped de = false ∧ strcasecmp (entryName de.name) name = 0

instance (name : List UInt8) (de : DirEntry) : Decidable (Matches name de) := inferInstanceAs (Decidable (_ ∧ _))

/-- The entries in `n` sectors, up to one that cannot be read. -/
def sectorEntries (disk : Disk) (sector : UInt32) : Nat → List DirEntry
  | 0 => []
  | n + 1 =>
    match readSectors disk sector 1 with
    | (_, false) => []
    | (bytes, true) => dirEntries bytes ++ sectorEntries disk (sector + 1) n

/-- The entries in a cluster. -/
def clusterEntries (v : Volume) (c : UInt32) : List DirEntry :=
  sectorEntries v.disk (getFirstSectorOfCluster v c) v.gBootSector.sectorsPerCluster.toNat

/-- The entries in the first `n` clusters of a chain. -/
def chainEntries (v : Volume) (ch : Nat → UInt32) : Nat → List DirEntry
  | 0 => []
  | n + 1 => chainEntries v ch n ++ clusterEntries v (ch n)

/-- The chain of a directory has a cluster `n`, and the clusters before it can be read. -/
def Reached (v : Volume) (c : UInt32) (n : Nat) : Prop :=
  (∀ i ≤ n, Continues (chain v c i)) ∧ ∀ i < n, ClusterReadable v (chain v c i)

/-- A directory starts with the entries of a list. -/
def Listed (v : Volume) (c : UInt32) (es : List DirEntry) : Prop :=
  ∃ n, Reached v c n ∧ es <+: chainEntries v (chain v c) (n + 1)

/-- A marker is skipped. -/
lemma Marker.skipped (mark : Marker mk) : skipped mk = true := by
  unfold Marker at mark
  simp [Fat.skipped, mark]

lemma Listed.start (listed : Listed v c es') (before : es <+: es') : Listed v c es := by
  obtain ⟨n, reached, part⟩ := listed
  exact ⟨n, reached, before.trans part⟩

/-! ## Finding. -/

/-- What finding makes of a list of entries. -/
lemma findInEntries_find : findInEntries name es = match es.find? fun de => Matches name de with
    | some de => .found (fillDir de)
    | none => .more () := by
  induction es with
  | nil => rfl
  | cons de rest ih =>
    rw [findInEntries, List.find?_cons]
    by_cases skip : skipped de = true
    · have other : ¬ Matches name de := by
        rintro ⟨show_, -⟩
        simp [skip] at show_
      rw [if_pos skip, ih]
      simp [other]
    · by_cases same : strcasecmp (entryName de.name) name = 0
      · have hit : Matches name de := ⟨by simpa using skip, same⟩
        rw [if_neg skip, if_pos same]
        simp [hit]
      · have other : ¬ Matches name de := fun hit => same hit.2
        rw [if_neg skip, if_neg same, ih]
        simp [other]

/-- What finding makes of several sectors. -/
lemma findInSectors_find : findInSectors disk name sector n =
    match (sectorEntries disk sector n).find? fun de => Matches name de with
    | some de => .found (fillDir de)
    | none => if (ataRead28Lba disk sector n).2 then .more () else .failed := by
  induction n generalizing sector with
  | zero => rfl
  | succ n ih =>
    rw [findInSectors, sectorEntries]
    rcases read : readSectors disk sector 1 with ⟨bytes, _ | _⟩
    · have bad : (ataRead28Lba disk sector (n + 1)).2 = false := by
        have unread : ¬ Readable disk sector (n + 1) := Readable.first (by rw [read])
        simpa [Readable] using unread
      simp [bad]
    · have rest : (ataRead28Lba disk sector (n + 1)).2 = (ataRead28Lba disk (sector + 1) n).2 := by
        have iff := readable_succ (n := n) read
        rw [Readable, Readable] at iff
        exact Bool.eq_iff_iff.mpr iff
      dsimp only
      rw [findInEntries_find, List.find?_append, rest]
      cases found : (dirEntries bytes).find? fun de => Matches name de with
      | some de => rfl
      | none =>
        rw [Option.none_or]
        exact ih

/-- Finding goes on behind a cluster that can be read and holds no entry that matches. -/
lemma searched_iff : Searched v name c ↔
    Continues c ∧ ClusterReadable v c ∧ (clusterEntries v c).find? (fun de => Matches name de) = none := by
  rw [Searched]
  refine and_congr_right fun _ => ?_
  rw [ClusterReadable, clusterDirs, ← findInSectors_more, findInSectors_find, ← clusterEntries]
  cases (clusterEntries v c).find? fun de => Matches name de with
  | some de => exact iff_of_false (by rintro ⟨⟩) (by rintro ⟨-, ⟨⟩⟩)
  | none =>
    dsimp only
    split
    · rename_i ok
      exact iff_of_true rfl ⟨ok, rfl⟩
    · rename_i bad
      exact iff_of_false (by rintro ⟨⟩) fun both => bad both.1

/-- A pass that finds an entry. -/
lemma findBody_found : findBody v name c = .done (.ok d) ↔
    Continues c ∧ ∃ de, (clusterEntries v c).find? (fun de => Matches name de) = some de ∧ d = fillDir de := by
  rw [findBody, findInSectors_find, ← clusterEntries]
  by_cases more : Continues c
  · rw [if_pos (show isEofCluster c = false ∧ c ≠ 0 from more)]
    cases (clusterEntries v c).find? fun de => Matches name de with
    | some de => simp [more, eq_comm]
    | none =>
      cases (ataRead28Lba v.disk (getFirstSectorOfCluster v c) v.gBootSector.sectorsPerCluster.toNat).2 with
      | true => simp
      | false => simp
  · rw [if_neg (show ¬ (isEofCluster c = false ∧ c ≠ 0) from more)]
    simp [more]

/-- The entries of more clusters start with those of less. -/
lemma chainEntries_start {i : Nat} (le : i ≤ n) : chainEntries v ch i <+: chainEntries v ch n := by
  induction le with
  | refl => exact List.prefix_refl _
  | step _ ih => exact ih.trans (List.prefix_append _ _)

/-- Clusters without an entry that matches. -/
lemma chainEntries_none (others : ∀ i < n, (clusterEntries v (ch i)).find? (fun de => Matches name de) = none) :
    (chainEntries v ch n).find? (fun de => Matches name de) = none := by
  induction n with
  | zero => rfl
  | succ n ih =>
    rw [chainEntries, List.find?_append, ih fun i lt => others i (Nat.lt_succ_of_lt lt), others n n.lt_succ_self]
    rfl

/-- `fat32_find_entry` returns the first entry on the chain that matches. -/
lemma find_found : loop (findBody v name) c = some (.ok d) ↔
    ∃ n de, Reached v c n ∧ (chainEntries v (chain v c) (n + 1)).find? (fun de => Matches name de) = some de ∧
      d = fillDir de := by
  constructor
  · intro run
    obtain ⟨n, before, -, leave⟩ := (find_unrolls v name c).exit run
    obtain ⟨more, de, found, rfl⟩ := findBody_found.mp leave
    refine ⟨n, de, ⟨fun i le => ?_, fun i lt => (before i lt).2.1⟩, ?_, rfl⟩
    · rcases Nat.lt_or_eq_of_le le with lt | rfl
      · exact (before i lt).1
      · exact more
    · have none_ := chainEntries_none (n := n) fun i lt => (searched_iff.mp (before i lt)).2.2
      rw [chainEntries, List.find?_append, none_, found]
      rfl
  · rintro ⟨n, de, reached, found, rfl⟩
    -- the first cluster with an entry that matches
    obtain ⟨j, here, before⟩ : ∃ j, ¬ (j ≤ n →
        (clusterEntries v (chain v c j)).find? (fun de => Matches name de) = none) ∧
        ∀ i < j, i ≤ n → (clusterEntries v (chain v c i)).find? (fun de => Matches name de) = none := by
      refine exists_first (Classical.not_forall.mp fun all => ?_)
      rw [chainEntries_none fun i lt => all i (Nat.le_of_lt_succ lt)] at found
      cases found
    obtain ⟨le, here⟩ := Classical.not_imp.mp here
    obtain ⟨de', first⟩ := Option.ne_none_iff_exists'.mp here
    have part : (chainEntries v (chain v c) (j + 1)).find? (fun de => Matches name de) = some de' := by
      rw [chainEntries, List.find?_append, chainEntries_none fun i lt => before i lt (by omega), first]
      rfl
    have part : chainEntries v (chain v c) (j + 1) <+: chainEntries v (chain v c) (n + 1) :=
      chainEntries_start (by omega)
    obtain ⟨rest, whole⟩ := part
    rw [← whole, List.find?_append, part] at found
    cases found
    refine (find_unrolls v name c).loop_eq (fun i lt => ?_) (findBody_found.mpr ⟨reached.1 j le, de, first, rfl⟩)
    exact searched_iff.mpr ⟨reached.1 i (by omega), reached.2 i (by omega), before i lt (by omega)⟩

/-! ## Reading by index. -/

/-- The entry at an index among those that are not skipped. -/
lemma shown_getElem : (shown es)[n]? = some d ↔ ∃ pre de post, es = pre ++ de :: post ∧ skipped de = false ∧
    (shown pre).length = n ∧ d = fillDir de := by
  induction es generalizing n with
  | nil => simp [shown]
  | cons e rest ih =>
    by_cases skip : skipped e = true
    · rw [shown_skip skip, ih]
      constructor
      · rintro ⟨pre, de, post, rfl, keep, count, eq⟩
        exact ⟨e :: pre, de, post, rfl, keep, by rw [shown_skip skip, count], eq⟩
      · rintro ⟨pre, de, post, split, keep, count, eq⟩
        cases pre with
        | nil =>
          cases split
          cases skip.symm.trans keep
        | cons e' pre =>
          cases split
          exact ⟨pre, de, post, rfl, keep, by rw [← count, shown_skip skip], eq⟩
    · have keep : skipped e = false := by simpa using skip
      rw [shown_keep keep]
      cases n with
      | zero =>
        rw [List.getElem?_cons_zero, Option.some.injEq]
        constructor
        · rintro rfl
          exact ⟨[], e, rest, rfl, keep, rfl, rfl⟩
        · rintro ⟨pre, de, post, split, -, count, rfl⟩
          cases pre with
          | nil =>
            cases split
            rfl
          | cons e' pre =>
            cases split
            rw [shown_keep keep] at count
            cases count
      | succ n =>
        rw [List.getElem?_cons_succ, ih]
        constructor
        · rintro ⟨pre, de, post, rfl, keep', count, eq⟩
          exact ⟨e :: pre, de, post, rfl, keep', by rw [shown_keep keep, List.length_cons, count], eq⟩
        · rintro ⟨pre, de, post, split, keep', count, eq⟩
          cases pre with
          | nil => cases count
          | cons e' pre =>
            cases split
            rw [shown_keep keep, List.length_cons, Nat.succ.injEq] at count
            exact ⟨pre, de, post, rfl, keep', count, eq⟩

/-- What reading by index finds in a list of entries, with the counter in front of it. -/
lemma indexInEntries_found (le : k.toNat ≤ index.toNat) :
    indexInEntries index k es = .found d ↔ (shown es)[index.toNat - k.toNat]? = some d := by
  induction es generalizing k with
  | nil => simp [indexInEntries, shown]
  | cons de rest ih =>
    rw [indexInEntries]
    by_cases skip : skipped de = true
    · rw [if_pos skip, shown_skip skip]
      exact ih le
    · rw [if_neg skip, shown_keep (by simpa using skip)]
      by_cases here : k = index
      · rw [if_pos here, here, Nat.sub_self]
        simp
      · have ne : k.toNat ≠ index.toNat := fun eq => here (UInt32.toNat_inj.mp eq)
        have lt := index.toNat_lt
        have sum : (k + 1).toNat = k.toNat + 1 := toNat_add_ofNat (n := 1) (by omega)
        have later : index.toNat - k.toNat = index.toNat - (k + 1).toNat + 1 := by omega
        rw [if_neg here, later, List.getElem?_cons_succ]
        exact ih (by omega)

/-- The same in several sectors. -/
lemma indexInSectors_found (le : k.toNat ≤ index.toNat) : indexInSectors disk index sector k n = .found d ↔
    (shown (sectorEntries disk sector n))[index.toNat - k.toNat]? = some d := by
  have lt := index.toNat_lt
  induction n generalizing sector k with
  | zero => simp [indexInSectors, sectorEntries, shown]
  | succ n ih =>
    rw [indexInSectors, sectorEntries]
    rcases read : readSectors disk sector 1 with ⟨bytes, _ | _⟩
    · simp [shown]
    · dsimp only
      rw [shown_append]
      by_cases few : k.toNat + (shown (dirEntries bytes)).length ≤ index.toNat
      · have sum := toNat_add_ofNat (a := k) (show k.toNat + (shown (dirEntries bytes)).length < 2 ^ 32 by omega)
        have shift : index.toNat - k.toNat - (shown (dirEntries bytes)).length =
            index.toNat - (k + UInt32.ofNat (shown (dirEntries bytes)).length).toNat := by omega
        rw [indexInEntries_eq le (by omega), Scan.ofIndex, List.getElem?_eq_none (by omega),
          List.getElem?_append_right (by omega), shift]
        exact ih (by omega)
      · have inside : index.toNat - k.toNat < (shown (dirEntries bytes)).length := by omega
        rw [(indexInEntries_found le).mpr (List.getElem?_eq_getElem inside), List.getElem?_append_left inside,
          List.getElem?_eq_getElem inside]
        simp

/-- The entries that are shown of sectors that can be read. -/
lemma sectorDirs_eq (readable : Readable disk sector n) :
    sectorDirs disk sector n = shown (sectorEntries disk sector n) := by
  induction n generalizing sector with
  | zero => rfl
  | succ n ih =>
    obtain ⟨⟨bytes, read⟩, rest⟩ := readable.cons
    rw [sectorDirs, sectorEntries, read, ih rest]
    exact (shown_append _ _).symm

/-- The number of entries that are shown of clusters that can be read. -/
lemma listed_eq (readable : ∀ i < n, ClusterReadable v (ch i)) :
    listed v ch n = (shown (chainEntries v ch n)).length := by
  induction n with
  | zero => rfl
  | succ n ih =>
    rw [listed, chainEntries, shown_append, List.length_append, ih fun i lt => readable i (Nat.lt_succ_of_lt lt)]
    rw [clusterDirs, sectorDirs_eq (readable n n.lt_succ_self), clusterEntries]

/-- A pass that finds an entry. -/
lemma indexBody_found (le : k.toNat ≤ index.toNat) : indexBody v index (c, k) = .done (.ok d) ↔
    Continues c ∧ (shown (clusterEntries v c))[index.toNat - k.toNat]? = some d := by
  rw [clusterEntries, ← indexInSectors_found le, indexBody]
  by_cases more : Continues c
  · rw [if_pos (show isEofCluster c = false ∧ c ≠ 0 from more)]
    cases indexInSectors v.disk index (getFirstSectorOfCluster v c) k v.gBootSector.sectorsPerCluster.toNat with
    | found e => simp [more]
    | failed => simp
    | more k' => simp
  · rw [if_neg (show ¬ (isEofCluster c = false ∧ c ≠ 0) from more)]
    simp [more]

/-- `fat32_readdir_index` returns the entry at the index among those on the chain that are not skipped. -/
lemma index_found : loop (indexBody v index) (c, 0) = some (.ok d) ↔
    ∃ n, Reached v c n ∧ (shown (chainEntries v (chain v c) (n + 1)))[index.toNat]? = some d := by
  constructor
  · intro run
    obtain ⟨n, before, -, leave⟩ := (index_unrolls v index c).exit run
    obtain ⟨count, le⟩ := index_carried before
    have readable : ∀ i < n, ClusterReadable v (chain v c i) := fun i lt => (before i lt).2.1
    obtain ⟨more, found⟩ := (indexBody_found (by omega)).mp leave
    rw [count, listed_eq readable] at found
    refine ⟨n, ⟨fun i le => ?_, readable⟩, ?_⟩
    · rcases Nat.lt_or_eq_of_le le with lt | rfl
      · exact (before i lt).1
      · exact more
    · rw [chainEntries, shown_append, List.getElem?_append_right (by rw [← listed_eq readable]; exact le)]
      exact found
  · rintro ⟨n, reached, found⟩
    obtain ⟨inside, -⟩ := List.getElem?_eq_some_iff.mp found
    -- the first cluster up to which there are entries enough
    obtain ⟨j, here, before⟩ : ∃ j, ¬ (j ≤ n → (shown (chainEntries v (chain v c) (j + 1))).length ≤ index.toNat) ∧
        ∀ i < j, i ≤ n → (shown (chainEntries v (chain v c) (i + 1))).length ≤ index.toNat :=
      exists_first ⟨n, fun few => absurd (few le_rfl) (by omega)⟩
    obtain ⟨le, enough⟩ := Classical.not_imp.mp here
    have readable (i : Nat) (few : i ≤ j) : ∀ e < i, ClusterReadable v (chain v c e) := fun e lt =>
      reached.2 e (by omega)
    have counted : ∀ i < j, Counted v index (chain v c) i := fun i lt => by
      refine ⟨reached.1 i (by omega), reached.2 i (by omega), ?_⟩
      rw [listed_eq (readable (i + 1) lt)]
      exact before i lt (by omega)
    obtain ⟨count, few⟩ := index_carried counted
    have start : chainEntries v (chain v c) (j + 1) <+: chainEntries v (chain v c) (n + 1) :=
      chainEntries_start (by omega)
    have part : (shown (chainEntries v (chain v c) (j + 1)))[index.toNat]? = some d := by
      obtain ⟨rest, whole⟩ := start
      rw [← whole, shown_append, List.getElem?_append_left (by omega)] at found
      exact found
    refine (index_unrolls v index c).loop_eq counted ((indexBody_found (by omega)).mpr ⟨reached.1 j le, ?_⟩)
    rw [chainEntries, shown_append, List.getElem?_append_right
      (by rw [← listed_eq (readable j le_rfl)]; exact few)] at part
    rw [count, listed_eq (readable j le_rfl)]
    exact part

/-! ## Where the entries lie. -/

/-- `fat32_find_entry` returns the entry behind a list of entries, the first one that matches. -/
structure FindReturns (v : Volume) (c : UInt32) (name : List UInt8) (es : List DirEntry) (de : DirEntry) : Prop where
  ret : fat32FindEntry v c name = some (.ok (fillDir de))
  listed : Listed v c (es ++ [de])
  others : ∀ e ∈ es, ¬ Matches name e
  hit : Matches name de

/-- `fat32_readdir_index` returns the entry behind a list of entries, among which there are as many as the index. -/
structure IndexReturns (v : Volume) (c index : UInt32) (es : List DirEntry) (de : DirEntry) : Prop where
  ret : fat32ReaddirIndex v c index = some (.ok (fillDir de))
  listed : Listed v c (es ++ [de])
  count : (shown es).length = index.toNat
  keep : skipped de = false

/-- What `fat32_find_entry` returns is an entry of the directory with no marker before it. -/
def FindStops (v : Volume) (c : UInt32) (name : List UInt8) : Prop :=
  (∀ d, fat32FindEntry v c name = some (.ok d) → ∃ es de, FindReturns v c name es de ∧ d = fillDir de) ∧
    ∀ es de, FindReturns v c name es de → ∀ mk ∈ es, ¬ Marker mk

/-- What `fat32_readdir_index` returns is an entry of the directory with no marker before it. -/
def IndexStops (v : Volume) (c index : UInt32) : Prop :=
  (∀ d, fat32ReaddirIndex v c index = some (.ok d) → ∃ es de, IndexReturns v c index es de ∧ d = fillDir de) ∧
    ∀ es de, IndexReturns v c index es de → ∀ mk ∈ es, ¬ Marker mk

/-- The first entry of a list that matches is returned. -/
lemma findReturns_of_find (init : v.gInitialized = true) (listed : Listed v c es)
    (found : es.find? (fun de => Matches name de) = some de) :
    ∃ pre post, es = pre ++ de :: post ∧ FindReturns v c name pre de := by
  obtain ⟨hit, pre, post, rfl, others⟩ := List.find?_eq_some_iff_append.mp found
  refine ⟨pre, post, rfl, ?_, listed.start ⟨post, by simp⟩,
    fun e mem => by simpa using others e mem, by simpa using hit⟩
  obtain ⟨n, reached, rest, whole⟩ := listed
  rw [fat32FindEntry, if_neg (by simp [init])]
  refine find_found.mpr ⟨n, de, reached, ?_, rfl⟩
  rw [← whole, List.find?_append, found]
  rfl

/-- The entry that is shown at the index is returned. -/
lemma indexReturns_of_getElem (init : v.gInitialized = true) (listed : Listed v c es)
    (found : (shown es)[index.toNat]? = some d) :
    ∃ pre de post, es = pre ++ de :: post ∧ IndexReturns v c index pre de ∧ d = fillDir de := by
  obtain ⟨pre, de, post, rfl, keep, count, rfl⟩ := shown_getElem.mp found
  refine ⟨pre, de, post, rfl, ⟨?_, listed.start ⟨post, by simp⟩, count, keep⟩, rfl⟩
  obtain ⟨n, reached, rest, whole⟩ := listed
  rw [fat32ReaddirIndex, if_neg (by simp [init])]
  refine index_found.mpr ⟨n, reached, ?_⟩
  obtain ⟨inside, -⟩ := List.getElem?_eq_some_iff.mp found
  rw [← whole, shown_append, List.getElem?_append_left inside, found]

/-- What `fat32_find_entry` returns lies somewhere in the directory. -/
lemma find_returns (run : fat32FindEntry v c name = some (.ok d)) :
    v.gInitialized = true ∧ ∃ es de, FindReturns v c name es de ∧ d = fillDir de := by
  rw [fat32FindEntry] at run
  split_ifs at run with fresh
  · cases run
  · have init : v.gInitialized = true := by simpa using fresh
    obtain ⟨n, de, reached, found, rfl⟩ := find_found.mp run
    obtain ⟨pre, -, -, returns⟩ := findReturns_of_find init ⟨n, reached, List.prefix_refl _⟩ found
    exact ⟨init, pre, de, returns, rfl⟩

/-- What `fat32_readdir_index` returns lies somewhere in the directory. -/
lemma index_returns (run : fat32ReaddirIndex v c index = some (.ok d)) :
    v.gInitialized = true ∧ ∃ es de, IndexReturns v c index es de ∧ d = fillDir de := by
  rw [fat32ReaddirIndex] at run
  split_ifs at run with fresh
  · cases run
  · have init : v.gInitialized = true := by simpa using fresh
    obtain ⟨n, reached, found⟩ := index_found.mp run
    obtain ⟨pre, de, -, -, returns, eq⟩ := indexReturns_of_getElem init ⟨n, reached, List.prefix_refl _⟩ found
    exact ⟨init, pre, de, returns, eq⟩

/-! ## The marker. -/

/-- A name that an entry behind a marker has is the name of an entry before the marker. -/
def FindsBefore (v : Volume) (c : UInt32) (name : List UInt8) : Prop :=
  ∀ es mk post de, Listed v c (es ++ mk :: (post ++ [de])) → Marker mk → Matches name de → ∃ e ∈ es, Matches name e

/-- The index is that of an entry before a marker, or behind all entries of the directory. -/
def IndexBefore (v : Volume) (c index : UInt32) : Prop :=
  ∀ es mk post, Listed v c (es ++ mk :: post) → Marker mk →
    index.toNat < (shown es).length ∨ (shown (es ++ mk :: post)).length ≤ index.toNat

/-- Two places in one list: the first lies before the second, or they are the same, or it lies behind it. -/
lemma places {α : Type} {l r l' r' : List α} {a b : α} (split : l ++ a :: r = l' ++ b :: r') :
    a ∈ l' ∨ a = b ∨ ∃ k, l = l' ++ b :: k := by
  rcases List.append_eq_append_iff.mp split with ⟨k, rfl, rest⟩ | ⟨k, rfl, rest⟩
  · cases k with
    | nil => exact .inr (.inl (List.cons.inj rest).1)
    | cons x k =>
      obtain ⟨rfl, -⟩ := List.cons.inj rest
      exact .inl (by simp)
  · cases k with
    | nil => exact .inr (.inl (List.cons.inj rest).1.symm)
    | cons x k =>
      obtain ⟨rfl, -⟩ := List.cons.inj rest
      exact .inr (.inr ⟨k, rfl⟩)

/-- What finding returns lies before every marker exactly when the name is one of an entry there, if of any. -/
lemma findStops_iff : FindStops v c name ↔ (v.gInitialized = true → FindsBefore v c name) := by
  constructor
  · rintro ⟨-, stops⟩ init es mk post de listed mark hit
    by_contra others
    rw [not_exists] at others
    have none_ : es.find? (fun de => Matches name de) = none := by
      refine List.find?_eq_none.mpr fun e mem matches_ => others e ⟨mem, by simpa using matches_⟩
    have skip : ¬ Matches name mk := fun ⟨keep, _⟩ => nomatch mark.skipped.symm.trans keep
    -- so the entry that is returned lies behind the marker
    obtain ⟨de', found⟩ : ∃ de', (post ++ [de]).find? (fun de => Matches name de) = some de' := by
      refine Option.isSome_iff_exists.mp (List.find?_isSome.mpr ⟨de, by simp, by simpa using hit⟩)
    have whole : (es ++ mk :: (post ++ [de])).find? (fun de => Matches name de) = some de' := by
      rw [List.find?_append, none_, List.find?_cons_of_neg (by simpa using skip), found]
      rfl
    obtain ⟨pre, behind, split, returns⟩ := findReturns_of_find init listed whole
    rcases places split with mem | rfl | ⟨k, rfl⟩
    · exact stops pre de' returns mk mem mark
    · exact skip returns.hit
    · exact others de' ⟨by simp, returns.hit⟩
  · intro before
    refine ⟨fun d run => (find_returns run).2, fun es de returns mk mem mark => ?_⟩
    obtain ⟨init, -⟩ := find_returns returns.ret
    obtain ⟨pre, post, rfl⟩ := List.append_of_mem mem
    obtain ⟨e, mem', hit⟩ := before init pre mk post de (by simpa using returns.listed) mark returns.hit
    exact returns.others e (List.mem_append_left _ mem') hit

/-- Reading by index. -/
lemma indexStops_iff : IndexStops v c index ↔ (v.gInitialized = true → IndexBefore v c index) := by
  constructor
  · rintro ⟨-, stops⟩ init es mk post listed mark
    by_contra others
    rw [not_or, Nat.not_lt, Nat.not_le] at others
    obtain ⟨few, enough⟩ := others
    obtain ⟨pre, de, behind, split, returns, -⟩ :=
      indexReturns_of_getElem (d := (shown (es ++ mk :: post))[index.toNat]) init listed
        (List.getElem?_eq_getElem enough)
    have count := returns.count
    rcases places split with mem | rfl | ⟨k, rfl⟩
    · exact stops pre de returns mk mem mark
    · exact nomatch mark.skipped.symm.trans returns.keep
    · rw [shown_append, shown_keep returns.keep, List.length_append, List.length_cons] at few
      omega
  · intro before
    refine ⟨fun d run => (index_returns run).2, fun es de returns mk mem mark => ?_⟩
    obtain ⟨init, -⟩ := index_returns returns.ret
    obtain ⟨pre, post, rfl⟩ := List.append_of_mem mem
    have count := returns.count
    have total : shown (pre ++ mk :: (post ++ [de])) = shown (pre ++ mk :: post) ++ [fillDir de] := by
      rw [← List.cons_append, ← List.append_assoc, shown_append, shown_keep returns.keep]
      rfl
    have least : (shown pre).length ≤ (shown (pre ++ mk :: post)).length := by
      rw [shown_append, List.length_append]
      omega
    have behind := before init pre mk (post ++ [de]) (by simpa using returns.listed) mark
    rw [total, List.length_append, List.length_singleton] at behind
    omega

/-- Both functions return no entry behind a marker exactly when the name or the index asked for leads to an entry before
    it, or to none. -/
theorem stopsAtMarker_iff (v : Volume) (c : UInt32) :
    (∀ name, FindStops v c name ↔ (v.gInitialized = true → FindsBefore v c name)) ∧
    ∀ index, IndexStops v c index ↔ (v.gInitialized = true → IndexBefore v c index) :=
  ⟨fun _ => findStops_iff, fun _ => indexStops_iff⟩

/-- A directory that was emptied: a marker, and behind it the entry of a file `A` that is not cleared. -/
def staleSector : Sector :=
  sectorOf (List.replicate 32 0 ++ fileEntry [0x41, 32, 32, 32, 32, 32, 32, 32, 32, 32, 32] 3 1) (by decide)

set_option maxRecDepth 8192 in
/-- The file is still found. -/
theorem not_stopsAtMarker : ¬ FindStops { single with disk := fun _ => some staleSector } 2 [0x61] := by
  let v := { single with disk := fun _ => some staleSector }
  let mk := dirEntry ((staleSector.bytes.drop (32 * 0)).take 32)
  let de := dirEntry ((staleSector.bytes.drop (32 * 1)).take 32)
  have listed : Listed v 2 ([] ++ mk :: ([] ++ [de])) := by
    refine ⟨0, ⟨fun i le => ?_, fun _ => nofun⟩, ?_⟩
    · obtain rfl := Nat.le_zero.mp le
      exact (by decide : Continues 2)
    · exact ⟨_, rfl⟩
  intro stops
  obtain ⟨e, mem, -⟩ := findStops_iff.mp stops rfl [] mk [] de listed rfl ⟨by decide, by decide⟩
  cases mem

end RetaOS.Fat
