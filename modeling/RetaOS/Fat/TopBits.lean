import RetaOS.Fat.InRange

/-!
# The top bits of entries

An entry of a FAT32 table has 28 bits, and the four above them are reserved. The code follows an entry as it is, so a
reserved bit makes it an end mark. `SameLow` relates the memories whose tables agree in the 28 bits. Two runs on such
memories are the same up to where one of them follows an entry with a reserved bit, and there it ends (`chain_twin`). So
a function ignores the bits exactly when no such entry can matter: the table without them and the one with one of them
everywhere are the two that tell.
-/

namespace RetaOS.Fat
open Lib Vfs
open Kheap hiding Linked

variable {v : Volume} {m m' m'' : Memory} {c x : UInt32} {n t : Nat} {stop : UInt32 → Prop}
  {goes : (Nat → UInt32) → Nat → Prop}

/-! ## Tables that agree. -/

/-- The volume with another memory. -/
def withMem (v : Volume) (m : Memory) : Volume := { v with heap := { v.heap with mem := m } }

/-- An address outside of the entries of the table. -/
def OffTable (v : Volume) (x : UInt32) : Prop := 4 * tableEntries v ≤ (x - v.gFat).toNat

/-- The tables of two memories agree in the low 28 bits of every entry, and the memories agree elsewhere. -/
structure SameLow (v : Volume) (m m' : Memory) : Prop where
  entries : ∀ i : UInt32, i.toNat < tableEntries v →
    fatEntry m' v.gFat i &&& 0x0FFFFFFF = fatEntry m v.gFat i &&& 0x0FFFFFFF
  others : m.Agree (OffTable v) m'

/-- No entry of the table has a reserved bit. -/
def LowTable (v : Volume) (m : Memory) : Prop :=
  ∀ i : UInt32, i.toNat < tableEntries v → (fatEntry m v.gFat i).toNat < 2 ^ 28

/-- Every entry of the table is an end mark. -/
def Marked (v : Volume) (m : Memory) : Prop :=
  ∀ i : UInt32, i.toNat < tableEntries v → isEofCluster (fatEntry m v.gFat i) = true

lemma SameLow.symm (same : SameLow v m m') : SameLow v m' m :=
  ⟨fun i lt => (same.entries i lt).symm, fun x out => (same.others x out).symm⟩

lemma SameLow.trans (same : SameLow v m m') (same' : SameLow v m' m'') : SameLow v m m'' :=
  ⟨fun i lt => (same'.entries i lt).trans (same.entries i lt),
    fun x out => (same'.others x out).trans (same.others x out)⟩

/-- Where the table lies does not depend on the heap. -/
lemma SameLow.heap {h : Heap} (same : SameLow v m m') : SameLow { v with heap := h } m m' := ⟨same.entries, same.others⟩

/-- A byte of an entry. -/
def entryByte (m : Memory) (g i : UInt32) (k : Nat) : UInt8 := m (g + 4 * i + UInt32.ofNat k)

lemma fatEntry_toNat (m : Memory) (g i : UInt32) : (fatEntry m g i).toNat = (entryByte m g i 0).toNat +
    256 * ((entryByte m g i 1).toNat + 256 * ((entryByte m g i 2).toNat + 256 * (entryByte m g i 3).toNat)) := by
  have b0 := (entryByte m g i 0).toNat_lt
  have b1 := (entryByte m g i 1).toNat_lt
  have b2 := (entryByte m g i 2).toNat_lt
  have b3 := (entryByte m g i 3).toNat_lt
  have bytes : m.loadBytes (g + 4 * i) 4 =
      [entryByte m g i 0, entryByte m g i 1, entryByte m g i 2, entryByte m g i 3] := rfl
  rw [fatEntry, Memory.load32, bytes]
  simp only [ofBytes]
  rw [UInt32.toNat_ofNat']
  omega

/-- The bytes of an entry lie at four times its index. -/
lemma entryByte_offset {g i : UInt32} (lt : i.toNat < 2 ^ 30) {k : Nat} (hk : k < 4) :
    (g + 4 * i + UInt32.ofNat k - g).toNat = 4 * i.toNat + k := by
  have sum : g + 4 * i + UInt32.ofNat k = g + UInt32.ofNat (4 * i.toNat + k) := by
    rw [UInt32.ofNat_add, UInt32.ofNat_mul, UInt32.ofNat_toNat, UInt32.add_assoc]
    rfl
  rw [sum, add_sub_toNat (by omega)]

/-- The table has less than `2 ^ 30` entries. -/
lemma tableEntries_lt (v : Volume) : tableEntries v < 2 ^ 30 := by
  have lt := (fatSize v).toNat_lt
  rw [tableEntries]
  omega

/-- The low bits of an entry. -/
lemma low_toNat (e : UInt32) : (e &&& 0x0FFFFFFF).toNat = e.toNat % 2 ^ 28 :=
  toNat_and_mask e (k := 28) (by decide)

lemma isEofCluster_iff : isEofCluster c = true ↔ 0x0FFFFFF8 ≤ c.toNat := by
  rw [isEofCluster, decide_eq_true_eq, ge_iff_le, UInt32.le_iff_toNat_le]
  rfl

/-- An entry that is followed is the same in both memories, or it has a reserved bit in one of them. -/
lemma SameLow.fatEntry (same : SameLow v m m') (low : LowTable v m) (more : isEofCluster c = false) :
    Fat.fatEntry m' v.gFat c = Fat.fatEntry m v.gFat c ∨
      c.toNat < tableEntries v ∧ isEofCluster (Fat.fatEntry m' v.gFat c) = true := by
  have small : c.toNat < 0x0FFFFFF8 := by
    by_contra large
    rw [isEofCluster_iff.mpr (Nat.le_of_not_lt large)] at more
    cases more
  by_cases lt : c.toNat < tableEntries v
  · have bits := congrArg UInt32.toNat (same.entries c lt)
    have least := low c lt
    rw [low_toNat, low_toNat] at bits
    by_cases high : (Fat.fatEntry m' v.gFat c).toNat < 2 ^ 28
    · exact .inl (UInt32.toNat_inj.mp (by omega))
    · exact .inr ⟨lt, isEofCluster_iff.mpr (by omega)⟩
  · refine .inl (Memory.load32_congr fun k hk => same.others _ ?_)
    rw [OffTable, entryByte_offset (by omega) hk]
    omega

/-- The memory with `t` in the reserved bits of every entry. -/
def topped (v : Volume) (t : Nat) : Memory := fun x =>
  if (x - v.gFat).toNat < 4 * tableEntries v ∧ (x - v.gFat).toNat % 4 = 3 then
    UInt8.ofNat ((v.heap.mem x).toNat % 16 + 16 * t)
  else v.heap.mem x

/-- Its entries. -/
lemma topped_entry (ht : t < 16) {i : UInt32} (lt : i.toNat < tableEntries v) :
    (fatEntry (topped v t) v.gFat i).toNat = (fatEntry v.heap.mem v.gFat i).toNat % 2 ^ 28 + t * 2 ^ 28 := by
  have few := tableEntries_lt v
  have low (k : Nat) (hk : k < 3) : entryByte (topped v t) v.gFat i k = entryByte v.heap.mem v.gFat i k := by
    rw [entryByte, topped, entryByte_offset (by omega) (by omega), if_neg (by omega)]
    rfl
  have last : (entryByte (topped v t) v.gFat i 3).toNat = (entryByte v.heap.mem v.gFat i 3).toNat % 16 + 16 * t := by
    rw [entryByte, topped, entryByte_offset (by omega) (by omega), if_pos (by omega), UInt8.toNat_ofNat']
    show ((entryByte v.heap.mem v.gFat i 3).toNat % 16 + 16 * t) % 2 ^ 8 = _
    omega
  have b0 := (entryByte v.heap.mem v.gFat i 0).toNat_lt
  have b1 := (entryByte v.heap.mem v.gFat i 1).toNat_lt
  have b2 := (entryByte v.heap.mem v.gFat i 2).toNat_lt
  rw [fatEntry_toNat, fatEntry_toNat, low 0 (by decide), low 1 (by decide), low 2 (by decide), last]
  omega

lemma topped_same (v : Volume) (ht : t < 16) : SameLow v v.heap.mem (topped v t) where
  entries i lt := by
    apply UInt32.toNat_inj.mp
    rw [low_toNat, low_toNat, topped_entry ht lt]
    omega
  others x out := by
    rw [OffTable] at out
    rw [topped, if_neg (by omega)]

/-- Without reserved bits. -/
lemma topped_low : LowTable v (topped v 0) := by
  intro i lt
  rw [topped_entry (by decide) lt]
  omega

/-- With one of them every entry is an end mark. -/
lemma topped_marked : Marked v (topped v 1) := by
  intro i lt
  rw [isEofCluster_iff, topped_entry (by decide) lt]
  omega

/-! ## Chains. -/

/-- Two chains are the same, or up to an entry of the table that is an end mark in one of them. -/
lemma chain_twin (same : SameLow v m m') (low : LowTable v m)
    (more : ∀ i < n, isEofCluster (chain (withMem v m) c i) = false) :
    (∀ k ≤ n, chain (withMem v m') c k = chain (withMem v m) c k) ∨
      ∃ i < n, (∀ k ≤ i, chain (withMem v m') c k = chain (withMem v m) c k) ∧
        (chain (withMem v m) c i).toNat < tableEntries v ∧ isEofCluster (chain (withMem v m') c (i + 1)) = true := by
  induction n with
  | zero =>
    refine .inl fun k le => ?_
    obtain rfl := Nat.le_zero.mp le
    rfl
  | succ n ih =>
    rcases ih fun i lt => more i (Nat.lt_succ_of_lt lt) with all | ⟨i, lt, upto⟩
    · have next := same.fatEntry low (more n n.lt_succ_self)
      have here := all n le_rfl
      rcases next with eq | ⟨lt, eof⟩
      · refine .inl fun k le => ?_
        rcases Nat.lt_or_eq_of_le le with less | rfl
        · exact all k (Nat.le_of_lt_succ less)
        · rw [chain_succ, chain_succ, here]
          exact eq
      · refine .inr ⟨n, n.lt_succ_self, all, lt, ?_⟩
        rw [chain_succ, here]
        exact eof
    · exact .inr ⟨i, Nat.lt_succ_of_lt lt, upto⟩

/-- Where a loop goes on along a chain, by the chain up to there and at no end mark. -/
structure Follows (goes : (Nat → UInt32) → Nat → Prop) : Prop where
  congr : ∀ {ch ch' n}, (∀ i ≤ n, ch i = ch' i) → (goes ch n ↔ goes ch' n)
  more : ∀ {ch n}, goes ch n → isEofCluster (ch n) = false

/-- A chain comes to a stop before anything else ends the loop along it. -/
def Reaches (stop : UInt32 → Prop) (goes : Nat → Prop) (ch : Nat → UInt32) : Prop :=
  ∃ n, stop (ch n) ∧ ∀ i < n, goes i

/-- A loop along a chain follows no entry of the table. -/
def Outside (v : Volume) (goes : Nat → Prop) (ch : Nat → UInt32) : Prop :=
  ∀ n, (∀ i ≤ n, goes i) → tableEntries v ≤ (ch n).toNat

/-- An end mark that is met behind clusters that a loop follows is a stop of the chain. -/
lemma Follows.reaches {ch ch' : Nat → UInt32} (f : Follows goes) (closed : ∀ c, isEofCluster c = true → stop c)
    (upto : ∀ i ≤ n, ch' i = ch i) (before : ∀ i ≤ n, goes ch i) (eof : isEofCluster (ch' (n + 1)) = true) :
    Reaches stop (goes ch') ch' :=
  ⟨n + 1, closed _ eof, fun i lt => (f.congr fun j le => upto j (by omega)).mpr (before i (by omega))⟩

/-- With tables that agree in the low bits, both chains come to a stop or neither does. -/
lemma Follows.reaches_twin (f : Follows goes) (closed : ∀ c, isEofCluster c = true → stop c) (same : SameLow v m m')
    (low : LowTable v m) (ends : Reaches stop (goes (chain (withMem v m) c)) (chain (withMem v m) c)) :
    Reaches stop (goes (chain (withMem v m') c)) (chain (withMem v m') c) := by
  obtain ⟨n, end_, before⟩ := ends
  rcases chain_twin same low fun i lt => f.more (before i lt) with all | ⟨i, lt, upto, -, eof⟩
  · refine ⟨n, by rw [all n le_rfl]; exact end_, fun i lt => ?_⟩
    exact (f.congr fun j le => all j (by omega)).mpr (before i lt)
  · exact f.reaches closed upto (fun j le => before j (by omega)) eof

/-- A chain that goes on from an entry of the table comes to a stop when every entry is an end mark. -/
lemma Follows.reaches_marked (f : Follows goes) (closed : ∀ c, isEofCluster c = true → stop c) (same : SameLow v m m')
    (low : LowTable v m) (marked : Marked v m') (before : ∀ i ≤ n, goes (chain (withMem v m) c) i)
    (lt : (chain (withMem v m) c n).toNat < tableEntries v) :
    Reaches stop (goes (chain (withMem v m') c)) (chain (withMem v m') c) := by
  rcases chain_twin (n := n) same low fun i less => f.more (before i (Nat.le_of_lt less)) with
    all | ⟨i, less, upto, -, eof⟩
  · refine f.reaches closed all before ?_
    rw [chain_succ, all n le_rfl]
    exact marked _ lt
  · exact f.reaches closed upto (fun j le => before j (by omega)) eof

/-- As far as a loop follows no entry of the table, the chains are the same. -/
lemma Follows.outside_eq (f : Follows goes) (same : SameLow v m m') (low : LowTable v m)
    (outside : Outside v (goes (chain (withMem v m) c)) (chain (withMem v m) c)) (n : Nat)
    (before : ∀ i < n, goes (chain (withMem v m) c) i) : chain (withMem v m') c n = chain (withMem v m) c n := by
  rcases chain_twin same low fun i lt => f.more (before i lt) with all | ⟨i, lt, -, inside, -⟩
  · exact all n le_rfl
  · have out := outside i fun j le => before j (by omega)
    omega

/-! ## Walks along a directory. -/

section
variable {κ : Type} {scan : UInt32 → κ → Scan κ} {k : κ}

lemma goes_follows : Follows fun ch n => Goes scan ch k n := ⟨Goes.congr, fun goes => goes.1.1⟩

lemma eof_stops (c : UInt32) (eof : isEofCluster c = true) : ¬ Continues c := fun more => by
  rw [more.1] at eof
  cases eof

/-- A walk finds nothing exactly at the end of the chain. -/
lemma walkBody_notFound : walkBody v scan (c, k) = .done (.error (-ENOENT)) ↔ ¬ Continues c := by
  rw [walkBody]
  by_cases more : Continues c
  · rw [if_pos (show isEofCluster c = false ∧ c ≠ 0 from more)]
    refine iff_of_false ?_ (not_not.mpr more)
    cases scan c k with
    | found d => simp
    | failed => simp [EIO_, ENOENT]
    | more k' => simp
  · rw [if_neg (show ¬ (isEofCluster c = false ∧ c ≠ 0) from more)]
    exact iff_of_true rfl more

lemma walk_notFound (v : Volume) (scan : UInt32 → κ → Scan κ) (c : UInt32) (k : κ) :
    loop (walkBody v scan) (c, k) = some (.error (-ENOENT)) ↔
      Reaches (fun c => ¬ Continues c) (Goes scan (chain v c) k) (chain v c) := by
  have unrolls := walk_unrolls v scan c k
  constructor
  · intro run
    obtain ⟨n, before, -, leave⟩ := unrolls.exit run
    exact ⟨n, walkBody_notFound.mp leave, before⟩
  · rintro ⟨n, end_, before⟩
    exact unrolls.loop_eq before (walkBody_notFound.mpr end_)

/-- How a walk is left does not depend on the table. -/
lemma walkBody_leave {s : UInt32 × κ} {a : Except Int Dir} (w : Volume) (leave : walkBody v scan s = .done a) :
    walkBody w scan s = .done a := by
  obtain ⟨c, k⟩ := s
  rw [walkBody] at leave ⊢
  by_cases more : isEofCluster c = false ∧ c ≠ 0
  · rw [if_pos more] at leave ⊢
    cases eq : scan c k with
    | found d => rwa [eq] at leave
    | failed => rwa [eq] at leave
    | more k' =>
      rw [eq] at leave
      cases leave
  · rwa [if_neg more] at leave ⊢

/-- A walk depends on its chain as far as it goes. -/
lemma walk_congr {w : Volume} (same : ∀ n, (∀ i < n, Goes scan (chain v c) k i) → chain w c n = chain v c n) :
    loop (walkBody w scan) (c, k) = loop (walkBody v scan) (c, k) := by
  have upto (n : Nat) (before : ∀ i < n, Goes scan (chain v c) k i) : ∀ i ≤ n, chain v c i = chain w c i := fun i le =>
    (same i fun j less => before j (Nat.lt_of_lt_of_le less le)).symm
  refine ((walk_unrolls v scan c k).loop_congr (walk_unrolls w scan c k) (fun n before => ?_)
    fun n a before _ leave => ?_).symm
  · exact Goes.congr (upto n before)
  · rw [← upto n before n le_rfl, ← carried_congr fun i lt => upto n before i (Nat.le_of_lt lt)]
    exact walkBody_leave w leave

/-- A function of the volume has the same result on all tables that agree with the table in the low bits. -/
def IgnoresTop {α : Type} (v : Volume) (run : Volume → α) : Prop :=
  ∀ m m', SameLow v v.heap.mem m → SameLow v v.heap.mem m' → run (withMem v m) = run (withMem v m')

/-- The volume without reserved bits in its table. -/
def cleared (v : Volume) : Volume := withMem v (topped v 0)

/-- It is enough to compare with the table that has no reserved bits. -/
lemma ignoresTop_of {α : Type} {run : Volume → α}
    (one : ∀ m, SameLow v (topped v 0) m → run (withMem v m) = run (cleared v)) : IgnoresTop v run := by
  have low := (topped_same v (t := 0) (by decide)).symm
  intro m m' same same'
  exact (one m (low.trans same)).trans (one m' (low.trans same')).symm

/-- The tables without reserved bits and with one in every entry. -/
lemma IgnoresTop.marked {α : Type} {run : Volume → α} (ignores : IgnoresTop v run) :
    run (cleared v) = run (withMem v (topped v 1)) :=
  ignores _ _ (topped_same v (t := 0) (by decide)) (topped_same v (t := 1) (by decide))

lemma topped_twin (v : Volume) : SameLow v (topped v 0) (topped v 1) :=
  (topped_same v (t := 0) (by decide)).symm.trans (topped_same v (t := 1) (by decide))

/-- Reserved bits do no harm to a loop along a chain that stops the loop before anything else does, or on which the loop
    follows no entry of the table. -/
def Harmless (v : Volume) (stop : UInt32 → Prop) (goes : Nat → Prop) (ch : Nat → UInt32) : Prop :=
  Reaches stop goes ch ∨ Outside v goes ch

/-- A walk ignores the reserved bits exactly when they do no harm to it. -/
lemma walk_ignoresTop (v : Volume) (scan : UInt32 → κ → Scan κ) (c : UInt32) (k : κ) :
    IgnoresTop v (fun w => loop (walkBody w scan) (c, k)) ↔
      Harmless v (fun c => ¬ Continues c) (Goes scan (chain (cleared v) c) k) (chain (cleared v) c) := by
  constructor
  · intro ignores
    by_contra neither
    obtain ⟨found, outside⟩ := not_or.mp neither
    obtain ⟨n, some_⟩ := Classical.not_forall.mp outside
    obtain ⟨goes, lt⟩ := Classical.not_imp.mp some_
    have ends := goes_follows.reaches_marked eof_stops (topped_twin v) topped_low topped_marked goes
      (Nat.lt_of_not_le lt)
    exact found ((walk_notFound ..).mp (ignores.marked.trans ((walk_notFound ..).mpr ends)))
  · intro either
    refine ignoresTop_of fun m same => ?_
    rcases either with ends | outside
    · have ends' := goes_follows.reaches_twin eof_stops same topped_low ends
      exact ((walk_notFound ..).mpr ends').trans ((walk_notFound ..).mpr ends).symm
    · exact walk_congr (goes_follows.outside_eq same topped_low outside)

end

/-- Harm is done where a loop goes on, however that is put. -/
lemma Harmless.congr {P Q : Nat → Prop} {ch : Nat → UInt32} (same : ∀ n, (∀ i < n, P i) ↔ ∀ i < n, Q i) :
    Harmless v stop P ch ↔ Harmless v stop Q ch := by
  refine or_congr (exists_congr fun n => and_congr_right fun _ => same n) (forall_congr' fun n => imp_congr ?_ Iff.rfl)
  have upto := same (n + 1)
  simp only [Nat.lt_succ_iff] at upto
  exact upto

/-- The loop of `fat32_find_entry` is the walk with its scan. -/
lemma findBody_walk (v : Volume) (name : List UInt8) (c : UInt32) :
    loop (findBody v name) c = loop (walkBody v (findScan v name)) (c, ()) := by
  refine (find_unrolls v name c).loop_congr (walk_unrolls v (findScan v name) c ()) (fun n _ => find_goes.symm)
    fun n a _ _ leave => ?_
  generalize chain v c n = d at leave
  rw [findBody] at leave
  rw [walkBody, findScan]
  split at leave
  · rename_i more
    rw [if_pos more]
    cases eq : findInSectors v.disk name (getFirstSectorOfCluster v d) v.gBootSector.sectorsPerCluster.toNat with
    | found entry =>
      rw [eq] at leave
      cases leave
      rfl
    | failed =>
      rw [eq] at leave
      cases leave
      rfl
    | more k =>
      rw [eq] at leave
      cases leave
  · rename_i stop
    rw [if_neg stop]
    cases leave
    rfl

/-- An initialization that is missing is found before the table is looked at. -/
lemma ignoresTop_init {α : Type} {run : Volume → α} {P : Prop} (run' : Volume → α)
    (skips : v.gInitialized = false → ∀ m m', run (withMem v m) = run (withMem v m'))
    (runs : v.gInitialized = true → ∀ m, run (withMem v m) = run' (withMem v m)) (iff_ : IgnoresTop v run' ↔ P) :
    IgnoresTop v run ↔ (v.gInitialized = true → P) := by
  cases init : v.gInitialized with
  | false => exact iff_of_true (fun m m' _ _ => skips init m m') nofun
  | true =>
    rw [imp_iff_right rfl, ← iff_]
    refine forall_congr' fun m => forall_congr' fun m' => imp_congr_right fun _ => imp_congr_right fun _ => ?_
    rw [runs init, runs init]

/-- `fat32_find_entry` ignores the reserved bits exactly when they do no harm to its walk. -/
lemma find_ignoresTop (v : Volume) (c : UInt32) (name : List UInt8) :
    IgnoresTop v (fun w => fat32FindEntry w c name) ↔ (v.gInitialized = true → Harmless v (fun c => ¬ Continues c)
      (fun n => Searched v name (chain (cleared v) c n)) (chain (cleared v) c)) := by
  refine ignoresTop_init (fun w => loop (walkBody w (findScan v name)) (c, ())) (fun fresh m m' => ?_)
    (fun init m => ?_) ((walk_ignoresTop v _ c ()).trans (Harmless.congr fun n => ?_))
  · rw [fat32FindEntry, fat32FindEntry, if_pos (show (withMem v m).gInitialized = false from fresh),
      if_pos (show (withMem v m').gInitialized = false from fresh)]
  · rw [fat32FindEntry, if_neg (by rw [show (withMem v m).gInitialized = true from init]; decide), findBody_walk]
    rfl
  · exact forall_congr' fun i => imp_congr_right fun _ => find_goes

/-- `fat32_readdir_index` ignores them exactly when they do no harm to its walk. -/
lemma index_ignoresTop (v : Volume) (c index : UInt32) :
    IgnoresTop v (fun w => fat32ReaddirIndex w c index) ↔ (v.gInitialized = true → Harmless v (fun c => ¬ Continues c)
      (Counted v index (chain (cleared v) c)) (chain (cleared v) c)) := by
  refine ignoresTop_init (fun w => loop (walkBody w (indexScan v index)) (c, 0)) (fun fresh m m' => ?_)
    (fun init m => ?_) ((walk_ignoresTop v _ c 0).trans (Harmless.congr fun n => ?_))
  · rw [fat32ReaddirIndex, fat32ReaddirIndex, if_pos (show (withMem v m).gInitialized = false from fresh),
      if_pos (show (withMem v m').gInitialized = false from fresh)]
  · rw [fat32ReaddirIndex, if_neg (by rw [show (withMem v m).gInitialized = true from init]; decide), indexBody_eq]
    rfl
  · exact goes_congr fun n before => index_goes before

end RetaOS.Fat
