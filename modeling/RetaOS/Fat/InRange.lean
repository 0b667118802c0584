import RetaOS.Fat.Ends

/-!
# Clusters in range

Which entries of the table the loops evaluate, and which clusters they take first sectors of. A cluster that comes from
the disk or from the table is not checked, so a loop stays in range exactly when the chain does up to where the loop
stops (`ChainInRange`). The copying loop of `fat32_read_file_data` stores to its cluster buffer on the way, so its chain
is the one that it finds in the memory at hand (`copied`), on a sound volume the chain of the table.
-/

namespace RetaOS.Fat
open Lib Vfs
open Kheap hiding Linked

variable {v : Volume} {c c' k offset size buf : UInt32} {m : Memory} {l : List Block} {r : ReadData} {n : Nat}
  {ch ch' : Nat → UInt32} {enters enters' goes goes' : Nat → Prop}

/-! ## The copying loop. -/

/-- The copying loop, unrolled. -/
lemma read_unrolls (v : Volume) (buf : UInt32) (r : ReadData) :
    Unrolls (readBody v buf) (fun n => (pastCluster v buf)^[n] r)
    fun n => Copies v ((pastCluster v buf)^[n] r) where
  next n _ goes := by
    rw [readBody_next goes, Function.iterate_succ_apply']
  done _ _ stop := (readBody_done buf stop).imp' _ fun _ leave => leave.1

/-- The memory and the cluster in front of pass `n` of the copying loop. -/
def copied (v : Volume) (buf : UInt32) (m : Memory) (c : UInt32) : Nat → Memory × UInt32
  | 0 => (m, c)
  | n + 1 =>
    let (m, c) := copied v buf m c n
    let mem := m.storeBytes buf (clusterRead v c)
    (mem, fatEntry mem v.gFat c)

/-- There are bytes to copy in front of pass `n`, from cluster `c`, when the first cluster is copied from an
    offset on. -/
def Wanted (v : Volume) (first size n : Nat) (c : UInt32) : Prop :=
  n * (bytesPerCluster v).toNat < first + size ∧ isEofCluster c = false

/-- The memory and the cluster in front of pass `n`. -/
lemma pastCluster_state (n : Nat) : (((pastCluster v buf)^[n] r).mem, ((pastCluster v buf)^[n] r).currentCluster) =
    copied v buf r.mem r.currentCluster n := by
  induction n with
  | zero => rfl
  | succ n ih =>
    rw [Function.iterate_succ_apply', copied, ← ih]
    rfl

lemma pastCluster_cluster (n : Nat) :
    ((pastCluster v buf)^[n] r).currentCluster = (copied v buf r.mem r.currentCluster n).2 :=
  congrArg Prod.snd (pastCluster_state n)

/-- The offset in the cluster and what remains in front of pass `n`. -/
lemma pastCluster_rest (buf : UInt32) (inside : r.clusterOffset.toNat < (bytesPerCluster v).toNat) (n : Nat) :
    ((pastCluster v buf)^[n] r).clusterOffset = (if n = 0 then r.clusterOffset else 0) ∧
      ((pastCluster v buf)^[n] r).bytesRemaining.toNat = min r.bytesRemaining.toNat
        (r.clusterOffset.toNat + r.bytesRemaining.toNat - n * (bytesPerCluster v).toNat) := by
  induction n with
  | zero =>
    refine ⟨rfl, ?_⟩
    show r.bytesRemaining.toNat = _
    omega
  | succ n ih =>
    rw [Function.iterate_succ_apply']
    generalize (pastCluster v buf)^[n] r = s at ih
    obtain ⟨first, rest⟩ := ih
    refine ⟨rfl, ?_⟩
    have at_ : s.clusterOffset.toNat = if n = 0 then r.clusterOffset.toNat else 0 := by
      rw [first]
      split
      · rfl
      · rfl
    have count := toRead_toNat (v := v) (r := s) (by rw [at_]; split <;> omega)
    -- behind the first cluster the offset in it is no more than what has been passed
    have least : n ≠ 0 → (bytesPerCluster v).toNat ≤ n * (bytesPerCluster v).toNat := fun ne =>
      Nat.le_mul_of_pos_left _ (Nat.pos_of_ne_zero ne)
    show (s.bytesRemaining - toRead v s).toNat = _
    rw [sub_toNat_of_le toRead_le, Nat.succ_mul]
    split at at_ <;> rename_i start
    · subst start
      omega
    · have passed := least start
      omega

/-- Where the copying loop goes into its body, as long as no end mark was met. -/
lemma enters_iff (buf : UInt32) (inside : Inside v r) (pos : r.bytesRemaining ≠ 0) (n : Nat)
    (before : ∀ i < n, isEofCluster (copied v buf r.mem r.currentCluster i).2 = false) :
    Enters ((pastCluster v buf)^[n] r) ↔
      Wanted v r.clusterOffset.toNat r.bytesRemaining.toNat n (copied v buf r.mem r.currentCluster n).2 := by
  rcases inside with eof | room
  · cases n with
    | zero =>
      exact iff_of_false (fun enters => nomatch eof.symm.trans enters.2) fun wanted => nomatch eof.symm.trans wanted.2
    | succ n => exact nomatch eof.symm.trans (before 0 n.succ_pos)
  · obtain ⟨-, rest⟩ := pastCluster_rest buf room n
    have some_ : 0 < r.bytesRemaining.toNat := Nat.pos_of_ne_zero fun zero => pos (UInt32.toNat_inj.mp zero)
    have zero : (0 : UInt32).toNat = 0 := rfl
    rw [Enters, Wanted, pastCluster_cluster, gt_iff_lt, UInt32.lt_iff_toNat_lt, rest, zero]
    refine and_congr_left fun _ => ?_
    omega

/-- Where it goes on. -/
lemma copies_iff (buf : UInt32) (inside : Inside v r) (pos : r.bytesRemaining ≠ 0) (n : Nat)
    (before : ∀ i < n, isEofCluster (copied v buf r.mem r.currentCluster i).2 = false) :
    Copies v ((pastCluster v buf)^[n] r) ↔
      Wanted v r.clusterOffset.toNat r.bytesRemaining.toNat n (copied v buf r.mem r.currentCluster n).2 ∧
        ClusterReadable v (copied v buf r.mem r.currentCluster n).2 := by
  rw [Copies, enters_iff buf inside pos n before, pastCluster_cluster]

/-! ## Ranges. -/

/-- The number of entries that are allocated for the table. -/
def tableEntries (v : Volume) : Nat := (fatSize v).toNat / 4

/-- A loop stays in range: in every state that its passes reach, it takes the first sector of a cluster from 2 on, and
    it goes on with an entry of the table. -/
def InRange {σ α : Type} (v : Volume) (body : σ → Pass σ α) (s : σ) (cluster : σ → UInt32) (enters : σ → Prop) : Prop :=
  ∀ n d, Passes body s n d →
    (enters d → 2 ≤ (cluster d).toNat) ∧ ∀ d', body d = .next d' → (cluster d).toNat < tableEntries v

/-- `fat32_find_entry` does. -/
def FindInRange (v : Volume) (dirCluster : UInt32) (name : List UInt8) : Prop :=
  v.gInitialized = true → InRange v (findBody v name) dirCluster id Continues

/-- `fat32_readdir_index` does. -/
def IndexInRange (v : Volume) (dirCluster index : UInt32) : Prop :=
  v.gInitialized = true → InRange v (indexBody v index) (dirCluster, 0) (·.1) fun d => Continues d.1

/-- `fat32_read_file_data` does in both loops. -/
def ReadInRange (v : Volume) (firstCluster offset size : UInt32) : Prop :=
  v.gInitialized = true → size ≠ 0 → ∀ buf h, kmalloc v.heap (bytesPerCluster v) = some (buf, h) → buf ≠ 0 →
    let w := { v with heap := h }
    InRange w (skipBody w offset) (firstCluster, 0) (·.1) (fun _ => False) ∧
      ∀ c k, loop (skipBody w offset) (firstCluster, 0) = some (c, k) →
        InRange w (readBody w buf) ⟨h.mem, [], 0, size, c, offset - k⟩ (·.currentCluster) Enters

/-- A chain is in range up to where a walk along it stops. -/
def ChainInRange (v : Volume) (ch : Nat → UInt32) (enters goes : Nat → Prop) : Prop :=
  ∀ n, (∀ i < n, goes i) → (enters n → 2 ≤ (ch n).toNat) ∧ (goes n → (ch n).toNat < tableEntries v)

/-- A loop that runs along a chain stays in range exactly when the chain does. -/
lemma inRange_iff_chain {σ α : Type} {body : σ → Pass σ α} {seq : Nat → σ} (cluster : σ → UInt32) (enters : σ → Prop)
    (u : Unrolls body seq goes) : InRange v body (seq 0) cluster enters ↔
      ChainInRange v (fun n => cluster (seq n)) (fun n => enters (seq n)) goes := by
  constructor
  · intro range n before
    obtain ⟨least, less⟩ := range n (seq n) (u.passes_iff.mpr ⟨rfl, before⟩)
    exact ⟨least, fun here => less _ (u.next n before here)⟩
  · intro range n d passes
    obtain ⟨rfl, before⟩ := u.passes_iff.mp passes
    obtain ⟨least, less⟩ := range n before
    exact ⟨least, fun d' pass => less ((u.goes_iff before).mp ⟨d', pass⟩)⟩

/-- A chain may be described in another way that is the same as long as the walk goes on and has stayed in range. -/
lemma chainInRange_congr (same : ∀ n, (∀ i < n, goes i ∧ (ch i).toNat < tableEntries v) →
    ch n = ch' n ∧ (enters n ↔ enters' n) ∧ (goes n ↔ goes' n)) :
    ChainInRange v ch enters goes ↔ ChainInRange v ch' enters' goes' := by
  constructor
  · intro range n before
    have kept (k : Nat) (le : k ≤ n) : ∀ i < k, goes i ∧ (ch i).toNat < tableEntries v := by
      induction k with
      | zero => exact fun _ => nofun
      | succ k ih =>
        have here := ih (Nat.le_of_succ_le le)
        have going := (same k here).2.2.mpr (before k le)
        refine Nat.forall_lt_succ_right.mpr ⟨here, going, ?_⟩
        exact (range k fun i lt => (here i lt).1).2 going
    obtain ⟨eq, ent, go⟩ := same n (kept n le_rfl)
    rw [← eq, ← ent, ← go]
    exact range n fun i lt => (kept n le_rfl i lt).1
  · intro range n before
    have kept (k : Nat) (le : k ≤ n) : (∀ i < k, goes i ∧ (ch i).toNat < tableEntries v) ∧ ∀ i < k, goes' i := by
      induction k with
      | zero => exact ⟨fun _ => nofun, fun _ => nofun⟩
      | succ k ih =>
        obtain ⟨here, here'⟩ := ih (Nat.le_of_succ_le le)
        obtain ⟨eq, -, go⟩ := same k here
        have going := before k le
        have less := (range k here').2 (go.mp going)
        rw [← eq] at less
        exact ⟨Nat.forall_lt_succ_right.mpr ⟨here, going, less⟩, Nat.forall_lt_succ_right.mpr ⟨here', go.mp going⟩⟩
    obtain ⟨here, here'⟩ := kept n le_rfl
    obtain ⟨eq, ent, go⟩ := same n here
    rw [eq, ent, go]
    exact range n here'

/-! ## Reading a file. -/

/-- The chain is in range as far as the skipping loop follows it. -/
def SkipInRange (v : Volume) (c offset : UInt32) : Prop :=
  ChainInRange v (chain v c) (fun _ => False) (Skipped v offset (chain v c))

/-- The chain is in range as far as it is wanted by the copying loop. -/
def WantedInRange (v : Volume) (first size : Nat) (ch : Nat → UInt32) : Prop :=
  ChainInRange v ch (fun j => Wanted v first size j (ch j))
    fun j => Wanted v first size j (ch j) ∧ ClusterReadable v (ch j)

/-- Behind the clusters that are skipped, `n` of them, the chain `ch n` is in range as far as it is wanted. -/
def CopyInRange (v : Volume) (c offset size : UInt32) (ch : Nat → Nat → UInt32) : Prop :=
  ∀ n, (∀ i < n, Skipped v offset (chain v c) i) → ¬ Skipped v offset (chain v c) n →
    WantedInRange v (offset.toNat - n * (bytesPerCluster v).toNat % 2 ^ 32) size.toNat (ch n)

/-- The skipping loop stays in range exactly when the chain does. -/
lemma skip_inRange : InRange v (skipBody v offset) (c, 0) (·.1) (fun _ => False) ↔ SkipInRange v c offset := by
  have range := inRange_iff_chain (v := v) (·.1) (fun _ => False) (skip_unrolls v offset c)
  rw [Nat.zero_mul] at range
  exact range

/-- The copying loop stays in range exactly when the clusters that it finds do. -/
lemma wanted_inRange (buf : UInt32) (inside : Inside v r) (pos : r.bytesRemaining ≠ 0) :
    InRange v (readBody v buf) r (·.currentCluster) Enters ↔ WantedInRange v r.clusterOffset.toNat
      r.bytesRemaining.toNat fun j => (copied v buf r.mem r.currentCluster j).2 := by
  refine (inRange_iff_chain (·.currentCluster) Enters (read_unrolls v buf r)).trans
    (chainInRange_congr fun j going => ?_)
  have before : ∀ i < j, isEofCluster (copied v buf r.mem r.currentCluster i).2 = false := fun i lt => by
    rw [← pastCluster_cluster]
    exact (going i lt).1.1.2
  exact ⟨pastCluster_cluster j, enters_iff buf inside pos j before, copies_iff buf inside pos j before⟩

/-- The same, from the state that the skipping loop leaves. -/
lemma copy_inRange (pos : size ≠ 0) : (∀ c' k, loop (skipBody v offset) (c, 0) = some (c', k) →
      InRange v (readBody v buf) ⟨m, [], 0, size, c', offset - k⟩ (·.currentCluster) Enters) ↔
    CopyInRange v c offset size fun n j => (copied v buf m (chain v c n) j).2 := by
  have loops (n : Nat) (before : ∀ i < n, Skipped v offset (chain v c) i) (stop : ¬ Skipped v offset (chain v c) n) :
      InRange v (readBody v buf) ⟨m, [], 0, size, chain v c n, offset - UInt32.ofNat (n * (bytesPerCluster v).toNat)⟩
          (·.currentCluster) Enters ↔
        WantedInRange v (offset.toNat - n * (bytesPerCluster v).toNat % 2 ^ 32) size.toNat
          fun j => (copied v buf m (chain v c n) j).2 := by
    have inside := (skip_exit (skip_some.mpr ⟨n, before, stop, rfl, rfl⟩)).2
    obtain ⟨eq, le⟩ := skipped_offset before
    have loop_ := wanted_inRange (v := v) buf
      (r := ⟨m, [], 0, size, chain v c n, offset - UInt32.ofNat (n * (bytesPerCluster v).toNat)⟩) inside pos
    rw [loop_, sub_toNat_of_le (by omega), eq]
  constructor
  · intro range n before stop
    exact (loops n before stop).mp (range _ _ (skip_some.mpr ⟨n, before, stop, rfl, rfl⟩))
  · intro range c' k run
    obtain ⟨n, before, stop, rfl, rfl⟩ := skip_some.mp run
    exact (loops n before stop).mpr (range n before stop)

/-! ## Sound volumes. -/

/-- The table is found in memory as the volume has it, as long as the chain stays in it. -/
lemma Backed.chain_eq {h : Heap} (b : Backed v l) (keeps : Keeps l v.heap.mem h.mem) (n : Nat)
    (before : ∀ i < n, (chain v c i).toNat < tableEntries v) : chain { v with heap := h } c n = chain v c n := by
  induction n with
  | zero => rfl
  | succ n ih =>
    rw [chain_succ, chain_succ, ih fun i lt => before i (Nat.lt_succ_of_lt lt)]
    exact b.fatEntry_eq keeps (before n n.lt_succ_self)

/-- The clusters that the copying loop finds are those of the table. -/
lemma Backed.copied_eq {h : Heap} {l' : List Block} (b : Backed v l) (valid : Valid h l')
    (alloc : Allocated l l' buf (bytesPerCluster v)) (keeps : Keeps l v.heap.mem h.mem)
    (wide : 512 ≤ v.gBootSector.bytesPerSector.toNat) (n j : Nat)
    (before : ∀ i < j, (chain v c (n + i)).toNat < tableEntries v) :
    (copied { v with heap := h } buf h.mem (chain v c n) j).2 = chain v c (n + j) ∧
      Memory.SameOutside buf (bytesPerCluster v).toNat h.mem
        (copied { v with heap := h } buf h.mem (chain v c n) j).1 := by
  induction j with
  | zero => exact ⟨rfl, fun _ _ => rfl⟩
  | succ j ih =>
    obtain ⟨cluster, same⟩ := ih fun i lt => before i (Nat.lt_succ_of_lt lt)
    rw [copied]
    generalize copied { v with heap := h } buf h.mem (chain v c n) j = state at cluster same
    obtain ⟨m, d⟩ := state
    dsimp only at cluster same ⊢
    subst cluster
    obtain ⟨d, used, addr, le, -, made⟩ := id alloc
    obtain ⟨lo, hi⟩ := valid.bounds ((made d used).mpr (.inl rfl))
    rw [Block.limit] at hi
    have len : (clusterRead { v with heap := h } (chain v c (n + j))).length ≤ (bytesPerCluster v).toNat :=
      clusterRead_le (v := { v with heap := h }) wide _
    have same' : Memory.SameOutside buf (bytesPerCluster v).toNat h.mem
        (m.storeBytes buf (clusterRead { v with heap := h } (chain v c (n + j)))) := fun x out => by
      rw [storeBytes_within le_rfl (by omega) (by omega) out, same x out]
    refine ⟨?_, same'⟩
    rw [← Nat.add_assoc, chain_succ]
    exact b.fatEntry_eq (keeps.trans (alloc.keeps valid same')) (before j j.lt_succ_self)

/-- The allocation of the buffer does not change which clusters are skipped. -/
lemma Backed.skipInRange {h : Heap} (b : Backed v l) (keeps : Keeps l v.heap.mem h.mem) :
    SkipInRange v c offset ↔ SkipInRange { v with heap := h } c offset := by
  refine chainInRange_congr fun n going => ?_
  have eq := b.chain_eq keeps n fun i lt => (going i lt).2
  exact ⟨eq.symm, Iff.rfl, by rw [Skipped, Skipped, eq]; rfl⟩

/-- On a sound volume the copying loop finds the chain of the table, when the skipping loop does. -/
lemma Backed.copyInRange {h : Heap} {l' : List Block} (b : Backed v l) (valid : Valid h l')
    (alloc : Allocated l l' buf (bytesPerCluster v)) (keeps : Keeps l v.heap.mem h.mem)
    (wide : 512 ≤ v.gBootSector.bytesPerSector.toNat) (skip : SkipInRange v c offset) :
    (CopyInRange v c offset size fun n j => chain v c (n + j)) ↔ CopyInRange { v with heap := h } c offset size
      fun n j => (copied { v with heap := h } buf h.mem (chain { v with heap := h } c n) j).2 := by
  have chain_eq (n : Nat) (before : ∀ i < n, Skipped v offset (chain v c) i) :
      chain { v with heap := h } c n = chain v c n :=
    b.chain_eq keeps n fun i lt => (skip i fun k less => before k (less.trans lt)).2 (before i lt)
  have skipped (n : Nat) (before : ∀ i < n, Skipped v offset (chain v c) i) :
      Skipped { v with heap := h } offset (chain { v with heap := h } c) n ↔ Skipped v offset (chain v c) n := by
    rw [Skipped, Skipped, chain_eq n before]
    rfl
  refine forall_congr' fun n => ?_
  rw [goes_congr skipped]
  refine imp_congr_right fun before => ?_
  rw [skipped n before]
  refine imp_congr_right fun _ => chainInRange_congr fun j going => ?_
  have eq := (b.copied_eq valid alloc keeps wide n j fun i lt => (going i lt).2).1
  beta_reduce
  rw [chain_eq n before, eq]
  exact ⟨rfl, Iff.rfl, Iff.rfl⟩

/-- On a sound volume `fat32_read_file_data` stays in range exactly when the chain of the table does. -/
lemma Backed.readInRange_iff (b : Backed v l) (wide : 512 ≤ v.gBootSector.bytesPerSector.toNat) :
    ReadInRange v c offset size ↔ (size ≠ 0 → Allocates v →
      SkipInRange v c offset ∧ CopyInRange v c offset size fun n j => chain v c (n + j)) := by
  rw [ReadInRange, imp_iff_right b.init]
  refine imp_congr_right fun pos => ?_
  obtain ⟨r, h, l', alloc, valid, keeps, ⟨rfl, -⟩ | ⟨ne, allocated, -⟩⟩ := kmalloc_effect b.heap (cluster_not_wraps v)
  · refine iff_of_true (fun buf h' alloc' ne => ?_) fun ⟨buf, h', alloc', ne⟩ => ?_ <;> cases alloc.symm.trans alloc'
    · exact absurd rfl ne
    · exact absurd rfl ne
  · have chains : SkipInRange v c offset ∧ (CopyInRange v c offset size fun n j => chain v c (n + j)) ↔
        SkipInRange { v with heap := h } c offset ∧ CopyInRange { v with heap := h } c offset size
          fun n j => (copied { v with heap := h } r h.mem (chain { v with heap := h } c n) j).2 := by
      rw [← b.skipInRange keeps]
      exact and_congr_right fun skip => b.copyInRange valid allocated keeps wide skip
    rw [imp_iff_right (show Allocates v from ⟨r, h, alloc, ne⟩), chains]
    constructor
    · intro range
      exact (range r h alloc ne).imp skip_inRange.mp (copy_inRange pos).mp
    · intro range buf h' alloc' _
      cases alloc.symm.trans alloc'
      exact range.imp skip_inRange.mpr (copy_inRange pos).mpr

/-- The three functions stay in range exactly when the chains that they follow do up to where they stop. A sound volume
    has the chain of its table for `fat32_read_file_data`. -/
theorem inRange_iff (v : Volume) (c : UInt32) :
    (∀ name, FindInRange v c name ↔ (v.gInitialized = true →
      ChainInRange v (chain v c) (fun n => Continues (chain v c n)) fun n => Searched v name (chain v c n))) ∧
    (∀ index, IndexInRange v c index ↔ (v.gInitialized = true →
      ChainInRange v (chain v c) (fun n => Continues (chain v c n)) (Counted v index (chain v c)))) ∧
    (∀ offset size, ReadInRange v c offset size ↔ (v.gInitialized = true → size ≠ 0 →
      ∀ buf h, kmalloc v.heap (bytesPerCluster v) = some (buf, h) → buf ≠ 0 →
        let w := { v with heap := h }
        SkipInRange w c offset ∧ CopyInRange w c offset size fun n j => (copied w buf h.mem (chain w c n) j).2)) ∧
    ∀ (l : List Block) (offset size : UInt32), Backed v l → 512 ≤ v.gBootSector.bytesPerSector.toNat →
      (ReadInRange v c offset size ↔ (size ≠ 0 → Allocates v →
        SkipInRange v c offset ∧ CopyInRange v c offset size fun n j => chain v c (n + j))) := by
  refine ⟨fun name => ?_, fun index => ?_, fun offset size => ?_, fun l offset size b wide => b.readInRange_iff wide⟩
  · exact imp_congr_right fun _ => inRange_iff_chain id Continues (find_unrolls v name c)
  · exact imp_congr_right fun _ => inRange_iff_chain (·.1) (fun d => Continues d.1) (index_unrolls v index c)
  · refine imp_congr_right fun _ => imp_congr_right fun pos => ?_
    refine forall_congr' fun buf => forall_congr' fun h => imp_congr_right fun _ => imp_congr_right fun _ => ?_
    exact and_congr skip_inRange (copy_inRange pos)

/-- The chain from cluster 2 to cluster 3 is in range for a walk that stops at its end mark. -/
lemma chained_inRange (stop : enters 2 ∨ goes 2 → isEofCluster (chain chained 2 2) = false) :
    ChainInRange chained (chain chained 2) enters goes := by
  have mark : ¬ isEofCluster (chain chained 2 2) = false := by decide
  intro n before
  rcases Nat.lt_trichotomy n 2 with walk | rfl | behind
  · have inside : n = 0 ∨ n = 1 := by omega
    rcases inside with rfl | rfl
    · exact ⟨fun _ => by decide, fun _ => by decide⟩
    · exact ⟨fun _ => by decide, fun _ => by decide⟩
  · exact ⟨fun here => absurd (stop (.inl here)) mark, fun here => absurd (stop (.inr here)) mark⟩
  · exact absurd (stop (.inr (before 2 behind))) mark

/-- On it the three functions stay in range: for a name that is not there, an index behind the entries, and bytes on
    both sides of the border of the clusters. -/
theorem inRange_iff_chained :
    FindInRange chained 2 [0x63] ∧ IndexInRange chained 2 5 ∧ ReadInRange chained 2 510 4 := by
  obtain ⟨find, index, -, read⟩ := inRange_iff chained 2
  refine ⟨(find [0x63]).mpr fun _ => chained_inRange fun here => ?_,
    (index 5).mpr fun _ => chained_inRange fun here => ?_,
    (read tableBlocks 510 4 chained_backed (by decide)).mpr fun _ _ => ⟨chained_inRange fun here => ?_, ?_⟩⟩
  · exact here.elim (fun enters => enters.1) fun goes => goes.1.1
  · exact here.elim (fun enters => enters.1) fun goes => goes.1.1
  · exact here.elim False.elim fun goes => goes.2
  · intro n before _
    obtain rfl : n = 0 := by
      by_contra some_
      exact absurd (before 0 (by omega)).1 (by decide)
    rw [WantedInRange]
    simp only [Nat.zero_add]
    exact chained_inRange fun here => here.elim (fun enters => enters.2) fun goes => goes.1.2

set_option maxRecDepth 8192 in
/-- From cluster 128 a search goes on with an entry behind the table, which has 128. -/
theorem not_inRange : ¬ FindInRange single 128 [0x62] := by
  intro range
  have searched : Searched single [0x62] 128 := ⟨by decide, findInSectors_more.mp rfl⟩
  have pass := (find_unrolls single [0x62] 128).next 0 (fun _ => nofun) searched
  have less := (range rfl 0 128 .refl).2 _ pass
  exact absurd less (by decide)

end RetaOS.Fat
