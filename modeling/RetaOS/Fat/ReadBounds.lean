import RetaOS.Fat.Driver

/-!
# Reads within a file

`vfs_read` and `fat32_read` both cut the count of a read down to what is left of the file, behind the same test
`position + count > size` in 32 bits (`clamp`). The test misses the counts whose sum wraps, and `clamp_iff` says that it
misses nothing else. What a layer asks the one below for is read off the calls it makes: `vfs_read` runs over a driver
that records them, `fat32_read` over a `fat32_read_file_data` that does. So a read is bounded by the file exactly when
its end is below `2 ^ 32`, in both layers, and one that is reaches the caller through FAT32 with bytes of the file only
(`readBounded_iff`).
-/

namespace RetaOS.Fat
open Lib Vfs

/-! ## The test of both layers. -/

/-- The count of a read behind the test for the end of the file. -/
def clamp (position size count : UInt32) : UInt32 :=
  if position + count > size then size - position else count

/-- Inside of the file, the test bounds the counts whose sum does not wrap, and no others. -/
lemma clamp_iff {position size count : UInt32} (inside : position.toNat < size.toNat) :
    (clamp position size count).toNat ≤ size.toNat - position.toNat ↔ position.toNat + count.toNat < 2 ^ 32 := by
  have top := size.toNat_lt
  have short := count.toNat_lt
  have rest : (size - position).toNat = size.toNat - position.toNat := sub_toNat_of_le (by omega)
  have sum := UInt32.toNat_add position count
  rw [clamp]
  split_ifs with beyond
  · -- a sum that wraps is below the position, so this one does not
    have gt : size.toNat < (position + count).toNat := UInt32.lt_iff_toNat_lt.mp beyond
    exact ⟨fun _ => by omega, fun _ => le_of_eq rest⟩
  · have le : ¬ size.toNat < (position + count).toNat := fun gt => beyond (UInt32.lt_iff_toNat_lt.mpr gt)
    exact ⟨fun _ => by omega, fun _ => by omega⟩

/-- The test does not add to a count whose sum does not wrap. -/
lemma clamp_le {position size count : UInt32} (inside : position.toNat < size.toNat)
    (fits : position.toNat + count.toNat < 2 ^ 32) : (clamp position size count).toNat ≤ count.toNat := by
  have rest : (size - position).toNat = size.toNat - position.toNat := sub_toNat_of_le (by omega)
  have sum := toNat_add_of_lt fits
  rw [clamp]
  split_ifs with beyond
  · have gt : size.toNat < (position + count).toNat := UInt32.lt_iff_toNat_lt.mp beyond
    omega
  · exact le_rfl

/-! ## `vfs_read`. -/

section
variable {F σ : Type} {D : Driver F σ} {s : Vfs.State F σ} {fd : Int} {buf count : UInt32} {i : Nat}

/-- A driver that writes down the offset and the count of every call of a `read` callback. -/
def recording (D : Driver F σ) : Driver F (σ × List (UInt32 × UInt32)) where
  read f d n offset count :=
    let (ret, data, n, drv) := D.read f d.1 n offset count
    (ret, data, n, drv, d.2 ++ [(offset, count)])
  write f d n offset bytes :=
    let (ret, n, drv) := D.write f d.1 n offset bytes
    (ret, n, drv, d.2)
  open_ f d n flags :=
    let (ret, n, drv) := D.open_ f d.1 n flags
    (ret, n, drv, d.2)
  close f d n :=
    let (ret, n, drv) := D.close f d.1 n
    (ret, n, drv, d.2)
  readdir f d n index :=
    let (entry, n, drv) := D.readdir f d.1 n index
    (entry, n, drv, d.2)
  finddir f d n name :=
    let (ret, n, drv) := D.finddir f d.1 n name
    (ret, n, drv, d.2)
  lseek f d n offset whence :=
    let (ret, n, drv) := D.lseek f d.1 n offset whence
    (ret, n, drv, d.2)

/-- A state with the calls written down so far. -/
def recorded (s : Vfs.State F σ) (calls : List (UInt32 × UInt32)) : Vfs.State F (σ × List (UInt32 × UInt32)) :=
  ⟨s.nodes, s.buffers, s.oom, s.calls, s.vfsRoot, s.openFiles, (s.drv, calls)⟩

/-- The calls of `read` callbacks that a `vfs_read` makes, by their offset and count. -/
def vfsRequests (D : Driver F σ) (s : Vfs.State F σ) (fd : Int) (buf count : UInt32) : List (UInt32 × UInt32) :=
  (vfsRead (recording D) (recorded s []) fd buf count).2.2.drv.2

/-- Writing the calls down changes nothing else. -/
lemma vfsRead_recording (calls : List (UInt32 × UInt32)) : ∃ calls',
    vfsRead (recording D) (recorded s calls) fd buf count =
      ((vfsRead D s fd buf count).1, (vfsRead D s fd buf count).2.1,
       recorded (vfsRead D s fd buf count).2.2 calls') := by
  have same : openFile (recorded s calls) fd = openFile s fd := rfl
  simp only [vfsRead, same]
  cases openFile s fd with
  | none => exact ⟨calls, rfl⟩
  | some i =>
    have node : (recorded s calls).openFiles i = s.openFiles i := rfl
    simp only [node]
    split_ifs
    · exact ⟨calls, rfl⟩
    · exact ⟨calls, rfl⟩
    · exact ⟨calls, rfl⟩
    · exact ⟨calls, rfl⟩
    · cases (s.openFiles i).read with
      | some f => exact ⟨calls ++ _, rfl⟩
      | none =>
        cases (s.openFiles i).data with
        | some p => exact ⟨calls, rfl⟩
        | none => exact ⟨calls, rfl⟩
    · cases (s.openFiles i).read with
      | some f => exact ⟨calls ++ _, rfl⟩
      | none =>
        cases (s.openFiles i).data with
        | some p => exact ⟨calls, rfl⟩
        | none => exact ⟨calls, rfl⟩

/-- Where `vfs_read` asks the `read` callback for data, or copies them from, and how many bytes. -/
def vfsTransfer (s : Vfs.State F σ) (fd : Int) (buf count : UInt32) : Option (UInt32 × UInt32) :=
  match openFile s fd with
  | none => none
  | some i =>
    let node := s.openFiles i
    if buf = 0 ∨ node.flags &&& FT_DIR ≠ 0 ∨ (node.read.isNone ∧ node.data.isNone) ∨ node.position ≥ node.size then none
    else some (node.position, clamp node.position node.size count)

/-- A transfer starts inside of a file that is open, with the count that the test leaves. -/
lemma vfsTransfer_some {o k : UInt32} (h : vfsTransfer s fd buf count = some (o, k)) :
    ∃ i, openFile s fd = some i ∧ o = (s.openFiles i).position ∧ o.toNat < (s.openFiles i).size.toNat ∧
      k = clamp o (s.openFiles i).size count ∧ ¬ ((s.openFiles i).read = none ∧ (s.openFiles i).data = none) := by
  rw [vfsTransfer] at h
  cases open_ : openFile s fd with
  | none => simp [open_] at h
  | some i =>
    simp only [open_] at h
    split_ifs at h with refused
    cases h
    refine ⟨i, rfl, rfl, ?_, rfl, ?_⟩
    · by_contra past
      exact refused (.inr (.inr (.inr (UInt32.le_iff_toNat_le.mpr (Nat.le_of_not_lt past)))))
    · rintro ⟨callback, data⟩
      exact refused (.inr (.inr (.inl (by simp [callback, data]))))

/-- Without a transfer nothing is read, and nothing changes. -/
lemma vfsRead_none (h : vfsTransfer s fd buf count = none) : (vfsRead D s fd buf count).2 = ([], s) := by
  rw [vfsTransfer] at h
  cases open_ : openFile s fd with
  | none => simp [vfsRead, open_]
  | some i =>
    simp only [open_] at h
    split_ifs at h with refused
    simp only [vfsRead, open_]
    rcases refused with null | dir | source | past
    · rw [if_pos null]
    · rw [if_pos dir]
      split_ifs <;> rfl
    · rw [if_pos source]
      split_ifs <;> rfl
    · rw [if_pos past]
      split_ifs <;> rfl

/-- A transfer asks the callback for its count at its offset, or copies that part of the data. -/
lemma vfsRead_some {o k : UInt32} (h : vfsTransfer s fd buf count = some (o, k)) (open_ : openFile s fd = some i) :
    (∀ f, (s.openFiles i).read = some f →
      (vfsRead D s fd buf count).1 = (D.read f s.drv (s.openFiles i) o k).1 ∧
        (vfsRead D s fd buf count).2.1 = (D.read f s.drv (s.openFiles i) o k).2.1 ∧
        (vfsRead D s fd buf count).2.2.drv = (D.read f s.drv (s.openFiles i) o k).2.2.2) ∧
    ∀ p, (s.openFiles i).read = none → (s.openFiles i).data = some p →
      (vfsRead D s fd buf count).1 = k.toInt32.toInt ∧
        (vfsRead D s fd buf count).2.1 = ((s.buffers p).drop o.toNat).take k.toNat ∧
        (vfsRead D s fd buf count).2.2.drv = s.drv := by
  rw [vfsTransfer] at h
  simp only [open_] at h
  split_ifs at h with allowed
  cases h
  obtain ⟨buffer, regular, source, inside⟩ : buf ≠ 0 ∧ ¬ (s.openFiles i).flags &&& FT_DIR ≠ 0 ∧
      ¬ ((s.openFiles i).read.isNone ∧ (s.openFiles i).data.isNone) ∧
      ¬ (s.openFiles i).position ≥ (s.openFiles i).size := by
    simpa only [not_or] using allowed
  refine ⟨fun f callback => ?_, fun p callback data => ?_⟩
  · simp only [vfsRead, open_]
    rw [if_neg buffer, if_neg regular, if_neg source, if_neg inside, callback]
    exact ⟨rfl, rfl, rfl⟩
  · simp only [vfsRead, open_]
    rw [if_neg buffer, if_neg regular, if_neg source, if_neg inside, callback, data]
    exact ⟨rfl, rfl, rfl⟩

/-- A transfer from a callback is one call of it, and there are no others. -/
lemma vfsRequests_eq (open_ : openFile s fd = some i) : vfsRequests D s fd buf count =
    if (s.openFiles i).read.isSome then (vfsTransfer s fd buf count).toList else [] := by
  have same : vfsTransfer (recorded s []) fd buf count = vfsTransfer s fd buf count := rfl
  have open' : openFile (recorded s []) fd = some i := open_
  rw [vfsRequests]
  cases transfer : vfsTransfer s fd buf count with
  | none =>
    rw [vfsRead_none (same.trans transfer)]
    split_ifs <;> rfl
  | some ok =>
    obtain ⟨o, k⟩ := ok
    have read := vfsRead_some (D := recording D) (same.trans transfer) open'
    cases callback : (s.openFiles i).read with
    | some f =>
      rw [(read.1 f callback).2.2]
      rfl
    | none =>
      obtain ⟨j, open'', -, -, -, source⟩ := vfsTransfer_some transfer
      obtain rfl : i = j := Option.some.inj (open_.symm.trans open'')
      cases data : (s.openFiles i).data with
      | none => exact absurd ⟨callback, data⟩ source
      | some p =>
        rw [(read.2 p callback data).2.2]
        rfl

/-- `vfs_read` asks a callback for no more than what is left of the file, and copies no byte from behind the end of a
    file in memory, whatever stands there. -/
def VfsBounded (D : Driver F σ) (s : Vfs.State F σ) (fd : Int) (buf count : UInt32) : Prop :=
  ∀ i, openFile s fd = some i →
    (∀ r ∈ vfsRequests D s fd buf count, r.1 = (s.openFiles i).position ∧
      r.2.toNat ≤ (s.openFiles i).size.toNat - (s.openFiles i).position.toNat) ∧
    ((s.openFiles i).read = none → ∀ buffers, (vfsRead D { s with buffers } fd buf count).2.1.length ≤
      (s.openFiles i).size.toNat - (s.openFiles i).position.toNat)

/-- A read of a regular file from before its end ends below `2 ^ 32`. -/
def VfsFits (s : Vfs.State F σ) (fd : Int) (buf count : UInt32) : Prop :=
  ∀ i, openFile s fd = some i → buf ≠ 0 → (s.openFiles i).flags &&& FT_DIR = 0 →
    ((s.openFiles i).read.isSome ∨ (s.openFiles i).data.isSome) → (s.openFiles i).position < (s.openFiles i).size →
    (s.openFiles i).position.toNat + count.toNat < 2 ^ 32

/-- Exactly these reads transfer anything. -/
lemma vfsFits_iff : VfsFits s fd buf count ↔ ∀ i, openFile s fd = some i → vfsTransfer s fd buf count ≠ none →
    (s.openFiles i).position.toNat + count.toNat < 2 ^ 32 := by
  refine forall₂_congr fun i open_ => ?_
  simp only [vfsTransfer, open_]
  split_ifs with refused
  · constructor
    · exact fun _ none => absurd rfl none
    · intro _ buffer regular source inside
      rcases refused with null | dir | ⟨callback, data⟩ | past
      · exact absurd null buffer
      · exact absurd regular dir
      · simp [Option.isNone_iff_eq_none.mp callback, Option.isNone_iff_eq_none.mp data] at source
      · exact absurd inside (UInt32.not_lt.mpr past)
  · obtain ⟨buffer, regular, source, inside⟩ := by simpa only [not_or] using refused
    constructor
    · intro fits _
      refine fits buffer (not_not.mp regular) ?_ (UInt32.not_le.mp inside)
      by_contra none
      exact source (by simpa using none)
    · exact fun fits _ _ _ _ => fits nofun

/-- Every transfer is seen: in a call of the callback, or in the bytes behind the file. -/
lemma transfer_bounded {o k : UInt32} (bounded : VfsBounded D s fd buf count) (open_ : openFile s fd = some i)
    (transfer : vfsTransfer s fd buf count = some (o, k)) :
    k.toNat ≤ (s.openFiles i).size.toNat - (s.openFiles i).position.toNat := by
  obtain ⟨requests, copies⟩ := bounded i open_
  obtain ⟨j, open', rfl, inside, -, source⟩ := vfsTransfer_some transfer
  obtain rfl : i = j := Option.some.inj (open_.symm.trans open')
  cases callback : (s.openFiles i).read with
  | some f =>
    refine (requests ((s.openFiles i).position, k) ?_).2
    rw [vfsRequests_eq open_, callback, transfer]
    exact List.mem_singleton.mpr rfl
  | none =>
    cases data : (s.openFiles i).data with
    | none => exact absurd ⟨callback, data⟩ source
    | some p =>
      -- with all of the address space behind the file, the copy is as long as it is asked to be
      have same : vfsTransfer { s with buffers := fun _ => List.replicate (2 ^ 32) 0 } fd buf count = _ := transfer
      have all := copies callback fun _ => List.replicate (2 ^ 32) 0
      rw [((vfsRead_some same open_).2 p callback data).2.1, List.length_take, List.length_drop,
        List.length_replicate] at all
      have top := (s.openFiles i).size.toNat_lt
      omega

lemma vfsBounded_iff : VfsBounded D s fd buf count ↔ VfsFits s fd buf count := by
  rw [vfsFits_iff]
  constructor
  · intro bounded i open_ some_
    obtain ⟨⟨o, k⟩, transfer⟩ := Option.ne_none_iff_exists'.mp some_
    have le := transfer_bounded bounded open_ transfer
    obtain ⟨i', open', rfl, inside, rfl, -⟩ := vfsTransfer_some transfer
    obtain rfl : i = i' := Option.some.inj (open_.symm.trans open')
    exact (clamp_iff inside).mp le
  · intro fits i open_
    have le : ∀ o k, vfsTransfer s fd buf count = some (o, k) → o = (s.openFiles i).position ∧
        k.toNat ≤ (s.openFiles i).size.toNat - (s.openFiles i).position.toNat := by
      intro o k transfer
      obtain ⟨i', open', rfl, inside, rfl, -⟩ := vfsTransfer_some transfer
      obtain rfl : i = i' := Option.some.inj (open_.symm.trans open')
      exact ⟨rfl, (clamp_iff inside).mpr (fits i open_ (by simp [transfer]))⟩
    refine ⟨fun r asked => ?_, fun callback buffers => ?_⟩
    · rw [vfsRequests_eq open_] at asked
      split_ifs at asked
      · exact le r.1 r.2 (Option.mem_toList.mp asked)
      · cases asked
    · have same : vfsTransfer { s with buffers } fd buf count = vfsTransfer s fd buf count := rfl
      cases transfer : vfsTransfer s fd buf count with
      | none => simp [vfsRead_none (same.trans transfer)]
      | some ok =>
        obtain ⟨o, k⟩ := ok
        obtain ⟨i', open', rfl, inside, -, source⟩ := vfsTransfer_some transfer
        obtain rfl : i = i' := Option.some.inj (open_.symm.trans open')
        cases data : (s.openFiles i).data with
        | none => exact absurd ⟨callback, data⟩ source
        | some p =>
          rw [((vfsRead_some (D := D) (same.trans transfer) open_).2 p callback data).2.1, List.length_take]
          exact (Nat.min_le_left _ _).trans (le _ _ transfer).2

end

/-! ## `fat32_read`. -/

variable {v v' : Volume} {n : Node} {offset size : UInt32} {ret : Int} {data : List UInt8}

/-- `fat32_read_file_data`, with the offset and the size of the call written down. -/
def recordedReadFileData (v : Volume) (firstCluster offset size : UInt32) :
    OptionT (StateM (List (UInt32 × UInt32))) (Int × List UInt8 × Volume) :=
  OptionT.mk fun calls => (fat32ReadFileData v firstCluster offset size, calls ++ [(offset, size)])

/-- The calls of `fat32_read_file_data` that a `fat32_read` makes, by their offset and size. -/
def fatRequests (v : Volume) (n : Node) (offset size : UInt32) : List (UInt32 × UInt32) :=
  ((fat32ReadBy recordedReadFileData v n offset size).run []).2

/-- What follows a call leaves what is written down as it is, unless it calls again. -/
lemma recordedReadFileData_bind {α : Type} (v : Volume) (first offset size : UInt32)
    (next : Int × List UInt8 × Volume → OptionT (StateM (List (UInt32 × UInt32))) α)
    (silent : ∀ r calls, ∃ a, (next r).run calls = (a, calls)) (calls : List (UInt32 × UInt32)) :
    ∃ a, (recordedReadFileData v first offset size >>= next).run calls = (a, calls ++ [(offset, size)]) := by
  have step : (recordedReadFileData v first offset size >>= next).run calls =
      match fat32ReadFileData v first offset size with
      | none => (none, calls ++ [(offset, size)])
      | some r => (next r).run (calls ++ [(offset, size)]) := by
    change ((recordedReadFileData v first offset size).bind next) calls = _
    rw [recordedReadFileData]
    cases fat32ReadFileData v first offset size with
    | none => rfl
    | some r => rfl
  rw [step]
  cases fat32ReadFileData v first offset size with
  | none => exact ⟨none, rfl⟩
  | some r => exact silent r _

/-- Where `fat32_read` asks `fat32_read_file_data` for data, and for how many bytes. -/
def fat32Request (v : Volume) (n : Node) (offset size : UInt32) : Option (UInt32 × UInt32) :=
  match n.priv with
  | none => none
  | some p =>
    let priv := UInt32.ofNat p
    if privIsDir v.heap.mem priv ≠ 0 ∨ offset ≥ privSize v.heap.mem priv then none
    else some (offset, clamp offset (privSize v.heap.mem priv) size)

/-- Without a request nothing is called and nothing is read. -/
lemma fat32ReadBy_none (h : fat32Request v n offset size = none) : ∃ ret, ∀ {m : Type → Type} [Monad m]
    (read : Volume → UInt32 → UInt32 → UInt32 → m (Int × List UInt8 × Volume)),
    fat32ReadBy read v n offset size = pure ((ret, []), v) := by
  rw [fat32Request] at h
  cases priv : n.priv with
  | none => exact ⟨-EINVAL, fun read => by rw [fat32ReadBy, priv]⟩
  | some p =>
    simp only [priv] at h
    split_ifs at h with refused
    by_cases dir : privIsDir v.heap.mem (UInt32.ofNat p) ≠ 0
    · exact ⟨-EISDIR, fun read => by simp only [fat32ReadBy, priv, if_pos dir]⟩
    · have past := refused.resolve_left dir
      exact ⟨0, fun read => by simp only [fat32ReadBy, priv, if_neg dir, if_pos past]⟩

/-- A request is for a part of the file from inside of it on. -/
lemma fat32Request_some {o k : UInt32} (h : fat32Request v n offset size = some (o, k)) : ∃ p, n.priv = some p ∧
    o = offset ∧ o.toNat < (privSize v.heap.mem (UInt32.ofNat p)).toNat ∧
    privIsDir v.heap.mem (UInt32.ofNat p) = 0 ∧ k = clamp o (privSize v.heap.mem (UInt32.ofNat p)) size := by
  rw [fat32Request] at h
  cases priv : n.priv with
  | none => simp [priv] at h
  | some p =>
    simp only [priv] at h
    split_ifs at h with refused
    cases h
    obtain ⟨regular, inside⟩ := not_or.mp refused
    exact ⟨p, rfl, rfl, Nat.lt_of_not_le fun le => inside (UInt32.le_iff_toNat_le.mpr le), not_not.mp regular, rfl⟩

/-- The data of a request are what is read. -/
lemma fat32Read_some {o k : UInt32} {p : Nat} (h : fat32Request v n offset size = some (o, k))
    (priv : n.priv = some p) :
    (fat32Read v n offset size).map Prod.fst =
      (fat32ReadFileData v (privCluster v.heap.mem (UInt32.ofNat p)) o k).map fun r => (r.1, r.2.1) := by
  simp only [fat32Request, priv] at h
  split_ifs at h with refused
  cases h
  obtain ⟨regular, inside⟩ := not_or.mp refused
  simp only [fat32Read, fat32ReadBy, priv, if_neg regular, if_neg inside]
  rw [← clamp]
  cases fat32ReadFileData v (privCluster v.heap.mem (UInt32.ofNat p)) offset
    (clamp offset (privSize v.heap.mem (UInt32.ofNat p)) size) with
  | none => rfl
  | some r =>
    simp only [Option.bind_eq_bind, Option.bind_some, Option.map_some]
    split_ifs
    · rfl
    · rfl

/-- A request is one call, and there are no others. -/
lemma fatRequests_eq : fatRequests v n offset size = (fat32Request v n offset size).toList := by
  rw [fatRequests]
  cases request : fat32Request v n offset size with
  | none =>
    obtain ⟨ret, same⟩ := fat32ReadBy_none request
    rw [same]
    rfl
  | some ok =>
    obtain ⟨o, k⟩ := ok
    obtain ⟨p, priv, rfl, inside, regular, rfl⟩ := fat32Request_some request
    have before : ¬ o ≥ privSize v.heap.mem (UInt32.ofNat p) := fun past =>
      absurd (UInt32.le_iff_toNat_le.mp past) (by omega)
    simp only [fat32ReadBy, priv, if_neg (not_not.mpr regular), if_neg before]
    rw [← clamp]
    obtain ⟨r, same⟩ := recordedReadFileData_bind v (privCluster v.heap.mem (UInt32.ofNat p)) o
      (clamp o (privSize v.heap.mem (UInt32.ofNat p)) size) (fun r => if r.1 < 0 then pure ((r.1, r.2.1), r.2.2)
        else pure ((r.1, r.2.1), r.2.2.setMem (setPrivPos r.2.2.heap.mem (UInt32.ofNat p) (o + UInt32.ofInt r.1))))
      (fun r calls => by split_ifs <;> exact ⟨_, rfl⟩) []
    exact congrArg Prod.snd same

/-- The loop over the clusters copies no more than it is asked for. -/
lemma readBody_data {buf : UInt32} {r : ReadData} {result : ReadData × Bool} (bound : Nat)
    (run : loop (readBody v buf) r = some result) (start : r.data.length + r.bytesRemaining.toNat ≤ bound) :
    result.1.data.length ≤ bound := by
  refine loop_rule (I := fun r => r.data.length + r.bytesRemaining.toNat ≤ bound)
    (Q := fun r => r.1.data.length ≤ bound) (fun r inv => ?_) start run
  rw [readBody]
  split_ifs with more
  · dsimp only
    split_ifs with ok room
    · refine .next ?_
      simp only [List.length_append, Memory.loadBytes_length, UInt32.sub_self, UInt32.toNat_zero]
      omega
    · refine .next ?_
      have le := UInt32.le_iff_toNat_le.mp (UInt32.not_lt.mp room)
      simp only [List.length_append, Memory.loadBytes_length]
      rw [sub_toNat_of_le le]
      omega
    · refine .done ?_
      show r.data.length ≤ bound
      omega
  · refine .done ?_
    show r.data.length ≤ bound
    omega

/-- `fat32_read_file_data` copies no more than it is asked for. -/
lemma fat32ReadFileData_length {first : UInt32} (run : fat32ReadFileData v first offset size = some (ret, data, v')) :
    data.length ≤ size.toNat := by
  rw [fat32ReadFileData] at run
  split_ifs at run with init zero
  · cases run
    exact Nat.zero_le _
  · cases run
    exact Nat.zero_le _
  · cases alloc : Kheap.kmalloc v.heap (bytesPerCluster v) with
    | none => simp [alloc] at run
    | some result =>
      obtain ⟨buf, heap⟩ := result
      simp only [alloc] at run
      split_ifs at run with null
      · cases run
        exact Nat.zero_le _
      · rw [readClusters] at run
        cases skip : loop (skipBody { v with heap } offset) (first, 0) with
        | none => simp [skip] at run
        | some at_ =>
          obtain ⟨cluster, skipped⟩ := at_
          simp only [skip] at run
          cases read : loop (readBody { v with heap } buf) ⟨heap.mem, [], 0, size, cluster, offset - skipped⟩ with
          | none => simp [read] at run
          | some result =>
            obtain ⟨r, ok⟩ := result
            simp only [read] at run
            have short := readBody_data size.toNat read (by simp)
            cases free : Kheap.kfree { heap with mem := r.mem } buf with
            | none => simp [free] at run
            | some heap =>
              simp only [free] at run
              cases run
              exact short

/-- `fat32_read` asks for no more than what is left of the file by its record, and reads no more. -/
def FatBounded (v : Volume) (n : Node) (offset size : UInt32) : Prop :=
  ∀ p, n.priv = some p →
    (∀ r ∈ fatRequests v n offset size,
      r.1 = offset ∧ r.2.toNat ≤ (privSize v.heap.mem (UInt32.ofNat p)).toNat - offset.toNat) ∧
    ∀ ret data v', fat32Read v n offset size = some ((ret, data), v') →
      data.length ≤ (privSize v.heap.mem (UInt32.ofNat p)).toNat - offset.toNat

/-- A read of a regular file from before its end ends below `2 ^ 32`. -/
def FatFits (v : Volume) (n : Node) (offset size : UInt32) : Prop :=
  ∀ p, n.priv = some p → privIsDir v.heap.mem (UInt32.ofNat p) = 0 → offset < privSize v.heap.mem (UInt32.ofNat p) →
    offset.toNat + size.toNat < 2 ^ 32

/-- Exactly these reads ask for anything. -/
lemma fatFits_iff :
    FatFits v n offset size ↔ (fat32Request v n offset size ≠ none → offset.toNat + size.toNat < 2 ^ 32) := by
  rw [FatFits, fat32Request]
  cases n.priv with
  | none => simp
  | some p =>
    simp only
    constructor
    · intro fits some_
      split_ifs at some_ with refused
      · exact absurd rfl some_
      · obtain ⟨regular, inside⟩ := not_or.mp refused
        exact fits p rfl (not_not.mp regular) (UInt32.not_le.mp inside)
    · intro fits q eq regular inside
      cases eq
      refine fits ?_
      rw [if_neg (not_or.mpr ⟨not_not.mpr regular, UInt32.not_le.mpr inside⟩)]
      nofun

lemma fatBounded_iff : FatBounded v n offset size ↔ FatFits v n offset size := by
  rw [fatFits_iff]
  constructor
  · intro bounded some_
    obtain ⟨⟨o, k⟩, request⟩ := Option.ne_none_iff_exists'.mp some_
    obtain ⟨p, priv, rfl, inside, -, rfl⟩ := fat32Request_some request
    refine (clamp_iff inside).mp ((bounded p priv).1 (o, _) ?_).2
    rw [fatRequests_eq, request]
    exact List.mem_singleton.mpr rfl
  · intro fits p priv
    have le : ∀ o k, fat32Request v n offset size = some (o, k) →
        o = offset ∧ k.toNat ≤ (privSize v.heap.mem (UInt32.ofNat p)).toNat - offset.toNat := by
      intro o k request
      obtain ⟨p', priv', rfl, inside, -, rfl⟩ := fat32Request_some request
      obtain rfl : p = p' := Option.some.inj (priv.symm.trans priv')
      exact ⟨rfl, (clamp_iff inside).mpr (fits (by simp [request]))⟩
    refine ⟨fun r asked => ?_, fun ret data v' run => ?_⟩
    · rw [fatRequests_eq] at asked
      exact le r.1 r.2 (Option.mem_toList.mp asked)
    · cases request : fat32Request v n offset size with
      | none =>
        obtain ⟨ret', same⟩ := fat32ReadBy_none request
        rw [fat32Read, same] at run
        cases run
        exact Nat.zero_le _
      | some ok =>
        obtain ⟨o, k⟩ := ok
        have same := fat32Read_some request priv
        rw [run, Option.map_some, eq_comm, Option.map_eq_some_iff] at same
        obtain ⟨⟨ret', data', v''⟩, read, eq⟩ := same
        cases eq
        exact (fat32ReadFileData_length read).trans (le o k request).2

/-! ## Both layers. -/

/-- Through `vfs_read` a file of a FAT32 volume gives no byte from behind its recorded size. -/
def Delivers (s : State) (fd : Int) (buf count : UInt32) : Prop :=
  ∀ i p, openFile s fd = some i → (s.openFiles i).read = some .fat32Read → (s.openFiles i).priv = some p →
    (vfsRead fat32Driver s fd buf count).2.1.length ≤
      (privSize s.drv.volume.heap.mem (UInt32.ofNat p)).toNat - (s.openFiles i).position.toNat

lemma delivers {s : State} {fd : Int} {buf count : UInt32} (fits : VfsFits s fd buf count) :
    Delivers s fd buf count := by
  intro i p open_ callback priv
  cases transfer : vfsTransfer s fd buf count with
  | none => simp [vfsRead_none transfer]
  | some ok =>
    obtain ⟨o, k⟩ := ok
    obtain ⟨i', open', rfl, inside, rfl, -⟩ := vfsTransfer_some transfer
    obtain rfl : i = i' := Option.some.inj (open_.symm.trans open')
    have below := vfsFits_iff.mp fits i open_ (by simp [transfer])
    have le := clamp_le inside below
    rw [((vfsRead_some (D := fat32Driver) transfer open_).1 _ callback).2.1]
    have bounded := (fatBounded_iff (v := s.drv.volume) (n := s.openFiles i)).mpr (fun _ _ _ _ =>
      show (s.openFiles i).position.toNat + (clamp (s.openFiles i).position (s.openFiles i).size count).toNat < 2 ^ 32
        by omega)
    have bounds := (bounded p priv).2
    simp only [fat32Driver]
    cases read : fat32Read s.drv.volume (s.openFiles i) (s.openFiles i).position
      (clamp (s.openFiles i).position (s.openFiles i).size count) with
    | none => exact Nat.zero_le _
    | some result =>
      obtain ⟨⟨ret, data⟩, v'⟩ := result
      exact bounds ret data v' read

/-- Both layers bound a read exactly when its end is below `2 ^ 32`, and then FAT32 files are read within their size. -/
theorem readBounded_iff (D : Driver F σ) (s : Vfs.State F σ) (k : State) (fd : Int) (buf count : UInt32) (v : Volume)
    (n : Node) (offset size : UInt32) :
    (VfsBounded D s fd buf count ↔ VfsFits s fd buf count) ∧ (FatBounded v n offset size ↔ FatFits v n offset size) ∧
      (VfsFits k fd buf count → Delivers k fd buf count) :=
  ⟨vfsBounded_iff, fatBounded_iff, delivers⟩

/-- An open file of two bytes in a buffer of four, read up to its first byte. -/
def twoBytes : State where
  nodes _ := none
  buffers _ := [0x61, 0x62, 0x63, 0x64]
  oom _ := false
  calls := 0
  vfsRoot := .zero
  openFiles _ := { Node.zero with name := [0x61], flags := S_IFREG, size := 2, data := some 0, position := 1 }
  drv := ⟨⟨fun _ => none, ⟨fun _ => 0, 0, 0, 0, 0, false⟩, bootSector [], 0, 0, 0, 0, false⟩, 0, 0, false⟩

/-- The record of a regular file of two bytes. -/
def twoByteRecord : Volume :=
  twoBytes.drv.volume.setMem (setPriv (fun _ => 0) 0xC000000C 3 2 false)

/-- A count whose sum with the position wraps is not cut in either layer, and bytes from behind the file are copied. -/
theorem not_readBounded : ¬ VfsBounded fat32Driver twoBytes 0 0x1000 0xFFFFFFFF ∧
    (vfsRead fat32Driver twoBytes 0 0x1000 0xFFFFFFFF).2.1 = [0x62, 0x63, 0x64] ∧
    ¬ FatBounded twoByteRecord (fatNode [0x61] 2 false 0xC000000C) 1 0xFFFFFFFF := by
  refine ⟨?_, by decide, ?_⟩
  · rw [vfsBounded_iff]
    intro fits
    exact absurd (fits 0 rfl (by decide) (by decide) (by decide) (by decide)) (by decide)
  · rw [fatBounded_iff]
    intro fits
    exact absurd (fits 0xC000000C rfl (by decide) (by decide)) (by decide)

end RetaOS.Fat
