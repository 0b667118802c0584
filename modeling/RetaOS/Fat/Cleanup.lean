import RetaOS.Fat.InitSafety

/-!
# Ownership of the table

Who owns the buffer that `g_fat` points to, over sequences of `fat32_init` and `fat32_cleanup` calls on disks that may
fail at any sector. `Events` are what a call gets from `kmalloc` and gives to `kfree`, and the log of a run is all of
them. Nothing is assumed of the heap: a table that overruns its buffer may have destroyed it.
-/

namespace RetaOS.Fat
open Lib Kheap

variable {v w : Volume} {disk : Disk} {bps : UInt16} {p r : UInt32} {h : Heap} {m : Memory} {ok : Bool} {ret : Int}
  {log : List TableEvent} {s : LoadFat}

/-! ## Calls. -/

/-- A call of `fat32_init`, with the sectors that it can read, or of `fat32_cleanup`. -/
inductive TableCall where
  | init (disk : Disk)
  | cleanup

/-- The volume behind a call, `none` for one that does not return. -/
def TableCall.exec : TableCall → Volume → Option Volume
  | .init disk, v => (fat32Init { v with disk }).map (·.2)
  | .cleanup, v => fat32Cleanup v

/-- A buffer for the table that `kmalloc` returned, or one that `kfree` was called with. -/
inductive TableEvent where
  | got (p : UInt32)
  | freed (p : UInt32)
deriving DecidableEq

/-- The events of the part of `fat32_init` behind the checks of the boot sector. -/
def loadEvents (v : Volume) : List TableEvent :=
  match kmalloc v.heap (fatSize v) with
  | none => []
  | some (gFat, heap) =>
    if gFat = 0 then []
    else
      match loop (loadBody v.disk v.gBootSector.bytesPerSector)
        ⟨heap.mem, v.gBootSector.fatSize32, v.gFatBeginLba, gFat⟩ with
      | some (_, false) => [.got gFat, .freed gFat]
      | _ => [.got gFat]

/-- The events of `fat32_init`. -/
def initEvents (v : Volume) : List TableEvent :=
  if v.gInitialized then []
  else
    match readSectors v.disk 0 1 with
    | (_, false) => []
    | (bytes, true) =>
      if Signed (bootSector bytes) ∧ (bootSector bytes).sectorsPerCluster ≠ 0 then
        loadEvents (located v (bootSector bytes))
      else []

/-- The events of a call. -/
def TableCall.events : TableCall → Volume → List TableEvent
  | .init disk, v => initEvents { v with disk }
  | .cleanup, v => if v.gFat = 0 then [] else [.freed v.gFat]

/-! ## What the calls should keep. -/

/-- At no point of a log a buffer has been freed more often than it was returned by `kmalloc`. -/
def FreedOnce (log : List TableEvent) : Prop := ∀ l, l <+: log → ∀ p, l.count (.freed p) ≤ l.count (.got p)

/-- What should hold after a call, with the log before it. -/
structure TableOwned (log : List TableEvent) (c : TableCall) (v w : Volume) : Prop where
  pointer : w.gFat ≠ 0 ↔ w.gInitialized = true
  once : FreedOnce (log ++ c.events v)
  gone : ∀ p, .freed p ∈ c.events v → w.gFat ≠ p

/-- It holds after every call of a sequence that returns. -/
def OwnedThroughout : List TableEvent → Volume → List TableCall → Prop
  | _, _, [] => True
  | log, v, c :: cs => ∀ w, c.exec v = some w → TableOwned log c v w ∧ OwnedThroughout (log ++ c.events v) w cs

/-- `fat32_init` gets a buffer for the table, and then fails to read one of the sectors of the table. -/
def BreaksOff (v : Volume) : Prop :=
  v.gInitialized = false ∧ ∃ boot, v.disk 0 = some boot ∧ Signed (bootSector boot.bytes) ∧
    (bootSector boot.bytes).sectorsPerCluster ≠ 0 ∧
    (∃ p h, kmalloc v.heap (tableSize (bootSector boot.bytes)) = some (p, h) ∧ p ≠ 0) ∧
    ¬ Readable v.disk (bootSector boot.bytes).reservedSectorCount.toUInt32 (bootSector boot.bytes).fatSize32.toNat

/-- A call that breaks off in that way. -/
def TableCall.BreaksOff : TableCall → Volume → Prop
  | .init disk, v => Fat.BreaksOff { v with disk }
  | .cleanup, _ => False

/-- No call of a sequence that returns has broken off. -/
def LoadsThroughout : Volume → List TableCall → Prop
  | _, [] => True
  | v, c :: cs => ∀ w, c.exec v = some w → ¬ c.BreaksOff v ∧ LoadsThroughout w cs

/-! ## The load. -/

/-- The loop of `fat32_init` reads all sectors exactly when they can be read. -/
lemma load_ok (run : loop (loadBody disk bps) s = some (m, ok)) :
    ok = true ↔ Readable disk s.currentLba s.sectorsRemaining.toNat := by
  let I (t : LoadFat) : Prop := Readable disk t.currentLba t.sectorsRemaining.toNat ↔
    Readable disk s.currentLba s.sectorsRemaining.toNat
  have split (t : LoadFat) : Readable disk t.currentLba t.sectorsRemaining.toNat ↔
      Readable disk t.currentLba (chunk t).toNat ∧
        Readable disk (pastChunk disk bps t).currentLba (pastChunk disk bps t).sectorsRemaining.toNat := by
    have count := chunk_toNat t
    have rest := pastChunk_rest disk bps t
    have parts : t.sectorsRemaining.toNat = (chunk t).toNat + (pastChunk disk bps t).sectorsRemaining.toNat := by
      omega
    rw [parts, readable_add, ← chunk_word]
    rfl
  refine loop_invariant (I := I) (Q := fun res => res.2 = true ↔ _) ?_ ?_ (show I s from Iff.rfl) run
  · intro t t' inv pass
    obtain ⟨-, first, rfl⟩ := loadBody_next pass
    exact ((split t).trans (and_iff_right first)).symm.trans inv
  · intro t res inv pass
    by_cases more : 0 < t.sectorsRemaining.toNat
    · rw [loadBody_pass more] at pass
      split_ifs at pass with first
      cases pass
      refine iff_of_false nofun fun all => first ?_
      exact ((split t).mp (inv.mpr all)).1
    · rw [loadBody_end more] at pass
      cases pass
      refine iff_of_true rfl (inv.mp ?_)
      rw [Nat.eq_zero_of_not_pos more]
      rfl

/-- How a call of `fat32_init` that returns has gone: it stopped before it had a buffer, or the table is loaded into the
    buffer, or the buffer is free again and `g_fat` still points to it. -/
inductive InitCase (v w : Volume) : Prop where
  | stopped : initEvents v = [] → (w.gFat = v.gFat ∨ w.gFat = 0 ∧ v.gInitialized = false) →
      w.gInitialized = v.gInitialized → ¬ BreaksOff v → InitCase v w
  | loaded : initEvents v = [.got w.gFat] → w.gFat ≠ 0 → w.gInitialized = true → ¬ BreaksOff v → InitCase v w
  | failed : w.gFat ≠ 0 → w.gInitialized = false → BreaksOff v → InitCase v w

/-- The first sector, as the checks of the boot sector read it. -/
lemma readSectors_first (disk : Disk) : readSectors disk 0 1 = match disk 0 with
    | none => ([], false)
    | some sector => (sector.bytes, true) := by
  have low : (0 : UInt32) &&& 0x0FFFFFFF = 0 := rfl
  rw [readSectors]
  show ataRead28Lba disk 0 1 = _
  rw [ataRead28Lba, low]
  cases disk 0 with
  | none => rfl
  | some sector => simp [ataRead28Lba]

/-- How the part of `fat32_init` behind the checks has gone. -/
lemma fat32Load_case (run : fat32Load v = some (ret, w)) :
    ∃ p h, kmalloc v.heap (fatSize v) = some (p, h) ∧ w.gFat = p ∧
    (p = 0 ∧ loadEvents v = [] ∧ w.gInitialized = v.gInitialized ∨
      p ≠ 0 ∧ (loadEvents v = [.got p] ∧ w.gInitialized = true ∧
          Readable v.disk v.gFatBeginLba v.gBootSector.fatSize32.toNat ∨
        w.gInitialized = v.gInitialized ∧ ¬ Readable v.disk v.gFatBeginLba v.gBootSector.fatSize32.toNat)) := by
  rw [fat32Load] at run
  rw [loadEvents]
  dsimp only at run
  rw [← fatSize] at run
  cases alloc : kmalloc v.heap (fatSize v) with
  | none => simp [alloc] at run
  | some result =>
    obtain ⟨p, h⟩ := result
    rw [alloc] at run
    dsimp only at run
    refine ⟨p, h, rfl, ?_⟩
    by_cases null : p = 0
    · rw [if_pos null] at run
      cases run
      exact ⟨rfl, .inl ⟨null, by simp [null], rfl⟩⟩
    · rw [if_neg null] at run
      cases loaded : loop (loadBody v.disk v.gBootSector.bytesPerSector)
        ⟨h.mem, v.gBootSector.fatSize32, v.gFatBeginLba, p⟩ with
      | none => simp [loaded] at run
      | some result =>
        obtain ⟨m, ok⟩ := result
        have reads := load_ok loaded
        dsimp only at reads
        rw [loaded] at run
        cases ok with
        | true =>
          cases run
          exact ⟨rfl, .inr ⟨null, .inl ⟨by simp [null, loaded], rfl, reads.mp rfl⟩⟩⟩
        | false =>
          dsimp only at run
          cases free : kfree { h with mem := m } p with
          | none => simp [free] at run
          | some h' =>
            rw [free] at run
            cases run
            refine ⟨rfl, .inr ⟨null, .inr ⟨rfl, fun all => ?_⟩⟩⟩
            cases reads.mpr all

/-- Where a call of `fat32_init` breaks off, when its boot sector passes the checks. -/
lemma breaksOff_iff (boot : Sector) (fresh : v.gInitialized = false) (read : v.disk 0 = some boot) (alloc :
    kmalloc v.heap (tableSize (bootSector boot.bytes)) = some (p, h)) :
    BreaksOff v ↔ (Signed (bootSector boot.bytes) ∧ (bootSector boot.bytes).sectorsPerCluster ≠ 0 ∧ p ≠ 0 ∧
      ¬ Readable v.disk (bootSector boot.bytes).reservedSectorCount.toUInt32
        (bootSector boot.bytes).fatSize32.toNat) := by
  constructor
  · rintro ⟨-, boot', read', sign, spc, ⟨p', h', alloc', ne⟩, unread⟩
    cases read.symm.trans read'
    cases alloc.symm.trans alloc'
    exact ⟨sign, spc, ne, unread⟩
  · rintro ⟨sign, spc, ne, unread⟩
    exact ⟨fresh, boot, read, sign, spc, ⟨p, h, alloc, ne⟩, unread⟩

/-- How a call of `fat32_init` that returns has gone. -/
lemma fat32Init_case (run : fat32Init v = some (ret, w)) : InitCase v w := by
  by_cases init : v.gInitialized = true
  · rw [fat32Init, if_pos init] at run
    cases run
    refine .stopped (by rw [initEvents, if_pos init]) (.inl rfl) rfl fun broken => ?_
    obtain ⟨fresh, -⟩ := broken
    rw [init] at fresh
    cases fresh
  · have fresh : v.gInitialized = false := by simpa using init
    have first := readSectors_first v.disk
    have events : initEvents v = _ := if_neg init
    cases read : v.disk 0 with
    | none =>
      rw [read] at first
      rw [first] at events
      rw [fat32Init, if_neg init, first] at run
      cases run
      refine .stopped events (.inl rfl) rfl fun broken => ?_
      obtain ⟨-, boot, found, -⟩ := broken
      rw [read] at found
      cases found
    | some boot =>
      rw [read] at first
      rw [first] at events
      dsimp only at events
      by_cases sign : Signed (bootSector boot.bytes)
      · rw [fat32Init_signed fresh read sign] at run
        by_cases zero : (bootSector boot.bytes).sectorsPerCluster = 0
        · rw [if_pos zero] at run
          cases run
        · rw [if_neg zero] at run
          rw [if_pos ⟨sign, zero⟩] at events
          obtain ⟨p, h, alloc, rfl, went⟩ := fat32Load_case run
          have off := breaksOff_iff boot fresh read (p := w.gFat) (h := h) alloc
          rcases went with ⟨null, none, same⟩ | ⟨ne, ⟨got, done, reads⟩ | ⟨same, unread⟩⟩
          · refine .stopped (events.trans none) (.inr ⟨null, fresh⟩) same fun broken => ?_
            exact (off.mp broken).2.2.1 null
          · exact .loaded (events.trans got) ne done fun broken => (off.mp broken).2.2.2 reads
          · exact .failed ne (same.trans fresh) (off.mpr ⟨sign, zero, ne, unread⟩)
      · rw [if_neg fun both => sign both.1] at events
        rw [fat32Init, if_neg init, first] at run
        dsimp only at run
        rw [if_pos (show (bootSector boot.bytes).fsType.take 5 ≠ [0x46, 0x41, 0x54, 0x33, 0x32] from sign)] at run
        cases run
        refine .stopped events (.inl rfl) rfl fun broken => ?_
        obtain ⟨-, boot', read', sign', -⟩ := broken
        cases read.symm.trans read'
        exact sign sign'

/-! ## Runs. -/

/-- What a run has kept so far. -/
structure Owner (log : List TableEvent) (v : Volume) : Prop where
  pointer : v.gFat ≠ 0 ↔ v.gInitialized = true
  once : FreedOnce log
  live : v.gFat ≠ 0 → log.count (.freed v.gFat) < log.count (.got v.gFat)

/-- A log with one more event. -/
lemma FreedOnce.snoc {e : TableEvent} (once : FreedOnce log)
    (more : ∀ p, (log ++ [e]).count (.freed p) ≤ (log ++ [e]).count (.got p)) : FreedOnce (log ++ [e]) := by
  intro l before
  obtain rfl | before := List.prefix_concat_iff.mp before
  · exact more
  · exact once l before

/-- A buffer that is got. -/
lemma FreedOnce.got (once : FreedOnce log) : FreedOnce (log ++ [.got p]) := by
  refine once.snoc fun q => ?_
  have le := once log (List.prefix_refl log) q
  have other : [TableEvent.got p].count (.freed q) = 0 := List.count_eq_zero.mpr (by simp)
  rw [List.count_append, List.count_append, other]
  omega

/-- A live buffer that is freed. -/
lemma FreedOnce.freed (once : FreedOnce log) (live : log.count (.freed p) < log.count (.got p)) :
    FreedOnce (log ++ [.freed p]) := by
  refine once.snoc fun q => ?_
  rw [List.count_append, List.count_append]
  by_cases eq : q = p
  · subst eq
    have here : [TableEvent.freed q].count (.freed q) = 1 := List.count_singleton_self
    omega
  · have le := once log (List.prefix_refl log) q
    have other : [TableEvent.freed p].count (.freed q) = 0 := List.count_eq_zero.mpr (by simp [eq])
    omega

/-- What a call of `fat32_cleanup` that returns does. -/
lemma fat32Cleanup_case (run : fat32Cleanup v = some w) : w.gFat = 0 ∧ w.gInitialized = false := by
  rw [fat32Cleanup] at run
  split_ifs at run with null
  · cases run
    exact ⟨null, rfl⟩
  · cases free : kfree v.heap v.gFat with
    | none => simp [free] at run
    | some h' =>
      rw [free] at run
      cases run
      exact ⟨rfl, rfl⟩

/-- A call that does not break off keeps what the run has kept. -/
lemma Owner.call {c : TableCall} (owner : Owner log v) (run : c.exec v = some w) (whole : ¬ c.BreaksOff v) :
    Owner (log ++ c.events v) w := by
  cases c with
  | init disk =>
    obtain ⟨⟨ret, w'⟩, init, rfl⟩ := Option.map_eq_some_iff.mp run
    show Owner (log ++ initEvents { v with disk }) w'
    cases fat32Init_case init with
    | stopped none gFat same _ =>
      rw [none, List.append_nil]
      change w'.gInitialized = v.gInitialized at same
      change w'.gFat = v.gFat ∨ w'.gFat = 0 ∧ v.gInitialized = false at gFat
      rcases gFat with eq | ⟨null, fresh⟩
      · exact ⟨by rw [eq, same, owner.pointer], owner.once, by rw [eq]; exact owner.live⟩
      · exact ⟨by simp [null, same, fresh], owner.once, fun ne => absurd null ne⟩
    | loaded got ne done _ =>
      rw [got]
      refine ⟨iff_of_true ne done, owner.once.got, fun _ => ?_⟩
      have le := owner.once log (List.prefix_refl log) w'.gFat
      have here : [TableEvent.got w'.gFat].count (.got w'.gFat) = 1 := List.count_singleton_self
      have other : [TableEvent.got w'.gFat].count (.freed w'.gFat) = 0 := List.count_eq_zero.mpr (by simp)
      rw [List.count_append, List.count_append]
      omega
    | failed _ _ broken => exact absurd broken whole
  | cleanup =>
    obtain ⟨null, fresh⟩ := fat32Cleanup_case run
    have pointer : w.gFat ≠ 0 ↔ w.gInitialized = true := iff_of_false (not_not.mpr null) (by simp [fresh])
    refine ⟨pointer, ?_, fun ne => absurd null ne⟩
    rw [TableCall.events]
    split_ifs with empty
    · rw [List.append_nil]
      exact owner.once
    · exact owner.once.freed (owner.live empty)

/-- A call that does not break off leaves `g_fat` at no buffer that it frees. -/
lemma TableCall.gone {c : TableCall} (run : c.exec v = some w) (whole : ¬ c.BreaksOff v) :
    ∀ p, .freed p ∈ c.events v → w.gFat ≠ p := by
  intro p freed
  cases c with
  | init disk =>
    obtain ⟨⟨ret, w'⟩, init, rfl⟩ := Option.map_eq_some_iff.mp run
    change .freed p ∈ initEvents { v with disk } at freed
    cases fat32Init_case init with
    | stopped none _ _ _ => simp [none] at freed
    | loaded got _ _ _ => simp [got] at freed
    | failed _ _ broken => exact absurd broken whole
  | cleanup =>
    obtain ⟨null, -⟩ := fat32Cleanup_case run
    rw [TableCall.events] at freed
    split_ifs at freed with empty
    · cases freed
    · cases List.mem_singleton.mp freed
      rw [null]
      exact Ne.symm empty

/-- A call that breaks off and returns leaves `g_fat` at the buffer. -/
lemma TableCall.BreaksOff.dangling {c : TableCall} (broken : c.BreaksOff v) (run : c.exec v = some w) :
    w.gFat ≠ 0 ∧ w.gInitialized = false := by
  cases c with
  | init disk =>
    obtain ⟨⟨ret, w'⟩, init, rfl⟩ := Option.map_eq_some_iff.mp run
    cases fat32Init_case init with
    | stopped _ _ _ whole => exact absurd broken whole
    | loaded _ _ _ whole => exact absurd broken whole
    | failed ne fresh _ => exact ⟨ne, fresh⟩
  | cleanup => exact broken.elim

/-- From a volume whose run has kept it, a sequence of calls keeps ownership right exactly when none breaks off. -/
lemma Owner.throughout {cs : List TableCall} (owner : Owner log v) :
    OwnedThroughout log v cs ↔ LoadsThroughout v cs := by
  induction cs generalizing log v with
  | nil => exact Iff.rfl
  | cons c cs ih =>
    rw [OwnedThroughout, LoadsThroughout]
    refine forall_congr' fun w => forall_congr' fun run => ?_
    by_cases broken : c.BreaksOff v
    · -- the property is lost with the very call
      obtain ⟨ne, fresh⟩ := broken.dangling run
      refine iff_of_false (fun ⟨owned, _⟩ => ?_) fun ⟨whole, _⟩ => whole broken
      rw [owned.pointer.mp ne] at fresh
      cases fresh
    · have kept := owner.call run broken
      have owned : TableOwned log c v w := ⟨kept.pointer, kept.once, TableCall.gone run broken⟩
      rw [ih kept]
      exact and_congr_left fun _ => iff_of_true owned broken

/-- The static variables as the program starts with them. -/
def fresh (v : Volume) : Volume := { v with gFat := 0, gInitialized := false }

/-- In a run of `fat32_init` and `fat32_cleanup` calls ownership is right after every call exactly when no call of
    `fat32_init` breaks off while it reads the table. -/
theorem ownership_iff (v : Volume) (cs : List TableCall) :
    OwnedThroughout [] (fresh v) cs ↔ LoadsThroughout (fresh v) cs := by
  apply Owner.throughout
  refine ⟨iff_of_false (fun ne => ne rfl) nofun, fun l before p => ?_, fun ne => absurd rfl ne⟩
  rw [List.prefix_nil.mp before]
  rfl

/-- A disk with a boot sector and nothing behind it that can be read. -/
def tornDisk : Disk := fun lba => if lba = 0 then some (smallBoot 1) else none

/-- On it `fat32_init` frees the table and leaves `g_fat` at it. -/
theorem ownership_broken : ¬ OwnedThroughout [] (fresh (unmounted tornDisk)) [.init tornDisk] := by
  have sign : Signed (bootSector (smallBoot 1).bytes) := by
    rw [smallBoot_one]
    decide
  have sound : Sound (bootSector (smallBoot 1).bytes) := by
    rw [smallBoot_one]
    exact ⟨by decide, by decide, by decide, by decide⟩
  have valid : Valid (kheapInit bare) [initialBlock] := kheapInit_valid rfl
  obtain ⟨h, alloc⟩ := kmalloc_first (s := bare) (n := 512) rfl (by decide)
  obtain ⟨ret, w, load, -⟩ := sound.load (v := unmounted tornDisk) valid
  have broken : BreaksOff (unmounted tornDisk) := by
    refine (breaksOff_iff (smallBoot 1) (p := 0xC000000C) (h := h) rfl rfl ?_).mpr ⟨sign, ?_, by decide, ?_⟩
    · rw [smallBoot_one]
      exact alloc
    · rw [smallBoot_one]
      decide
    · rw [smallBoot_one]
      show ¬ (ataRead28Lba tornDisk 1 1).2 = true
      decide
  have init : fat32Init (unmounted tornDisk) = some (ret, w) := by
    rw [fat32Init_signed (v := unmounted tornDisk) rfl rfl sign, smallBoot_one]
    rw [smallBoot_one] at load
    exact load
  have run : (TableCall.init tornDisk).exec (unmounted tornDisk) = some w := by
    rw [TableCall.exec]
    exact congrArg (Option.map Prod.snd) init
  intro owned
  obtain ⟨⟨pointer, -, -⟩, -⟩ := owned w run
  obtain ⟨ne, fresh⟩ := TableCall.BreaksOff.dangling (c := .init tornDisk) (v := unmounted tornDisk) broken run
  rw [pointer.mp ne] at fresh
  cases fresh

end RetaOS.Fat
