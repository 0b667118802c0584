import RetaOS.Display.Defs
import RetaOS.Pmm.MemoryInit

/-!
# The walks over the boot information

`memory_init`, `pmm_init` and `display_init` each have a loop of their own over the tags of the boot information. All
three go from a tag to `nextTag` (`Along`) and differ in where they start and in the tags that stop them: `memory_init`
goes on to the end tag, `pmm_init` stops at the first memory map and `display_init` at the first framebuffer. So each
ends exactly when the chain of sizes that it finds reaches a tag that stops it, and on a list of tags it visits the tags
up to the first such one (`walks_end_iff`).
-/

namespace RetaOS.Display
open Lib Pmm

variable {m : Memory} {p : UInt32} {ps : List UInt32}

/-- The tags that the walk of `memory_init` does not go on from: the end tag, and a memory map with entries of size 0,
    by which it divides. -/
def ScanStops (m : Memory) (tag : UInt32) : Prop :=
  tagType m tag = MULTIBOOT_TAG_TYPE_END ∨ (tagType m tag = MULTIBOOT_TAG_TYPE_MMAP ∧ entrySize m tag = 0)

/-- The tags that the walk of `pmm_init` does not go on from. -/
def MmapStops (m : Memory) (tag : UInt32) : Prop :=
  tagType m tag = MULTIBOOT_TAG_TYPE_END ∨ tagType m tag = MULTIBOOT_TAG_TYPE_MMAP

/-- The tags that the walk of `display_init` does not go on from. -/
def FramebufferStops (m : Memory) (tag : UInt32) : Prop :=
  (tag = 0 ∨ tagType m tag = MULTIBOOT_TAG_TYPE_END) ∨ tagType m tag = MULTIBOOT_TAG_TYPE_FRAMEBUFFER

instance (m : Memory) : DecidablePred (ScanStops m) := fun _ => inferInstanceAs (Decidable (_ ∨ _))

instance (m : Memory) : DecidablePred (MmapStops m) := fun _ => inferInstanceAs (Decidable (_ ∨ _))

instance (m : Memory) : DecidablePred (FramebufferStops m) := fun _ => inferInstanceAs (Decidable (_ ∨ _))

/-- The tags of a list, and the end tag behind them. -/
def withEnd (m : Memory) (p : UInt32) (ps : List UInt32) : List UInt32 := ps ++ [(nextTag m)^[ps.length] p]

/-! ## The three walks. -/

lemma scanTag_along (m : Memory) : Along (scanTag m) Prod.fst (nextTag m) (ScanStops m) := by
  refine ⟨fun ⟨tag, info⟩ goes => ?_, fun ⟨tag, info⟩ stop => ?_⟩
  · obtain ⟨more, sized⟩ := not_or.mp goes
    rw [scanTag, if_neg more]
    split_ifs with meminfo mmap zero
    · exact ⟨_, rfl, rfl⟩
    · exact absurd ⟨mmap, zero⟩ sized
    · exact ⟨_, rfl, rfl⟩
    · exact ⟨_, rfl, rfl⟩
  · rcases stop with last | ⟨mmap, zero⟩
    · exact ⟨_, by rw [scanTag, if_pos last]⟩
    · have more : tagType m tag ≠ MULTIBOOT_TAG_TYPE_END := by
        rw [show tagType m tag = _ from mmap]
        decide
      have other : tagType m tag ≠ MULTIBOOT_TAG_TYPE_BASIC_MEMINFO := by
        rw [show tagType m tag = _ from mmap]
        decide
      exact ⟨_, by rw [scanTag, if_neg more, if_neg other, if_pos mmap, if_pos zero]⟩

lemma findMmap_along (m : Memory) : Along (findMmap m) id (nextTag m) (MmapStops m) := by
  refine ⟨fun tag goes => ?_, fun tag stop => ?_⟩
  · obtain ⟨more, other⟩ : tagType m tag ≠ _ ∧ tagType m tag ≠ _ := not_or.mp goes
    exact ⟨nextTag m tag, by rw [findMmap, if_neg more, if_neg other], rfl⟩
  · rw [findMmap]
    split_ifs with last mmap
    · exact ⟨_, rfl⟩
    · exact ⟨_, rfl⟩
    · exact absurd stop (not_or.mpr ⟨last, mmap⟩)

lemma findFramebuffer_along (m : Memory) : Along (findFramebuffer m) id (nextTag m) (FramebufferStops m) := by
  refine ⟨fun tag goes => ?_, fun tag stop => ?_⟩
  · obtain ⟨more, other⟩ : ¬ (tag = 0 ∨ tagType m tag = _) ∧ tagType m tag ≠ _ := not_or.mp goes
    exact ⟨nextTag m tag, by rw [findFramebuffer, if_neg more, if_neg other], rfl⟩
  · rw [findFramebuffer]
    split_ifs with last fb
    · exact ⟨_, rfl⟩
    · exact ⟨_, rfl⟩
    · exact absurd stop (not_or.mpr ⟨last, fb⟩)

/-! ## Lists of tags. -/

/-- A list of tags is the chain of its first tag. -/
lemma withEnd_eq (tags : TagList m p ps) : withEnd m p ps = List.iterate (nextTag m) p (ps.length + 1) := by
  induction tags with
  | nil => rfl
  | cons _ _ ih =>
    rw [withEnd] at ih ⊢
    rw [List.length_cons, List.iterate, ← ih, Function.iterate_succ_apply]
    rfl

/-- The chain of the first tag of a list reaches the end tag behind the list. -/
lemma tags_last (tags : TagList m p ps) : tagType m ((nextTag m)^[ps.length] p) = MULTIBOOT_TAG_TYPE_END := by
  induction tags with
  | nil last => exact last
  | cons _ _ ih =>
    rw [List.length_cons, Function.iterate_succ_apply]
    exact ih

/-- A walk that the end tag stops visits the tags of a list up to the first that stops it. -/
lemma tags_visits {σ α : Type*} {body : σ → Pass σ α} {pos : σ → UInt32} {stops : UInt32 → Prop} [DecidablePred stops]
    (a : Along body pos (nextTag m) stops) (tags : TagList m p ps) {s : σ} (start : pos s = p)
    (last : ∀ tag, tagType m tag = MULTIBOOT_TAG_TYPE_END → stops tag) :
    Visits body pos s (upTo stops (withEnd m p ps)) := by
  subst start
  rw [withEnd_eq tags]
  exact a.visits ⟨ps.length, le_rfl, last _ (tags_last tags)⟩

lemma scan_visits (tags : TagList m p ps) (info : BootInfo) :
    Visits (scanTag m) Prod.fst (p, info) (upTo (ScanStops m) (withEnd m p ps)) :=
  tags_visits (scanTag_along m) tags rfl fun _ last => .inl last

lemma mmap_visits (tags : TagList m p ps) : Visits (findMmap m) id p (upTo (MmapStops m) (withEnd m p ps)) :=
  tags_visits (findMmap_along m) tags rfl fun _ last => .inl last

lemma framebuffer_visits (tags : TagList m p ps) :
    Visits (findFramebuffer m) id p (upTo (FramebufferStops m) (withEnd m p ps)) :=
  tags_visits (findFramebuffer_along m) tags rfl fun _ last => .inl (.inr last)

/-- Each walk ends exactly when the chain of the tag that it starts at reaches a tag that stops it, and on a list of
    tags it visits the tags in order up to the first that does. -/
theorem walks_end_iff (m : Memory) (info mbi : UInt32) :
    (loop (scanTag m) (info + 8, ⟨0, 0, 0⟩) ≠ none ↔ ∃ n, ScanStops m ((nextTag m)^[n] (info + 8))) ∧
    (loop (findMmap m) (mbi + 88) ≠ none ↔ ∃ n, MmapStops m ((nextTag m)^[n] (mbi + 88))) ∧
    (loop (findFramebuffer m) (info + 8) ≠ none ↔ ∃ n, FramebufferStops m ((nextTag m)^[n] (info + 8))) ∧
    (∀ ps, TagList m (info + 8) ps →
      Visits (scanTag m) Prod.fst (info + 8, ⟨0, 0, 0⟩) (upTo (ScanStops m) (withEnd m (info + 8) ps)) ∧
      Visits (findFramebuffer m) id (info + 8) (upTo (FramebufferStops m) (withEnd m (info + 8) ps))) ∧
    ∀ ps, TagList m (mbi + 88) ps →
      Visits (findMmap m) id (mbi + 88) (upTo (MmapStops m) (withEnd m (mbi + 88) ps)) :=
  ⟨(scanTag_along m).ends_iff, (findMmap_along m).ends_iff, (findFramebuffer_along m).ends_iff,
    fun _ tags => ⟨scan_visits tags _, framebuffer_visits tags⟩, fun _ tags => mmap_visits tags⟩

/-- `display_init` walks only behind one of its magic numbers, and returns exactly when that walk ends. -/
theorem displayInit_returns_iff {magic mbiAddr : UInt32} : displayInit m magic mbiAddr ≠ none ↔
    (magic ≠ MB2_MAGIC_A ∧ magic ≠ MB2_MAGIC_B) ∨ ∃ n, FramebufferStops m ((nextTag m)^[n] (mbiAddr + 8)) := by
  have ends : loop (findFramebuffer m) (mbiAddr + 8) ≠ none ↔
      ∃ n, FramebufferStops m ((nextTag m)^[n] (mbiAddr + 8)) := (findFramebuffer_along m).ends_iff
  rw [← ends, displayInit]
  split_ifs with other
  · exact ⟨fun _ => .inl other, fun _ => Option.some_ne_none _⟩
  · cases loop (findFramebuffer m) (mbiAddr + 8) with
    | none => exact ⟨fun returns => absurd rfl returns, fun h => h.elim (absurd · other) fun ends => absurd rfl ends⟩
    | some found =>
      refine ⟨fun _ => .inr (Option.some_ne_none _), fun _ => ?_⟩
      cases found with
      | none => exact Option.some_ne_none _
      | some fb => exact Option.some_ne_none _

/-! ## Two blocks of boot information. -/

/-- Boot information with a tag of type 1 and size 0 at every multiple of 8. -/
def emptyTags : Memory := fun a => if a.toNat % 8 = 0 then 1 else 0

/-- Boot information with a framebuffer, a memory map without entries and an end tag, from address 8 on. -/
def threeTags : Memory := fun a =>
  if a = 8 then 8 else if a = 12 then 32 else if a = 40 then 6 else if a = 44 then 16 else if a = 48 then 24 else 0

/-- A walk that comes to a tag of size 0 which does not stop it stays there. -/
lemma walk_stuck {σ α : Type*} {body : σ → Pass σ α} {pos : σ → UInt32} {stops : UInt32 → Prop}
    (a : Along body pos (nextTag m) stops) {s : σ} (fixed : nextTag m (pos s) = pos s) (goes : ¬ stops (pos s)) :
    loop body s = none := by
  by_contra ends
  obtain ⟨n, stop⟩ := a.ends_iff.mp ends
  rw [Function.iterate_fixed fixed] at stop
  exact goes stop

/-- No walk ends on tags of size 0, and on the same list of three tags each of the three visits others. -/
theorem walks_differ :
    (loop (scanTag emptyTags) (0 + 8, ⟨0, 0, 0⟩) = none ∧ loop (findMmap emptyTags) (0 + 88) = none ∧
      loop (findFramebuffer emptyTags) (0 + 8) = none) ∧
    TagList threeTags 8 [8, 40] ∧ (∀ tag ∈ [8, 40], 8 ≤ tagSize threeTags tag) ∧
    Visits (scanTag threeTags) Prod.fst (0 + 8, ⟨0, 0, 0⟩) [8, 40, 56] ∧
    Visits (findMmap threeTags) id (4294967216 + 88) [8, 40] ∧
    Visits (findFramebuffer threeTags) id (0 + 8) [8] := by
  have tags : TagList threeTags 8 [8, 40] := by
    refine .cons (by decide) ?_
    rw [show nextTag threeTags 8 = 40 from by decide]
    refine .cons (by decide) ?_
    rw [show nextTag threeTags 40 = 56 from by decide]
    exact .nil (by decide)
  have sized : ∀ tag ∈ [8, 40], 8 ≤ tagSize threeTags tag :=
    List.forall_mem_cons.mpr ⟨by decide, List.forall_mem_singleton.mpr (by decide)⟩
  refine ⟨⟨?_, ?_, ?_⟩, tags, sized, ?_, ?_, ?_⟩
  · exact walk_stuck (scanTag_along _) (by decide) (by decide)
  · exact walk_stuck (findMmap_along _) (by decide) (by decide)
  · exact walk_stuck (findFramebuffer_along _) (by decide) (by decide)
  · have visits := scan_visits tags ⟨0, 0, 0⟩
    rwa [show upTo (ScanStops threeTags) (withEnd threeTags 8 [8, 40]) = [8, 40, 56] from by decide] at visits
  · have visits := mmap_visits tags
    rwa [show upTo (MmapStops threeTags) (withEnd threeTags 8 [8, 40]) = [8, 40] from by decide] at visits
  · have visits := framebuffer_visits tags
    rwa [show upTo (FramebufferStops threeTags) (withEnd threeTags 8 [8, 40]) = [8] from by decide] at visits

end RetaOS.Display
