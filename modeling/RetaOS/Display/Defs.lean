import RetaOS.Pmm.Defs

/-!
# The framebuffer

`display_init` of `kernel/display.c`, which looks for the framebuffer tag in the boot information. The tags are those of
`multiboot2.h` that `memory_init` reads. As there, the walk follows whatever sizes it finds, and `none` is a walk that
does not end.
-/

namespace RetaOS.Display
open Lib
open Pmm (tagType nextTag MULTIBOOT_TAG_TYPE_END MULTIBOOT2_BOOTLOADER_MAGIC)

/-- `MULTIBOOT_TAG_TYPE_FRAMEBUFFER`. -/
def MULTIBOOT_TAG_TYPE_FRAMEBUFFER : UInt32 := 8

/-- `MB2_MAGIC_A`. -/
def MB2_MAGIC_A : UInt32 := 0x36d76289

/-- `MB2_MAGIC_B`. -/
def MB2_MAGIC_B : UInt32 := MULTIBOOT2_BOOTLOADER_MAGIC

/-- `struct video_mode`. -/
structure VideoMode where
  width : UInt32
  height : UInt32
  pitch : UInt32
  bpp : UInt32
  addr : UInt32

/-- `fb->framebuffer_addr`. -/
def framebufferAddr (m : Memory) (fb : UInt32) : UInt64 := m.load64 (fb + 8)

/-- What `display_init` takes over from a framebuffer tag. -/
def framebuffer (m : Memory) (fb : UInt32) : VideoMode where
  pitch := m.load32 (fb + 16)
  width := m.load32 (fb + 20)
  height := m.load32 (fb + 24)
  bpp := (m (fb + 28)).toUInt32
  addr := (framebufferAddr m fb).toUInt32

/-- One pass of the loop of `display_init`: it ends at the null pointer and at the end tag, and with the first
    framebuffer tag. -/
def findFramebuffer (m : Memory) (tag : UInt32) : Pass UInt32 (Option UInt32) :=
  if tag = 0 ∨ tagType m tag = MULTIBOOT_TAG_TYPE_END then .done none
  else if tagType m tag = MULTIBOOT_TAG_TYPE_FRAMEBUFFER then .done (some tag)
  else .next (nextTag m tag)

/-- `display_init`: the value of `current_mode` afterwards. -/
def displayInit (m : Memory) (magic mbiAddr : UInt32) : Option VideoMode :=
  let currentMode : VideoMode := ⟨0, 0, 0, 0, 0⟩
  if magic ≠ MB2_MAGIC_A ∧ magic ≠ MB2_MAGIC_B then some currentMode
  else
    match loop (findFramebuffer m) (mbiAddr + 8) with
    | none => none
    | some none => some currentMode
    | some (some fb) => some (framebuffer m fb)

end RetaOS.Display
