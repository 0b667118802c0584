import RetaOS.Initrd.Decode
import Mathlib.Data.Nat.Digits.Defs

/-!
# The archive format

What a ustar image is, apart from the code that reads one. An entry is a directory or a regular file whose
name, permissions and size are ones the format allows here; the conditions are fields, so that an ill-formed entry
cannot be built. `Archive m img bytes off es` says that the image at `img` holds the entries `es` from `off` on:
headers with their fields in octal, payloads padded to blocks of 512 bytes, and the end of the archive. The rest of
the file reads the code's header accesses off the format: `parseOctal_field` for a number, `splitPath_file` for
the parts of a file name.
-/

namespace RetaOS.Initrd
open Lib Vfs

variable {m : Memory} {hdr : UInt32} {l rest : List UInt8} {d : List UInt8}

/-! ## Entries. -/

/-- The name of an entry. Behind one `./` it has no component `.` or `..`. -/
structure TarName where
  bytes : List UInt8
  ne : bytes ≠ []
  short : bytes.length ≤ 99
  noNul : ∀ b ∈ bytes, b ≠ 0
  plain : ∀ c ∈ tokens isSlash (stripDot bytes), isDots c = false

/-- The path that a name stands for. -/
def TarName.path (n : TarName) : List (List UInt8) := tokens isSlash (stripDot n.bytes)

/-- A directory of an archive. -/
structure TarDir where
  name : TarName
  mode : UInt32

/-- A regular file of an archive, with no permissions set or with some read permission. -/
structure TarFile where
  name : TarName
  mode : UInt32
  payload : List UInt8
  noSlash : ∀ b ∈ name.bytes.getLast?, isSlash b = false
  readable : mode &&& 0o777 = 0 ∨ mode &&& 0o444 ≠ 0
  short : payload.length < 2 ^ 31

/-- An entry of an archive. -/
inductive TarEntry where
  | dir (d : TarDir)
  | file (f : TarFile)

namespace TarEntry

def name : TarEntry → TarName
  | .dir d => d.name
  | .file f => f.name

def mode : TarEntry → UInt32
  | .dir d => d.mode
  | .file f => f.mode

def payload : TarEntry → List UInt8
  | .dir _ => []
  | .file f => f.payload

/-- The type flags that an entry can have. -/
def typeflags : TarEntry → List UInt8
  | .dir _ => [0x35]
  | .file _ => [0x30, 0]

/-- The directory that an entry makes. -/
def parent : TarEntry → List (List UInt8)
  | .dir d => d.name.path
  | .file f => f.name.path.dropLast

end TarEntry

/-! ## Images. -/

/-- An octal digit in ASCII. -/
def digit (d : Nat) : UInt8 := UInt8.ofNat (0x30 + d)

/-- A field holds a number: octal digits, the most significant first, with a `NUL` or a space behind them unless
    they fill it. -/
def OctalField (field : List UInt8) (v : Nat) : Prop :=
  ∃ ds rest, field = List.map digit ds ++ rest ∧ (∀ d ∈ ds, d < 8) ∧ Nat.ofDigits 8 ds.reverse = v ∧
    ∀ c ∈ rest.head?, c = 0 ∨ c = 0x20

/-- The header and the payload of an entry lie at `hdr`. -/
structure EntryAt (m : Memory) (hdr : UInt32) (e : TarEntry) : Prop where
  name : m.loadBytes hdr e.name.bytes.length = e.name.bytes
  nul : m (hdr + UInt32.ofNat e.name.bytes.length) = 0
  mode : OctalField (m.loadBytes (hdr + 100) 8) e.mode.toNat
  size : OctalField (m.loadBytes (hdr + 124) 12) e.payload.length
  typeflag : m (hdr + 156) ∈ e.typeflags
  noPrefix : m (hdr + 345) = 0
  payload : m.loadBytes (hdr + 512) e.payload.length = e.payload

/-- The image at `img` holds the entries of a list from `off` on. It ends with a block whose name is empty, or with
    the image. -/
inductive Archive (m : Memory) (img bytes : UInt32) : UInt32 → List TarEntry → Prop where
  | endMark {off : UInt32} :
    off.toNat + 512 ≤ bytes.toNat →
    m (img + off) = 0 →
    Archive m img bytes off []
  | endImage {off : UInt32} :
    bytes.toNat < off.toNat + 512 →
    off.toNat + 512 < 2 ^ 32 →
    Archive m img bytes off []
  | entry {off off' : UInt32} {e : TarEntry} {es : List TarEntry} :
    EntryAt m (img + off) e →
    off.toNat + 512 + e.payload.length ≤ bytes.toNat →
    off'.toNat = off.toNat + 512 + (e.payload.length + 511) / 512 * 512 →
    Archive m img bytes off' es →
    Archive m img bytes off (e :: es)

/-! ## Numbers. -/

lemma octalDigit_digit {v : Nat} (h : v < 8) : octalDigit (digit v) = some (UInt32.ofNat v) := by
  revert v
  decide

/-- `parse_octal` reads the digits of a field and stops behind them. -/
lemma parseOctalFrom_digits {ds : List Nat} (hd : ∀ v ∈ ds, v < 8) (stop : ∀ c ∈ rest.head?, c = 0 ∨ c = 0x20)
    (v : Nat) : parseOctalFrom (UInt32.ofNat v) (ds.map digit ++ rest) =
      UInt32.ofNat (v * 8 ^ ds.length + Nat.ofDigits 8 ds.reverse) := by
  induction ds generalizing v with
  | nil =>
    simp only [List.map_nil, List.nil_append, List.length_nil, pow_zero, Nat.mul_one, List.reverse_nil,
      Nat.ofDigits_nil, Nat.add_zero]
    cases rest with
    | nil => rfl
    | cons c rest =>
      have none : octalDigit c = none := by
        cases stop c rfl with
        | inl h =>
          subst h
          rfl
        | inr h =>
          subst h
          rfl
      rw [parseOctalFrom, none]
  | cons w ds ih =>
    have first := octalDigit_digit (hd w List.mem_cons_self)
    have next : UInt32.ofNat v * 8 + UInt32.ofNat w = UInt32.ofNat (v * 8 + w) := by
      rw [UInt32.ofNat_add, UInt32.ofNat_mul]
      rfl
    rw [List.map_cons, List.cons_append, parseOctalFrom, first]
    simp only [next]
    rw [ih fun u hu => hd u (List.mem_cons_of_mem w hu)]
    congr 1
    rw [List.reverse_cons, Nat.ofDigits_append, Nat.ofDigits_singleton, List.length_reverse, List.length_cons]
    ring

/-- `parse_octal` reads the number of a field. -/
lemma parseOctal_field {field : List UInt8} {v : Nat} (h : OctalField field v) :
    parseOctal field = UInt32.ofNat v := by
  obtain ⟨ds, rest, rfl, small, rfl, stop⟩ := h
  rw [parseOctal, show (0 : UInt32) = UInt32.ofNat 0 from rfl, parseOctalFrom_digits small stop]
  congr 1
  omega

/-! ## Headers. -/

section EntryAt

variable {e : TarEntry} (h : EntryAt m hdr e)
include h

lemma EntryAt.hdrName : hdrName m hdr = e.name.bytes := by
  have short := e.name.short
  apply Memory.cstr_eq h.name e.name.noNul h.nul
  change e.name.bytes.length < 4294967296
  omega

lemma EntryAt.hdrMode : hdrMode m hdr = e.mode &&& 0o777 := by
  rw [Initrd.hdrMode, parseOctal_field h.mode, UInt32.ofNat_toNat]

lemma EntryAt.hdrSize : hdrSize m hdr = UInt32.ofNat e.payload.length := parseOctal_field h.size

/-- A header does not look like the end of the archive. -/
lemma EntryAt.named : m hdr ≠ 0 := by
  have load := h.name
  have nz := e.name.noNul
  have ne := e.name.ne
  cases eq : e.name.bytes with
  | nil => exact absurd eq ne
  | cons b l =>
    rw [eq, List.length_cons, Memory.loadBytes_succ, List.cons.injEq] at load
    rw [load.1]
    apply nz
    rw [eq]
    exact List.mem_cons_self

end EntryAt

/-! ## Names. -/

/-- Names that fit are not cut. -/
lemma components_eq (short : l.length ≤ VFS_NAME_MAX - 1) : components l = tokens isSlash l := by
  rw [components]
  apply (List.map_congr_left _).trans (List.map_id _)
  intro t ht
  exact List.take_of_length_le ((mem_tokens ht).2.2.trans short)

lemma stripDot_length : (stripDot l).length ≤ l.length := by
  unfold stripDot
  split
  · simp only [List.length_cons]
    omega
  · exact le_rfl

/-- A name that does not end in a slash keeps its end. -/
lemma stripDot_last (ne : l ≠ []) (noSlash : ∀ b ∈ l.getLast?, isSlash b = false) :
    stripDot l ≠ [] ∧ (stripDot l).getLast? = l.getLast? := by
  unfold stripDot
  split
  · next rest =>
    cases rest with
    | nil => cases noSlash 0x2F rfl
    | cons b rest => exact ⟨List.cons_ne_nil b rest, by simp⟩
  · exact ⟨ne, rfl⟩

/-- A path without components `.` has no `./` in front. -/
lemma stripDot_plain (plain : ∀ c ∈ tokens isSlash l, isDots c = false) : stripDot l = l := by
  unfold stripDot
  split
  · next rest =>
    have dot : [0x2E] ∈ tokens isSlash (0x2E :: 0x2F :: rest) := by
      have slash : isSlash 0x2F = true := rfl
      have cut := tokens_append_cons [0x2E] rest slash
      rw [List.singleton_append] at cut
      rw [cut, tokens_of_free (by simp [isSlash]) (List.cons_ne_nil _ _)]
      exact List.mem_cons_self
    cases plain _ dot
  · rfl

/-- `ensure_dir` goes through the path of a directory. -/
lemma TarName.components (n : TarName) : dirComponents n.bytes = n.path := by
  have short := n.short
  have whole : n.bytes.take (VFS_PATH_MAX - 1) = n.bytes := by
    apply List.take_of_length_le
    change n.bytes.length ≤ 4095
    omega
  rw [dirComponents, whole]
  apply components_eq
  apply stripDot_length.trans
  change n.bytes.length ≤ 255
  omega

/-- The path that a name stands for is the directory part that `ensure_dir` goes through and the name of the node. -/
theorem splitPath_path (ne : l ≠ []) (short : l.length ≤ 255) (noSlash : ∀ b ∈ l.getLast?, isSlash b = false)
    (plain : ∀ c ∈ tokens isSlash (stripDot l), isDots c = false) :
    tokens isSlash (stripDot l) = dirComponents (splitPath l).1 ++ [(splitPath l).2] := by
  have len := stripDot_length (l := l)
  obtain ⟨ne, last⟩ := stripDot_last ne noSlash
  rw [← last] at noSlash
  rw [splitPath]
  generalize stripDot l = pth at plain len noSlash ne
  cases cut : rsplit isSlash pth with
  | none =>
    have whole : pth.take (VFS_NAME_MAX - 1) = pth := by
      apply List.take_of_length_le
      change pth.length ≤ 255
      omega
    rw [tokens_of_free (rsplit_none cut) ne]
    simp only [whole]
    rfl
  | some parts =>
    obtain ⟨dir, name⟩ := parts
    obtain ⟨⟨x, hx, rfl⟩, free⟩ := rsplit_some cut
    have named : name ≠ [] := by
      intro e
      subst e
      have clash := noSlash x (by simp)
      rw [hx] at clash
      cases clash
    rw [tokens_append_cons _ _ hx, tokens_of_free free named] at plain ⊢
    rw [List.length_append, List.length_cons] at len
    have dirs : dirComponents (dir.take (VFS_PATH_MAX - 1)) = tokens isSlash dir := by
      have whole : dir.take (VFS_PATH_MAX - 1) = dir := by
        apply List.take_of_length_le
        change dir.length ≤ 4095
        omega
      have strip : stripDot dir = dir := stripDot_plain fun c hc => plain c (List.mem_append_left _ hc)
      rw [whole, dirComponents, whole, strip]
      apply components_eq
      change dir.length ≤ 255
      omega
    have whole : name.take (VFS_NAME_MAX - 1) = name := by
      apply List.take_of_length_le
      change name.length ≤ 255
      omega
    simp only [dirs, whole]

/-- The path of a file is cut that way. -/
theorem TarFile.split (f : TarFile) :
    f.name.path = dirComponents (splitPath f.name.bytes).1 ++ [(splitPath f.name.bytes).2] :=
  splitPath_path f.name.ne (f.name.short.trans (by decide)) f.noSlash f.name.plain

end RetaOS.Initrd
