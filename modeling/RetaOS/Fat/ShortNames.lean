import RetaOS.Fat.EndMarker

/-!
# Short names

The decoding of 8.3 names. It drops every space of a field and not only the padding, so two fields are decoded alike
exactly when they differ in case and in spaces at most (`SameName`), where an extension that starts with a space counts
as none. Fields that have spaces only behind their letters are told apart, and `fat32_find_entry` returns the entry
whose decoded name it is called with when no other entry of the directory has an alike field.
-/

namespace RetaOS.Fat
open Lib Vfs

variable {v : Volume} {c : UInt32} {a b name part part' : List UInt8} {x y : UInt8} {de : DirEntry} {es : List DirEntry}

/-! ## Characters. -/

/-- A letter or a digit. -/
def Alnum (x : UInt8) : Prop := 0x30 ≤ x ∧ x ≤ 0x39 ∨ 0x41 ≤ x ∧ x ≤ 0x5A ∨ 0x61 ≤ x ∧ x ≤ 0x7A

instance (x : UInt8) : Decidable (Alnum x) := inferInstanceAs (Decidable (_ ∨ _))

lemma tolower_toNat (x : UInt8) :
    (tolower x).toNat = if 0x41 ≤ x.toNat ∧ x.toNat ≤ 0x5A then x.toNat + 0x20 else x.toNat := by
  have bounds : (0x41 ≤ x ∧ x ≤ 0x5A) ↔ (0x41 ≤ x.toNat ∧ x.toNat ≤ 0x5A) := by
    rw [UInt8.le_iff_toNat_le, UInt8.le_iff_toNat_le]
    rfl
  rw [tolower]
  split_ifs with upper h h
  · rw [UInt8.toNat_add]
    show (x.toNat + 0x20) % 256 = _
    omega
  · exact absurd (bounds.mp upper) h
  · exact absurd (bounds.mpr h) upper
  · rfl

/-- Lower case is left alone. -/
lemma tolower_tolower (x : UInt8) : tolower (tolower x) = tolower x := by
  apply UInt8.toNat_inj.mp
  rw [tolower_toNat (tolower x), tolower_toNat x]
  split_ifs <;> omega

/-- Letters and digits stay so, so they are neither a dot nor a `NUL`. -/
lemma Alnum.tolower_ge (h : Alnum x) : 0x30 ≤ (tolower x).toNat := by
  simp only [Alnum, UInt8.le_iff_toNat_le] at h
  change 0x30 ≤ x.toNat ∧ x.toNat ≤ 0x39 ∨ 0x41 ≤ x.toNat ∧ x.toNat ≤ 0x5A ∨ 0x61 ≤ x.toNat ∧ x.toNat ≤ 0x7A at h
  rw [tolower_toNat]
  split_ifs <;> omega

/-! ## Fields. -/

/-- The field of a short name: letters, digits and spaces, and no space in front. -/
structure Legal (name : List UInt8) : Prop where
  length : name.length = 11
  chars : ∀ x ∈ name, Alnum x ∨ x = 0x20
  first : name.head? ≠ some 0x20

/-- The extension of a field, in lower case and without its spaces; there is none when it starts with a space. -/
def extension (name : List UInt8) : Option (List UInt8) :=
  if (name.drop 8).head? = some 0x20 then none else some (copyName ((name.drop 8).take 3))

/-- Fields that differ in case and in spaces at most. -/
def SameName (a b : List UInt8) : Prop := copyName (a.take 8) = copyName (b.take 8) ∧ extension a = extension b

/-- The characters of a part that are copied. -/
lemma copyName_ge (chars : ∀ x ∈ part, Alnum x ∨ x = 0x20) : ∀ y ∈ copyName part, 0x30 ≤ y.toNat := by
  intro y mem
  rw [copyName] at mem
  obtain ⟨x, mem', rfl⟩ := List.mem_map.mp mem
  obtain ⟨inside, ne⟩ := List.mem_filter.mp mem'
  exact ((chars x inside).resolve_right (by simpa using ne)).tolower_ge

/-- The end of a decoded name, from the dot on. -/
def dotted (name : List UInt8) : List UInt8 := ((extension name).map (0x2E :: ·)).getD []

/-- A legal field is decoded to its two parts. -/
lemma Legal.entryName (legal : Legal name) : entryName name = copyName (name.take 8) ++ dotted name := by
  have base : ∀ y ∈ copyName (name.take 8), 0x30 ≤ y.toNat :=
    copyName_ge fun x mem => legal.chars x (List.mem_of_mem_take mem)
  have ext : ∀ y ∈ copyName ((name.drop 8).take 3), 0x30 ≤ y.toNat :=
    copyName_ge fun x mem => legal.chars x (List.mem_of_mem_drop (List.mem_of_mem_take mem))
  have nonzero {y : UInt8} (ge : 0x30 ≤ y.toNat) : y ≠ 0 := by
    rintro rfl
    exact absurd ge (by decide)
  rw [Fat.entryName, dotted, extension]
  by_cases none_ : (name.drop 8).head? = some 0x20
  · rw [if_pos none_, if_pos none_]
    refine (List.takeWhile_eq_self_iff.mpr fun y mem => ?_).trans (List.append_nil _).symm
    simpa using nonzero (base y mem)
  · rw [if_neg none_, if_neg none_]
    refine List.takeWhile_eq_self_iff.mpr fun y mem => ?_
    rcases List.mem_append.mp mem with mem | mem
    · simpa using nonzero (base y mem)
    · rcases List.mem_cons.mp mem with rfl | mem
      · rfl
      · simpa using nonzero (ext y mem)

/-- Two legal fields are decoded alike exactly when they differ in case and in spaces at most. -/
lemma Legal.entryName_eq (la : Legal a) (lb : Legal b) : Fat.entryName a = Fat.entryName b ↔ SameName a b := by
  rw [la.entryName, lb.entryName]
  constructor
  · intro eq
    have base {n : List UInt8} (legal : Legal n) : (copyName (n.take 8) ++ dotted n).takeWhile (· ≠ 0x2E) =
        copyName (n.take 8) := by
      have nodot : ∀ y ∈ copyName (n.take 8), y ≠ 0x2E := by
        rintro y mem rfl
        exact absurd (copyName_ge (fun x mem => legal.chars x (List.mem_of_mem_take mem)) _ mem) (by decide)
      rw [List.takeWhile_append_of_pos fun y mem => by simpa using nodot y mem, dotted]
      cases extension n with
      | none => exact List.append_nil _
      | some e => exact List.append_nil _
    have same : copyName (a.take 8) = copyName (b.take 8) := by rw [← base la, eq, base lb]
    rw [same] at eq
    have rest := List.append_cancel_left eq
    refine ⟨same, ?_⟩
    rw [dotted, dotted] at rest
    cases ea : extension a with
    | none =>
      cases eb : extension b with
      | none => rfl
      | some e' => simp [ea, eb] at rest
    | some e =>
      cases eb : extension b with
      | none => simp [ea, eb] at rest
      | some e' => simpa [ea, eb] using rest
  · rintro ⟨base, ext⟩
    rw [base, dotted, dotted, ext]

/-! ## Padding. -/

/-- A part with its spaces at the end. -/
def Padded (part : List UInt8) : Prop := ∃ s k, part = s ++ List.replicate k 0x20 ∧ 0x20 ∉ s

/-- A field whose parts have their spaces at the end. -/
def PaddedField (name : List UInt8) : Prop := Padded (name.take 8) ∧ Padded (name.drop 8)

/-- Parts of one length with their spaces at the end differ in case only when the same characters are copied. -/
lemma Padded.map_tolower (p : Padded part) (p' : Padded part') (len : part.length = part'.length)
    (same : copyName part = copyName part') : part.map tolower = part'.map tolower := by
  obtain ⟨s, k, rfl, none_⟩ := p
  obtain ⟨s', k', rfl, none_'⟩ := p'
  have copied {s : List UInt8} (k : Nat) (none_ : 0x20 ∉ s) :
      copyName (s ++ List.replicate k 0x20) = s.map tolower := by
    have letters : s.filter (· ≠ 0x20) = s := List.filter_eq_self.mpr fun x mem => by
      have ne : x ≠ 0x20 := ne_of_mem_of_not_mem mem none_
      simpa using ne
    rw [copyName, List.filter_append, letters]
    simp
  rw [copied k none_, copied k' none_'] at same
  have count := congrArg List.length same
  simp only [List.length_append, List.length_map, List.length_replicate] at count len
  obtain rfl : k = k' := by omega
  rw [List.map_append, List.map_append, same]

/-- A part with its spaces at the end that starts with a space has nothing else. -/
lemma Padded.blank (p : Padded part) (space : part.head? = some 0x20) : part = List.replicate part.length 0x20 := by
  obtain ⟨s, k, rfl, none_⟩ := p
  cases s with
  | nil => simp
  | cons x s =>
    cases space
    exact absurd (List.mem_cons_self) none_

/-- Legal fields with padded parts are told apart. -/
lemma Legal.map_tolower (la : Legal a) (lb : Legal b) (pa : PaddedField a) (pb : PaddedField b) (same : SameName a b) :
    a.map tolower = b.map tolower := by
  obtain ⟨base, ext⟩ := same
  have len : a.length = b.length := la.length.trans lb.length.symm
  have first := pa.1.map_tolower pb.1 (by rw [List.length_take, List.length_take, len]) base
  have second : (a.drop 8).map tolower = (b.drop 8).map tolower := by
    have len' : (a.drop 8).length = (b.drop 8).length := by rw [List.length_drop, List.length_drop, len]
    have whole {n : List UInt8} (legal : Legal n) : (n.drop 8).take 3 = n.drop 8 :=
      List.take_of_length_le (by rw [List.length_drop, legal.length])
    rw [extension, extension, whole la, whole lb] at ext
    split_ifs at ext with sa sb sb
    · rw [pa.2.blank sa, pb.2.blank sb, len']
    · exact pa.2.map_tolower pb.2 len' (Option.some.inj ext)
  rw [← List.take_append_drop 8 a, ← List.take_append_drop 8 b, List.map_append, List.map_append, first, second]

/-! ## Finding by a decoded name. -/

/-- A decoded name is in lower case. -/
lemma entryName_lower (name : List UInt8) : (entryName name).map tolower = entryName name := by
  have copied (part : List UInt8) : ∀ y ∈ copyName part, tolower y = y := fun y mem => by
    obtain ⟨x, -, rfl⟩ := List.mem_map.mp mem
    exact tolower_tolower x
  refine (List.map_congr_left fun y mem => ?_).trans (List.map_id _)
  rw [entryName] at mem
  have mem' := (List.takeWhile_sublist _).subset mem
  split at mem'
  · exact copied _ y mem'
  · rcases List.mem_append.mp mem' with mem' | mem'
    · exact copied _ y mem'
    · rcases List.mem_cons.mp mem' with rfl | mem'
      · rfl
      · exact copied _ y mem'

/-- Finding by a decoded name ends at an entry that is decoded to it. -/
lemma matches_entryName : Matches (entryName name) de ↔ skipped de = false ∧ entryName de.name = entryName name := by
  rw [Matches, strcasecmp_eq_zero (entryName_nul _) (entryName_nul _), entryName_lower, entryName_lower]

/-- The entries of a directory that are not skipped have legal fields. -/
def LegalDirectory (v : Volume) (c : UInt32) : Prop :=
  ∀ es de, Listed v c (es ++ [de]) → skipped de = false → Legal de.name

/-- No two of them have fields that differ in case and in spaces at most. -/
def NoAliases (v : Volume) (c : UInt32) : Prop :=
  ∀ es de es' de', Listed v c (es ++ [de]) → skipped de = false → Listed v c (es' ++ [de']) → skipped de' = false →
    SameName de.name de'.name → es ++ [de] = es' ++ [de']

/-- An entry is found by its decoded name when no other entry has an alike field. -/
lemma find_entryName (init : v.gInitialized = true) (legal : LegalDirectory v c) (unique : NoAliases v c)
    (listed : Listed v c (es ++ [de])) (keep : skipped de = false) :
    fat32FindEntry v c (entryName de.name) = some (.ok (fillDir de)) := by
  obtain ⟨de', found⟩ : ∃ de', (es ++ [de]).find? (fun e => Matches (entryName de.name) e) = some de' := by
    refine Option.isSome_iff_exists.mp (List.find?_isSome.mpr ⟨de, by simp, ?_⟩)
    simpa using matches_entryName.mpr ⟨keep, rfl⟩
  obtain ⟨pre, post, -, returns⟩ := findReturns_of_find init listed found
  obtain ⟨keep', same⟩ := matches_entryName.mp returns.hit
  have alike := ((legal pre de' returns.listed keep').entryName_eq (legal es de listed keep)).mp same
  have place := unique pre de' es de returns.listed keep' listed keep alike
  obtain ⟨-, last⟩ := List.append_inj' place rfl
  cases last
  exact returns.ret

/-- Legal fields are decoded alike exactly when they differ in case and in spaces at most, fields with padded parts only
    when they differ in case, and without alike fields in a directory a decoded name leads to its own entry. -/
theorem decoding_injective (v : Volume) (c : UInt32) :
    (∀ a b, Legal a → Legal b → (entryName a = entryName b ↔ SameName a b)) ∧
    (∀ a b, Legal a → Legal b → PaddedField a → PaddedField b → a.map tolower ≠ b.map tolower →
      entryName a ≠ entryName b) ∧
    (v.gInitialized = true → LegalDirectory v c → NoAliases v c → ∀ es de, Listed v c (es ++ [de]) →
      skipped de = false → fat32FindEntry v c (entryName de.name) = some (.ok (fillDir de))) := by
  refine ⟨fun a b la lb => la.entryName_eq lb, fun a b la lb pa pb differ same => ?_, ?_⟩
  · exact differ (la.map_tolower lb pa pb ((la.entryName_eq lb).mp same))
  · exact fun init legal unique es de listed keep => find_entryName init legal unique listed keep

/-- A cluster with one entry, of a file with a name of one character. -/
def lone (name : UInt8) (cluster length : Nat) : List DirEntry :=
  dirEntry (fileEntry (name :: List.replicate 10 32) cluster length) ::
    List.replicate 15 (dirEntry (List.replicate 32 0))

/-- The entries in the directory of two clusters. -/
def chainedEntries : List DirEntry := lone 0x41 3 1 ++ lone 0x42 5 2

set_option maxRecDepth 16000 in
lemma chained_entries : chainEntries chained (chain chained 2) 2 = chainedEntries := by
  rfl

/-- What it starts with. -/
lemma chained_listed {es : List DirEntry} (listed : Listed chained 2 es) : es <+: chainedEntries := by
  obtain ⟨n, reached, start⟩ := listed
  rcases Nat.lt_trichotomy n 1 with first | rfl | behind
  · obtain rfl : n = 0 := by omega
    rw [← chained_entries]
    exact start.trans (List.prefix_append _ _)
  · rw [← chained_entries]
    exact start
  · exact absurd (reached.1 2 (by omega)) (by decide)

/-- Only the first entry of each cluster is one of a file. -/
lemma chained_kept {es : List DirEntry} {de : DirEntry} (listed : Listed chained 2 (es ++ [de]))
    (keep : skipped de = false) :
    (es.length = 0 ∧ de.name = [0x41, 32, 32, 32, 32, 32, 32, 32, 32, 32, 32]) ∨
      es.length = 16 ∧ de.name = [0x42, 32, 32, 32, 32, 32, 32, 32, 32, 32, 32] := by
  have places : ∀ k < 32, ((chainedEntries[k]?).map fun e => (skipped e, e.name)) = some (true, List.replicate 11 0) ∨
      (k = 0 ∧ (chainedEntries[k]?).map (·.name) = some [0x41, 32, 32, 32, 32, 32, 32, 32, 32, 32, 32]) ∨
      k = 16 ∧ (chainedEntries[k]?).map (·.name) = some [0x42, 32, 32, 32, 32, 32, 32, 32, 32, 32, 32] := by
    decide +kernel
  have start := chained_listed listed
  have here : chainedEntries[es.length]? = some de := by
    obtain ⟨rest, eq⟩ := start
    rw [← eq, List.append_assoc, List.getElem?_append_right le_rfl, Nat.sub_self]
    rfl
  have lt : es.length < 32 := (List.getElem?_eq_some_iff.mp here).1
  have place := places es.length lt
  rw [here] at place
  rcases place with blank | ⟨zero, name⟩ | ⟨second, name⟩
  · have skips : skipped de = true := congrArg Prod.fst (Option.some.inj blank)
    rw [skips] at keep
    cases keep
  · exact .inl ⟨zero, Option.some.inj name⟩
  · exact .inr ⟨second, Option.some.inj name⟩

set_option maxRecDepth 4000 in
lemma lone_entry : dirEntry (fileEntry (0x42 :: List.replicate 10 32) 5 2) =
    ⟨0x42 :: List.replicate 10 32, 0x20, 0, 5, 2⟩ := by
  rfl

set_option maxRecDepth 4000 in
lemma chained_legal : LegalDirectory chained 2 := by
  intro es de listed keep
  rcases chained_kept listed keep with ⟨-, name⟩ | ⟨-, name⟩
  · rw [name]
    exact ⟨rfl, by decide, by decide⟩
  · rw [name]
    exact ⟨rfl, by decide, by decide⟩

lemma chained_noAliases : NoAliases chained 2 := by
  intro es de es' de' listed keep listed' keep' same
  have whole := List.prefix_iff_eq_take.mp (chained_listed listed)
  have whole' := List.prefix_iff_eq_take.mp (chained_listed listed')
  rw [whole, whole', List.length_append, List.length_append]
  rcases chained_kept listed keep with ⟨at_, name⟩ | ⟨at_, name⟩
  · rcases chained_kept listed' keep' with ⟨at_', -⟩ | ⟨-, name'⟩
    · rw [at_, at_']
      rfl
    · rw [name, name'] at same
      exact absurd same.1 (by decide)
  · rcases chained_kept listed' keep' with ⟨-, name'⟩ | ⟨at_', -⟩
    · rw [name, name'] at same
      exact absurd same.1 (by decide)
    · rw [at_, at_']
      rfl

set_option maxRecDepth 4000 in
/-- `A.TXT` and `A.TX` are decoded to different names, and the entry `B` of the second cluster is found by its own. -/
theorem decoding_injective_chained :
    entryName [0x41, 32, 32, 32, 32, 32, 32, 32, 0x54, 0x58, 0x54] ≠
      entryName [0x41, 32, 32, 32, 32, 32, 32, 32, 0x54, 0x58, 32] ∧
    fat32FindEntry chained 2 [0x62] = some (.ok ⟨[0x62], 2, 5, 0x20⟩) := by
  obtain ⟨-, apart, find⟩ := decoding_injective chained 2
  constructor
  · exact apart _ _ ⟨rfl, by decide, by decide⟩ ⟨rfl, by decide, by decide⟩
      ⟨⟨[0x41], 7, rfl, by decide⟩, [0x54, 0x58, 0x54], 0, rfl, by decide⟩
      ⟨⟨[0x41], 7, rfl, by decide⟩, [0x54, 0x58], 1, rfl, by decide⟩ (by decide)
  · have listed : Listed chained 2 (lone 0x41 3 1 ++ [dirEntry (fileEntry (0x42 :: List.replicate 10 32) 5 2)]) := by
      refine ⟨1, ⟨fun i le => ?_, fun _ _ => rfl⟩, ?_⟩
      · have inside : i = 0 ∨ i = 1 := by omega
        rcases inside with rfl | rfl
        · decide
        · decide
      · rw [chained_entries, chainedEntries]
        exact (List.prefix_append_right_inj _).mpr (List.prefix_append [_] _)
    have found := find rfl chained_legal chained_noAliases _ _ listed (by rw [lone_entry]; decide)
    rw [lone_entry] at found
    exact found

set_option maxRecDepth 2000 in
/-- `A B` and `AB` are decoded alike. -/
theorem not_decoding_injective : ∃ a b : List UInt8, Legal a ∧ Legal b ∧ a.map tolower ≠ b.map tolower ∧
    entryName a = entryName b := by
  refine ⟨[0x41, 32, 0x42, 32, 32, 32, 32, 32, 32, 32, 32], [0x41, 0x42, 32, 32, 32, 32, 32, 32, 32, 32, 32],
    ⟨rfl, by decide, by decide⟩, ⟨rfl, by decide, by decide⟩, by decide, by decide⟩

end RetaOS.Fat
