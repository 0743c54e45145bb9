import ProjectMu.GptFormat
import ProjectMu.Terminated

/-!
# The record of an SMBIOS table

`registerTable` copies a structure into a record and puts its strings behind it. The strings end at
a byte of zero and the set of them at another one, so an empty string is read as the end of the
set. Where the strings go is read from the copy, which has no length if that is one.
-/

namespace ProjectMu.SmBiosRecord

open ByteCodec Terminated

structure AsciiString where
  chars : List Byte
  noNul : 0 ∉ chars

def asciiStrSize (s : AsciiString) : ℕ := s.chars.length + 1

def AsciiString.bytes (s : AsciiString) : List Byte := s.chars ++ [0]

/-- The strings in front of `NULL`, few enough for an index of 8 bits to get there. -/
structure StringPack where
  strings : List AsciiString
  count : strings.length ≤ 255

/-- The strings of a pack, which may be `NULL`. -/
def packStrings (stringPack : Option StringPack) : List AsciiString :=
  stringPack.elim [] StringPack.strings

/-- The bytes of a structure in memory, as many as its length says. -/
def structureBytes (tableHeader : ℕ → Byte) : List Byte :=
  (List.range (tableHeader 1).toNat).map tableHeader

/-- The loop over the strings up to `NULL`, with an index of 8 bits. -/
def forEachString {σ : Type} (step : σ → AsciiString → Option σ) (strings : List AsciiString) :
    ℕ → BitVec 8 → σ → Option σ
  | 0, _, _ => none
  | fuel + 1, i, s =>
    match strings[i.toNat]? with
    | none => some s
    | some string => (step s string).bind (forEachString step strings fuel (i + 1))

def recordSize (tableHeader : ℕ → Byte) (stringPack : Option StringPack) : Option (BitVec 64) :=
  let recordSize := (tableHeader 1).setWidth 64
  let strings := packStrings stringPack
  if strings = [] then some (recordSize + 2)
  else (forEachString (fun recordSize s => some (recordSize + BitVec.ofNat 64 (asciiStrSize s)))
    strings 256 0 recordSize).map (· + 1)

/-- A store into the record, or `none` if it is not inside of it. -/
def storeAt (record : List Byte) (offset : ℕ) (source : List Byte) : Option (List Byte) :=
  if offset + source.length ≤ record.length then
    some (record.take offset ++ source ++ record.drop (offset + source.length))
  else none

/-- The strings and the end of the set, from the offset `strings` of the record on. -/
def saveStrings (pack : List AsciiString) (strings : ℕ) (record : List Byte) :
    Option (List Byte) :=
  if pack = [] then (storeAt record strings [0]).bind (storeAt · (strings + 1) [0])
  else
    (forEachString (fun (p : ℕ × List Byte) s =>
      (storeAt p.2 p.1 s.bytes).map fun record => (p.1 + asciiStrSize s, record))
      pack 256 0 (strings, record)).bind fun p => storeAt p.2 p.1 [0]

def buildRecord (tableHeader : ℕ → Byte) (stringPack : Option StringPack) (recordSize : ℕ) :
    Option (List Byte) :=
  (storeAt (List.replicate recordSize 0) 0 (structureBytes tableHeader)).bind fun record =>
    record[1]?.bind fun length => saveStrings (packStrings stringPack) length.toNat record

def smbiosHandlePiReserved : BitVec 16 := 0xFFFE

/-- The record that the protocol gets, if there is memory for it, and the handle. -/
structure Registration where
  record : Option (List Byte)
  dataSmbiosHandle : Option (BitVec 16)

/-- There is no result if a store is outside of the record. -/
def registerTable (allocated : Bool)
    (add : BitVec 16 → List Byte → Except EfiError (BitVec 16)) (tableHeader : ℕ → Byte)
    (stringPack : Option StringPack) (dataSmbiosHandle : Option (BitVec 16)) :
    Option Registration :=
  (recordSize tableHeader stringPack).bind fun recordSize =>
    if allocated then
      (buildRecord tableHeader stringPack recordSize.toNat).map fun record =>
        match add smbiosHandlePiReserved record with
        | .error _ => ⟨some record, dataSmbiosHandle⟩
        | .ok smBiosHandle => ⟨some record, dataSmbiosHandle.map fun _ => smBiosHandle⟩
    else some ⟨none, dataSmbiosHandle⟩

/-- The record is as long as it was allocated, and made of the structure and the set of the
strings. -/
structure Encodes (tableHeader : ℕ → Byte) (stringPack : Option StringPack)
    (record : List Byte) : Prop where
  size : (recordSize tableHeader stringPack).map BitVec.toNat = some record.length
  formatted : record.take (tableHeader 1).toNat = structureBytes tableHeader
  strings : parseSet 0 (record.drop (tableHeader 1).toNat) =
    some ((packStrings stringPack).map AsciiString.chars, [])

/-- All stores are inside of the record, and if one is handed over it encodes the table. -/
def RoundTrips (tableHeader : ℕ → Byte) (stringPack : Option StringPack)
    (registration : Option Registration) : Prop :=
  ∃ r, registration = some r ∧ ∀ record, r.record = some record →
    Encodes tableHeader stringPack record

/-- The bytes of the set of strings. -/
def stringSet (stringPack : Option StringPack) : List Byte :=
  encodeSet 0 ((packStrings stringPack).map AsciiString.chars)

/-- No string is empty, the length can be read from the copy and the size does not wrap around. -/
structure FitsFormat (tableHeader : ℕ → Byte) (stringPack : Option StringPack) : Prop where
  nonempty : ∀ s ∈ packStrings stringPack, s.chars ≠ []
  length : tableHeader 1 ≠ 1 ∨ packStrings stringPack = [] ∧ tableHeader 0 = 0
  size : (tableHeader 1).toNat + (stringSet stringPack).length < 2 ^ 64

variable {tableHeader : ℕ → Byte} {stringPack : Option StringPack}
  {front back source record : List Byte}

@[simp] theorem length_structureBytes (tableHeader : ℕ → Byte) :
    (structureBytes tableHeader).length = (tableHeader 1).toNat := by
  rw [structureBytes, List.length_map, List.length_range]

theorem storeAt_append (h : source.length ≤ back.length) :
    storeAt (front ++ back) front.length source =
      some (front ++ source ++ back.drop source.length) := by
  rw [storeAt, if_pos (by rw [List.length_append]; omega), List.take_left, List.drop_append]
  simp

/-- An index of 8 bits gets to the end of 255 strings. -/
theorem forEachString_eq {σ : Type} {step : σ → AsciiString → Option σ}
    {strings : List AsciiString} (hcount : strings.length ≤ 255) (fuel : ℕ) (i : BitVec 8) (s : σ)
    (hi : i.toNat ≤ strings.length) (hfuel : strings.length < fuel + i.toNat) :
    forEachString step strings fuel i s = (strings.drop i.toNat).foldlM step s := by
  induction fuel generalizing i s with
  | zero => omega
  | succ fuel ih =>
    rw [forEachString]
    rcases hi.lt_or_eq with hlt | heq
    · have hnext : (i + 1).toNat = i.toNat + 1 := by
        rw [BitVec.toNat_add]
        exact Nat.mod_eq_of_lt (by change i.toNat + 1 < 256; omega)
      rw [List.getElem?_eq_getElem hlt, List.drop_eq_getElem_cons hlt, List.foldlM_cons, ← hnext]
      refine congrArg (Option.bind _) (funext fun s' => ?_)
      exact ih (i + 1) s' (by omega) (by omega)
    · rw [heq, List.getElem?_eq_none le_rfl, List.drop_length]
      rfl

theorem forEachString_all {σ : Type} (step : σ → AsciiString → Option σ)
    {strings : List AsciiString} (hcount : strings.length ≤ 255) (s : σ) :
    forEachString step strings 256 0 s = strings.foldlM step s :=
  forEachString_eq hcount 256 0 s (Nat.zero_le _) (by simp; omega)

theorem count_packStrings (stringPack : Option StringPack) :
    (packStrings stringPack).length ≤ 255 := by
  cases stringPack with
  | none => exact Nat.zero_le _
  | some stringPack => exact stringPack.count

theorem length_encodeItems_cons (s : AsciiString) (strings : List AsciiString) :
    (encodeItems 0 ((s :: strings).map AsciiString.chars)).length =
      asciiStrSize s + (encodeItems 0 (strings.map AsciiString.chars)).length := by
  rw [List.map_cons, encodeItems, List.length_append, List.length_cons, asciiStrSize]
  omega

theorem foldlM_sizes (strings : List AsciiString) (size : ℕ) :
    strings.foldlM (fun recordSize s =>
        some (recordSize + BitVec.ofNat 64 (asciiStrSize s))) (BitVec.ofNat 64 size) =
      some (BitVec.ofNat 64
        (size + (encodeItems 0 (strings.map AsciiString.chars)).length)) := by
  induction strings generalizing size with
  | nil => rfl
  | cons s strings ih =>
    have hadd : BitVec.ofNat 64 size + BitVec.ofNat 64 (asciiStrSize s) =
        BitVec.ofNat 64 (size + asciiStrSize s) := (BitVec.ofNat_add _ _).symm
    rw [List.foldlM_cons, length_encodeItems_cons, ← Nat.add_assoc, ← ih, ← hadd]
    rfl

/-- The size is the one of the structure and the set of the strings, up to a wrap around. -/
theorem recordSize_eq (tableHeader : ℕ → Byte) (stringPack : Option StringPack) :
    recordSize tableHeader stringPack = some (BitVec.ofNat 64
      ((tableHeader 1).toNat + (stringSet stringPack).length)) := by
  have hlength : (tableHeader 1).setWidth 64 = BitVec.ofNat 64 (tableHeader 1).toNat :=
    (BitVec.ofNat_toNat 64 _).symm
  rw [recordSize, stringSet, encodeSet, hlength]
  by_cases hnone : packStrings stringPack = []
  · rw [if_pos hnone, hnone]
    exact congrArg some (BitVec.ofNat_add _ _).symm
  · have hmap : (packStrings stringPack).map AsciiString.chars ≠ [] := by
      rwa [Ne, List.map_eq_nil_iff]
    rw [if_neg hnone, if_neg hmap, forEachString_all _ (count_packStrings stringPack),
      foldlM_sizes, Option.map_some, List.length_append, ← Nat.add_assoc]
    exact congrArg some (BitVec.ofNat_add _ _).symm

theorem foldlM_saves (strings : List AsciiString) (front back : List Byte)
    (h : (encodeItems 0 (strings.map AsciiString.chars)).length ≤ back.length) :
    strings.foldlM (fun (p : ℕ × List Byte) s =>
        (storeAt p.2 p.1 s.bytes).map fun record => (p.1 + asciiStrSize s, record))
        (front.length, front ++ back) =
      some ((front ++ encodeItems 0 (strings.map AsciiString.chars)).length,
        front ++ encodeItems 0 (strings.map AsciiString.chars) ++
          back.drop (encodeItems 0 (strings.map AsciiString.chars)).length) := by
  induction strings generalizing front back with
  | nil => simp [encodeItems]
  | cons s strings ih =>
    rw [length_encodeItems_cons] at h
    have hsize : s.bytes.length = asciiStrSize s := by
      rw [AsciiString.bytes, List.length_append]
      rfl
    have hfront : front.length + asciiStrSize s = (front ++ s.bytes).length := by
      rw [List.length_append, hsize]
    have hrest := ih (front ++ s.bytes) (back.drop s.bytes.length) (by
      rw [List.length_drop, hsize]
      omega)
    have hencode : front ++ s.bytes ++ encodeItems 0 (strings.map AsciiString.chars) =
        front ++ encodeItems 0 ((s :: strings).map AsciiString.chars) := by
      rw [List.map_cons, encodeItems, AsciiString.bytes]
      simp
    rw [List.foldlM_cons]
    dsimp only
    rw [storeAt_append (by omega), Option.map_some, hfront, ← hencode, length_encodeItems_cons,
      ← hsize, ← List.drop_drop]
    exact hrest

/-- The set of the strings takes the place of as many bytes. -/
theorem saveStrings_append (h : (stringSet stringPack).length ≤ back.length) :
    saveStrings (packStrings stringPack) front.length (front ++ back) =
      some (front ++ stringSet stringPack ++ back.drop (stringSet stringPack).length) := by
  rw [stringSet, encodeSet] at h ⊢
  rw [saveStrings]
  by_cases hnone : packStrings stringPack = []
  · have hnil : (packStrings stringPack).map AsciiString.chars = [] :=
      List.map_eq_nil_iff.mpr hnone
    have hstrings : front.length + 1 = (front ++ [(0 : Byte)]).length := by simp
    rw [if_pos hnil] at h
    have hfirst : ([0] : List Byte).length ≤ back.length := by
      simp only [List.length_cons, List.length_nil] at h ⊢
      omega
    have hsecond : ([0] : List Byte).length ≤ (back.drop 1).length := by
      simp only [List.length_drop, List.length_cons, List.length_nil] at h ⊢
      omega
    rw [if_pos hnone, if_pos hnil, storeAt_append hfirst, Option.bind_some, hstrings]
    refine (storeAt_append hsecond).trans ?_
    rw [List.append_assoc front, List.drop_drop]
    rfl
  · have hmap : (packStrings stringPack).map AsciiString.chars ≠ [] := by
      rwa [Ne, List.map_eq_nil_iff]
    rw [if_neg hmap, List.length_append] at h
    have hend : ([0] : List Byte).length ≤ (back.drop
        (encodeItems 0 ((packStrings stringPack).map AsciiString.chars)).length).length := by
      rw [List.length_drop]
      simp only [List.length_singleton] at h ⊢
      omega
    rw [if_neg hnone, if_neg hmap, forEachString_all _ (count_packStrings stringPack),
      foldlM_saves _ _ _ (by omega), Option.bind_some, storeAt_append hend, List.drop_drop,
      ← List.length_append, ← List.append_assoc]

/-- The header in front of the bytes that stay zero. -/
theorem storeAt_header {size free : ℕ} (hsize : size = (tableHeader 1).toNat + free) :
    storeAt (List.replicate size 0) 0 (structureBytes tableHeader) =
      some (structureBytes tableHeader ++ List.replicate free 0) := by
  have hstore := @storeAt_append [] (List.replicate size 0) (structureBytes tableHeader)
    (by rw [length_structureBytes, List.length_replicate]; omega)
  rw [List.nil_append, List.nil_append, List.length_nil, List.drop_replicate,
    length_structureBytes, hsize, Nat.add_sub_cancel_left] at hstore
  rw [hsize]
  exact hstore

/-- The length in the copy. A structure of one byte has none. -/
theorem getElem?_header {free : ℕ} (hfree : 2 ≤ free) :
    (structureBytes tableHeader ++ List.replicate free 0)[1]? =
      some (if tableHeader 1 = 1 then 0 else tableHeader 1) := by
  by_cases hlong : 1 < (tableHeader 1).toNat
  · have hne : tableHeader 1 ≠ 1 := by
      intro heq
      rw [heq] at hlong
      exact absurd hlong (lt_irrefl _)
    rw [if_neg hne, List.getElem?_append_left (by rwa [length_structureBytes]), structureBytes,
      List.getElem?_map, List.getElem?_range hlong]
    rfl
  · have hshort : (structureBytes tableHeader).length ≤ 1 := by
      rw [length_structureBytes]
      exact Nat.not_lt.mp hlong
    have hzero : (if tableHeader 1 = 1 then 0 else tableHeader 1) = 0 := by
      split
      · rfl
      next hne =>
        apply BitVec.eq_of_toNat_eq
        have hnat : (tableHeader 1).toNat ≠ 1 := fun h => hne (BitVec.eq_of_toNat_eq h)
        change (tableHeader 1).toNat = 0
        omega
    rw [hzero, List.getElem?_append_right hshort, List.getElem?_replicate, if_pos (by omega)]

theorem two_le_stringSet (stringPack : Option StringPack) :
    2 ≤ (stringSet stringPack).length := by
  rw [stringSet, encodeSet]
  split
  · exact le_rfl
  next hne =>
    have hitems := length_le_encodeItems 0 ((packStrings stringPack).map AsciiString.chars)
    have hpos := List.length_pos_iff.mpr hne
    rw [List.length_append, List.length_singleton]
    omega

/-- The record of a structure whose length can be read from the copy. -/
theorem buildRecord_of_length (h : tableHeader 1 ≠ 1) :
    buildRecord tableHeader stringPack ((tableHeader 1).toNat + (stringSet stringPack).length) =
      some (structureBytes tableHeader ++ stringSet stringPack) := by
  rw [buildRecord, storeAt_header rfl, Option.bind_some, getElem?_header (two_le_stringSet _),
    if_neg h, Option.bind_some, ← length_structureBytes, saveStrings_append (by simp)]
  simp

theorem structureBytes_of_one (h : tableHeader 1 = 1) :
    structureBytes tableHeader = [tableHeader 0] := by
  rw [structureBytes, h]
  rfl

/-- The strings of a structure of length one take its place. -/
theorem buildRecord_of_one (h : tableHeader 1 = 1) :
    buildRecord tableHeader stringPack ((tableHeader 1).toNat + (stringSet stringPack).length) =
      some (stringSet stringPack ++ [0]) := by
  rw [buildRecord, storeAt_header rfl, Option.bind_some, getElem?_header (two_le_stringSet _),
    if_pos h, Option.bind_some]
  have hsave := @saveStrings_append stringPack []
    (structureBytes tableHeader ++ List.replicate (stringSet stringPack).length 0) (by simp)
  obtain ⟨n, hn⟩ : ∃ n, (stringSet stringPack).length = n + 1 :=
    ⟨_, (Nat.sub_add_cancel (one_le_two.trans (two_le_stringSet stringPack))).symm⟩
  refine hsave.trans ?_
  rw [structureBytes_of_one h, hn, List.singleton_append, List.drop_succ_cons, List.drop_replicate,
    Nat.add_sub_cancel_left]
  rfl

/-- What is read is what was written, so a record that encodes the table consists of its bytes. -/
theorem eq_of_encodes {record : List Byte} (h : Encodes tableHeader stringPack record) :
    (∀ s ∈ packStrings stringPack, IsItem 0 s.chars) ∧
      record = structureBytes tableHeader ++ stringSet stringPack := by
  obtain ⟨hitems, hset⟩ := eq_of_parseSet h.strings
  rw [List.append_nil] at hset
  refine ⟨fun s hs => hitems _ (List.mem_map_of_mem hs), ?_⟩
  rw [← h.formatted, stringSet, ← hset, List.take_append_drop]

theorem encodes_of_fits (h : FitsFormat tableHeader stringPack) :
    Encodes tableHeader stringPack (structureBytes tableHeader ++ stringSet stringPack) := by
  have hitems : ∀ item ∈ (packStrings stringPack).map AsciiString.chars, IsItem 0 item := by
    intro item hitem
    obtain ⟨s, hs, rfl⟩ := List.mem_map.mp hitem
    exact ⟨h.nonempty s hs, s.noNul⟩
  constructor
  · rw [recordSize_eq, Option.map_some, BitVec.toNat_ofNat, Nat.mod_eq_of_lt h.size,
      List.length_append, length_structureBytes]
  · rw [← length_structureBytes, List.take_left]
  · rw [← length_structureBytes, List.drop_left, ← List.append_nil (stringSet stringPack)]
    exact parseSet_encodeSet hitems []

theorem length_stringSet_lt {record : List Byte} (h : Encodes tableHeader stringPack record) :
    (tableHeader 1).toNat + (stringSet stringPack).length < 2 ^ 64 := by
  obtain ⟨-, rfl⟩ := eq_of_encodes h
  have hsize := h.size
  rw [recordSize_eq, Option.map_some, Option.some_inj, List.length_append,
    length_structureBytes] at hsize
  rw [← hsize]
  exact BitVec.isLt _

/-- A structure of length one is overwritten unless it looks like an end of the set. -/
theorem buildRecord_encodes_iff
    (hsize : (tableHeader 1).toNat + (stringSet stringPack).length < 2 ^ 64) :
    (∃ record, buildRecord tableHeader stringPack
        ((tableHeader 1).toNat + (stringSet stringPack).length) = some record ∧
      Encodes tableHeader stringPack record) ↔ FitsFormat tableHeader stringPack := by
  constructor
  · rintro ⟨record, hbuild, hencodes⟩
    obtain ⟨hitems, hrecord⟩ := eq_of_encodes hencodes
    refine ⟨fun s hs => (hitems s hs).1, ?_, hsize⟩
    by_cases hone : tableHeader 1 = 1
    · rw [buildRecord_of_one hone, hrecord, structureBytes_of_one hone, stringSet] at hbuild
      have hmem : ∀ item ∈ (packStrings stringPack).map AsciiString.chars, IsItem 0 item := by
        intro item hitem
        obtain ⟨s, hs, rfl⟩ := List.mem_map.mp hitem
        exact hitems s hs
      obtain ⟨hnone, hzero⟩ := eq_nil_of_shift hmem (Option.some_inj.mp hbuild)
      exact .inr ⟨List.map_eq_nil_iff.mp hnone, hzero⟩
    · exact .inl hone
  · intro h
    refine ⟨_, ?_, encodes_of_fits h⟩
    by_cases hone : tableHeader 1 = 1
    · obtain hne | ⟨hnone, hzero⟩ := h.length
      · exact absurd hone hne
      · rw [buildRecord_of_one hone, structureBytes_of_one hone, hzero, stringSet, hnone]
        rfl
    · exact buildRecord_of_length hone

theorem roundTrips_map {built : Option (List Byte)} {register : List Byte → Registration}
    (h : ∀ record, (register record).record = some record) :
    RoundTrips tableHeader stringPack (built.map register) ↔
      ∃ record, built = some record ∧ Encodes tableHeader stringPack record := by
  constructor
  · rintro ⟨_, hmap, hencodes⟩
    obtain ⟨record, hbuilt, rfl⟩ := Option.map_eq_some_iff.mp hmap
    exact ⟨record, hbuilt, hencodes record (h record)⟩
  · rintro ⟨record, rfl, hencodes⟩
    refine ⟨register record, rfl, fun handed hhanded => ?_⟩
    rw [h record] at hhanded
    exact Option.some_inj.mp hhanded ▸ hencodes

/-- The record encodes the table exactly if the format can express the strings, the length is
where the code reads it and the size does not wrap around. -/
theorem registerTable_roundTrips_iff (allocated : Bool)
    (add : BitVec 16 → List Byte → Except EfiError (BitVec 16)) (tableHeader : ℕ → Byte)
    (stringPack : Option StringPack) (dataSmbiosHandle : Option (BitVec 16)) :
    RoundTrips tableHeader stringPack
        (registerTable allocated add tableHeader stringPack dataSmbiosHandle) ↔
      (allocated = true → FitsFormat tableHeader stringPack) := by
  rw [registerTable, recordSize_eq, Option.bind_some]
  cases allocated with
  | false => exact iff_of_true ⟨_, rfl, fun record h => by cases h⟩ (fun h => by cases h)
  | true =>
    rw [if_pos rfl, roundTrips_map]
    · constructor
      · rintro ⟨record, hbuild, hencodes⟩ -
        have hsize := length_stringSet_lt hencodes
        rw [BitVec.toNat_ofNat, Nat.mod_eq_of_lt hsize] at hbuild
        exact (buildRecord_encodes_iff hsize).mp ⟨record, hbuild, hencodes⟩
      · intro h
        have hfits := h rfl
        rw [BitVec.toNat_ofNat, Nat.mod_eq_of_lt hfits.size]
        exact (buildRecord_encodes_iff hfits.size).mpr hfits
    · intro record
      cases add smbiosHandlePiReserved record with
      | error e => rfl
      | ok smBiosHandle => rfl

/-- An empty string between two others, behind a header. -/
theorem emptyString_not_roundTrips :
    ¬RoundTrips (fun i => [1, 4, 0xFF, 0xFF].getD i 0)
      (some ⟨[⟨[0x41], by decide⟩, ⟨[], by decide⟩, ⟨[0x42], by decide⟩], by decide⟩)
      (registerTable true (fun smBiosHandle _ => .ok smBiosHandle)
        (fun i => [1, 4, 0xFF, 0xFF].getD i 0)
        (some ⟨[⟨[0x41], by decide⟩, ⟨[], by decide⟩, ⟨[0x42], by decide⟩], by decide⟩)
        none) := by
  rintro ⟨r, hr, hencodes⟩
  have hrecord : r.record = some [1, 4, 0xFF, 0xFF, 0x41, 0, 0, 0x42, 0, 0] :=
    congrArg Registration.record (Option.some_inj.mp hr).symm
  obtain ⟨hitems, -⟩ := eq_of_encodes (hencodes _ hrecord)
  exact (hitems ⟨[], by decide⟩ (.tail _ (.head _))).1 rfl

end ProjectMu.SmBiosRecord
