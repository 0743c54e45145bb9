import ProjectMu.AmlNames

/-!
# Updating ASL names

`aslUpdateName` looks for the name opcode followed by the four characters of the name and
overwrites the bytes behind it. It does not parse the table. An update keeps every other
definition, and leaves the value it was given, when the first place that looks like the
definition is the definition and the value replaces all of the old one.
-/

namespace ProjectMu

open ByteCodec ByteRange

inductive AslStatus
  | success
  | invalidParameter
  | unsupported
  | bufferTooSmall
  | notFound
  deriving DecidableEq, Repr

def acpiHeaderSize : ℕ := 36

/-- `DSDT` -/
def differentiatedSystemDescriptionTableSignature : BitVec 32 := 0x54445344

/-- `SSDT` -/
def secondarySystemDescriptionTableSignature : BitVec 32 := 0x54445353

def tableSignature (table : List Byte) : BitVec 32 :=
  BitVec.ofNat 32 (littleEndian (slice table 0 4))

def tableLength (table : List Byte) : ℕ := littleEndian (slice table 4 4)

def IsDefinitionBlock (table : List Byte) : Prop :=
  tableSignature table = differentiatedSystemDescriptionTableSignature ∨
    tableSignature table = secondarySystemDescriptionTableSignature

instance (table : List Byte) : Decidable (IsDefinitionBlock table) :=
  inferInstanceAs (Decidable (_ ∨ _))

/-- The size of the string at `offset`, its terminator included. -/
def asciiStrSize (table : List Byte) (offset : ℕ) : ℕ :=
  ((table.drop offset).takeWhile isAmlChar).length + 1

def getAslNameDataSize (table : List Byte) (current : ℕ) : Option ℕ :=
  let dataOp := table.getD (current + 5) 0
  if dataOp = amlStringPrefix then some (asciiStrSize table (current + 6))
  else (AmlWidth.ofOpcode dataOp).map AmlWidth.bytes

/-- The name opcode and the name stand at `current`. -/
def isNameAt (table : List Byte) (nameSignature : BitVec 32) (current : ℕ) : Bool :=
  table.getD current 0 == amlNameOp &&
    BitVec.ofNat 32 (littleEndian (slice table (current + 1) 4)) == nameSignature

/-- The arguments of a call: `buffer` is the `Length` bytes at `Buffer`, unless that is null. -/
structure AslUpdate where
  nameSignature : BitVec 32
  buffer : Option (List Byte)

/-- The table is followed in its list by the memory behind it. -/
def aslUpdateName (table : List Byte) (update : AslUpdate) : AslStatus × List Byte :=
  match update.buffer with
  | none => (.invalidParameter, table)
  | some [] => (.invalidParameter, table)
  | some (b :: bs) =>
    if ¬IsDefinitionBlock table then (.unsupported, table)
    else
      match (List.range' acpiHeaderSize (tableLength table - 5 - acpiHeaderSize)).find?
          (isNameAt table update.nameSignature) with
      | none => (.notFound, table)
      | some current =>
        match getAslNameDataSize table current with
        | none => (.unsupported, table)
        | some origDataSize =>
          if origDataSize < (b :: bs).length then (.bufferTooSmall, table)
          else (.success, splice table (current + 6) (b :: bs))

def runUpdates (table : List Byte) (updates : List AslUpdate) : List Byte :=
  updates.foldl (fun t u => (aslUpdateName t u).2) table

/-- The name definitions of a table. -/
def parseTable (table : List Byte) : Option (List AmlObject) :=
  if IsDefinitionBlock table ∧ acpiHeaderSize ≤ tableLength table ∧
      tableLength table ≤ table.length then
    amlObjectCode.parseAll (slice table acpiHeaderSize (tableLength table - acpiHeaderSize))
  else none

def valueOf (objects : List AmlObject) (nameSignature : BitVec 32) : Option AmlValue :=
  (objects.find? (fun o => o.name.signature == nameSignature)).map AmlObject.value

/-- The value that the bytes of an update stand for: a little-endian integer, or the string
up to its terminator. -/
def AmlValue.Shows (buffer : List Byte) : AmlValue → Prop
  | .string chars _ => chars = buffer.takeWhile isAmlChar
  | .integer _ value _ => value = littleEndian buffer

/-- A table of name definitions with pairwise different names. -/
structure IsNameTable (table : List Byte) (objects : List AmlObject) : Prop where
  parse : parseTable table = some objects
  nodup : (objects.map AmlObject.name).Nodup

/-- The definition named by the update shows the new bytes and the others are as before. -/
structure UpdatedLocally (objects objects' : List AmlObject) (nameSignature : BitVec 32)
    (buffer : List Byte) : Prop where
  names : objects'.map AmlObject.name = objects.map AmlObject.name
  updated : ∃ value, valueOf objects' nameSignature = some value ∧ value.Shows buffer
  kept : ∀ other ≠ nameSignature, valueOf objects' other = valueOf objects other

/-- Nothing in front of the definition looks like it, and where there is no definition,
nothing looks like one. -/
structure FirstMatch (table : List Byte) (objects : List AmlObject) (nameSignature : BitVec 32) :
    Prop where
  before : ∀ pre o post, objects = pre ++ o :: post → o.name.signature = nameSignature →
    ∀ i, i < (amlObjectCode.encodeAll pre).length →
      isNameAt table nameSignature (acpiHeaderSize + i) = false
  absent : (∀ o ∈ objects, o.name.signature ≠ nameSignature) →
    ∀ i, i + 5 < (amlObjectCode.encodeAll objects).length →
      isNameAt table nameSignature (acpiHeaderSize + i) = false

/-- The new bytes replace all of the old value: a string that fits is as long as the old
one, an integer has no set bits above the new bytes. -/
def AmlValue.CoveredBy (buffer : List Byte) : AmlValue → Prop
  | .string chars _ => buffer.length ≤ chars.length + 1 →
      (buffer.takeWhile isAmlChar).length = chars.length
  | .integer _ value _ => value < 256 ^ buffer.length

/-- The condition on one update: it is malformed, or it is aimed at the first match and
covers the old value. -/
def UpdateFits (table : List Byte) (update : AslUpdate) : Prop :=
  ∀ buffer ∈ update.buffer, buffer ≠ [] → ∀ objects, parseTable table = some objects →
    FirstMatch table objects update.nameSignature ∧
      ∀ o ∈ objects, o.name.signature = update.nameSignature → o.value.CoveredBy buffer

def UpdatesFit : List Byte → List AslUpdate → Prop
  | _, [] => True
  | table, update :: updates =>
    UpdateFits table update ∧ UpdatesFit (aslUpdateName table update).2 updates

theorem NameSegment.signature_injective : Function.Injective NameSegment.signature := by
  intro m n h
  have hlt (name : NameSegment) : littleEndian name.bytes < 2 ^ 32 := by
    have := littleEndian_lt name.bytes
    rwa [name.length_bytes] at this
  have hv : littleEndian m.bytes = littleEndian n.bytes := by
    have := congrArg BitVec.toNat h
    rwa [NameSegment.signature, NameSegment.signature, BitVec.toNat_ofNat, BitVec.toNat_ofNat,
      Nat.mod_eq_of_lt (hlt m), Nat.mod_eq_of_lt (hlt n)] at this
  have hm := toLittleEndian_littleEndian m.bytes
  have hn := toLittleEndian_littleEndian n.bytes
  rw [m.length_bytes] at hm
  rw [n.length_bytes] at hn
  have hbytes : m.bytes = n.bytes := by rw [← hm, ← hn, hv]
  cases m
  cases n
  cases hbytes
  rfl

/-- A header of the right length and kind, the definitions, and the memory behind them. -/
structure TableImage (table header : List Byte) (objects : List AmlObject) (rest : List Byte) :
    Prop where
  table_eq : table = header ++ (amlObjectCode.encodeAll objects ++ rest)
  headerSize : header.length = acpiHeaderSize
  block : IsDefinitionBlock header
  length_eq : tableLength header = acpiHeaderSize + (amlObjectCode.encodeAll objects).length

theorem slice_append_left {l m : List Byte} {off n : ℕ} (h : off + n ≤ l.length) :
    slice (l ++ m) off n = slice l off n := by
  rw [slice, slice, List.drop_append_of_le_length (by omega),
    List.take_append_of_le_length (by rw [List.length_drop]; omega)]

namespace TableImage

variable {table header rest : List Byte} {objects : List AmlObject}

theorem tableLength_eq (h : TableImage table header objects rest) :
    tableLength table = acpiHeaderSize + (amlObjectCode.encodeAll objects).length := by
  have hh := h.headerSize
  rw [← h.length_eq, h.table_eq, tableLength, slice_append_left (by rw [hh]; decide), tableLength]

theorem isDefinitionBlock (h : TableImage table header objects rest) :
    IsDefinitionBlock table := by
  have hh := h.headerSize
  have hs : tableSignature table = tableSignature header := by
    rw [h.table_eq, tableSignature, slice_append_left (by rw [hh]; decide), tableSignature]
  rw [IsDefinitionBlock, hs]
  exact h.block

theorem parse (h : TableImage table header objects rest) : parseTable table = some objects := by
  have hlen := h.tableLength_eq
  have hsize : tableLength table ≤ table.length := by
    rw [hlen, h.table_eq, List.length_append, List.length_append, h.headerSize]
    omega
  rw [parseTable, if_pos ⟨h.isDefinitionBlock, by omega, hsize⟩,
    amlObjectCode.parseAll_eq_some_iff, hlen, Nat.add_sub_cancel_left, slice, h.table_eq,
    ← h.headerSize, List.drop_left, List.take_left]

end TableImage

theorem parseTable_eq_some_iff {table : List Byte} {objects : List AmlObject} :
    parseTable table = some objects ↔ ∃ header rest, TableImage table header objects rest := by
  constructor
  · intro h
    unfold parseTable at h
    split_ifs at h with hb
    obtain ⟨hblock, hmin, hmax⟩ := hb
    rw [amlObjectCode.parseAll_eq_some_iff] at h
    have hhead : (table.take acpiHeaderSize).length = acpiHeaderSize := by
      rw [List.length_take]
      omega
    have hkept {off n : ℕ} (hle : off + n ≤ acpiHeaderSize) :
        slice (table.take acpiHeaderSize) off n = slice table off n := by
      conv_rhs => rw [← List.take_append_drop acpiHeaderSize table]
      rw [slice_append_left (by omega)]
    refine ⟨table.take acpiHeaderSize, table.drop (tableLength table), ?_, hhead, ?_, ?_⟩
    · rw [← h, slice]
      have hd : table.drop (tableLength table) =
          (table.drop acpiHeaderSize).drop (tableLength table - acpiHeaderSize) := by
        rw [List.drop_drop]
        congr 1
        omega
      rw [hd, List.take_append_drop, List.take_append_drop]
    · rwa [IsDefinitionBlock, tableSignature, hkept (by decide), ← tableSignature]
    · rw [← h, tableLength, hkept (by decide), ← tableLength, length_slice]
      omega
  · intro h
    obtain ⟨header, rest, h⟩ := h
    exact h.parse

end ProjectMu
