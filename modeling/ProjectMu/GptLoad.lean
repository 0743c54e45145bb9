import ProjectMu.GptFormat

/-!
# Loading the partition tables of every storage

`loadGptDisk` reads and validates both headers and both entry arrays of one handle.
A `GptDisk` carries the geometry the loader has checked: the four entry arrays have
`entryArraySize` bytes, which is the number of entries times their size, and every
entry holds at least the 128 bytes of an `EfiPartitionEntry`.
-/

namespace ProjectMu

open ByteCodec ByteRange

def efiPtabHeaderId : BitVec 64 := 0x5452415020494645
def primaryPartHeaderLba : BitVec 64 := 1
def gptMaxEntryArraySize : ℕ := 0x100000

/-- The block and disk protocols of one storage. `readDisk` is the status of a read by
offset and size; a read beyond the last block is refused. -/
structure BlockIo where
  device : ℕ
  logicalPartition : Bool
  mediaPresent : Bool
  blockSize : BitVec 32
  lastBlock : BitVec 64
  readDisk : ℕ → ℕ → Option EfiError
  readDisk_inside : ∀ off n, readDisk off n = none →
    off + n ≤ (lastBlock.toNat + 1) * blockSize.toNat

inductive LoadBuffer
  | primaryBlock
  | backupBlock
  | primaryEntries
  | backupEntries
  | originalPrimaryEntries
  | originalBackupEntries
  deriving DecidableEq, Repr

/-- What one block I/O handle answers: its two protocols (no interface, or one without
media, is `none`) and the pool allocations made while its tables are loaded. -/
structure Handle where
  blockIo : Except EfiError (Option BlockIo)
  diskIo : Option EfiError
  allocates : LoadBuffer → Bool

@[ext] structure GptDisk where
  blockIo : BlockIo
  primaryHeader : EfiPartitionTableHeader
  backupHeader : EfiPartitionTableHeader
  originalPrimaryHeader : EfiPartitionTableHeader
  originalBackupHeader : EfiPartitionTableHeader
  primaryEntries : List Byte
  backupEntries : List Byte
  originalPrimaryEntries : List Byte
  originalBackupEntries : List Byte
  entryArraySize : ℕ
  modified : Bool
  entries_pos : 0 < primaryHeader.numberOfPartitionEntries.toNat
  entrySize_le : 128 ≤ primaryHeader.sizeOfPartitionEntry.toNat
  entryArraySize_eq : entryArraySize = primaryHeader.numberOfPartitionEntries.toNat *
    primaryHeader.sizeOfPartitionEntry.toNat
  length_primaryEntries : primaryEntries.length = entryArraySize
  length_backupEntries : backupEntries.length = entryArraySize
  length_originalPrimaryEntries : originalPrimaryEntries.length = entryArraySize
  length_originalBackupEntries : originalBackupEntries.length = entryArraySize

variable (crc32 : List Byte → BitVec 32)

def gptLbaToOffset (blockIo : BlockIo) (lba : BitVec 64) : Except EfiError (BitVec 64) :=
  if blockIo.blockSize = 0 then .error .invalidParameter
  else if (2 ^ 64 - 1) / blockIo.blockSize.toNat < lba.toNat then .error .badBufferSize
  else .ok (lba * blockIo.blockSize.zeroExtend 64)

/-- The boot service refuses an empty buffer; its value is the parameter `crc32`. -/
def calculateCrc32 (data : List Byte) : Except EfiError (BitVec 32) :=
  if data = [] then .error .invalidParameter else .ok (crc32 data)

def validateGptHeader (header : EfiPartitionTableHeader) (expectedLba : BitVec 64)
    (blockSize : ℕ) : Except EfiError Unit :=
  if header.header.signature ≠ efiPtabHeaderId then .error .notFound
  else if header.header.headerSize.toNat ≠ headerCodec.size ∨
      blockSize < header.header.headerSize.toNat then .error .compromisedData
  else if header.myLBA ≠ expectedLba then .error .compromisedData
  else
    let tempHeader := header.setCrc32 0
    (calculateCrc32 crc32
      ((headerCodec.encode tempHeader).take header.header.headerSize.toNat)).bind (fun crc =>
        if crc ≠ header.header.crc32 then .error .compromisedData else .ok ())

/-- The bytes `DiskIo->ReadDisk` delivers, or its status. -/
def readDisk (store : Store Byte) (blockIo : BlockIo) (offset : BitVec 64) (size : ℕ) :
    Except EfiError (List Byte) :=
  match blockIo.readDisk offset.toNat size with
  | some e => .error e
  | none => .ok (store.read offset.toNat size)

-- A block shorter than the packed header is read short here; validation then refuses it.
def readGptHeader (store : Store Byte) (allocated : Bool) (blockIo : BlockIo)
    (lba : BitVec 64) : Except EfiError EfiPartitionTableHeader :=
  if allocated = false then .error .outOfResources
  else (gptLbaToOffset blockIo lba).bind (fun offset =>
    (readDisk store blockIo offset blockIo.blockSize.toNat).bind (fun buffer =>
      let header := headerCodec.decode (slice buffer 0 headerCodec.size)
      (validateGptHeader crc32 header lba blockIo.blockSize.toNat).bind (fun _ => .ok header)))

def validateGptEntryArray (header : EfiPartitionTableHeader) (entries : List Byte) :
    Except EfiError Unit :=
  (calculateCrc32 crc32 entries).bind (fun crc =>
    if crc ≠ header.partitionEntryArrayCRC32 then .error .compromisedData else .ok ())

def readGptEntryArray (store : Store Byte) (allocated : Bool) (blockIo : BlockIo)
    (header : EfiPartitionTableHeader) (entryArraySize : ℕ) : Except EfiError (List Byte) :=
  if allocated = false then .error .outOfResources
  else (gptLbaToOffset blockIo header.partitionEntryLBA).bind (fun offset =>
    (readDisk store blockIo offset entryArraySize).bind (fun entries =>
      (validateGptEntryArray crc32 header entries).bind (fun _ => .ok entries)))

theorem readDisk_eq_ok {store : Store Byte} {blockIo : BlockIo} {offset : BitVec 64} {size : ℕ}
    {bytes : List Byte} : readDisk store blockIo offset size = .ok bytes ↔
      blockIo.readDisk offset.toNat size = none ∧ bytes = store.read offset.toNat size := by
  unfold readDisk
  cases blockIo.readDisk offset.toNat size with
  | some e => simp
  | none => simp [eq_comm]

theorem readGptEntryArray_eq_ok {store : Store Byte} {allocated : Bool} {blockIo : BlockIo}
    {header : EfiPartitionTableHeader} {size : ℕ} {bytes : List Byte} :
    readGptEntryArray crc32 store allocated blockIo header size = .ok bytes ↔
      allocated = true ∧ ∃ offset, gptLbaToOffset blockIo header.partitionEntryLBA = .ok offset ∧
        blockIo.readDisk offset.toNat size = none ∧ bytes = store.read offset.toNat size ∧
        validateGptEntryArray crc32 header bytes = .ok () := by
  unfold readGptEntryArray
  cases allocated with
  | false => simp
  | true =>
    simp only [Bool.true_eq_false, if_false, true_and, except_bind_eq_ok, readDisk_eq_ok]
    constructor
    · rintro ⟨offset, ho, _, ⟨hr, rfl⟩, _, hv, hb⟩
      cases hb
      exact ⟨offset, ho, hr, rfl, hv⟩
    · rintro ⟨offset, ho, hr, rfl, hv⟩
      exact ⟨offset, ho, _, ⟨hr, rfl⟩, (), hv, rfl⟩

theorem length_readGptEntryArray {store : Store Byte} {allocated : Bool} {blockIo : BlockIo}
    {header : EfiPartitionTableHeader} {size : ℕ} {bytes : List Byte}
    (h : readGptEntryArray crc32 store allocated blockIo header size = .ok bytes) :
    bytes.length = size := by
  obtain ⟨_, offset, _, _, rfl, _⟩ := (readGptEntryArray_eq_ok crc32).mp h
  exact Store.length_read store offset.toNat size

/-- Within the size limit the 32-bit product of the entry count and size is exact. -/
theorem entryArraySize_toNat {n s : BitVec 32} (hs : 128 ≤ s.toNat)
    (hn : n.toNat ≤ gptMaxEntryArraySize / s.toNat) : (n * s).toNat = n.toNat * s.toNat := by
  have hle : n.toNat * s.toNat ≤ gptMaxEntryArraySize :=
    (Nat.le_div_iff_mul_le (by omega)).mp hn
  rw [BitVec.toNat_mul, Nat.mod_eq_of_lt]
  exact hle.trans_lt (by norm_num [gptMaxEntryArraySize])

/-- The two entry arrays and their copies for a possible rollback. -/
def loadGptEntryArrays (store : Store Byte) (handle : Handle) (blockIo : BlockIo)
    (primaryHeader backupHeader : EfiPartitionTableHeader)
    (hn : 0 < primaryHeader.numberOfPartitionEntries.toNat)
    (hs : 128 ≤ primaryHeader.sizeOfPartitionEntry.toNat)
    (hle : primaryHeader.numberOfPartitionEntries.toNat ≤
      gptMaxEntryArraySize / primaryHeader.sizeOfPartitionEntry.toNat) : Except EfiError GptDisk :=
  let entryArraySize :=
    (primaryHeader.numberOfPartitionEntries * primaryHeader.sizeOfPartitionEntry).toNat
  match hp : readGptEntryArray crc32 store (handle.allocates .primaryEntries) blockIo
      primaryHeader entryArraySize with
  | .error e => .error e
  | .ok primaryEntries =>
    match hb : readGptEntryArray crc32 store (handle.allocates .backupEntries) blockIo
        backupHeader entryArraySize with
    | .error e => .error e
    | .ok backupEntries =>
      if handle.allocates .originalPrimaryEntries = false ∨
          handle.allocates .originalBackupEntries = false then .error .outOfResources
      else .ok {
        blockIo, primaryHeader, backupHeader, primaryEntries, backupEntries, entryArraySize
        originalPrimaryHeader := primaryHeader
        originalBackupHeader := backupHeader
        originalPrimaryEntries := primaryEntries
        originalBackupEntries := backupEntries
        modified := false
        entries_pos := hn
        entrySize_le := hs
        entryArraySize_eq := entryArraySize_toNat hs hle
        length_primaryEntries := length_readGptEntryArray crc32 hp
        length_backupEntries := length_readGptEntryArray crc32 hb
        length_originalPrimaryEntries := length_readGptEntryArray crc32 hp
        length_originalBackupEntries := length_readGptEntryArray crc32 hb }

/-- Both headers and both entry arrays of a storage whose protocols are usable. -/
def loadGptTables (store : Store Byte) (handle : Handle) (blockIo : BlockIo) :
    Except EfiError GptDisk :=
  (readGptHeader crc32 store (handle.allocates .primaryBlock) blockIo primaryPartHeaderLba).bind
    (fun primaryHeader =>
      if hbad : primaryHeader.numberOfPartitionEntries.toNat = 0 ∨
          primaryHeader.sizeOfPartitionEntry.toNat < entryCodec.size ∨
          gptMaxEntryArraySize / primaryHeader.sizeOfPartitionEntry.toNat <
            primaryHeader.numberOfPartitionEntries.toNat ∨
          blockIo.lastBlock.toNat < primaryHeader.alternateLBA.toNat then .error .compromisedData
      else if primaryHeader.numberOfPartitionEntries * primaryHeader.sizeOfPartitionEntry = 0 then
        .error .compromisedData
      else (readGptHeader crc32 store (handle.allocates .backupBlock) blockIo
          primaryHeader.alternateLBA).bind (fun backupHeader =>
        if backupHeader.numberOfPartitionEntries ≠ primaryHeader.numberOfPartitionEntries ∨
            backupHeader.sizeOfPartitionEntry ≠ primaryHeader.sizeOfPartitionEntry then
          .error .compromisedData
        else loadGptEntryArrays crc32 store handle blockIo primaryHeader backupHeader
          (by omega) (by have := size_entryCodec; omega) (by omega)))

def loadGptDisk (devices : ℕ → Store Byte) (handle : Handle) : Except EfiError GptDisk :=
  match handle.blockIo with
  | .error e => .error e
  | .ok none => .error .notFound
  | .ok (some blockIo) =>
    if blockIo.logicalPartition = true ∨ blockIo.mediaPresent = false then .error .notFound
    else if handle.diskIo.isSome then .error .notFound
    else loadGptTables crc32 (devices blockIo.device) handle blockIo

/-- The handles from one index on, with the disks already loaded. Only a memory error
ends the loop early. -/
def loadGptDisksFrom (devices : ℕ → Store Byte) (loaded : List GptDisk) :
    List Handle → Except EfiError (List GptDisk)
  | [] => .ok loaded
  | handle :: handles =>
    match loadGptDisk crc32 devices handle with
    | .ok disk => loadGptDisksFrom devices (loaded ++ [disk]) handles
    | .error .outOfResources => .error .outOfResources
    | .error _ => loadGptDisksFrom devices loaded handles

/-- `handles` is the answer of `LocateHandleBuffer`, `allocated` that of the disk array. -/
def loadGptDisks (devices : ℕ → Store Byte) (handles : Except EfiError (List Handle))
    (allocated : Bool) : Except EfiError (List GptDisk) :=
  handles.bind (fun handles =>
    if allocated = false then .error .outOfResources
    else (loadGptDisksFrom crc32 devices [] handles).bind (fun disks =>
      if disks = [] then .error .notFound else .ok disks))

end ProjectMu
