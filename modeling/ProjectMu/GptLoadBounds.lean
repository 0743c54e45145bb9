import ProjectMu.AccessLog
import ProjectMu.GptLoad

/-!
# The loader stays inside its buffers

The loader with the divisions it evaluates and the bytes it touches. The entry size is a divisor
only behind the check that it is not too small, and a block that is as large as a header is all
that the copy of the header needs.
-/

namespace ProjectMu.GptBounds

open AccessLog ByteCodec ByteRange

/-- A division, bytes of a buffer of some size, or a character of a partition name. -/
inductive GptAccess
  | divide (divisor : ℕ)
  | bytes (size offset length : ℕ)
  | character (index : ℕ)
  deriving DecidableEq, Repr

def GptAccess.InBounds : GptAccess → Prop
  | divide divisor => divisor ≠ 0
  | bytes size offset length => offset + length ≤ size
  | character index => index < gptMaxNameLength

abbrev Checked (α : Type) := Attempt EfiError GptAccess α

open Attempt GptAccess

def divide (dividend divisor : ℕ) : Logged GptAccess ℕ :=
  access (.divide divisor) (dividend / divisor)

section Load

variable (crc32 : List Byte → BitVec 32)

def gptLbaToOffset (blockIo : BlockIo) (lba : BitVec 64) : Checked (BitVec 64) :=
  if blockIo.blockSize = 0 then throw .invalidParameter
  else do
    let maxLba ← lift (divide (2 ^ 64 - 1) blockIo.blockSize.toNat)
    if maxLba < lba.toNat then throw .badBufferSize
    else pure (lba * blockIo.blockSize.zeroExtend 64)

/-- The checksum is that of the copied header, over as many bytes as the header says. -/
def validateGptHeader (header : EfiPartitionTableHeader) (expectedLba : BitVec 64)
    (blockSize : ℕ) : Checked Unit :=
  if header.header.signature ≠ efiPtabHeaderId then throw .notFound
  else if header.header.headerSize.toNat ≠ headerCodec.size ∨
      blockSize < header.header.headerSize.toNat then throw .compromisedData
  else if header.myLBA ≠ expectedLba then throw .compromisedData
  else do
    let tempHeader := header.setCrc32 0
    touch (.bytes headerCodec.size 0 header.header.headerSize.toNat)
    let crc ← liftExcept (calculateCrc32 crc32
      ((headerCodec.encode tempHeader).take header.header.headerSize.toNat))
    if crc ≠ header.header.crc32 then throw .compromisedData else pure ()

/-- The block is read into its buffer, and the header is copied out of it. -/
def readGptHeader (store : Store Byte) (allocated : Bool) (blockIo : BlockIo)
    (lba : BitVec 64) : Checked EfiPartitionTableHeader :=
  if allocated = false then throw .outOfResources
  else do
    let offset ← gptLbaToOffset blockIo lba
    touch (.bytes blockIo.blockSize.toNat 0 blockIo.blockSize.toNat)
    let buffer ← liftExcept (readDisk store blockIo offset blockIo.blockSize.toNat)
    touch (.bytes blockIo.blockSize.toNat 0 headerCodec.size)
    let header := headerCodec.decode (slice buffer 0 headerCodec.size)
    validateGptHeader crc32 header lba blockIo.blockSize.toNat
    pure header

def validateGptEntryArray (header : EfiPartitionTableHeader) (entries : List Byte)
    (entryArraySize : ℕ) : Checked Unit := do
  touch (.bytes entries.length 0 entryArraySize)
  let crc ← liftExcept (calculateCrc32 crc32 entries)
  if crc ≠ header.partitionEntryArrayCRC32 then throw .compromisedData else pure ()

def readGptEntryArray (store : Store Byte) (allocated : Bool) (blockIo : BlockIo)
    (header : EfiPartitionTableHeader) (entryArraySize : ℕ) : Checked (List Byte) :=
  if allocated = false then throw .outOfResources
  else do
    let offset ← gptLbaToOffset blockIo header.partitionEntryLBA
    touch (.bytes entryArraySize 0 entryArraySize)
    let entries ← liftExcept (readDisk store blockIo offset entryArraySize)
    validateGptEntryArray crc32 header entries entryArraySize
    pure entries

/-- The four checks of the primary header, each only evaluated if the ones before it passed. -/
def hasBadDetails (header : EfiPartitionTableHeader) (blockIo : BlockIo) : Logged GptAccess Bool :=
  .or (pure (header.numberOfPartitionEntries.toNat = 0)) <|
  .or (pure (header.sizeOfPartitionEntry.toNat < entryCodec.size)) <|
  .or (do
    let maxEntries ← divide gptMaxEntryArraySize header.sizeOfPartitionEntry.toNat
    pure (decide (maxEntries < header.numberOfPartitionEntries.toNat))) <|
  pure (blockIo.lastBlock.toNat < header.alternateLBA.toNat)

/-- `AllocateCopyPool` reads the array it copies, if it gets memory. -/
def allocateCopyPool (allocated : Bool) (size : ℕ) (entries : List Byte) : Checked Bool :=
  if allocated = false then pure false
  else do
    touch (.bytes entries.length 0 size)
    pure true

-- The steps are those of `loadGptTables`, which makes the disk at the end of them.
def loadGptTables (store : Store Byte) (handle : Handle) (blockIo : BlockIo) :
    Checked GptDisk := do
  let primaryHeader ←
    readGptHeader crc32 store (handle.allocates .primaryBlock) blockIo primaryPartHeaderLba
  let bad ← lift (hasBadDetails primaryHeader blockIo)
  if bad then throw .compromisedData
  else
    let entryArraySize :=
      primaryHeader.numberOfPartitionEntries * primaryHeader.sizeOfPartitionEntry
    if entryArraySize = 0 then throw .compromisedData
    else do
      let backupHeader ← readGptHeader crc32 store (handle.allocates .backupBlock) blockIo
        primaryHeader.alternateLBA
      if backupHeader.numberOfPartitionEntries ≠ primaryHeader.numberOfPartitionEntries ∨
          backupHeader.sizeOfPartitionEntry ≠ primaryHeader.sizeOfPartitionEntry then
        throw .compromisedData
      else do
        let primaryEntries ← readGptEntryArray crc32 store (handle.allocates .primaryEntries)
          blockIo primaryHeader entryArraySize.toNat
        let backupEntries ← readGptEntryArray crc32 store (handle.allocates .backupEntries)
          blockIo backupHeader entryArraySize.toNat
        let _ ← allocateCopyPool (handle.allocates .originalPrimaryEntries)
          entryArraySize.toNat primaryEntries
        let _ ← allocateCopyPool (handle.allocates .originalBackupEntries)
          entryArraySize.toNat backupEntries
        liftExcept (ProjectMu.loadGptTables crc32 store handle blockIo)

def loadGptDisk (devices : ℕ → Store Byte) (handle : Handle) : Checked GptDisk :=
  match handle.blockIo with
  | .error e => throw e
  | .ok none => throw .notFound
  | .ok (some blockIo) =>
    if blockIo.logicalPartition = true ∨ blockIo.mediaPresent = false then throw .notFound
    else if handle.diskIo.isSome then throw .notFound
    else loadGptTables crc32 (devices blockIo.device) handle blockIo

variable {crc32} {store : Store Byte} {allocated : Bool} {blockIo : BlockIo} {lba : BitVec 64}
  {header : EfiPartitionTableHeader} {handle : Handle} {size : ℕ}

@[simp] theorem result_gptLbaToOffset :
    (gptLbaToOffset blockIo lba).result = ProjectMu.gptLbaToOffset blockIo lba := by
  simp only [gptLbaToOffset, divide, result_ite, result_bind, result_lift, result_throw,
    result_pure, value_access]
  rfl

@[simp] theorem result_validateGptHeader :
    (validateGptHeader crc32 header lba size).result =
      ProjectMu.validateGptHeader crc32 header lba size := by
  simp only [validateGptHeader, result_ite, result_bind, result_throw, result_touch, result_pure,
    result_liftExcept]
  rfl

@[simp] theorem result_readGptHeader :
    (readGptHeader crc32 store allocated blockIo lba).result =
      ProjectMu.readGptHeader crc32 store allocated blockIo lba := by
  simp only [readGptHeader, result_ite, result_bind, result_throw, result_touch, result_pure,
    result_liftExcept, result_gptLbaToOffset, result_validateGptHeader]
  rfl

@[simp] theorem result_readGptEntryArray :
    (readGptEntryArray crc32 store allocated blockIo header size).result =
      ProjectMu.readGptEntryArray crc32 store allocated blockIo header size := by
  simp only [readGptEntryArray, validateGptEntryArray, result_ite, result_bind, result_throw,
    result_touch, result_pure, result_liftExcept, result_gptLbaToOffset]
  rfl

@[simp] theorem value_hasBadDetails : (hasBadDetails header blockIo).value = true ↔
    header.numberOfPartitionEntries.toNat = 0 ∨
      header.sizeOfPartitionEntry.toNat < entryCodec.size ∨
      gptMaxEntryArraySize / header.sizeOfPartitionEntry.toNat <
        header.numberOfPartitionEntries.toNat ∨
      blockIo.lastBlock.toNat < header.alternateLBA.toNat := by
  simp only [hasBadDetails, Logged.value_or, value_bind, value_pure, Bool.or_eq_true,
    decide_eq_true_eq]
  rfl

@[simp] theorem result_allocateCopyPool (entries : List Byte) :
    (allocateCopyPool allocated size entries).result = .ok allocated := by
  cases allocated <;> rfl

section EntryArrays

variable {primaryHeader backupHeader : EfiPartitionTableHeader} {hn hs hle} {e : EfiError}

theorem loadGptEntryArrays_of_primary
    (h : ProjectMu.readGptEntryArray crc32 store (handle.allocates .primaryEntries) blockIo
      primaryHeader (primaryHeader.numberOfPartitionEntries *
        primaryHeader.sizeOfPartitionEntry).toNat = .error e) :
    loadGptEntryArrays crc32 store handle blockIo primaryHeader backupHeader hn hs hle =
      .error e := by
  rw [loadGptEntryArrays]
  split
  next e' he =>
    cases he.symm.trans h
    rfl
  next entries he => cases he.symm.trans h

theorem loadGptEntryArrays_of_backup {primaryEntries : List Byte}
    (hp : ProjectMu.readGptEntryArray crc32 store (handle.allocates .primaryEntries) blockIo
      primaryHeader (primaryHeader.numberOfPartitionEntries *
        primaryHeader.sizeOfPartitionEntry).toNat = .ok primaryEntries)
    (hb : ProjectMu.readGptEntryArray crc32 store (handle.allocates .backupEntries) blockIo
      backupHeader (primaryHeader.numberOfPartitionEntries *
        primaryHeader.sizeOfPartitionEntry).toNat = .error e) :
    loadGptEntryArrays crc32 store handle blockIo primaryHeader backupHeader hn hs hle =
      .error e := by
  rw [loadGptEntryArrays]
  split
  next e' he => cases he.symm.trans hp
  next entries he =>
    split
    next e' he' =>
      cases he'.symm.trans hb
      rfl
    next entries' he' => cases he'.symm.trans hb

/-- Reading the arrays first changes nothing about the loader of the arrays. -/
theorem bind_loadGptEntryArrays :
    ((ProjectMu.readGptEntryArray crc32 store (handle.allocates .primaryEntries) blockIo
      primaryHeader (primaryHeader.numberOfPartitionEntries *
        primaryHeader.sizeOfPartitionEntry).toNat).bind fun _ =>
      (ProjectMu.readGptEntryArray crc32 store (handle.allocates .backupEntries) blockIo
        backupHeader (primaryHeader.numberOfPartitionEntries *
          primaryHeader.sizeOfPartitionEntry).toNat).bind fun _ =>
      loadGptEntryArrays crc32 store handle blockIo primaryHeader backupHeader hn hs hle) =
    loadGptEntryArrays crc32 store handle blockIo primaryHeader backupHeader hn hs hle := by
  cases hp : ProjectMu.readGptEntryArray crc32 store (handle.allocates .primaryEntries) blockIo
      primaryHeader (primaryHeader.numberOfPartitionEntries *
        primaryHeader.sizeOfPartitionEntry).toNat with
  | error e => exact (loadGptEntryArrays_of_primary hp).symm
  | ok primaryEntries =>
    cases hb : ProjectMu.readGptEntryArray crc32 store (handle.allocates .backupEntries) blockIo
        backupHeader (primaryHeader.numberOfPartitionEntries *
          primaryHeader.sizeOfPartitionEntry).toNat with
    | error e => exact (loadGptEntryArrays_of_backup hp hb).symm
    | ok backupEntries => rfl

end EntryArrays

/-- The steps fail as the loader does, and end with its disk. -/
theorem result_loadGptTables : (loadGptTables crc32 store handle blockIo).result =
    ProjectMu.loadGptTables crc32 store handle blockIo := by
  simp only [loadGptTables, result_bind, result_ite, result_throw, result_lift, result_liftExcept,
    result_readGptHeader, result_readGptEntryArray, result_allocateCopyPool]
  generalize hload : ProjectMu.loadGptTables crc32 store handle blockIo = load
  rw [ProjectMu.loadGptTables] at hload
  cases hprimary : ProjectMu.readGptHeader crc32 store (handle.allocates .primaryBlock) blockIo
      primaryPartHeaderLba with
  | error e =>
    rw [hprimary] at hload
    exact hload
  | ok primaryHeader =>
    rw [hprimary] at hload
    simp only [Except.bind] at hload ⊢
    split_ifs at hload with hbad hzero
    · rw [if_pos (value_hasBadDetails.mpr hbad)]
      exact hload
    · rw [if_neg (mt value_hasBadDetails.mp hbad), if_pos hzero]
      exact hload
    · rw [if_neg (mt value_hasBadDetails.mp hbad), if_neg hzero]
      cases hbackup : ProjectMu.readGptHeader crc32 store (handle.allocates .backupBlock) blockIo
          primaryHeader.alternateLBA with
      | error e =>
        rw [hbackup] at hload
        exact hload
      | ok backupHeader =>
        rw [hbackup] at hload
        dsimp only at hload ⊢
        split_ifs at hload with hdiffer
        · rw [if_pos hdiffer]
          exact hload
        · rw [if_neg hdiffer, ← hload]
          exact bind_loadGptEntryArrays

@[simp] theorem result_loadGptDisk {devices : ℕ → Store Byte} :
    (loadGptDisk crc32 devices handle).result = ProjectMu.loadGptDisk crc32 devices handle := by
  rw [loadGptDisk, ProjectMu.loadGptDisk]
  cases handle.blockIo with
  | error e => rfl
  | ok blockIo =>
    cases blockIo with
    | none => rfl
    | some blockIo =>
      dsimp only
      rw [result_ite, result_ite, result_loadGptTables]
      rfl

theorem within_gptLbaToOffset : (gptLbaToOffset blockIo lba).Within InBounds := by
  have hzero : blockIo.blockSize ≠ 0 → blockIo.blockSize.toNat ≠ 0 :=
    mt fun h => BitVec.toNat_inj.mp h
  rw [gptLbaToOffset, within_ite]
  simpa [within_bind, within_ite, divide, InBounds] using hzero

/-- The checksum is only computed over a header of the right size. -/
theorem within_validateGptHeader : (validateGptHeader crc32 header lba size).Within InBounds := by
  rw [validateGptHeader, within_ite]
  refine ⟨fun _ => within_throw _, fun _ => within_ite.mpr ⟨fun _ => within_throw _, ?_⟩⟩
  intro hsize
  rw [not_or, not_not] at hsize
  simp [within_ite, within_bind, InBounds, hsize.1]

theorem within_readGptHeader (h : headerCodec.size ≤ blockIo.blockSize.toNat) :
    (readGptHeader crc32 store allocated blockIo lba).Within InBounds := by
  rw [readGptHeader, within_ite]
  simp [within_bind, InBounds, within_gptLbaToOffset, within_validateGptHeader, h]

theorem length_readDisk {offset : BitVec 64} {bytes : List Byte}
    (h : readDisk store blockIo offset size = .ok bytes) : bytes.length = size := by
  rw [(readDisk_eq_ok.mp h).2, Store.length_read]

theorem within_readGptEntryArray :
    (readGptEntryArray crc32 store allocated blockIo header size).Within InBounds := by
  have hfit (offset : BitVec 64) (entries : List Byte)
      (h : readDisk store blockIo offset size = .ok entries) :
      (validateGptEntryArray crc32 header entries size).Within InBounds := by
    simp [validateGptEntryArray, within_bind, within_ite, InBounds, length_readDisk h]
  rw [readGptEntryArray, within_ite]
  refine ⟨fun _ => within_throw _, fun _ => within_bind.mpr ⟨within_gptLbaToOffset, ?_⟩⟩
  intro offset _
  simp only [within_bind, within_touch, within_liftExcept, within_pure, result_liftExcept, InBounds,
    Nat.zero_add, le_refl, true_and, implies_true, and_true]
  exact fun _ _ => hfit offset

/-- The entry size is a divisor only behind the check that it is not too small. -/
theorem within_hasBadDetails : (hasBadDetails header blockIo).Within InBounds := by
  rw [hasBadDetails, Logged.within_or, Logged.within_or, Logged.within_or]
  refine ⟨Logged.within_pure _, fun _ => ⟨Logged.within_pure _, fun hsize => ⟨?_, ?_⟩⟩⟩
  · have hpos : header.sizeOfPartitionEntry.toNat ≠ 0 := by
      intro hzero
      simp [hzero, size_entryCodec] at hsize
    exact Logged.within_bind.mpr ⟨Logged.within_access.mpr hpos, Logged.within_pure _⟩
  · exact fun _ => Logged.within_pure _

theorem within_allocateCopyPool {entries : List Byte} (h : size ≤ entries.length) :
    (allocateCopyPool allocated size entries).Within InBounds := by
  rw [allocateCopyPool, within_ite]
  simp [within_bind, InBounds, h]

theorem within_loadGptTables (h : headerCodec.size ≤ blockIo.blockSize.toNat) :
    (loadGptTables crc32 store handle blockIo).Within InBounds := by
  rw [loadGptTables, within_bind]
  refine ⟨within_readGptHeader h, fun primaryHeader _ => ?_⟩
  rw [within_bind, within_lift]
  refine ⟨within_hasBadDetails, fun bad _ => ?_⟩
  rw [within_ite, within_ite]
  refine ⟨fun _ => within_throw _, fun _ => ⟨fun _ => within_throw _, fun _ => ?_⟩⟩
  rw [within_bind]
  refine ⟨within_readGptHeader h, fun backupHeader _ => ?_⟩
  rw [within_ite]
  refine ⟨fun _ => within_throw _, fun _ => ?_⟩
  rw [within_bind]
  refine ⟨within_readGptEntryArray, fun primaryEntries hprimary => ?_⟩
  rw [within_bind]
  refine ⟨within_readGptEntryArray, fun backupEntries hbackup => ?_⟩
  rw [result_readGptEntryArray] at hprimary hbackup
  have hcopy := length_readGptEntryArray crc32 hprimary
  have hcopy' := length_readGptEntryArray crc32 hbackup
  rw [within_bind, within_bind]
  exact ⟨within_allocateCopyPool hcopy.ge, fun _ _ =>
    ⟨within_allocateCopyPool hcopy'.ge, fun _ _ => within_liftExcept _⟩⟩

theorem within_loadGptDisk {devices : ℕ → Store Byte}
    (h : ∀ blockIo, handle.blockIo = .ok (some blockIo) →
      headerCodec.size ≤ blockIo.blockSize.toNat) :
    (loadGptDisk crc32 devices handle).Within InBounds := by
  rw [loadGptDisk]
  split
  · exact within_throw _
  · exact within_throw _
  next blockIo hblockIo =>
    rw [within_ite, within_ite]
    exact ⟨fun _ => within_throw _, fun _ =>
      ⟨fun _ => within_throw _, fun _ => within_loadGptTables (h blockIo hblockIo)⟩⟩

end Load

end ProjectMu.GptBounds
